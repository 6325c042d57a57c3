import Mathlib.Data.List.Forall2
import Emend.Proofs.Placeholders

/-!
# The grammar of paths

A path is made of parts with dots in between.  A part is an index if it is a *numeral* of a
signed word of 64 bits: decimal digits, after one sign or none.  Any other part is a name, and
has to be a *word*, made of letters, digits, underscores, question marks and exclamation marks.
`Reads` says so without the reader, and the reader follows it: a text is read exactly if each
part of its trimmed form is read (`parse_eq_ok_iff`).

The parts do not overlap: a name is never of the form of an index.  A run of digits that is too
long for an index is a name and stays one, and an index is written in its shortest form, which
is read as the same index.  So the written parts of a path are read as the parts they were
written from (`parse_written`), though the text may be another one: `+07` becomes `7`.
-/

namespace Emend

namespace Text

/-- A text without blanks is its own trimmed form. -/
theorem trim_eq_self {t : Text} (h : ∀ c ∈ t, isBlankChar c = false) : t.trim = t := by
  have hself : ∀ u : Text, (∀ c ∈ u, isBlankChar c = false) → u.dropWhile isBlankChar = u := by
    intro u hu
    refine List.dropWhile_eq_self_iff.mpr fun hpos => ?_
    rw [hu _ (List.getElem_mem hpos)]
    exact Bool.false_ne_true
  have hreverse : ∀ c ∈ t.reverse, isBlankChar c = false := fun c hc =>
    h c (List.mem_reverse.mp hc)
  rw [trim, trimStart, hself t h, trimEnd, dropTail, hself _ hreverse, List.reverse_reverse]

/-! ## Numerals -/

/-- One decimal digit or more. -/
def IsDigits (t : Text) : Prop := t ≠ [] ∧ ∀ c ∈ t, '0' ≤ c ∧ c ≤ '9'

/-- Decimal digits after one sign or none, and the value they stand for. -/
inductive Numeral : Text → Int → Prop where
  | plain {t : Text} (h : IsDigits t) : Numeral t (Nat.ofDigitChars 10 t 0)
  | plus {t : Text} (h : IsDigits t) : Numeral ('+' :: t) (Nat.ofDigitChars 10 t 0)
  | minus {t : Text} (h : IsDigits t) : Numeral ('-' :: t) (-(Nat.ofDigitChars 10 t 0 : Int))

theorem isDigit_iff {c : Char} : c.isDigit = true ↔ '0' ≤ c ∧ c ≤ '9' :=
  Char.isDigit_iff_toNat

theorem readNat?_eq_some_iff {t : Text} {n : Nat} :
    readNat? 10 t = some n ↔ IsDigits t ∧ n = Nat.ofDigitChars 10 t 0 := by
  constructor
  · intro h
    have hdigits := isDigit_of_readNat? h
    have hne : t ≠ [] := by
      rintro rfl
      cases h
    rw [readNat?_of_isDigit hne hdigits] at h
    exact ⟨⟨hne, fun c hc => isDigit_iff.mp (hdigits c hc)⟩, (Option.some.inj h).symm⟩
  · rintro ⟨⟨hne, hdigits⟩, rfl⟩
    exact readNat?_of_isDigit hne fun c hc => isDigit_iff.mpr (hdigits c hc)

/-- Digits do not start with a sign, so they are read as they stand. -/
theorem readSigned?_of_isDigits {t : Text} (h : IsDigits t) :
    readSigned? t = (readNat? 10 t).map Int.ofNat := by
  rw [readSigned?]
  · rintro u rfl
    exact absurd (h.2 '+' (List.mem_cons_self ..)) (by decide)
  · rintro u rfl
    exact absurd (h.2 '-' (List.mem_cons_self ..)) (by decide)

/-- The reader accepts numerals and gives them their values. -/
theorem readSigned?_eq_some_iff {t : Text} {i : Int} : readSigned? t = some i ↔ Numeral t i := by
  constructor
  · intro h
    rw [readSigned?.eq_def] at h
    split at h
    next t =>
      obtain ⟨n, hn, rfl⟩ := Option.map_eq_some_iff.mp h
      obtain ⟨hdigits, rfl⟩ := readNat?_eq_some_iff.mp hn
      exact .plus hdigits
    next t =>
      obtain ⟨n, hn, rfl⟩ := Option.map_eq_some_iff.mp h
      obtain ⟨hdigits, rfl⟩ := readNat?_eq_some_iff.mp hn
      exact .minus hdigits
    next =>
      obtain ⟨n, hn, rfl⟩ := Option.map_eq_some_iff.mp h
      obtain ⟨hdigits, rfl⟩ := readNat?_eq_some_iff.mp hn
      exact .plain hdigits
  · intro h
    cases h with
    | plain hdigits =>
        rw [readSigned?_of_isDigits hdigits, readNat?_eq_some_iff.mpr ⟨hdigits, rfl⟩]
        rfl
    | plus hdigits =>
        rw [readSigned?, readNat?_eq_some_iff.mpr ⟨hdigits, rfl⟩]
        rfl
    | minus hdigits =>
        rw [readSigned?, readNat?_eq_some_iff.mpr ⟨hdigits, rfl⟩]
        rfl

theorem readInt64?_eq_some_iff {t : Text} {i : Int} :
    readInt64? t = some i ↔ Numeral t i ∧ minInt64 ≤ i ∧ i ≤ maxInt64 := by
  rw [readInt64?, Option.filter_eq_some_iff, readSigned?_eq_some_iff, fitsInt64, Bool.and_eq_true,
    decide_eq_true_eq, decide_eq_true_eq]

theorem isDigits_ofNat (n : Nat) : IsDigits (ofNat n) :=
  ⟨Nat.toDigits_ne_nil, fun _ hc => isDigit_iff.mp (isDigit_of_mem_ofNat hc)⟩

/-- A written integer is a numeral of its value. -/
theorem numeral_ofInt (i : Int) : Numeral (ofInt i) i := by
  have hvalue : ∀ n : Nat, Nat.ofDigitChars 10 (ofNat n) 0 = n := fun n =>
    Nat.ofDigitChars_ten_toDigits
  cases i with
  | ofNat n =>
      have h := Numeral.plain (isDigits_ofNat n)
      rwa [hvalue] at h
  | negSucc n =>
      have h := Numeral.minus (isDigits_ofNat (n + 1))
      rwa [hvalue] at h

end Text

/-! ## Parts -/

namespace Path

/-- A character of a word. -/
def IsWordChar (c : Char) : Prop :=
  'A' ≤ c ∧ c ≤ 'Z' ∨ 'a' ≤ c ∧ c ≤ 'z' ∨ '0' ≤ c ∧ c ≤ '9' ∨ c = '_' ∨ c = '?' ∨ c = '!'

/-- A part is a numeral of a signed word of 64 bits with this value. -/
def IsIndex (part : Text) (i : Int) : Prop :=
  Text.Numeral part i ∧ Text.minInt64 ≤ i ∧ i ≤ Text.maxInt64

/-- What a part is read as. -/
inductive Reads : Text → Token → Prop where
  | index {part : Text} {i : Int} (h : IsIndex part i) : Reads part (.index i)
  | name {part : Text} (hne : part ≠ []) (hword : ∀ c ∈ part, IsWordChar c)
      (hnot : ¬ ∃ i, IsIndex part i) : Reads part (.name part)

theorem isNameChar_iff {c : Char} : isNameChar c = true ↔ IsWordChar c := by
  have hupper : c.isUpper = true ↔ 'A' ≤ c ∧ c ≤ 'Z' := decide_eq_true_iff
  have hlower : c.isLower = true ↔ 'a' ≤ c ∧ c ≤ 'z' :=
    Bool.and_eq_true_iff.trans (and_congr decide_eq_true_iff decide_eq_true_iff)
  have hchar : isNameChar c =
      (c.isUpper || c.isLower || c.isDigit || c = '_' || c = '?' || c = '!') := rfl
  simp only [hchar, Bool.or_eq_true, decide_eq_true_eq, hupper, hlower, Text.isDigit_iff,
    IsWordChar, or_assoc]

theorem IsIndex.ne_nil {part : Text} {i : Int} (h : IsIndex part i) : part ≠ [] := by
  cases h.1 with
  | plain hdigits => exact hdigits.1
  | plus => exact List.cons_ne_nil _ _
  | minus => exact List.cons_ne_nil _ _

theorem Reads.ne_nil {part : Text} {token : Token} (h : Reads part token) : part ≠ [] := by
  cases h with
  | index hindex => exact hindex.ne_nil
  | name hne => exact hne

/-- A part is read as the index it stands for, and else as a name. -/
theorem readToken_eq_ok_iff {part : Text} {token : Token} :
    readToken part = .ok token ↔ Reads part token := by
  constructor
  · intro h
    rw [readToken] at h
    split at h
    next => cases h
    next hne =>
      have hne : part ≠ [] := mt List.isEmpty_iff.mpr hne
      split at h
      next i hi =>
        obtain rfl := Except.ok.inj h
        exact .index (Text.readInt64?_eq_some_iff.mp hi)
      next hnone =>
        split at h
        next hall =>
          obtain rfl := Except.ok.inj h
          refine .name hne (fun c hc => isNameChar_iff.mp (List.all_eq_true.mp hall c hc)) ?_
          rintro ⟨i, hi⟩
          rw [Text.readInt64?_eq_some_iff.mpr hi] at hnone
          cases hnone
        next => cases h
  · intro h
    rw [readToken, if_neg (mt List.isEmpty_iff.mp h.ne_nil)]
    cases h with
    | index hindex => rw [Text.readInt64?_eq_some_iff.mpr hindex]
    | name hne hword hnot =>
        have hnone : Text.readInt64? part = none := by
          rw [Option.eq_none_iff_forall_ne_some]
          intro i hi
          exact hnot ⟨i, Text.readInt64?_eq_some_iff.mp hi⟩
        have hall : part.all isNameChar = true :=
          List.all_eq_true.mpr fun c hc => isNameChar_iff.mpr (hword c hc)
        rw [hnone]
        exact if_pos hall

/-- A part can be read exactly if it is an index or a word. -/
theorem exists_reads_iff {part : Text} :
    (∃ token, Reads part token) ↔
      part ≠ [] ∧ ((∃ i, IsIndex part i) ∨ ∀ c ∈ part, IsWordChar c) := by
  constructor
  · rintro ⟨token, h⟩
    refine ⟨h.ne_nil, ?_⟩
    cases h with
    | index hindex => exact Or.inl ⟨_, hindex⟩
    | name _ hword _ => exact Or.inr hword
  · rintro ⟨hne, hform⟩
    by_cases hindex : ∃ i, IsIndex part i
    · obtain ⟨i, hi⟩ := hindex
      exact ⟨_, .index hi⟩
    · exact ⟨_, .name hne (hform.resolve_left hindex) hindex⟩

/-! ## Paths -/

theorem readTokens_eq_ok_iff {parts : List Text} : ∀ {tokens : List Token},
    readTokens parts = .ok tokens ↔ List.Forall₂ Reads parts tokens := by
  induction parts with
  | nil =>
      intro tokens
      rw [readTokens, List.forall₂_nil_left_iff, Except.ok.injEq]
      exact eq_comm
  | cons part parts ih =>
      intro tokens
      constructor
      · intro h
        obtain ⟨token, htoken, h'⟩ := exists_of_bind_eq_ok h
        obtain ⟨rest, hrest, h''⟩ := exists_of_bind_eq_ok h'
        obtain rfl := Except.ok.inj h''
        exact .cons (readToken_eq_ok_iff.mp htoken) (ih.mp hrest)
      · intro h
        cases h with
        | cons htoken hrest =>
            rw [readTokens, readToken_eq_ok_iff.mpr htoken, ih.mpr hrest]
            rfl

theorem exists_tokens_iff {parts : List Text} :
    (∃ tokens, List.Forall₂ Reads parts tokens) ↔ ∀ part ∈ parts, ∃ token, Reads part token := by
  induction parts with
  | nil => simp
  | cons part parts ih =>
      rw [List.forall_mem_cons, ← ih]
      constructor
      · rintro ⟨tokens, h⟩
        cases h with
        | cons hpart hparts => exact ⟨⟨_, hpart⟩, _, hparts⟩
      · rintro ⟨⟨token, hpart⟩, tokens, hparts⟩
        exact ⟨token :: tokens, .cons hpart hparts⟩

/-- A text is read as a path exactly if the parts of its trimmed form are read as the parts of
the path. -/
theorem parse_eq_ok_iff {s : Text} {p : Path} :
    parse s = .ok p ↔
      s.trim ≠ [] ∧ p.raw = s.trim ∧ List.Forall₂ Reads (s.trim.splitOn '.') p.tokens := by
  have htrimmed : ∀ {r : Text} {tokens : List Token}, readTrimmed r = .ok tokens ↔
      r ≠ [] ∧ List.Forall₂ Reads (r.splitOn '.') tokens := by
    intro r tokens
    rw [readTrimmed, ← readTokens_eq_ok_iff]
    split
    next hnil => simp [List.isEmpty_iff.mp hnil]
    next hne => simp [mt List.isEmpty_iff.mpr hne]
  constructor
  · intro h
    rw [parse] at h
    split at h
    next tokens htokens =>
      obtain rfl := Except.ok.inj h
      obtain ⟨hne, hreads⟩ := htrimmed.mp htokens
      exact ⟨hne, rfl, hreads⟩
    next => cases h
  · rintro ⟨hne, hraw, hreads⟩
    rw [parse, htrimmed.mpr ⟨hne, hreads⟩, ← hraw]

/-- A text is read exactly if all parts of its trimmed form can be read. -/
theorem exists_parse_iff {s : Text} :
    (∃ p, parse s = .ok p) ↔
      s.trim ≠ [] ∧ ∀ part ∈ s.trim.splitOn '.', ∃ token, Reads part token := by
  rw [← exists_tokens_iff]
  constructor
  · rintro ⟨p, hp⟩
    obtain ⟨hne, -, hreads⟩ := parse_eq_ok_iff.mp hp
    exact ⟨hne, p.tokens, hreads⟩
  · rintro ⟨hne, tokens, hreads⟩
    exact ⟨⟨s.trim, tokens⟩, parse_eq_ok_iff.mpr ⟨hne, rfl, hreads⟩⟩

/-! ## Parts that are written -/

/-- A written part is read as the part it was written from. -/
theorem Reads.display {part : Text} {token : Token} (h : Reads part token) :
    Reads token.display token := by
  cases h with
  | index hindex => exact .index ⟨Text.numeral_ofInt _, hindex.2⟩
  | name hne hword hnot => exact .name hne hword hnot

theorem IsWordChar.range {c : Char} (h : IsWordChar c) :
    33 ≤ c.toNat ∧ c.toNat ≤ 122 ∧ c ≠ '.' := by
  have hdot : c ≠ '.' := by
    rintro rfl
    exact absurd h (by unfold IsWordChar; decide)
  rcases h with ⟨hlow, hhigh⟩ | ⟨hlow, hhigh⟩ | ⟨hlow, hhigh⟩ | rfl | rfl | rfl
  · have hlow : 65 ≤ c.toNat := hlow
    have hhigh : c.toNat ≤ 90 := hhigh
    exact ⟨by omega, by omega, hdot⟩
  · have hlow : 97 ≤ c.toNat := hlow
    have hhigh : c.toNat ≤ 122 := hhigh
    exact ⟨by omega, by omega, hdot⟩
  · have hlow : 48 ≤ c.toNat := hlow
    have hhigh : c.toNat ≤ 57 := hhigh
    exact ⟨by omega, by omega, hdot⟩
  · decide
  · decide
  · decide

theorem isBlankChar_of_range {c : Char} (hlow : 33 ≤ c.toNat) (hhigh : c.toNat ≤ 122) :
    Text.isBlankChar c = false := by
  simp [Text.isBlankChar, Text.inRanges, Text.blankRanges]
  omega

/-- A part holds neither a dot nor a blank. -/
theorem Reads.range {part : Text} {token : Token} (h : Reads part token) :
    ∀ c ∈ part, 33 ≤ c.toNat ∧ c.toNat ≤ 122 ∧ c ≠ '.' := by
  have hdigits : ∀ {t : Text}, Text.IsDigits t → ∀ c ∈ t,
      33 ≤ c.toNat ∧ c.toNat ≤ 122 ∧ c ≠ '.' := by
    intro t ht c hc
    exact IsWordChar.range (Or.inr (Or.inr (Or.inl (ht.2 c hc))))
  intro c hc
  cases h with
  | name _ hword _ => exact (hword c hc).range
  | index hindex =>
      cases hindex.1 with
      | plain ht => exact hdigits ht c hc
      | plus ht =>
          rcases List.mem_cons.mp hc with rfl | hc'
          · decide
          · exact hdigits ht c hc'
      | minus ht =>
          rcases List.mem_cons.mp hc with rfl | hc'
          · decide
          · exact hdigits ht c hc'

/-- Written parts with dots in between. -/
def written (tokens : List Token) : Text :=
  ['.'].intercalate (tokens.map Token.display)

theorem reads_displays {parts : List Text} {tokens : List Token}
    (h : List.Forall₂ Reads parts tokens) :
    List.Forall₂ Reads (tokens.map Token.display) tokens := by
  induction h with
  | nil => exact .nil
  | cons hpart _ ih => exact .cons hpart.display ih

/-- The parts of a written path are the written parts. -/
theorem splitOn_written {tokens : List Token} (hne : tokens ≠ [])
    (h : List.Forall₂ Reads (tokens.map Token.display) tokens) :
    (written tokens).splitOn '.' = tokens.map Token.display := by
  refine List.splitOn_intercalate '.' (fun part hpart hdot => ?_)
    (mt List.map_eq_nil_iff.mp hne)
  obtain ⟨token, hreads⟩ := exists_tokens_iff.mp ⟨tokens, h⟩ part hpart
  exact (hreads.range '.' hdot).2.2 rfl

/-- Parts that are read, with dots in between, hold no blank. -/
theorem isBlankChar_of_reads {t : Text} {tokens : List Token}
    (h : List.Forall₂ Reads (t.splitOn '.') tokens) : ∀ c ∈ t, Text.isBlankChar c = false := by
  intro c hc
  rcases Text.mem_splitOn_or (d := '.') hc with rfl | ⟨part, hpart, hcpart⟩
  · decide
  · obtain ⟨token, htoken⟩ := exists_tokens_iff.mp ⟨tokens, h⟩ part hpart
    obtain ⟨hlow, hhigh, -⟩ := htoken.range c hcpart
    exact isBlankChar_of_range hlow hhigh

/-- Parts that were read are read again from what is written of them. -/
theorem parse_written {parts : List Text} {tokens : List Token} (hne : tokens ≠ [])
    (h : List.Forall₂ Reads parts tokens) :
    parse (written tokens) = .ok ⟨written tokens, tokens⟩ := by
  have hreads := reads_displays h
  have hsplit := splitOn_written hne hreads
  have hparts := exists_tokens_iff.mp ⟨tokens, hreads⟩
  rw [← hsplit] at hparts hreads
  have hnil : written tokens ≠ [] := by
    intro hnil
    rw [hnil] at hparts
    obtain ⟨token, htoken⟩ := hparts [] (List.mem_singleton_self _)
    exact htoken.ne_nil rfl
  have htrim := Text.trim_eq_self (isBlankChar_of_reads hreads)
  exact parse_eq_ok_iff.mpr ⟨htrim.symm ▸ hnil, htrim.symm, htrim.symm ▸ hreads⟩

/-- The grammar of paths.  A text is read exactly if its trimmed form is not empty and each of
the parts between its dots is an index, or a word, and not empty.  A path that is read has the
trimmed form for its text and one token for each part, an index for a part that is one and a
name for any other.  Its tokens, written with dots in between, are read as the same tokens. -/
theorem parse_follows_grammar (s : Text) :
    ((∃ p, parse s = .ok p) ↔
      s.trim ≠ [] ∧ ∀ part ∈ s.trim.splitOn '.',
        part ≠ [] ∧ ((∃ i, IsIndex part i) ∨ ∀ c ∈ part, IsWordChar c)) ∧
    ∀ p, parse s = .ok p →
      p.raw = s.trim ∧ List.Forall₂ Reads (s.trim.splitOn '.') p.tokens ∧
      ∃ q, parse (written p.tokens) = .ok q ∧ q.tokens = p.tokens := by
  constructor
  · rw [exists_parse_iff]
    simp only [exists_reads_iff]
  · intro p hp
    obtain ⟨-, hraw, hreads⟩ := parse_eq_ok_iff.mp hp
    have hne : p.tokens ≠ [] := by
      intro hnil
      rw [hnil, List.forall₂_nil_right_iff] at hreads
      exact List.splitOn_ne_nil '.' s.trim hreads
    exact ⟨hraw, hreads, _, parse_written hne hreads, rfl⟩

/-- A path with blanks around it, an index with a sign and a zero, and digits beyond a signed
word of 64 bits. -/
theorem parse_follows_grammar_signs :
    parse "\u00a0+07.9223372036854775808\n".toList =
      .ok ⟨"+07.9223372036854775808".toList,
        [.index 7, .name "9223372036854775808".toList]⟩ ∧
    ∃ q, parse "7.9223372036854775808".toList = .ok q ∧
      q.tokens = [.index 7, .name "9223372036854775808".toList] := by
  have hparse : parse "\u00a0+07.9223372036854775808\n".toList =
      .ok ⟨"+07.9223372036854775808".toList,
        [.index 7, .name "9223372036854775808".toList]⟩ := by
    decide +kernel
  exact ⟨hparse, ((parse_follows_grammar _).2 _ hparse).2.2⟩

end Path

end Emend
