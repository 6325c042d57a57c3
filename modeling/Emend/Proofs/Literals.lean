import Emend.Host.RustTree
import Emend.Proofs.Braces

/-!
# What literals stand for

A literal is read from its opening quote on, character by character, until a quote that is not
escaped closes it.  Nothing may come after that quote.  Between the quotes the reader knows its
place: where a character may start, or how far into the spelling of one it is.  `denoted?` is the
text that a literal stands for, if the literal is well formed.

The three forms of literals differ in few ways.  They have different quotes, a raw literal has no
escapes, a string literal may be broken over lines by a backslash, and a character literal holds a
newline, a carriage return or a tab only as an escape.  Inside an escape the form does not matter,
so an escape of a character literal stands for the same character in a string literal
(`read?_string_of_char`).  Without a backslash a string literal is read like a raw one
(`read?_raw_of_string`).  The conversions of literals rest on these two facts
(`conversions_keep_meaning`).
-/

namespace Emend

namespace Literal

/-! ## Reading literals -/

/-- The forms of literals. -/
inductive Form where
  /-- A character between single quotes. -/
  | char
  /-- A text between double quotes, with escapes. -/
  | string
  /-- A text between double quotes as it stands, after an `r`. -/
  | raw
deriving DecidableEq

/-- How a literal starts. -/
def Form.start : Form → Text
  | .char => ['\'']
  | .string => ['"']
  | .raw => ['r', '"']

/-- The quote that closes a literal. -/
def Form.quote : Form → Char
  | .char => '\''
  | .string => '"'
  | .raw => '"'

/-- A place in a literal. -/
inductive Place where
  /-- Where a character may start, or the literal may end. -/
  | plain
  /-- After a carriage return.  Only a newline may follow, which a break of the line skips. -/
  | afterReturn (skips : Bool)
  /-- After a backslash. -/
  | escaped
  /-- After a backslash at the end of a line.  The blanks that follow are skipped. -/
  | skipping
  /-- Before the first of the two digits of an escape by code. -/
  | highDigit
  /-- Before the second of them. -/
  | lowDigit (high : Nat)
  /-- Before the braces of an escape by code point. -/
  | opening
  /-- Between the braces, after some digits. -/
  | digits (count value : Nat)
deriving DecidableEq

/-- Whether a place is inside the spelling of a character. -/
def Place.inEscape : Place → Bool
  | .escaped | .highDigit | .lowDigit _ | .opening | .digits _ _ => true
  | .plain | .afterReturn _ | .skipping => false

/-- Whether a quote closes the literal at a place. -/
def Place.mayEnd : Place → Bool
  | .plain | .skipping => true
  | _ => false

/-- The character that a backslash and one more character stand for. -/
def escapeOf? : Char → Option Char
  | 'n' => some '\n'
  | 'r' => some '\r'
  | 't' => some '\t'
  | '0' => some '\x00'
  | '\\' => some '\\'
  | '\'' => some '\''
  | '"' => some '"'
  | _ => none

/-- Take a character where one may start. -/
def plainStep? (f : Form) (c : Char) : Option (Place × Text) :=
  if c = '\\' ∧ f ≠ .raw then some (.escaped, [])
  else if f = .char ∧ c ∈ ['\n', '\r', '\t'] then none
  else if c = '\r' then some (.afterReturn false, [c])
  else some (.plain, [c])

/-- Take a character after a backslash. -/
def escapeStep? (f : Form) (c : Char) : Option (Place × Text) :=
  match escapeOf? c with
  | some d => some (.plain, [d])
  | none =>
      if c = 'x' then some (.highDigit, [])
      else if c = 'u' then some (.opening, [])
      else if f = .string ∧ c = '\n' then some (.skipping, [])
      else if f = .string ∧ c = '\r' then some (.afterReturn true, [])
      else none

/-- Take a character between the braces of an escape.  There have to be one to six digits, and
underscores may stand after the first. -/
def digitStep? (count value : Nat) (c : Char) : Option (Place × Text) :=
  if c = '\x7d' then
    if 0 < count ∧ value.isValidChar then some (.plain, [Char.ofNat value]) else none
  else if c = '_' then if 0 < count then some (.digits count value, []) else none
  else if count < 6 then
    (Text.digit? 16 c).map fun d => (.digits (count + 1) (value * 16 + d), [])
  else none

/-- Take one more character: the place after it and what it adds to the text. -/
def step? (f : Form) : Place → Char → Option (Place × Text)
  | .plain, c => plainStep? f c
  | .afterReturn skips, c =>
      if c = '\n' then some (if skips then (.skipping, []) else (.plain, [c])) else none
  | .escaped, c => escapeStep? f c
  | .skipping, c =>
      if c ∈ [' ', '\t', '\n'] then some (.skipping, [])
      else if c = '\r' then some (.afterReturn true, [])
      else plainStep? f c
  | .highDigit, c => (Text.digit? 8 c).map fun d => (.lowDigit d, [])
  | .lowDigit high, c => (Text.digit? 16 c).map fun d => (.plain, [Char.ofNat (high * 16 + d)])
  | .opening, c => if c = '\x7b' then some (.digits 0 0, []) else none
  | .digits count value, c => digitStep? count value c

/-- The text that is spelled from a place up to the closing quote, which ends the literal. -/
def read? (f : Form) : Place → Text → Option Text
  | _, [] => none
  | p, c :: t =>
      if c = f.quote ∧ p.mayEnd = true then if t = [] then some [] else none
      else (step? f p c).bind fun (q, out) => (read? f q t).map (out ++ ·)

/-- The text that a literal stands for.  Of a character literal it is the character. -/
def denoted? (f : Form) (t : Text) : Option Text :=
  if f.start <+: t then read? f .plain (t.drop f.start.length) else none

example : denoted? .char "'\\u\x7b1_F600\x7d'".toList = some ['😀'] := by decide
example : denoted? .string "\"\\x41\\\"\\\r\n  b\"".toList = some "A\"b".toList := by decide
example : denoted? .string "\"a\\\"".toList = none := by decide
example : denoted? .raw "r\"\\n\"".toList = some "\\n".toList := by decide

/-! ## Steps -/

section

variable {f : Form} {p q : Place} {c : Char} {t v out : Text}

theorem read?_cons_of_step (hend : ¬ (c = f.quote ∧ p.mayEnd = true))
    (h : step? f p c = some (q, out)) (t : Text) :
    read? f p (c :: t) = (read? f q t).map (out ++ ·) := by
  rw [read?, if_neg hend, h]
  rfl

theorem denoted?_start (f : Form) (body : Text) :
    denoted? f (f.start ++ body) = read? f .plain body := by
  rw [denoted?, if_pos (List.prefix_append _ _), List.drop_left]

theorem denoted?_eq_some_iff :
    denoted? f t = some v ↔ ∃ body, t = f.start ++ body ∧ read? f .plain body = some v := by
  constructor
  · intro h
    obtain ⟨hstart, hread⟩ := Option.ite_none_right_eq_some.mp h
    exact ⟨_, (List.prefix_iff_eq_append.mp hstart).symm, hread⟩
  · rintro ⟨body, rfl, hread⟩
    rw [denoted?_start, hread]

/-- A literal ends here, or its next character is taken. -/
theorem read?_cons_cases (h : read? f p (c :: t) = some v) :
    (c = f.quote ∧ p.mayEnd = true ∧ t = [] ∧ v = []) ∨
    (¬ (c = f.quote ∧ p.mayEnd = true) ∧
      ∃ q out rest, step? f p c = some (q, out) ∧ read? f q t = some rest ∧ v = out ++ rest) := by
  rw [read?] at h
  split at h
  next hend =>
    obtain ⟨ht, hv⟩ := Option.ite_none_right_eq_some.mp h
    exact Or.inl ⟨hend.1, hend.2, ht, (Option.some.inj hv).symm⟩
  next hend =>
    obtain ⟨⟨q, out⟩, hstep, hmap⟩ := Option.bind_eq_some_iff.mp h
    obtain ⟨rest, hrest, hv⟩ := Option.map_eq_some_iff.mp hmap
    exact Or.inr ⟨hend, q, out, rest, hstep, hrest, hv.symm⟩

/-- What a step inside the spelling of a character leads to: the spelling goes on, or it ends with
the character it stands for. -/
def Spells (r : Place × Text) : Prop :=
  r.1.inEscape = true ∧ r.2 = [] ∨ r.1 = .plain ∧ ∃ d, r.2 = [d]

theorem spells_on (h : q.inEscape = true) : Spells (q, []) := Or.inl ⟨h, rfl⟩

theorem spells_end (d : Char) : Spells (.plain, [d]) := Or.inr ⟨rfl, d, rfl⟩

theorem spells_of_digitStep? {count value : Nat} {r : Place × Text}
    (h : digitStep? count value c = some r) : Spells r := by
  rw [digitStep?] at h
  split at h
  next =>
    obtain ⟨-, hr⟩ := Option.ite_none_right_eq_some.mp h
    exact Option.some.inj hr ▸ spells_end _
  next =>
    split at h
    next =>
      obtain ⟨-, hr⟩ := Option.ite_none_right_eq_some.mp h
      exact Option.some.inj hr ▸ spells_on rfl
    next =>
      obtain ⟨-, hdigit⟩ := Option.ite_none_right_eq_some.mp h
      obtain ⟨d, -, rfl⟩ := Option.map_eq_some_iff.mp hdigit
      exact spells_on rfl

theorem spells_of_escapeStep? {r : Place × Text} (h : escapeStep? .char c = some r) :
    escapeStep? .string c = some r ∧ Spells r := by
  rw [escapeStep?] at h ⊢
  cases hescape : escapeOf? c with
  | some d =>
      simp only [hescape] at h ⊢
      exact ⟨h, Option.some.inj h ▸ spells_end d⟩
  | none =>
      simp only [hescape] at h ⊢
      split at h
      next hx => exact ⟨by rw [if_pos hx, h], Option.some.inj h ▸ spells_on rfl⟩
      next hx =>
        split at h
        next hu => exact ⟨by rw [if_neg hx, if_pos hu, h], Option.some.inj h ▸ spells_on rfl⟩
        next => simp at h

/-- Inside an escape a string literal is read like a character literal. -/
theorem spells_of_step? {r : Place × Text} (hp : p.inEscape = true) (h : step? .char p c = some r) :
    step? .string p c = some r ∧ Spells r := by
  cases p with
  | plain => cases hp
  | afterReturn => cases hp
  | skipping => cases hp
  | escaped => exact spells_of_escapeStep? h
  | highDigit =>
      obtain ⟨d, -, rfl⟩ := Option.map_eq_some_iff.mp h
      exact ⟨h, spells_on rfl⟩
  | lowDigit high =>
      obtain ⟨d, -, rfl⟩ := Option.map_eq_some_iff.mp h
      exact ⟨h, spells_end _⟩
  | opening =>
      obtain ⟨-, hr⟩ := Option.ite_none_right_eq_some.mp h
      exact ⟨h, Option.some.inj hr ▸ spells_on rfl⟩
  | digits count value => exact ⟨h, spells_of_digitStep? h⟩

theorem not_mayEnd_of_inEscape (hp : p.inEscape = true) : ¬ p.mayEnd = true := by
  cases p with
  | plain => cases hp
  | skipping => cases hp
  | afterReturn skips => exact Bool.false_ne_true
  | escaped => exact Bool.false_ne_true
  | highDigit => exact Bool.false_ne_true
  | lowDigit high => exact Bool.false_ne_true
  | opening => exact Bool.false_ne_true
  | digits count value => exact Bool.false_ne_true

/-- A character literal does not end inside an escape. -/
theorem exists_of_inEscape (hp : p.inEscape = true) (h : read? .char p (c :: t) = some v) :
    ∃ q out rest, step? .string p c = some (q, out) ∧ Spells (q, out) ∧
      read? .char q t = some rest ∧ v = out ++ rest := by
  rcases read?_cons_cases h with ⟨-, hend, -⟩ | ⟨-, q, out, rest, hstep, hrest, hv⟩
  · exact absurd hend (not_mayEnd_of_inEscape hp)
  · obtain ⟨hstring, hspells⟩ := spells_of_step? hp hstep
    exact ⟨q, out, rest, hstring, hspells, hrest, hv⟩

end

/-! ## Character literals as string literals -/

section

variable {p : Place} {c : Char} {t v : Text}

/-- An escape stands for a character. -/
theorem ne_nil_of_inEscape (hp : p.inEscape = true) (h : read? .char p t = some v) : v ≠ [] := by
  induction t generalizing p with
  | nil => cases h
  | cons x t ih =>
      obtain ⟨q, out, rest, -, ⟨hq, rfl⟩ | ⟨-, d, rfl⟩, hrest, rfl⟩ := exists_of_inEscape hp h
      · exact ih hq hrest
      · exact List.cons_ne_nil d rest

/-- What a character literal holds next: an escape, or a character that stands for itself. -/
theorem plainStep?_char {r : Place × Text} (h : plainStep? .char c = some r) :
    (c = '\\' ∧ r = (.escaped, [])) ∨
      (c ≠ '\\' ∧ c ≠ '\r' ∧ r = (.plain, [c])) := by
  rw [plainStep?] at h
  split at h
  next hc => exact Or.inl ⟨hc.1, (Option.some.inj h).symm⟩
  next hc =>
    split at h
    next => cases h
    next hbreak =>
      have hreturn : c ≠ '\r' := fun he => hbreak ⟨rfl, by simp [he]⟩
      rw [if_neg hreturn] at h
      exact Or.inr ⟨fun he => hc ⟨he, by decide⟩, hreturn, (Option.some.inj h).symm⟩

/-- Nothing more is spelled at the closing quote only. -/
theorem eq_quote_of_read?_nil (h : read? .char .plain t = some []) : t = ['\''] := by
  cases t with
  | nil => cases h
  | cons x t =>
      rcases read?_cons_cases h with ⟨rfl, -, rfl, -⟩ | ⟨-, q, out, rest, hstep, hrest, hout⟩
      · rfl
      · obtain ⟨rfl, rfl⟩ := List.append_eq_nil_iff.mp hout.symm
        rcases plainStep?_char hstep with ⟨-, hr⟩ | ⟨-, -, hr⟩
        · cases hr
          exact absurd rfl (ne_nil_of_inEscape rfl hrest)
        · cases hr

/-- An escape of a character literal stands for the same character in a string literal. -/
theorem read?_string_of_char (hp : p.inEscape = true) (h : read? .char p t = some [c]) :
    ∃ spelling, t = spelling ++ ['\''] ∧ read? .string p (spelling ++ ['"']) = some [c] := by
  induction t generalizing p with
  | nil => cases h
  | cons x t ih =>
      obtain ⟨q, out, rest, hstep, hspells, hrest, hout⟩ := exists_of_inEscape hp h
      have hopen : ¬ (x = Form.string.quote ∧ p.mayEnd = true) := fun hend =>
        not_mayEnd_of_inEscape hp hend.2
      rcases hspells with ⟨hq, rfl⟩ | ⟨rfl, d, rfl⟩
      · rw [List.nil_append] at hout
        obtain ⟨spelling, rfl, hread⟩ := ih hq (hout ▸ hrest)
        refine ⟨x :: spelling, rfl, ?_⟩
        rw [List.cons_append, read?_cons_of_step hopen hstep, hread]
        rfl
      · -- The escape ends here.  It stands for the only character, so the literal ends too.
        obtain ⟨rfl, rfl⟩ := List.cons.inj hout
        refine ⟨[x], by rw [eq_quote_of_read?_nil hrest]; rfl, ?_⟩
        rw [List.singleton_append, read?_cons_of_step hopen hstep]
        rfl

end

section

variable {c : Char}

theorem stringOfChar?_quoted (inner : Text) :
    stringOfChar? ('\'' :: (inner ++ ['\''])) =
      some (Form.string.start ++ ((if inner = ['\\', '\''] then ['\'']
        else if inner = ['"'] then ['\\', '"'] else inner) ++ ['"'])) := by
  rw [stringOfChar?, unwrap?_eq_some_iff.mpr rfl]
  rfl

/-- The escaped single quote loses its backslash, and every other escape stays. -/
theorem stringOfChar?_escape {spelling : Text}
    (hchar : read? .char .escaped (spelling ++ ['\'']) = some [c])
    (hstring : read? .string .escaped (spelling ++ ['"']) = some [c]) :
    ∃ s, stringOfChar? ('\'' :: ('\\' :: spelling ++ ['\''])) = some s ∧
      denoted? .string s = some [c] := by
  refine ⟨_, stringOfChar?_quoted _, ?_⟩
  rw [denoted?_start]
  by_cases hquote : spelling = ['\'']
  · subst hquote
    have hc : some ['\''] = some [c] := hchar
    rw [if_pos rfl, ← hc]
    rfl
  · have hdouble : '\\' :: spelling ≠ ['"'] := fun he => by cases (List.cons.inj he).1
    have hstep : step? .string .plain '\\' = some (.escaped, []) := rfl
    rw [if_neg fun he => hquote (List.cons.inj he).2, if_neg hdouble, List.cons_append,
      read?_cons_of_step (by decide) hstep, hstring]
    rfl

/-- The double quote gains a backslash, and every other character stays. -/
theorem stringOfChar?_self (hslash : c ≠ '\\') (hreturn : c ≠ '\r') :
    ∃ s, stringOfChar? ('\'' :: ([c] ++ ['\''])) = some s ∧ denoted? .string s = some [c] := by
  refine ⟨_, stringOfChar?_quoted _, ?_⟩
  rw [denoted?_start, if_neg fun he => hslash (List.cons.inj he).1]
  by_cases hdouble : c = '"'
  · subst hdouble
    rfl
  · have hstep : step? .string .plain c = some (.plain, [c]) := by
      rw [step?, plainStep?, if_neg (fun h => hslash h.1), if_neg (by simp), if_neg hreturn]
    rw [if_neg fun he => hdouble (List.cons.inj he).1, List.singleton_append,
      read?_cons_of_step (fun h => hdouble h.1) hstep]
    rfl

end

/-- A character literal and the string literal it is turned into stand for the same character. -/
theorem stringOfChar?_denoted {t : Text} {c : Char} (h : denoted? .char t = some [c]) :
    ∃ s, stringOfChar? t = some s ∧ denoted? .string s = some [c] := by
  obtain ⟨body, rfl, hread⟩ := denoted?_eq_some_iff.mp h
  cases body with
  | nil => cases hread
  | cons x rest =>
      rcases read?_cons_cases hread with ⟨-, -, -, hnil⟩ | ⟨-, q, out, v, hstep, hrest, hout⟩
      · cases hnil
      · rcases plainStep?_char hstep with ⟨rfl, hr⟩ | ⟨hslash, hreturn, hr⟩
        · obtain ⟨rfl, rfl⟩ := Prod.mk.inj hr
          rw [List.nil_append] at hout
          subst hout
          obtain ⟨spelling, rfl, hstring⟩ := read?_string_of_char rfl hrest
          exact stringOfChar?_escape hrest hstring
        · obtain ⟨rfl, rfl⟩ := Prod.mk.inj hr
          obtain ⟨rfl, rfl⟩ := List.cons.inj hout
          rw [eq_quote_of_read?_nil hrest]
          exact stringOfChar?_self hslash hreturn

/-! ## String literals as raw ones -/

/-- The places between the quotes where no backslash has been read. -/
def Place.Unescaped (p : Place) : Prop := p = .plain ∨ p = .afterReturn false

section

variable {p : Place} {c : Char} {t v : Text}

/-- A character other than the backslash and the closing quote stands for itself, in a string
literal as in a raw one. -/
theorem step?_of_unescaped {r : Place × Text} (hp : p.Unescaped) (hslash : c ≠ '\\')
    (hopen : ¬ (c = '"' ∧ p.mayEnd = true)) (h : step? .string p c = some r) :
    step? .raw p c = some r ∧ c ≠ '"' ∧ r.1.Unescaped ∧ r.2 = [c] := by
  rcases hp with rfl | rfl
  · have hraw : step? .raw .plain c = step? .string .plain c := by
      simp [step?, plainStep?, hslash]
    refine ⟨hraw.trans h, fun he => hopen ⟨he, rfl⟩, ?_⟩
    simp only [step?, plainStep?, hslash, reduceCtorEq, false_and, if_false] at h
    split at h
    next =>
      cases Option.some.inj h
      exact ⟨Or.inr rfl, rfl⟩
    next =>
      cases Option.some.inj h
      exact ⟨Or.inl rfl, rfl⟩
  · obtain ⟨rfl, hr⟩ := Option.ite_none_right_eq_some.mp h
    cases Option.some.inj hr
    exact ⟨h, by decide, Or.inl rfl, rfl⟩

/-- Without a backslash a string literal is read like a raw one: all that stands before the closing
quote is its text. -/
theorem read?_raw_of_string (hp : p.Unescaped) (hslash : '\\' ∉ t)
    (h : read? .string p t = some v) : read? .raw p t = some v ∧ t = v ++ ['"'] ∧ '"' ∉ v := by
  induction t generalizing p v with
  | nil => cases h
  | cons c t ih =>
      obtain ⟨hc, ht⟩ := not_or.mp (mt List.mem_cons.mpr hslash)
      rcases read?_cons_cases h with
        ⟨rfl, hend, rfl, rfl⟩ | ⟨hopen, q, out, rest, hstep, hrest, rfl⟩
      · exact ⟨by rw [read?, if_pos ⟨rfl, hend⟩, if_pos rfl], rfl, List.not_mem_nil⟩
      · obtain ⟨hraw, hquote, hq, rfl⟩ := step?_of_unescaped hp (Ne.symm hc) hopen hstep
        obtain ⟨hread, rfl, hnot⟩ := ih hq ht hrest
        refine ⟨?_, rfl, ?_⟩
        · rw [read?_cons_of_step (f := .raw) hopen hraw, hread]
          rfl
        · exact fun hmem => (List.mem_cons.mp hmem).elim (fun he => hquote he.symm) hnot

end

/-- A string literal with a backslash is not turned into a raw one. -/
theorem rawOfString?_of_backslash {t : Text} (h : '\\' ∈ t) : rawOfString? t = none := by
  rw [rawOfString?]
  split
  next inner hinner =>
    rw [unwrap?_eq_some_iff.mp hinner] at h
    rw [if_pos (by simpa using h)]
  next => rfl

/-- A string literal without one is turned into a raw literal that stands for the same text. -/
theorem rawOfString?_denoted {t v : Text} (h : denoted? .string t = some v) (hslash : '\\' ∉ t) :
    rawOfString? t = some (Form.raw.start ++ (v ++ ['"'])) ∧ '"' ∉ v ∧
      denoted? .raw (Form.raw.start ++ (v ++ ['"'])) = some v := by
  obtain ⟨body, rfl, hread⟩ := denoted?_eq_some_iff.mp h
  have hbody : '\\' ∉ body := fun hmem => hslash (List.mem_append_right _ hmem)
  obtain ⟨hraw, rfl, hquote⟩ := read?_raw_of_string (Or.inl rfl) hbody hread
  have hinner : unwrap? '"' '"' (Form.string.start ++ (v ++ ['"'])) = some v :=
    unwrap?_eq_some_iff.mpr rfl
  refine ⟨?_, hquote, by rw [denoted?_start, hraw]⟩
  rw [rawOfString?, hinner]
  exact if_neg fun hmem => hbody (List.mem_append_left _ hmem)

/-! ## Conversions -/

open RustTree (stringLiteral? rawLiteral?)

/-- The kind of the nodes that are character literals. -/
def charKind : Text := "char_literal".toList

/-- The kind of the nodes that are string literals. -/
def stringKind : Text := "string_literal".toList

/-- The kind of the nodes that are raw string literals. -/
def rawKind : Text := "raw_string_literal".toList

section

variable {mark : Char} {kind : Text}

theorem unwrap?_of_ne {first last : Char} (h : mark ≠ first) (t : Text) :
    unwrap? first last (mark :: t) = none :=
  if_neg fun hwrapped => h hwrapped.1

/-- Apart from string literals, only what starts with a single quote becomes a string literal. -/
theorem stringLiteral?_of_ne (hkind : kind ≠ stringKind) (hmark : mark ≠ '\'') (t : Text) :
    stringLiteral? kind (mark :: t) = none := by
  rw [stringLiteral?]
  split
  next hstring => exact absurd hstring hkind
  next => rw [stringOfChar?, unwrap?_of_ne hmark, Option.map_none, ite_self]

/-- Apart from raw literals, only what starts with a double quote becomes a raw literal. -/
theorem rawLiteral?_of_ne (hkind : kind ≠ rawKind) (hmark : mark ≠ '"') (t : Text) :
    rawLiteral? kind (mark :: t) = none := by
  rw [rawLiteral?]
  split
  next hraw => exact absurd hraw hkind
  next => rw [rawOfString?, unwrap?_of_ne hmark, ite_self]

end

/-- Conversions of literals keep what the literals stand for.  A character literal becomes a string
literal of that one character.  A string literal becomes a raw literal of the same text, which ends
at its first quote, unless there is a backslash in it.  A literal with a mark before its quote
becomes neither.  What is a string literal or a raw one already stays as it is, marked or not. -/
theorem conversions_keep_meaning :
    (∀ t c, denoted? .char t = some [c] →
      ∃ s, stringLiteral? charKind t = some s ∧ denoted? .string s = some [c]) ∧
    (∀ t v, denoted? .string t = some v →
      (rawLiteral? stringKind t = none ↔ '\\' ∈ t) ∧
      ('\\' ∉ t → ∃ r, rawLiteral? stringKind t = some r ∧
        r = ['r', '"'] ++ (v ++ ['"']) ∧ '"' ∉ v ∧ denoted? .raw r = some v)) ∧
    (∀ mark ∈ ['b', 'c'], ∀ kind t,
      (kind ≠ stringKind → stringLiteral? kind (mark :: t) = none) ∧
      (kind ≠ rawKind → rawLiteral? kind (mark :: t) = none)) ∧
    ∀ t, stringLiteral? stringKind t = some t ∧ rawLiteral? rawKind t = some t := by
  refine ⟨fun t c h => stringOfChar?_denoted h, fun t v h => ?_, fun mark hmark kind t => ?_,
    fun t => ⟨rfl, rfl⟩⟩
  · have hraw := rawOfString?_denoted h
    refine ⟨⟨fun hnone => ?_, rawOfString?_of_backslash⟩, fun hslash => ?_⟩
    · by_contra hslash
      cases (hraw hslash).1.symm.trans hnone
    · exact ⟨_, (hraw hslash).1, rfl, (hraw hslash).2⟩
  · have hsingle : mark ≠ '\'' := fun he => absurd (he ▸ hmark) (by decide)
    have hdouble : mark ≠ '"' := fun he => absurd (he ▸ hmark) (by decide)
    exact ⟨fun hkind => stringLiteral?_of_ne hkind hsingle t,
      fun hkind => rawLiteral?_of_ne hkind hdouble t⟩

/-- A double quote between single ones. -/
def doubleQuote : Text := "'\"'".toList

/-- A single quote between double ones. -/
def singleQuote : Text := "\"'\"".toList

theorem conversions_keep_meaning_quotes :
    (denoted? .char doubleQuote = some ['"'] ∧
      ∃ s, stringLiteral? charKind doubleQuote = some s ∧ denoted? .string s = some ['"']) ∧
    (denoted? .string singleQuote = some ['\''] ∧
      ∃ r, rawLiteral? stringKind singleQuote = some r ∧ denoted? .raw r = some ['\'']) ∧
    (charKind ≠ stringKind ∧ stringLiteral? charKind "b'x'".toList = none) := by
  obtain ⟨hchar, hstring, hmark, -⟩ := conversions_keep_meaning
  have hquote : denoted? .char doubleQuote = some ['"'] := by decide
  have hsingle : denoted? .string singleQuote = some ['\''] := by decide
  have hkind : charKind ≠ stringKind := by decide
  refine ⟨⟨hquote, hchar _ _ hquote⟩, ⟨hsingle, ?_⟩, hkind, ?_⟩
  · obtain ⟨r, hr, -, -, hraw⟩ := (hstring _ _ hsingle).2 (by decide)
    exact ⟨r, hr, hraw⟩
  · exact (hmark 'b' (by decide) charKind "'x'".toList).1 hkind

/-- A string literal of one character. -/
def oneLetter : Text := "\"z\"".toList

/-- With a mark before its quote it is still given out as a string literal. -/
theorem marked_string_stays :
    denoted? .string oneLetter = some ['z'] ∧
    stringLiteral? stringKind ('b' :: oneLetter) = some ('b' :: oneLetter) ∧
    stringLiteral? stringKind ('b' :: oneLetter) ≠ none :=
  ⟨by decide, by decide, by decide⟩

end Literal

end Emend
