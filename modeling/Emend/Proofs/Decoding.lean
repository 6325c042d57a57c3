import Mathlib.Tactic.IntervalCases
import Emend.Outcome

/-!
# Outcomes read back from their text

The JSON text of an outcome determines the outcome.  `Outcome.decode?` computes it in two
steps.  `Json.read?` reads the text of a value of JSON, and `Outcome.ofJson?` makes an
outcome of the value.  Both undo what they are named for (`Json.read?_print`,
`Outcome.ofJson?_of_toJson?`), so no two outcomes have the same text.  An outcome has a text
unless it is from a file whose name is none (`Outcome.exists_toJson?_iff`).

A reader takes something off the front of a text.  Its result carries a proof that the
rest is shorter, by which the readers that call each other end.  That a reader undoes
writing is stated for a text that goes on after what was written.  Only a number could be
read further than it was written, so what follows a value must not start with a digit.

In a value an edit differs from a group by its fields and not by its kind: only a group has
`actions`.
-/

namespace Emend

namespace Json

/-! ## Readers -/

/-- Something read off the front of a text, and the shorter text that is left. -/
structure Front (α : Type) (t : Text) where
  /-- What was read. -/
  value : α
  /-- What is left. -/
  rest : Text
  shorter : rest.length < t.length

/-- The same with another value, at the front of a text that is longer by one. -/
def Front.cons {α β : Type} {t : Text} (c : Char) (f : α → β) (r : Front α t) : Front β (c :: t) :=
  ⟨f r.value, r.rest, Nat.lt_succ_of_lt r.shorter⟩

/-- Read one character that is known. -/
def expect (c : Char) : (t : Text) → Option (Front Unit t)
  | [] => none
  | d :: t => if d = c then some ⟨(), t, Nat.lt_succ_self _⟩ else none

/-- The letters that stand for a character after a backslash. -/
def letters : List (Char × Char) :=
  [('"', '"'), ('\\', '\\'), ('b', '\x08'), ('f', '\x0c'), ('n', '\n'), ('r', '\r'), ('t', '\t')]

/-- Read what follows a backslash. -/
def readEscape : (t : Text) → Option (Front Char t)
  | 'u' :: a :: b :: c :: d :: t =>
      (Text.readNat? 16 [a, b, c, d]).map fun n => ⟨Char.ofNat n, t, by simp; omega⟩
  | c :: t => (letters.lookup c).map fun d => ⟨d, t, Nat.lt_succ_self _⟩
  | [] => none

/-- Read one character of a text in quotes. -/
def readChar : (t : Text) → Option (Front Char t)
  | [] => none
  | c :: t =>
      if c = '\\' then (readEscape t).map (.cons c id) else some ⟨c, t, Nat.lt_succ_self _⟩

/-- Read a text up to the closing quote. -/
def readText (t : Text) : Option (Front Text t) :=
  match expect '"' t with
  | some close => some ⟨[], close.rest, close.shorter⟩
  | none => do
      let c ← readChar t
      let s ← readText c.rest
      some ⟨c.value :: s.value, s.rest, Nat.lt_trans s.shorter c.shorter⟩
termination_by t.length
decreasing_by exact c.shorter

/-- Read a run of digits. -/
def readNumber : (t : Text) → Option (Front Nat t)
  | [] => none
  | c :: t =>
      (Text.readNat? 10 ((c :: t).takeWhile Char.isDigit)).map fun n =>
        ⟨n, t.dropWhile Char.isDigit,
          Nat.lt_succ_of_le (List.dropWhile_sublist Char.isDigit).length_le⟩

/-- Read a value that is a word. -/
def readWord : (t : Text) → Option (Front Json t)
  | 'n' :: 'u' :: 'l' :: 'l' :: t => some ⟨.null, t, by simp; omega⟩
  | 't' :: 'r' :: 'u' :: 'e' :: t => some ⟨.bool true, t, by simp; omega⟩
  | 'f' :: 'a' :: 'l' :: 's' :: 'e' :: t => some ⟨.bool false, t, by simp; omega⟩
  | _ => none

mutual

/-- Read a value. -/
def readValue : (t : Text) → Option (Front Json t)
  | [] => none
  | c :: t =>
      if c = '"' then (readText t).map (.cons c .str)
      else if c = '[' then
        match expect ']' t with
        | some close => some (close.cons c fun _ => .arr [])
        | none => (readItems t).map (.cons c .arr)
      else if c = '\x7b' then
        match expect '\x7d' t with
        | some close => some (close.cons c fun _ => .obj [])
        | none => (readMembers t).map (.cons c .obj)
      else if c.isDigit then
        (readNumber (c :: t)).map fun r => ⟨.num r.value, r.rest, r.shorter⟩
      else readWord (c :: t)
termination_by t => (t.length, 0)

/-- Read the items of a list up to its end. -/
def readItems (t : Text) : Option (Front (List Json) t) := do
  let v ← readValue t
  match expect ',' v.rest with
  | some comma => do
      let vs ← readItems comma.rest
      some ⟨v.value :: vs.value, vs.rest,
        Nat.lt_trans vs.shorter (Nat.lt_trans comma.shorter v.shorter)⟩
  | none => do
      let close ← expect ']' v.rest
      some ⟨[v.value], close.rest, Nat.lt_trans close.shorter v.shorter⟩
termination_by (t.length, 1)
decreasing_by
  · exact Prod.Lex.right _ Nat.zero_lt_one
  · exact Prod.Lex.left _ _ (Nat.lt_trans comma.shorter v.shorter)

/-- Read the members of an object up to its end. -/
def readMembers (t : Text) : Option (Front (List (Text × Json)) t) := do
  let quote ← expect '"' t
  let name ← readText quote.rest
  let colon ← expect ':' name.rest
  have hcolon : colon.rest.length < t.length :=
    Nat.lt_trans colon.shorter (Nat.lt_trans name.shorter quote.shorter)
  let v ← readValue colon.rest
  match expect ',' v.rest with
  | some comma => do
      let vs ← readMembers comma.rest
      some ⟨(name.value, v.value) :: vs.value, vs.rest,
        Nat.lt_trans vs.shorter (Nat.lt_trans comma.shorter (Nat.lt_trans v.shorter hcolon))⟩
  | none => do
      let close ← expect '\x7d' v.rest
      some ⟨[(name.value, v.value)], close.rest,
        Nat.lt_trans close.shorter (Nat.lt_trans v.shorter hcolon)⟩
termination_by (t.length, 1)
decreasing_by
  · exact Prod.Lex.left _ _ hcolon
  · exact Prod.Lex.left _ _ (Nat.lt_trans comma.shorter (Nat.lt_trans v.shorter hcolon))

end

/-- The value of a text that holds one value and nothing else. -/
def read? (t : Text) : Option Json :=
  (readValue t).bind fun r => if r.rest = [] then some r.value else none

/-! ## Reading what was written -/

/-- A reader takes a value off the front of a text and leaves the rest. -/
def Takes {α : Type} (read : (t : Text) → Option (Front α t)) (t : Text) (a : α) (rest : Text) :
    Prop :=
  ∃ h, read t = some ⟨a, rest, h⟩

/-- A text that a number does not go on with. -/
def EndsNumber (rest : Text) : Prop := ∀ c ∈ rest.head?, c.isDigit = false

theorem endsNumber_cons {c : Char} (h : c.isDigit = false) (rest : Text) : EndsNumber (c :: rest) :=
  fun _ hd => Option.some.inj hd ▸ h

theorem expect_eq_none {c d : Char} (h : d ≠ c) (t : Text) : expect c (d :: t) = none :=
  if_neg h

theorem escapeChar_eq_self {c : Char} (hquote : c ≠ '"') (hbackslash : c ≠ '\\')
    (h : 0x20 ≤ c.toNat) : escapeChar c = [c] := by
  have hne : ∀ d : Char, d.toNat < 0x20 → c ≠ d := by
    rintro d hd rfl
    omega
  rw [escapeChar, if_neg hquote, if_neg hbackslash, if_neg (hne '\x08' (by decide)),
    if_neg (hne '\x0c' (by decide)), if_neg (hne '\n' (by decide)), if_neg (hne '\r' (by decide)),
    if_neg (hne '\t' (by decide)), if_neg (by omega), if_neg (by omega)]

/-- The characters to consider in a text: the quote, the backslash, those below the space, and
those that stand for themselves. -/
theorem escapeChar_cases {P : Char → Prop} (quote : P '"') (backslash : P '\\')
    (control : ∀ n < 0x20, P (Char.ofNat n))
    (plain : ∀ c, c ≠ '"' → c ≠ '\\' → escapeChar c = [c] → P c) (c : Char) : P c := by
  by_cases hquote : c = '"'
  · exact hquote ▸ quote
  by_cases hbackslash : c = '\\'
  · exact hbackslash ▸ backslash
  by_cases h : c.toNat < 0x20
  · exact Char.ofNat_toNat c ▸ control c.toNat h
  · exact plain c hquote hbackslash (escapeChar_eq_self hquote hbackslash (Nat.le_of_not_lt h))

theorem readChar_control {n : Nat} (h : n < 0x20) (rest : Text) :
    Takes readChar (escapeChar (Char.ofNat n) ++ rest) (Char.ofNat n) rest := by
  -- Five are read off `letters`, the others are read as their number.
  interval_cases n <;> exact ⟨_, rfl⟩

theorem readChar_escapeChar (c : Char) (rest : Text) :
    Takes readChar (escapeChar c ++ rest) c rest := by
  induction c using escapeChar_cases with
  | quote => exact ⟨_, rfl⟩
  | backslash => exact ⟨_, rfl⟩
  | control n h => exact readChar_control h rest
  | plain c _ hbackslash hself =>
      rw [hself]
      exact ⟨_, if_neg hbackslash⟩

/-- No character is written so that it could be taken for the closing quote. -/
theorem expect_escapeChar (c : Char) (rest : Text) : expect '"' (escapeChar c ++ rest) = none := by
  induction c using escapeChar_cases with
  | quote => rfl
  | backslash => rfl
  | control n h => interval_cases n <;> rfl
  | plain c hquote _ hself =>
      rw [hself]
      exact expect_eq_none hquote rest

theorem readText_printed (t rest : Text) :
    Takes readText (t.flatMap escapeChar ++ '"' :: rest) t rest := by
  induction t with
  | nil =>
      rw [List.flatMap_nil, List.nil_append, Takes, readText]
      exact ⟨Nat.lt_succ_self _, rfl⟩
  | cons c t ih =>
      obtain ⟨ht, hread⟩ := ih
      obtain ⟨hc, hchar⟩ := readChar_escapeChar c (t.flatMap escapeChar ++ '"' :: rest)
      rw [List.flatMap_cons, List.append_assoc, Takes, readText, expect_escapeChar]
      refine ⟨Nat.lt_trans ht hc, ?_⟩
      simp only [hchar, hread, bind, Option.bind]

theorem readNumber_ofNat (n : Nat) {rest : Text} (hrest : EndsNumber rest) :
    Takes readNumber (Text.ofNat n ++ rest) n rest := by
  have hdigits : ∀ c ∈ Text.ofNat n, c.isDigit = true := fun _ hc => Text.isDigit_of_mem_ofNat hc
  have hstop : rest.takeWhile Char.isDigit = [] ∧ rest.dropWhile Char.isDigit = rest := by
    cases rest with
    | nil => exact ⟨rfl, rfl⟩
    | cons c rest => simp [hrest c rfl]
  have hread := Text.readNat?_ofNat n
  cases hn : Text.ofNat n with
  | nil => exact absurd hn Nat.toDigits_ne_nil
  | cons c t =>
      rw [hn] at hdigits hread
      have htake : (c :: (t ++ rest)).takeWhile Char.isDigit = c :: t := by
        rw [← List.cons_append, List.takeWhile_append_of_pos hdigits, hstop.1, List.append_nil]
      have hdrop : (t ++ rest).dropWhile Char.isDigit = rest := by
        rw [List.dropWhile_append_of_pos fun d hd => hdigits d (List.mem_cons_of_mem c hd), hstop.2]
      have hshort : rest.length < (c :: t ++ rest).length := by
        simp only [List.length_append, List.length_cons]
        omega
      refine ⟨hshort, ?_⟩
      simp only [List.cons_append, readNumber, htake, hread, hdrop, Option.map_some]

/-! ## Rules of the readers -/

section

variable {t u rest : Text} {v : Json}

theorem readValue_word {c : Char} (hc : c ∈ ['n', 't', 'f'])
    (h : Takes readWord (c :: t) v rest) : Takes readValue (c :: t) v rest := by
  obtain ⟨hshort, hread⟩ := h
  refine ⟨hshort, ?_⟩
  have hletters : ∀ d ∈ ['n', 't', 'f'], d ≠ '"' ∧ d ≠ '[' ∧ d ≠ '\x7b' ∧ ¬d.isDigit := by
    simp [Char.isDigit]
  obtain ⟨hquote, hlist, hobj, hdigit⟩ := hletters c hc
  rw [readValue, if_neg hquote, if_neg hlist, if_neg hobj, if_neg hdigit, hread]

theorem readValue_noItems (rest : Text) : Takes readValue ('[' :: ']' :: rest) (.arr []) rest :=
  ⟨Nat.lt_succ_of_lt (Nat.lt_succ_self _), by simp [readValue, expect, Front.cons]⟩

theorem readValue_noMembers (rest : Text) :
    Takes readValue ('\x7b' :: '\x7d' :: rest) (.obj []) rest :=
  ⟨Nat.lt_succ_of_lt (Nat.lt_succ_self _), by simp [readValue, expect, Front.cons]⟩

theorem readValue_items {vs : List Json} (hclose : expect ']' t = none)
    (h : Takes readItems t vs rest) : Takes readValue ('[' :: t) (.arr vs) rest := by
  obtain ⟨hshort, hread⟩ := h
  refine ⟨Nat.lt_succ_of_lt hshort, ?_⟩
  simp [readValue, hclose, hread, Front.cons]

theorem readValue_members {vs : List (Text × Json)} (hclose : expect '\x7d' t = none)
    (h : Takes readMembers t vs rest) : Takes readValue ('\x7b' :: t) (.obj vs) rest := by
  obtain ⟨hshort, hread⟩ := h
  refine ⟨Nat.lt_succ_of_lt hshort, ?_⟩
  simp [readValue, hclose, hread, Front.cons]

theorem readItems_last (h : Takes readValue t v (']' :: rest)) : Takes readItems t [v] rest := by
  obtain ⟨hshort, hread⟩ := h
  refine ⟨Nat.lt_trans (Nat.lt_succ_self _) hshort, ?_⟩
  rw [readItems, hread]
  rfl

theorem readItems_more {vs : List Json} (h : Takes readValue t v (',' :: u))
    (hmore : Takes readItems u vs rest) : Takes readItems t (v :: vs) rest := by
  obtain ⟨hshort, hread⟩ := h
  obtain ⟨hshort', hread'⟩ := hmore
  refine ⟨Nat.lt_trans hshort' (Nat.lt_trans (Nat.lt_succ_self _) hshort), ?_⟩
  rw [readItems, hread]
  simp [expect, hread']

theorem readMembers_last {name : Text} (hname : Takes readText t name (':' :: u))
    (h : Takes readValue u v ('\x7d' :: rest)) : Takes readMembers ('"' :: t) [(name, v)] rest := by
  obtain ⟨hshort, hread⟩ := hname
  obtain ⟨hshort', hread'⟩ := h
  simp only [List.length_cons] at hshort hshort'
  refine ⟨by simp only [List.length_cons]; omega, ?_⟩
  rw [readMembers]
  simp [expect, hread, hread']

theorem readMembers_more {name w : Text} {vs : List (Text × Json)}
    (hname : Takes readText t name (':' :: u)) (h : Takes readValue u v (',' :: w))
    (hmore : Takes readMembers w vs rest) :
    Takes readMembers ('"' :: t) ((name, v) :: vs) rest := by
  obtain ⟨hshort, hread⟩ := hname
  obtain ⟨hshort', hread'⟩ := h
  obtain ⟨hshort'', hread''⟩ := hmore
  simp only [List.length_cons] at hshort hshort'
  refine ⟨by simp only [List.length_cons]; omega, ?_⟩
  rw [readMembers]
  simp [expect, hread, hread', hread'']

end

/-! ## Values -/

theorem readValue_ofNat (n : Nat) {rest : Text} (hrest : EndsNumber rest) :
    Takes readValue (Text.ofNat n ++ rest) (.num n) rest := by
  have hnumber := readNumber_ofNat n hrest
  cases hn : Text.ofNat n with
  | nil => exact absurd hn Nat.toDigits_ne_nil
  | cons c t =>
      have hc : c.isDigit = true := Text.isDigit_of_mem_ofNat (hn ▸ List.mem_cons_self)
      have hne : ∀ d : Char, d.isDigit = false → c ≠ d := by
        rintro d hd rfl
        rw [hc] at hd
        cases hd
      rw [hn, List.cons_append] at hnumber
      obtain ⟨h, hread⟩ := hnumber
      rw [List.cons_append]
      refine ⟨h, ?_⟩
      rw [readValue, if_neg (hne '"' rfl), if_neg (hne '[' rfl), if_neg (hne '\x7b' rfl), if_pos hc,
        hread]
      rfl

theorem readValue_printText (t rest : Text) :
    Takes readValue (printText t ++ rest) (.str t) rest := by
  obtain ⟨h, hread⟩ := readText_printed t rest
  have htext : printText t ++ rest = '"' :: (t.flatMap escapeChar ++ '"' :: rest) := by
    simp [printText]
  rw [htext]
  refine ⟨Nat.lt_succ_of_lt h, ?_⟩
  rw [readValue, if_pos rfl, hread]
  rfl

/-- No value is written so that it could be taken for the end of a list. -/
theorem expect_print (v : Json) (rest : Text) : expect ']' (v.print ++ rest) = none := by
  cases v with
  | null => rfl
  | bool b => cases b <;> rfl
  | num n =>
      rw [print]
      cases hn : Text.ofNat n with
      | nil => exact absurd hn Nat.toDigits_ne_nil
      | cons c t =>
          refine expect_eq_none ?_ _
          rintro rfl
          exact absurd (Text.isDigit_of_mem_ofNat (hn ▸ List.mem_cons_self)) (by decide)
  | str t => rfl
  | arr items => rfl
  | obj members => rfl

theorem expect_printItems (v : Json) (vs : List Json) (rest : Text) :
    expect ']' (printItems (v :: vs) ++ rest) = none := by
  cases vs with
  | nil =>
      rw [printItems]
      exact expect_print v rest
  | cons w vs =>
      rw [printItems, List.append_assoc]
      · exact expect_print v _
      · simp

theorem expect_printMembers (member : Text × Json) (members : List (Text × Json)) (rest : Text) :
    expect '\x7d' (printMembers (member :: members) ++ rest) = none := by
  cases members with
  | nil =>
      rw [printMembers]
      exact expect_eq_none (by decide) _
  | cons next members =>
      rw [printMembers]
      · exact expect_eq_none (by decide) _
      · simp

mutual

/-- A value is read back from its text, whatever follows. -/
theorem readValue_print : ∀ (v : Json) {rest : Text}, EndsNumber rest →
    Takes readValue (v.print ++ rest) v rest
  | .null, rest, _ => by
      rw [print]
      exact readValue_word (by decide) ⟨_, rfl⟩
  | .bool true, rest, _ => by
      rw [print]
      exact readValue_word (by decide) ⟨_, rfl⟩
  | .bool false, rest, _ => by
      rw [print]
      exact readValue_word (by decide) ⟨_, rfl⟩
  | .num n, rest, hrest => by
      -- The one value that has no end of its own.
      rw [print]
      exact readValue_ofNat n hrest
  | .str t, rest, _ => by
      rw [print]
      exact readValue_printText t rest
  | .arr [], rest, _ => by
      rw [print, printItems]
      exact readValue_noItems rest
  | .arr (v :: vs), rest, _ => by
      rw [print, List.append_assoc, List.singleton_append, List.cons_append]
      exact readValue_items (expect_printItems v vs _) (readItems_print (v :: vs) (by simp) rest)
  | .obj [], rest, _ => by
      rw [print, printMembers]
      exact readValue_noMembers rest
  | .obj (member :: members), rest, _ => by
      rw [print, List.append_assoc, List.singleton_append, List.cons_append]
      exact readValue_members (expect_printMembers member members _)
        (readMembers_print (member :: members) (by simp) rest)

theorem readItems_print : ∀ (vs : List Json), vs ≠ [] → ∀ rest : Text,
    Takes readItems (printItems vs ++ ']' :: rest) vs rest
  | [], hne, _ => absurd rfl hne
  | [v], _, rest => by
      rw [printItems]
      exact readItems_last (readValue_print v (endsNumber_cons rfl rest))
  | v :: w :: vs, _, rest => by
      have hmore := readItems_print (w :: vs) (by simp) rest
      rw [printItems, List.append_assoc, List.cons_append]
      · exact readItems_more (readValue_print v (endsNumber_cons rfl _)) hmore
      · simp

theorem readMembers_print : ∀ (vs : List (Text × Json)), vs ≠ [] → ∀ rest : Text,
    Takes readMembers (printMembers vs ++ '\x7d' :: rest) vs rest
  | [], hne, _ => absurd rfl hne
  | [(name, v)], _, rest => by
      have hv := readValue_print v (endsNumber_cons (c := '\x7d') rfl rest)
      have hname := readText_printed name (':' :: (v.print ++ '\x7d' :: rest))
      have htext : printMembers [(name, v)] ++ '\x7d' :: rest =
          '"' :: (name.flatMap escapeChar ++ '"' :: ':' :: (v.print ++ '\x7d' :: rest)) := by
        simp [printMembers, printText]
      rw [htext]
      exact readMembers_last hname hv
  | (name, v) :: member :: vs, _, rest => by
      have hmore := readMembers_print (member :: vs) (by simp) rest
      have hv := readValue_print v
        (endsNumber_cons (c := ',') rfl (printMembers (member :: vs) ++ '\x7d' :: rest))
      have hname := readText_printed name
        (':' :: (v.print ++ ',' :: (printMembers (member :: vs) ++ '\x7d' :: rest)))
      have htext : printMembers ((name, v) :: member :: vs) ++ '\x7d' :: rest =
          '"' :: (name.flatMap escapeChar ++ '"' :: ':' ::
            (v.print ++ ',' :: (printMembers (member :: vs) ++ '\x7d' :: rest))) := by
        simp [printMembers, printText]
      rw [htext]
      exact readMembers_more hname hv hmore

end

theorem read?_print (v : Json) : read? v.print = some v := by
  have hnil : EndsNumber [] := by simp [EndsNumber]
  have htakes := readValue_print v hnil
  rw [List.append_nil] at htakes
  obtain ⟨_, hread⟩ := htakes
  rw [read?, hread]
  rfl

/-! ## Parts of a value -/

/-- The member of an object that has a name. -/
def member? (name : Text) : Json → Option Json
  | .obj members => members.lookup name
  | _ => none

/-- The text a value is. -/
def text? : Json → Option Text
  | .str t => some t
  | _ => none

/-- The number a value is. -/
def nat? : Json → Option Nat
  | .num n => some n
  | _ => none

/-- The truth value a value is. -/
def bool? : Json → Option Bool
  | .bool b => some b
  | _ => none

/-- What a value is if it is not missing. -/
def optional? {α : Type} (f : Json → Option α) : Json → Option (Option α)
  | .null => some none
  | v => (f v).map some

@[simp] theorem optional?_ofOption_str (t : Option Text) :
    optional? text? (.ofOption .str t) = some t := by
  cases t with
  | none => rfl
  | some t => rfl

end Json

open Json (member? text? nat? bool? optional?)

/-! ## Edits, actions and outcomes of values -/

/-- The edit of a value. -/
def Edit.ofJson? (v : Json) : Option Edit := do
  let kind ← (v.member? "kind".toList).bind text?
  let kind ← EditKind.ofName? kind
  let start ← (v.member? "start".toList).bind nat?
  let stop ← (v.member? "end".toList).bind nat?
  let code ← (v.member? "new_code".toList).bind (optional? text?)
  some ⟨kind, ⟨start, stop⟩, code⟩

mutual

/-- The action of a value: a group if the value has actions, and an edit if not. -/
def Action.ofJson? : Json → Option Action
  | .obj members =>
      match Action.membersOf? members with
      | some as => as.map .group
      | none => (Edit.ofJson? (.obj members)).map .edit
  | _ => none

/-- What the members of an object say about actions: nothing, or a list that can be read or not. -/
def Action.membersOf? : List (Text × Json) → Option (Option (List Action))
  | [] => none
  | (name, v) :: members =>
      if name = "actions".toList then some (Action.ofList? v) else Action.membersOf? members

/-- The actions of a list. -/
def Action.ofList? : Json → Option (List Action)
  | .arr items => Action.ofJsons? items
  | _ => none

/-- The actions of values. -/
def Action.ofJsons? : List Json → Option (List Action)
  | [] => some []
  | v :: vs => do
      let a ← Action.ofJson? v
      let as ← Action.ofJsons? vs
      some (a :: as)

end

/-- The outcome of a value.  What is left out was not asked for. -/
def Outcome.ofJson? (v : Json) : Option Outcome := do
  let file ← (v.member? "file_path".toList).bind (optional? text?)
  let affected ← (v.member? "affected".toList).bind bool?
  let conflicted ← (v.member? "conflicted".toList).bind bool?
  let source ← (v.member? "new_source".toList).mapM text?
  let actions ← (v.member? "actions".toList).mapM Action.ofList?
  some ⟨file.map Text.toUTF8, affected, conflicted, source, actions⟩

theorem Edit.ofJson?_toJson (e : Edit) : Edit.ofJson? e.toJson = some e := by
  simp [Edit.ofJson?, Edit.toJson, member?, List.lookup_cons, text?, nat?, EditKind.ofName?_name]

mutual

theorem Action.ofJson?_toJson : ∀ a : Action, Action.ofJson? a.toJson = some a
  | .edit e => by
      have he := Edit.ofJson?_toJson e
      rw [Edit.toJson] at he
      rw [Action.toJson, Edit.toJson, Action.ofJson?, he]
      rfl
  | .group members => by
      have hmembers := Action.ofJsons?_toJsons members
      rw [Action.toJson, Action.ofJson?]
      simp [Action.membersOf?, Action.ofList?, hmembers]

theorem Action.ofJsons?_toJsons : ∀ as : List Action, Action.ofJsons? (Action.toJsons as) = some as
  | [] => rfl
  | a :: as => by
      rw [Action.toJsons, Action.ofJsons?, Action.ofJson?_toJson a, Action.ofJsons?_toJsons as]
      rfl

end

namespace Outcome

/-- The name of the file, if there is one, is a text. -/
def NamedByText (o : Outcome) : Prop := ∀ name ∈ o.file, ∃ t : Text, t.toUTF8 = name

section

variable {o : Outcome}

theorem mapM_ofUTF8?_iff {file : Option ByteArray} {name : Option Text} :
    file.mapM Text.ofUTF8? = some name ↔ name.map Text.toUTF8 = file := by
  cases file with
  | none => cases name <;> simp
  | some bytes => cases name <;> simp [Text.ofUTF8?_eq_some_iff]

theorem namedByText_iff : o.NamedByText ↔ ∃ name, o.file.mapM Text.ofUTF8? = some name := by
  simp only [mapM_ofUTF8?_iff, NamedByText]
  cases o.file with
  | none => simp
  | some bytes => simp

/-- Exactly the outcomes with a name that is a text have a value of JSON. -/
theorem exists_toJson?_iff : (∃ v, o.toJson? = some v) ↔ o.NamedByText := by
  rw [namedByText_iff, toJson?]
  cases o.file.mapM Text.ofUTF8? with
  | none => simp
  | some name => simp

theorem ofJson?_of_toJson? {v : Json} (h : o.toJson? = some v) : Outcome.ofJson? v = some o := by
  obtain ⟨file, affected, conflicted, source, actions⟩ := o
  obtain ⟨name, hname, hv⟩ := Option.bind_eq_some_iff.mp h
  obtain rfl := mapM_ofUTF8?_iff.mp hname
  obtain rfl := Option.some.inj hv
  cases source with
  | none => cases actions <;>
      simp [ofJson?, member?, List.lookup_cons, bool?, Action.ofList?, Action.ofJsons?_toJsons]
  | some text => cases actions <;>
      simp [ofJson?, member?, List.lookup_cons, text?, bool?, Action.ofList?,
        Action.ofJsons?_toJsons]

/-- The outcome a text is the JSON text of. -/
def decode? (t : Text) : Option Outcome :=
  (Json.read? t).bind ofJson?

theorem decode?_of_print? {t : Text} (h : o.print? = some t) : decode? t = some o := by
  obtain ⟨v, hv, rfl⟩ := Option.map_eq_some_iff.mp h
  rw [decode?, Json.read?_print]
  exact ofJson?_of_toJson? hv

theorem print?_eq_none_iff : o.print? = none ↔ ¬ o.NamedByText := by
  rw [← exists_toJson?_iff, print?, Option.map_eq_none_iff, ← Option.isSome_iff_exists]
  simp

end

/-- An outcome has a JSON text unless the name of its file is no text, it is decoded from its JSON
text, and different outcomes have different texts. -/
theorem decode_print :
    (∀ o : Outcome, o.NamedByText → ∃ t, o.print? = some t ∧ decode? t = some o) ∧
    (∀ o : Outcome, ¬ o.NamedByText → o.print? = none) ∧
    ∀ (o o' : Outcome) (t : Text), o ≠ o' → o.print? = some t → o'.print? ≠ some t := by
  refine ⟨?_, fun o => print?_eq_none_iff.mpr, ?_⟩
  · intro o hnamed
    obtain ⟨v, hv⟩ := exists_toJson?_iff.mpr hnamed
    have hprint : o.print? = some v.print := by rw [print?, hv, Option.map_some]
    exact ⟨v.print, hprint, decode?_of_print? hprint⟩
  · intro o o' t hne hprint hprint'
    have hsame : some o = some o' := (decode?_of_print? hprint).symm.trans (decode?_of_print? hprint')
    exact hne (Option.some.inj hsame)

/-- An outcome from a file with a quote in its name.  Of its two actions one is a group, and the
other is an edit whose kind is that of groups. -/
def quotedName : Outcome where
  file := some (Text.toUTF8 "a\"b.rs".toList)
  affected := true
  conflicted := false
  source := none
  actions := some [.group [.group [], .edit ⟨.insert, ⟨2, 2⟩, some "\n".toList⟩],
    .edit ⟨.group, ⟨4, 7⟩, none⟩]

/-- The same from a file with a name that is no text. -/
def unnamed : Outcome :=
  { quotedName with file := some ⟨#[255]⟩ }

theorem decode_print_quotedName :
    (quotedName.NamedByText ∧ ∃ t, quotedName.print? = some t ∧ decode? t = some quotedName) ∧
    (¬ unnamed.NamedByText ∧ unnamed.print? = none) ∧
    (quotedName ≠ unaffected ∧ ∃ t, unaffected.print? = some t ∧ quotedName.print? ≠ some t) := by
  obtain ⟨hdecode, hnone, hdiffer⟩ := decode_print
  have hquoted : quotedName.NamedByText := by
    rintro name ⟨⟩
    exact ⟨_, rfl⟩
  have hunnamed : ¬ unnamed.NamedByText := by
    intro hnamed
    obtain ⟨t, ht⟩ := hnamed ⟨#[255]⟩ rfl
    have hread : Text.ofUTF8? ⟨#[255]⟩ = none := by decide
    cases hread.symm.trans (Text.ofUTF8?_eq_some_iff.mpr ht)
  have hne : quotedName ≠ unaffected := fun he => absurd (congrArg Outcome.affected he) (by decide)
  obtain ⟨t, ht, -⟩ := hdecode unaffected nofun
  exact ⟨⟨hquoted, hdecode quotedName hquoted⟩, ⟨hunnamed, hnone unnamed hunnamed⟩,
    hne, t, ht, hdiffer unaffected quotedName t hne.symm ht⟩

end Outcome

end Emend
