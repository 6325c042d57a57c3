import Emend.Host.Literal
import Emend.Proofs.TemplateGrammar

/-!
# Braces

The braces of a text are balanced if no leading part of it closes more of them than it opens,
and all are closed at the end.  `depth?` counts the open braces along a text, and with it a text
can be taken apart: what comes first leaves a number of braces open, and what comes next starts
with them.  The brace that opens a text is matched by the one that closes it if the text in
between is balanced (`Enclosed`).

Stripping and wrapping look at the first and the last character only.  If these are a pair of
braces that do not match each other, as where one block is added to another, stripping tears two
pairs apart, and wrapping takes the text for one that is wrapped already.  In all other cases
both keep to the structure (`braces_follow_nesting`).
-/

namespace Emend

namespace Text

/-! ## Balanced texts -/

/-- Every closing brace has an opening one before it, and every opening one a closing one after
it. -/
structure Balanced (t : Text) : Prop where
  /-- No leading part closes more braces than it opens. -/
  closed_le : ∀ part, part <+: t → part.count '\x7d' ≤ part.count '\x7b'
  /-- As many braces are opened as are closed. -/
  count_eq : t.count '\x7b' = t.count '\x7d'

/-- How many braces are open after a text, if so many are open before it.  There is no answer
if a brace is closed that is not open. -/
def depth? : Nat → Text → Option Nat
  | d, [] => some d
  | d, c :: t =>
      if c = '\x7b' then depth? (d + 1) t
      else if c = '\x7d' then
        match d with
        | 0 => none
        | d + 1 => depth? d t
      else depth? d t

section

variable {d e : Nat} {c : Char} {a b t : Text}

theorem depth?_open (d : Nat) (t : Text) : depth? d ('\x7b' :: t) = depth? (d + 1) t := rfl

theorem depth?_close (d : Nat) (t : Text) : depth? (d + 1) ('\x7d' :: t) = depth? d t := rfl

theorem depth?_other (hopen : c ≠ '\x7b') (hclose : c ≠ '\x7d') (d : Nat) (t : Text) :
    depth? d (c :: t) = depth? d t := by
  cases d <;> rw [depth?, if_neg hopen, if_neg hclose]

theorem depth?_append (d : Nat) (a b : Text) :
    depth? d (a ++ b) = (depth? d a).bind fun e => depth? e b := by
  induction a generalizing d with
  | nil => rfl
  | cons c a ih =>
      by_cases hopen : c = '\x7b'
      · rw [hopen, List.cons_append, depth?_open, depth?_open, ih]
      · by_cases hclose : c = '\x7d'
        · rw [hclose, List.cons_append]
          cases d with
          | zero => rfl
          | succ d => rw [depth?_close, depth?_close, ih]
        · rw [List.cons_append, depth?_other hopen hclose, depth?_other hopen hclose, ih]

theorem forall_part_cons {P : Text → Prop} :
    (∀ part, part <+: c :: t → P part) ↔ P [] ∧ ∀ part, part <+: t → P (c :: part) := by
  constructor
  · intro h
    exact ⟨h [] List.nil_prefix, fun part hpart => h _ (List.cons_prefix_cons.mpr ⟨rfl, hpart⟩)⟩
  · rintro ⟨hnil, hcons⟩ part hpart
    rcases List.prefix_cons_iff.mp hpart with rfl | ⟨rest, rfl, hrest⟩
    · exact hnil
    · exact hcons rest hrest

/-- The number of open braces, by the numbers of braces in the text and in its leading parts. -/
theorem depth?_eq_some_iff :
    depth? d t = some e ↔
      (∀ part, part <+: t → part.count '\x7d' ≤ d + part.count '\x7b') ∧
        e + t.count '\x7d' = d + t.count '\x7b' := by
  induction t generalizing d with
  | nil => simp [depth?, eq_comm]
  | cons c t ih =>
      rw [forall_part_cons]
      by_cases hopen : c = '\x7b'
      · subst hopen
        rw [depth?_open, ih]
        simp [Nat.add_assoc, Nat.add_comm 1]
      · by_cases hclose : c = '\x7d'
        · subst hclose
          cases d with
          | zero =>
              refine iff_of_false (by simp [depth?]) fun h => ?_
              simpa using h.1.2 [] List.nil_prefix
          | succ d =>
              rw [depth?_close, ih]
              simp [← Nat.add_assoc, Nat.add_right_comm d 1]
        · rw [depth?_other hopen hclose, ih]
          simp [hopen, hclose]

theorem balanced_iff : Balanced t ↔ depth? 0 t = some 0 := by
  rw [depth?_eq_some_iff]
  simp only [Nat.zero_add]
  exact ⟨fun h => ⟨h.closed_le, h.count_eq.symm⟩, fun h => ⟨h.1, h.2.symm⟩⟩

instance (t : Text) : Decidable (Balanced t) := decidable_of_iff _ balanced_iff.symm

/-- Braces that are open before a text stay open. -/
theorem depth?_add (h : depth? d t = some e) (k : Nat) : depth? (d + k) t = some (e + k) := by
  obtain ⟨hle, heq⟩ := depth?_eq_some_iff.mp h
  refine depth?_eq_some_iff.mpr ⟨fun part hpart => ?_, by omega⟩
  have := hle part hpart
  omega

theorem depth?_of_isBlank (h : t.isBlank = true) (d : Nat) : depth? d t = some d := by
  induction t with
  | nil => rfl
  | cons c t ih =>
      obtain ⟨hc, ht⟩ := Bool.and_eq_true_iff.mp h
      have hopen : c ≠ '\x7b' := fun he => absurd (he ▸ hc) (by decide)
      have hclose : c ≠ '\x7d' := fun he => absurd (he ▸ hc) (by decide)
      rw [depth?_other hopen hclose, ih ht]

/-- Blanks at the ends have no bearing on the braces of a text. -/
theorem balanced_blanks_iff (ha : a.isBlank = true) (hb : b.isBlank = true) :
    Balanced (a ++ t ++ b) ↔ Balanced t := by
  rw [balanced_iff, balanced_iff, depth?_append, depth?_append, depth?_of_isBlank ha,
    Option.bind_some]
  simp only [depth?_of_isBlank hb, Option.bind_fun_some]

theorem balanced_trim_iff : Balanced t.trim ↔ Balanced t := by
  obtain ⟨a, b, ha, hb, ht⟩ := exists_blanks_around_trim t
  conv_rhs => rw [ht]
  exact (balanced_blanks_iff ha hb).symm

/-! ## Texts in braces -/

/-- A text starts with an opening brace and ends with a closing one. -/
def Braced (t : Text) : Prop := ∃ inner, t = '\x7b' :: (inner ++ ['\x7d'])

/-- A text starts with an opening brace that is matched by the closing one at its end. -/
def Enclosed (t : Text) : Prop := ∃ inner, t = '\x7b' :: (inner ++ ['\x7d']) ∧ Balanced inner

theorem braced_iff : Braced t ↔ t.head? = some '\x7b' ∧ t.getLast? = some '\x7d' := by
  constructor
  · rintro ⟨inner, rfl⟩
    exact ⟨rfl, by rw [← List.cons_append, List.getLast?_concat]⟩
  · rintro ⟨hhead, hlast⟩
    obtain ⟨front, rfl⟩ := List.getLast?_eq_some_iff.mp hlast
    cases front with
    | nil => exact absurd hhead (by decide)
    | cons c inner =>
        obtain rfl : c = '\x7b' := Option.some.inj hhead
        exact ⟨inner, rfl⟩

/-- Braces around a balanced text are balanced. -/
theorem Balanced.braces {inner : Text} (h : Balanced inner) :
    Balanced ('\x7b' :: (inner ++ ['\x7d'])) := by
  have hinner := depth?_add (balanced_iff.mp h) 1
  rw [balanced_iff, depth?_open, depth?_append, hinner]
  rfl

theorem enclosed_braces_iff {inner : Text} :
    Enclosed ('\x7b' :: (inner ++ ['\x7d'])) ↔ Balanced inner := by
  constructor
  · rintro ⟨other, heq, hother⟩
    rwa [List.append_cancel_right (List.cons.inj heq).2]
  · exact fun h => ⟨inner, rfl, h⟩

end

end Text

namespace Literal

open Text (Balanced Braced Enclosed)

/-! ## Stripping and wrapping -/

section

variable {t inner : Text}

theorem unwrap?_eq_some_iff {first last : Char} :
    unwrap? first last t = some inner ↔ t = first :: (inner ++ [last]) := by
  cases t with
  | nil => simp [unwrap?]
  | cons c rest =>
      rw [unwrap?]
      constructor
      · intro h
        obtain ⟨⟨hc, hlast⟩, hinner⟩ := Option.ite_none_right_eq_some.mp h
        obtain ⟨front, rfl⟩ := List.getLast?_eq_some_iff.mp hlast
        rw [← Option.some.inj hinner, hc, List.dropLast_concat]
      · intro h
        obtain ⟨hc, rfl⟩ := List.cons.inj h
        rw [if_pos ⟨hc, List.getLast?_concat⟩, List.dropLast_concat]

theorem stripBraces_of_braces (h : t.trim = '\x7b' :: (inner ++ ['\x7d'])) :
    stripBraces t = inner.trim := by
  rw [stripBraces, unwrap?_eq_some_iff.mpr h]

theorem stripBraces_of_not_braced (h : ¬ Braced t.trim) : stripBraces t = t := by
  rw [stripBraces]
  split
  next inner hinner => exact absurd ⟨inner, unwrap?_eq_some_iff.mp hinner⟩ h
  next => rfl

theorem wrapBraces_of_braced (h : Braced t.trim) : wrapBraces t = t.trim :=
  if_pos (Text.braced_iff.mp h)

theorem wrapBraces_of_not_braced (h : ¬ Braced t.trim) :
    wrapBraces t = '\x7b' :: ([' '] ++ t.trim ++ [' '] ++ ['\x7d']) := by
  rw [wrapBraces]
  simp only [if_neg (mt Text.braced_iff.mpr h)]
  simp

end

/-- Stripping and wrapping keep to the structure of balanced braces unless the text starts and
ends with braces that do not match each other.  Then, and only then, the stripped text is not
balanced, and the first brace of the wrapped text is not matched by the last one.  The wrapped
text is balanced in any case, and it starts and ends with a brace. -/
theorem braces_follow_nesting {t : Text} (h : Balanced t) :
    (Balanced (stripBraces t) ↔ (Braced t.trim → Enclosed t.trim)) ∧
    Balanced (wrapBraces t) ∧ Braced (wrapBraces t) ∧
    (Enclosed (wrapBraces t) ↔ (Braced t.trim → Enclosed t.trim)) := by
  have htrim := Text.balanced_trim_iff.mpr h
  by_cases hbraced : Braced t.trim
  · simp only [hbraced, forall_const]
    rw [wrapBraces_of_braced hbraced]
    refine ⟨?_, htrim, hbraced, Iff.rfl⟩
    obtain ⟨inner, hinner⟩ := hbraced
    rw [stripBraces_of_braces hinner, hinner, Text.enclosed_braces_iff, Text.balanced_trim_iff]
  · have hbody : Balanced ([' '] ++ t.trim ++ [' ']) :=
      (Text.balanced_blanks_iff (by decide) (by decide)).mpr htrim
    rw [stripBraces_of_not_braced hbraced, wrapBraces_of_not_braced hbraced]
    simp only [hbraced, false_implies, iff_true]
    exact ⟨h, hbody.braces, ⟨_, rfl⟩, _, rfl, hbody⟩

/-- A block that holds two blocks, between blanks. -/
def nestedBlocks : Text := "\u00a0\x7b \x7ba\x7d \x7bb\x7d\x7d\n".toList

theorem braces_follow_nesting_blocks :
    Balanced nestedBlocks ∧ Balanced (stripBraces nestedBlocks) ∧
    Enclosed (wrapBraces nestedBlocks) := by
  have hbalanced : Balanced nestedBlocks := by decide
  have htrim : nestedBlocks.trim = '\x7b' :: (" \x7ba\x7d \x7bb\x7d".toList ++ ['\x7d']) := by
    decide
  have henclosed : Enclosed nestedBlocks.trim := by
    rw [htrim, Text.enclosed_braces_iff]
    decide
  obtain ⟨hstrip, -, -, hwrap⟩ := braces_follow_nesting hbalanced
  exact ⟨hbalanced, hstrip.mpr fun _ => henclosed, hwrap.mpr fun _ => henclosed⟩

/-- One block added to another. -/
def twoBlocks : Text := "\x7b 1 \x7d + \x7b 2 \x7d".toList

/-- The outer braces of two blocks are taken for a pair. -/
theorem braces_tear_two_blocks :
    Balanced twoBlocks ∧ stripBraces twoBlocks = "1 \x7d + \x7b 2".toList ∧
    ¬ Balanced (stripBraces twoBlocks) ∧ wrapBraces twoBlocks = twoBlocks ∧
    ¬ Enclosed (wrapBraces twoBlocks) := by
  have hwrap : wrapBraces twoBlocks =
      '\x7b' :: (" 1 \x7d + \x7b 2 ".toList ++ ['\x7d']) := by
    decide
  refine ⟨by decide, by decide, by decide, by decide, ?_⟩
  rw [hwrap, Text.enclosed_braces_iff]
  decide

end Literal

end Emend
