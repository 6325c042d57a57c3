import Emend.Text.Decimal

/-!
# Spans

A span is a pair of byte offsets `[start, stop)`.  Its bounds are kept as given:
a span may be inverted or lie outside every text, and whether it fits a text is
asked only when an edit is applied.  A span of width zero is a place to insert
at.

Spans are ordered by their start and then by their stop.  `sortOn` sorts a list
by the spans of its members and keeps members of equal spans in the order they
had.  That it only rearranges the list is `sortOn_perm`, and that the result is
in order is `sortOn_pairwise`.
-/

namespace Emend

/-- A half-open interval of byte offsets. -/
structure Span where
  /-- The first offset. -/
  start : Nat
  /-- The offset after the last. -/
  stop : Nat
deriving DecidableEq, Repr, Inhabited

namespace Span

/-- The span of width zero at an offset. -/
def point (n : Nat) : Span := ⟨n, n⟩

/-- The number of bytes; zero for an inverted span. -/
def width (s : Span) : Nat := s.stop - s.start

/-- Whether the bounds are in the wrong order. -/
def isInverted (s : Span) : Bool := s.stop < s.start

/-- Whether the span has width zero. -/
def isEmpty (s : Span) : Bool := s.start = s.stop

/-- The least span around two. -/
def cover (a b : Span) : Span := ⟨min a.start b.start, max a.stop b.stop⟩

/-- The least span around some, if there are any. -/
def hull? : List Span → Option Span
  | [] => none
  | s :: l => some (l.foldl cover s)

/-- The text at a span, if its bounds are boundaries of the text in order. -/
def slice? (s : Span) (t : Text) : Option Text := t.slice? s.start s.stop

/-- Whether a span can be cut out of a text. -/
def fits (s : Span) (t : Text) : Bool :=
  s.start ≤ s.stop && s.stop ≤ t.size && t.isBoundary s.start && t.isBoundary s.stop

/-- How messages show a span. -/
def display (s : Span) : Text :=
  "[".toList ++ Text.ofNat s.start ++ ", ".toList ++ Text.ofNat s.stop ++ ")".toList

/-! ## Order -/

/-- Spans are ordered by start and then by stop. -/
protected def le (a b : Span) : Prop := a.start < b.start ∨ a.start = b.start ∧ a.stop ≤ b.stop

instance : LE Span := ⟨Span.le⟩

instance (a b : Span) : Decidable (a ≤ b) :=
  inferInstanceAs (Decidable (a.start < b.start ∨ a.start = b.start ∧ a.stop ≤ b.stop))

theorem le_def {a b : Span} :
    a ≤ b ↔ a.start < b.start ∨ a.start = b.start ∧ a.stop ≤ b.stop := Iff.rfl

theorem le_refl (a : Span) : a ≤ a := Or.inr ⟨rfl, Nat.le_refl _⟩

theorem le_trans {a b c : Span} (hab : a ≤ b) (hbc : b ≤ c) : a ≤ c := by
  rw [le_def] at *
  omega

theorem le_total (a b : Span) : a ≤ b ∨ b ≤ a := by
  rw [le_def, le_def]
  omega

/-- How two spans compare. -/
def compare (a b : Span) : Ordering :=
  (Ord.compare a.start b.start).then (Ord.compare a.stop b.stop)

/-! ## Stable sorting -/

section

variable {α : Type}

/-- Put a member into a sorted list, in front of the members of equal span. -/
def insertOn (f : α → Span) (a : α) : List α → List α
  | [] => [a]
  | b :: l => if f a ≤ f b then a :: b :: l else b :: insertOn f a l

/-- A list in the order of its members' spans.  Members of equal spans keep their
order. -/
def sortOn (f : α → Span) : List α → List α
  | [] => []
  | a :: l => insertOn f a (sortOn f l)

theorem insertOn_perm (f : α → Span) (a : α) (l : List α) : (insertOn f a l).Perm (a :: l) := by
  induction l with
  | nil => exact List.Perm.refl _
  | cons b l ih =>
      rw [insertOn]
      split
      next => exact List.Perm.refl _
      next => exact (ih.cons b).trans (List.Perm.swap a b l)

/-- Sorting only rearranges a list. -/
theorem sortOn_perm (f : α → Span) (l : List α) : (sortOn f l).Perm l := by
  induction l with
  | nil => exact List.Perm.refl _
  | cons a l ih => exact (insertOn_perm f a _).trans (ih.cons a)

theorem insertOn_pairwise (f : α → Span) (a : α) {l : List α}
    (h : l.Pairwise fun x y => f x ≤ f y) :
    (insertOn f a l).Pairwise fun x y => f x ≤ f y := by
  induction l with
  | nil => exact List.pairwise_singleton _ a
  | cons b l ih =>
      obtain ⟨hb, hl⟩ := List.pairwise_cons.mp h
      rw [insertOn]
      split
      next hab =>
        refine List.pairwise_cons.mpr ⟨fun x hx => ?_, h⟩
        cases List.mem_cons.mp hx with
        | inl he => exact he ▸ hab
        | inr hx' => exact le_trans hab (hb x hx')
      next hab =>
        refine List.pairwise_cons.mpr ⟨fun x hx => ?_, ih hl⟩
        cases List.mem_cons.mp ((insertOn_perm f a l).mem_iff.mp hx) with
        | inl he => exact he ▸ (le_total (f a) (f b)).resolve_left hab
        | inr hx' => exact hb x hx'

/-- A sorted list is in the order of its members' spans. -/
theorem sortOn_pairwise (f : α → Span) (l : List α) :
    (sortOn f l).Pairwise fun x y => f x ≤ f y := by
  induction l with
  | nil => exact List.Pairwise.nil
  | cons a l ih => exact insertOn_pairwise f a ih

end

/-- Whether two neighbours of a list of spans overlap: the first ends after the
second starts. -/
def anyOverlap : List Span → Bool
  | a :: b :: l => b.start < a.stop || anyOverlap (b :: l)
  | _ => false

example : sortOn id [⟨6, 9⟩, ⟨6, 6⟩, ⟨0, 12⟩] = [⟨0, 12⟩, ⟨6, 6⟩, ⟨6, 9⟩] := by decide
example : hull? [⟨6, 9⟩, ⟨2, 4⟩] = some ⟨2, 9⟩ := by decide

end Span

end Emend
