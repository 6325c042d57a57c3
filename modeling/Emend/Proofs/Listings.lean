import Mathlib.Data.List.Forall2
import Emend.Host.Table
import Emend.Proofs.Placeholders
import Emend.Proofs.Widening

/-!
# Deleting an element of a list

A *listing* is a source with a list in it: elements with separators between them, and
possibly a comma after the last one.  A separator is a comma with spaces before it and a
gap after it, where a gap may run over lines.  One element is singled out.

Deleting that element with its comma leaves a list of the others.  Which comma goes
depends on what follows the element.

* If a comma follows, that of a separator or the one after the list, it goes, and the
  separator before the element takes its place.
* If none follows, the element is the last one, and the comma before it goes, or none if
  it is the only one.

In both cases spaces that follow go too, so elements next to the deleted one may lose
spaces at their ends.  The relation `Spells` says when a text is a list of elements up to
such gaps.  It does not change if gaps are put in front of the text or leading spaces are
dropped, which is all that deletion does besides.
-/

namespace Emend

open Region (isGap leadingSpaces)

namespace Text

/-- Two texts are the same up to gaps at their ends. -/
def SameCore (t u : Text) : Prop := t.strip isGap = u.strip isGap

/-- Two texts are the same up to gaps at their start. -/
def SameTail (t u : Text) : Prop := t.dropWhile isGap = u.dropWhile isGap

theorem isGap_of_mem_spaces {k : Nat} {c : Char} (h : c ∈ spaces k) : isGap c = true := by
  rw [List.eq_of_mem_replicate h]
  rfl

theorem isGap_of_mem_leadingSpaces {t : Text} {c : Char} (h : c ∈ leadingSpaces t) :
    isGap c = true := by
  rw [Region.eq_space_of_mem_leadingSpaces h]
  rfl

theorem SameCore.append_spaces (e : Text) (k : Nat) : SameCore (e ++ spaces k) e :=
  strip_append_right (fun _ hc => isGap_of_mem_spaces hc) e

theorem SameCore.gap_append {gap t u : Text} (hgap : ∀ c ∈ gap, isGap c = true)
    (h : SameCore t u) : SameCore (gap ++ t) u :=
  (strip_append_left hgap t).trans h

theorem SameCore.dropSpaces {t u : Text} (h : SameCore t u) :
    SameCore (t.dropWhile (· = ' ')) u := by
  have hstrip := strip_append_left (fun _ hc => isGap_of_mem_leadingSpaces (t := t) hc)
    (t.dropWhile (· = ' '))
  rw [Region.leadingSpaces_append_dropWhile] at hstrip
  exact hstrip.symm.trans h

theorem SameTail.gap_append {gap t u : Text} (hgap : ∀ c ∈ gap, isGap c = true)
    (h : SameTail t u) : SameTail (gap ++ t) u :=
  (List.dropWhile_append_of_pos hgap).trans h

theorem SameTail.dropSpaces {t u : Text} (h : SameTail t u) :
    SameTail (t.dropWhile (· = ' ')) u := by
  have hdrop : (leadingSpaces t ++ t.dropWhile (· = ' ')).dropWhile isGap =
      (t.dropWhile (· = ' ')).dropWhile isGap :=
    List.dropWhile_append_of_pos fun _ hc => isGap_of_mem_leadingSpaces hc
  rw [Region.leadingSpaces_append_dropWhile] at hdrop
  exact hdrop.symm.trans h

end Text

/-! ## Listings -/

/-- A comma between two elements. -/
structure Separator where
  /-- The number of spaces before the comma. -/
  lead : Nat
  /-- What stands after the comma. -/
  gap : Text
  /-- Only a gap stands there. -/
  gap_all : gap.all isGap = true

/-- A separator as text. -/
def Separator.text (s : Separator) : Text := Text.spaces s.lead ++ ',' :: s.gap

theorem Separator.gap_isGap (s : Separator) : ∀ c ∈ s.gap, isGap c = true :=
  List.all_eq_true.mp s.gap_all

/-- A list in a source, with one element singled out. -/
structure Listing where
  /-- What stands before the list. -/
  pre : Text
  /-- The elements before the one singled out, each with the separator after it. -/
  before : List (Text × Separator)
  /-- The element singled out. -/
  element : Text
  /-- The elements after it, each with the separator before it. -/
  after : List (Separator × Text)
  /-- The number of spaces before the comma after the last element, if there is one. -/
  trailing : Option Nat
  /-- What stands after the list. -/
  rest : Text
  /-- No comma stands before the list. -/
  pre_noComma : (pre.dropTail isGap).getLast? ≠ some ','
  /-- No further comma stands after the list. -/
  rest_noComma : (rest.dropWhile (· = ' ')).head? ≠ some ','

namespace Listing

/-- Elements, each with the separator after it, as text. -/
def ahead (es : List (Text × Separator)) : Text := es.flatMap fun (e, s) => e ++ s.text

/-- Elements, each with the separator before it, as text. -/
def behind (es : List (Separator × Text)) : Text := es.flatMap fun (s, e) => s.text ++ e

/-- The comma after the last element as text. -/
def closing : Option Nat → Text
  | none => []
  | some k => Text.spaces k ++ [',']

variable (l : Listing)

/-- What stands after the element that is singled out. -/
def following : Text := behind l.after ++ (closing l.trailing ++ l.rest)

/-- The source. -/
def source : Text := l.pre ++ (ahead l.before ++ (l.element ++ l.following))

/-- Where the element that is singled out stands. -/
def span : Span := .around (l.pre ++ ahead l.before) l.element

/-- The other elements in order. -/
def others : List Text := l.before.map Prod.fst ++ l.after.map Prod.snd

end Listing

/-! ## Texts that spell a list -/

/-- A text is a list of elements with commas between them, and after the last one if asked
for, and then goes on with a rest, all up to gaps. -/
inductive Spells (trailing : Bool) (rest : Text) : List Text → Text → Prop where
  /-- No element is left, and no comma. -/
  | rest {t : Text} (h : t.SameTail rest) : Spells trailing rest [] t
  /-- The last element, if no comma follows it. -/
  | last {e cell t : Text} (htrailing : trailing = false) (hcell : cell.SameCore e)
      (h : t.SameTail rest) : Spells trailing rest [e] (cell ++ t)
  /-- An element before a comma. -/
  | comma {e cell t : Text} {es : List Text} (hmore : es ≠ [] ∨ trailing = true)
      (hcell : cell.SameCore e) (h : Spells trailing rest es t) :
      Spells trailing rest (e :: es) (cell ++ ',' :: t)

namespace Spells

variable {trailing : Bool} {rest t : Text} {es : List Text}

theorem gap_append {gap : Text} (hgap : ∀ c ∈ gap, isGap c = true)
    (h : Spells trailing rest es t) : Spells trailing rest es (gap ++ t) := by
  cases h with
  | rest h => exact .rest (h.gap_append hgap)
  | last htrailing hcell h =>
      rw [← List.append_assoc]
      exact .last htrailing (hcell.gap_append hgap) h
  | comma hmore hcell h =>
      rw [← List.append_assoc]
      exact .comma hmore (hcell.gap_append hgap) h

/-- Spaces that are dropped may reach beyond an element that is nothing but spaces. -/
theorem dropSpaces (h : Spells trailing rest es t) :
    Spells trailing rest es (t.dropWhile (· = ' ')) := by
  cases h with
  | rest h => exact .rest h.dropSpaces
  | @last e cell t htrailing hcell h =>
      rw [List.dropWhile_append]
      split
      next hempty =>
        have hnil := hcell.dropSpaces
        rw [List.isEmpty_iff.mp hempty] at hnil
        exact .last htrailing hnil h.dropSpaces
      next => exact .last htrailing hcell.dropSpaces h
  | @comma e cell t es hmore hcell h =>
      have hstop : (',' :: t).dropWhile (· = ' ') = ',' :: t := rfl
      have hdrop : (cell ++ ',' :: t).dropWhile (· = ' ') =
          cell.dropWhile (· = ' ') ++ ',' :: t := by
        rw [List.dropWhile_append, hstop]
        split
        next hempty => rw [List.isEmpty_iff.mp hempty, List.nil_append]
        next => rfl
      rw [hdrop]
      exact .comma hmore hcell.dropSpaces h

/-- Elements before a separator come in front. -/
theorem ahead_append (h : Spells trailing rest es t) (hmore : es ≠ [] ∨ trailing = true)
    (before : List (Text × Separator)) :
    Spells trailing rest (before.map Prod.fst ++ es) (Listing.ahead before ++ t) := by
  induction before with
  | nil => exact h
  | cons x before ih =>
      obtain ⟨e, s⟩ := x
      have hmore' : before.map Prod.fst ++ es ≠ [] ∨ trailing = true :=
        hmore.imp_left (List.append_ne_nil_of_right_ne_nil _)
      have hcons := Spells.comma hmore' (.append_spaces e s.lead) (ih.gap_append s.gap_isGap)
      simpa [Listing.ahead, Separator.text] using hcons

/-- A list that starts with an element spells its elements. -/
theorem of_following (rest : Text) (closed : Option Nat) (e : Text)
    (after : List (Separator × Text)) :
    Spells closed.isSome rest (e :: after.map Prod.snd)
      (e ++ (Listing.behind after ++ (Listing.closing closed ++ rest))) := by
  induction after generalizing e with
  | nil =>
      cases closed with
      | none => exact .last rfl rfl rfl
      | some k =>
          have hcons : Spells true rest [e] (e ++ Text.spaces k ++ ',' :: rest) :=
            .comma (Or.inr rfl) (.append_spaces e k) (.rest rfl)
          simpa [Listing.behind, Listing.closing] using hcons
  | cons x after ih =>
      obtain ⟨s, e'⟩ := x
      have hcons := Spells.comma (Or.inl (List.cons_ne_nil _ _)) (.append_spaces e s.lead)
        ((ih e').gap_append s.gap_isGap)
      simpa [Listing.behind, Separator.text] using hcons

/-- The elements of the text are cells with single commas between them. -/
theorem exists_cells (h : Spells trailing rest es t) :
    ∃ cells tail, t = [','].intercalate cells ++
        ((if trailing = true ∧ cells ≠ [] then [','] else []) ++ tail) ∧
      List.Forall₂ Text.SameCore cells es ∧ tail.SameTail rest := by
  induction h with
  | @rest t h => exact ⟨[], t, by simp, .nil, h⟩
  | @last e cell t htrailing hcell h =>
      exact ⟨[cell], t, by simp [htrailing], .cons hcell .nil, h⟩
  | @comma e cell t es hmore hcell h ih =>
      obtain ⟨cells, tail, rfl, hcells, htail⟩ := ih
      refine ⟨cell :: cells, tail, ?_, .cons hcell hcells, htail⟩
      by_cases hne : cells = []
      · have htrailing : trailing = true := by
          subst hne
          cases hcells
          simpa using hmore
        simp [hne, htrailing]
      · simp [List.intercalate_cons_of_ne_nil hne, hne]

end Spells

/-! ## Deletion -/

namespace Region

variable {before part after : Text}

/-- A part before a comma goes with the comma and the spaces behind it. -/
theorem deletion?_comma_after (k : Nat) (tail : Text) :
    deletion? true (before ++ (part ++ (Text.spaces k ++ ',' :: tail))) (.around before part) =
      some (.around before (part ++ (Text.spaces k ++ ',' :: leadingSpaces tail))) := by
  have hspaces : ∀ c ∈ Text.spaces k, decide (c = ' ') = true := fun c hc => by
    simp [List.eq_of_mem_replicate hc]
  have hdrop : (Text.spaces k ++ ',' :: tail).dropWhile (· = ' ') = ',' :: tail :=
    List.dropWhile_append_of_pos hspaces
  have hlead : leadingSpaces (Text.spaces k ++ ',' :: tail) = Text.spaces k := by
    rw [leadingSpaces, List.takeWhile_append_of_pos hspaces]
    exact List.append_nil _
  have hover := overSpaces_around before (part ++ (Text.spaces k ++ [','])) tail
  rw [deletion?, overCommaIf?, if_pos rfl, overComma?_after hdrop, hlead]
  simpa using hover

/-- A part that no comma follows goes with the comma before it, the gap in between and
the spaces behind. -/
theorem deletion?_comma_before {front gap : Text} (h : (after.dropWhile (· = ' ')).head? ≠ some ',')
    (hgap : ∀ c ∈ gap, isGap c = true) :
    deletion? true ((front ++ ',' :: gap) ++ (part ++ after)) (.around (front ++ ',' :: gap) part) =
      some (.around front (',' :: gap ++ part ++ leadingSpaces after)) := by
  have hover := overSpaces_around front (',' :: gap ++ part) after
  rw [deletion?, overCommaIf?, if_pos rfl, overComma?_before h hgap]
  simpa using hover

/-- A part without commas next to it goes with the spaces behind it. -/
theorem deletion?_no_comma (h : (after.dropWhile (· = ' ')).head? ≠ some ',')
    (hbefore : (before.dropTail isGap).getLast? ≠ some ',') :
    deletion? true (before ++ (part ++ after)) (.around before part) =
      some (.around before (part ++ leadingSpaces after)) := by
  rw [deletion?, overCommaIf?, if_pos rfl, overComma?_self h hbefore]
  exact congrArg some (overSpaces_around before part after)

end Region

namespace Listing

variable (l : Listing)

/-- The text is that of the listing without the element that is singled out, up to gaps. -/
def Without (text : Text) : Prop :=
  ∃ body, text = l.pre ++ body ∧ Spells l.trailing.isSome l.rest l.others body

/-- Deleting the element cuts out a part of the source, and what is left is the listing
without the element. -/
def Shrinks : Prop :=
  ∃ front part back, l.source = front ++ (part ++ back) ∧
    Region.deletion? true l.source l.span = some (.around front part) ∧ l.Without (front ++ back)

/-- If a comma follows the element, the separator before the element comes to stand before
what follows that comma. -/
theorem shrinks_of_comma {k : Nat} {tail : Text} (h : l.following = Text.spaces k ++ ',' :: tail)
    (hspells : Spells l.trailing.isSome l.rest (l.after.map Prod.snd) tail)
    (hmore : l.after.map Prod.snd ≠ [] ∨ l.trailing.isSome = true) : l.Shrinks := by
  have hsource : l.source = (l.pre ++ ahead l.before) ++
      (l.element ++ (Text.spaces k ++ ',' :: tail)) := by
    simp [source, h]
  refine ⟨l.pre ++ ahead l.before, l.element ++ (Text.spaces k ++ ',' :: leadingSpaces tail),
    tail.dropWhile (· = ' '), ?_, ?_, ?_⟩
  · simp [hsource, Region.leadingSpaces_append_dropWhile]
  · rw [hsource]
    exact Region.deletion?_comma_after k tail
  · exact ⟨ahead l.before ++ tail.dropWhile (· = ' '), by simp,
      hspells.dropSpaces.ahead_append hmore l.before⟩

/-- If no comma follows the element and others come before it, the comma before it goes. -/
theorem shrinks_of_last {init : List (Text × Separator)} {e : Text} {s : Separator}
    (hbefore : l.before = init ++ [(e, s)]) (hafter : l.after = []) (hopen : l.trailing = none) :
    l.Shrinks := by
  have hfollowing : l.following = l.rest := by
    simp [following, behind, closing, hafter, hopen]
  have hahead : l.pre ++ ahead l.before =
      (l.pre ++ (ahead init ++ (e ++ Text.spaces s.lead))) ++ ',' :: s.gap := by
    simp [ahead, hbefore, Separator.text]
  have hsource : l.source =
      ((l.pre ++ (ahead init ++ (e ++ Text.spaces s.lead))) ++ ',' :: s.gap) ++
        (l.element ++ l.rest) := by
    rw [← hahead, source, hfollowing, List.append_assoc]
  refine ⟨l.pre ++ (ahead init ++ (e ++ Text.spaces s.lead)),
    ',' :: s.gap ++ l.element ++ leadingSpaces l.rest, l.rest.dropWhile (· = ' '), ?_, ?_, ?_⟩
  · simp [hsource, Region.leadingSpaces_append_dropWhile]
  · rw [span, hahead, hsource]
    exact Region.deletion?_comma_before l.rest_noComma s.gap_isGap
  · have hlast : Spells l.trailing.isSome l.rest [e]
        ((e ++ Text.spaces s.lead) ++ l.rest.dropWhile (· = ' ')) :=
      .last (by rw [hopen]; rfl) (.append_spaces e s.lead) (Text.SameTail.dropSpaces rfl)
    have hall := hlast.ahead_append (Or.inl (List.cons_ne_nil _ _)) init
    refine ⟨ahead init ++ ((e ++ Text.spaces s.lead) ++ l.rest.dropWhile (· = ' ')), by simp, ?_⟩
    simpa [others, hbefore, hafter] using hall

/-- If there is no comma, the element goes alone. -/
theorem shrinks_of_only (hbefore : l.before = []) (hafter : l.after = [])
    (hopen : l.trailing = none) : l.Shrinks := by
  have hsource : l.source = l.pre ++ (l.element ++ l.rest) := by
    simp [source, following, ahead, behind, closing, hbefore, hafter, hopen]
  have hspan : l.span = .around l.pre l.element := by
    simp [span, ahead, hbefore]
  refine ⟨l.pre, l.element ++ leadingSpaces l.rest, l.rest.dropWhile (· = ' '), ?_, ?_, ?_⟩
  · simp [hsource, Region.leadingSpaces_append_dropWhile]
  · rw [hsource, hspan]
    exact Region.deletion?_no_comma l.rest_noComma l.pre_noComma
  · refine ⟨l.rest.dropWhile (· = ' '), rfl, ?_⟩
    rw [others, hbefore, hafter]
    exact .rest (Text.SameTail.dropSpaces rfl)

theorem shrinks : l.Shrinks := by
  cases hafter : l.after with
  | cons x after =>
      obtain ⟨s, e⟩ := x
      have hfollowing : l.following = Text.spaces s.lead ++ ',' ::
          (s.gap ++ (e ++ (behind after ++ (closing l.trailing ++ l.rest)))) := by
        simp [following, behind, hafter, Separator.text]
      have hspells := (Spells.of_following l.rest l.trailing e after).gap_append s.gap_isGap
      refine l.shrinks_of_comma hfollowing ?_ (Or.inl (by simp [hafter]))
      simpa [hafter] using hspells
  | nil =>
      cases htrailing : l.trailing with
      | some k =>
          have hfollowing : l.following = Text.spaces k ++ ',' :: l.rest := by
            simp [following, behind, closing, hafter, htrailing]
          refine l.shrinks_of_comma hfollowing ?_ (Or.inr (by rw [htrailing]; rfl))
          rw [hafter]
          exact .rest rfl
      | none =>
          rcases List.eq_nil_or_concat l.before with hbefore | ⟨init, ⟨e, s⟩, hbefore⟩
          · exact l.shrinks_of_only hbefore hafter htrailing
          · exact l.shrinks_of_last (by simpa using hbefore) hafter htrailing

end Listing

/-! ## Sessions -/

namespace Session

variable {ν : Type}

/-- What processing gives if the only step of a session deletes a child with its comma. -/
def deleteWithComma (h : Host ν) (settings : Settings) (n : ν) (selector : Text) :
    Option (Except Failure Outcome) :=
  (run ⟨h, settings, [], []⟩ [.build (.delete n [selector] true)]).map fun x => x.1.process none

theorem edit_delete {h : Host ν} {n : ν} {selector : Text} {s t : Span} (tabWidth : Nat)
    (hselector : h.childSpan? n selector = .ok (some s))
    (ht : Region.deletion? true h.source s = some t) :
    (Request.delete n [selector] true).edit h tabWidth = .ok ⟨.delete, t, some []⟩ := by
  have hspan : Request.deletedSpan h n [selector] = .ok s := by
    rw [Request.deletedSpan, List.mapM_cons, hselector]
    rfl
  rw [Request.edit, Request.span, hspan, Request.code]
  simp only [Failure.lift, bind, Except.bind, ht, Request.regionOr]
  rfl

/-- Deleting an element of a list with its comma leaves a list of the others.  After what
stands before the list come cells with single commas between them, and a comma after the
last one if the list had such a comma and an element is left.  The cells are the other
elements in order, up to gaps at their ends, and what follows is what stood after the list,
up to gaps at its start. -/
theorem delete_element {h : Host ν} {n : ν} {selector : Text} (settings : Settings) (l : Listing)
    (hsource : h.source = l.source) (hselector : h.childSpan? n selector = .ok (some l.span)) :
    ∃ cells tail,
      deleteWithComma h settings n selector =
        some (.ok ⟨none, true, false, some (l.pre ++ ([','].intercalate cells ++
          ((if l.trailing.isSome = true ∧ cells ≠ [] then [','] else []) ++ tail))), none⟩) ∧
      List.Forall₂ Text.SameCore cells l.others ∧ tail.SameTail l.rest := by
  obtain ⟨front, part, back, hcut, hdeletion, body, hbody, hspells⟩ := l.shrinks
  obtain ⟨cells, tail, rfl, hcells, htail⟩ := hspells.exists_cells
  refine ⟨cells, tail, ?_, hcells, htail⟩
  rw [← hsource] at hdeletion
  have hedit := edit_delete settings.tabWidth hselector hdeletion
  refine process_build hedit ?_
  rw [hsource, hcut, Patch.apply_around, List.nil_append, hbody]

/-- A call with three arguments and a comma after the last one.  The second is singled
out. -/
def arguments : Listing where
  pre := "f(".toList
  before := [("a".toList, ⟨1, " ".toList, rfl⟩)]
  element := "b".toList
  after := [(⟨0, "\n\t".toList, rfl⟩, "é".toList)]
  trailing := some 1
  rest := ")".toList
  pre_noComma := by decide
  rest_noComma := by decide

/-- The host of that call. -/
def callWithArguments : Host Nat :=
  .ofTable .span "f(a , b,\n\té ,)".toList
    [⟨⟨0, 15⟩, [("args".toList, .sequence [1, 2, 3])]⟩, ⟨⟨2, 3⟩, []⟩, ⟨⟨6, 7⟩, []⟩,
      ⟨⟨10, 12⟩, []⟩]

theorem delete_element_middle :
    callWithArguments.source = arguments.source ∧
    callWithArguments.childSpan? 0 "args.1".toList = .ok (some arguments.span) ∧
    ∃ cells tail,
      deleteWithComma callWithArguments .default 0 "args.1".toList =
        some (.ok ⟨none, true, false, some (arguments.pre ++ ([','].intercalate cells ++
          ((if arguments.trailing.isSome = true ∧ cells ≠ [] then [','] else []) ++ tail))),
          none⟩) ∧
      List.Forall₂ Text.SameCore cells ["a".toList, "é".toList] ∧ tail.SameTail ")".toList :=
  ⟨rfl, rfl, delete_element .default arguments rfl rfl⟩

example :
    deleteWithComma callWithArguments .default 0 "args.1".toList =
      some (.ok ⟨none, true, false, some "f(a , \n\té ,)".toList, none⟩) := by
  rfl

end Session

end Emend
