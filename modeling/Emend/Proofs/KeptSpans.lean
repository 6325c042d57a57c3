import Emend.Proofs.Hulls

/-!
# Groups that keep their spans

The span of a group is computed from its members each time it is asked for.  A group may as
well keep its span, if whatever changes the group sees to the span too.  Here the operations
on forests are written for such groups, as they would work in place.

* A group that is built gets the hull of its members (`ofMembers`).  Pruning builds all groups
  anew.
* New spans are written into the edits from left to right, and a group gets the hull of its
  members when all of them have theirs.
* Sorting moves members by the spans that are kept, and changes none of these.

Each of them is compared with the operation on plain forests (`Represents`).  After pruning and
after new spans every group keeps its span, whatever was kept before (`represents_prune`,
`represents_applyHook`).  Sorting relies on what is kept: it does not make a wrong span right,
and it does not make a right one wrong, because the hull of the members does not depend on
their order (`Represents.sort`).
-/

namespace Emend

/-- An edit, or a group with a span that it keeps. -/
inductive Kept where
  /-- One edit. -/
  | edit (e : Edit)
  /-- Actions that belong together, and the span kept for them. -/
  | group (span : Span) (members : List Kept)

namespace Kept

/-! ## Spans that are kept -/

/-- The span of an edit, or the span that a group keeps. -/
def span : Kept → Span
  | .edit e => e.span
  | .group span _ => span

/-- The group of some actions, with the span around them. -/
def ofMembers (members : List Kept) : Kept :=
  .group ((Span.hull? (members.map span)).getD ⟨0, 0⟩) members

mutual

/-- An action without the spans that its groups keep. -/
def forget : Kept → Action
  | .edit e => .edit e
  | .group _ members => .group (forgetAll members)

/-- Actions without the spans that their groups keep. -/
def forgetAll : List Kept → List Action
  | [] => []
  | k :: ks => k.forget :: forgetAll ks

end

mutual

/-- An action in which every group keeps its span. -/
def ofAction : Action → Kept
  | .edit e => .edit e
  | .group members => ofMembers (ofActions members)

/-- Actions in which every group keeps its span. -/
def ofActions : List Action → List Kept
  | [] => []
  | a :: as => ofAction a :: ofActions as

end

theorem ofActions_eq_map (as : List Action) : ofActions as = as.map ofAction := by
  induction as with
  | nil => rfl
  | cons a as ih => rw [ofActions, ih, List.map_cons]

mutual

/-- The span that is kept is the span. -/
theorem span_ofAction : ∀ (a : Action), (ofAction a).span = a.span
  | .edit e => rfl
  | .group members => by
      rw [ofAction, ofMembers, map_span_ofActions members, span, Action.span]

theorem map_span_ofActions : ∀ (as : List Action), (ofActions as).map span = Action.spans as
  | [] => rfl
  | a :: as => by
      rw [ofActions, List.map_cons, span_ofAction a, map_span_ofActions as, Action.spans]

end

mutual

theorem forget_ofAction : ∀ (a : Action), (ofAction a).forget = a
  | .edit e => rfl
  | .group members => by rw [ofAction, ofMembers, forget, forgetAll_ofActions members]

theorem forgetAll_ofActions : ∀ (as : List Action), forgetAll (ofActions as) = as
  | [] => rfl
  | a :: as => by rw [ofActions, forgetAll, forget_ofAction a, forgetAll_ofActions as]

end

/-- Every group keeps the span that covers its members. -/
inductive Current : Kept → Prop where
  | edit (e : Edit) : Current (.edit e)
  | group {s : Span} {members : List Kept} (hspan : Span.IsCover (members.map span) s)
      (h : ∀ k ∈ members, Current k) : Current (.group s members)

/-- A forest is a plain one in which every group keeps its span. -/
structure Represents (ks : List Kept) (as : List Action) : Prop where
  /-- Without the spans that are kept it is the plain forest. -/
  forget_eq : forgetAll ks = as
  /-- The spans that are kept are right. -/
  current : ∀ k ∈ ks, Current k

mutual

theorem current_ofAction : ∀ (a : Action), Current (ofAction a)
  | .edit e => .edit e
  | .group members => .group (Span.isCover_hull? _) (ofActions_current members)

theorem ofActions_current : ∀ (as : List Action), ∀ k ∈ ofActions as, Current k
  | [], k, h => absurd h List.not_mem_nil
  | a :: as, k, h => by
      have ha := current_ofAction a
      have has := ofActions_current as
      rcases List.mem_cons.mp h with rfl | h'
      · exact ha
      · exact has k h'

end

theorem ofActions_forgetAll_of {ks : List Kept} (h : ∀ k ∈ ks, ofAction k.forget = k) :
    ofActions (forgetAll ks) = ks := by
  induction ks with
  | nil => rfl
  | cons k ks ih =>
      rw [forgetAll, ofActions, h k (List.mem_cons_self ..),
        ih fun l hl => h l (List.mem_cons_of_mem k hl)]

theorem Current.ofAction_forget {k : Kept} (h : Current k) : ofAction k.forget = k := by
  induction h with
  | edit e => rfl
  | group hspan _ ih =>
      rw [forget, ofAction, ofActions_forgetAll_of ih, ofMembers, hspan.eq_hull?]

/-- There is one way to keep the spans of a plain forest. -/
theorem represents_iff {ks : List Kept} {as : List Action} : Represents ks as ↔ ks = ofActions as := by
  constructor
  · rintro ⟨rfl, hcurrent⟩
    exact (ofActions_forgetAll_of fun k hk => (hcurrent k hk).ofAction_forget).symm
  · rintro rfl
    exact ⟨forgetAll_ofActions as, ofActions_current as⟩

/-! ## Pruning -/

/-- The group of some actions, without a group around a lone one. -/
def ofMembers? : List Kept → Option Kept
  | [] => none
  | [k] => some k
  | ks => some (ofMembers ks)

mutual

/-- An action without empty groups and without groups of one, if anything is left. -/
def prune? : Kept → Option Kept
  | .edit e => some (.edit e)
  | .group _ members => ofMembers? (prune members)

/-- Actions without empty groups and without groups of one. -/
def prune : List Kept → List Kept
  | [] => []
  | k :: ks =>
      match k.prune? with
      | none => prune ks
      | some l => l :: prune ks

end

theorem ofMembers?_ofActions : ∀ (as : List Action),
    ofMembers? (ofActions as) = (Action.ofMembers? as).map ofAction
  | [] => rfl
  | [_] => rfl
  | _ :: _ :: _ => rfl

mutual

theorem prune?_eq : ∀ (k : Kept), k.prune? = k.forget.prune?.map ofAction
  | .edit e => rfl
  | .group _ members => by
      rw [prune?, prune_eq members, ofMembers?_ofActions, forget, Action.prune?]

theorem prune_eq : ∀ (ks : List Kept), prune ks = ofActions (Action.prune (forgetAll ks))
  | [] => rfl
  | k :: ks => by
      rw [prune, forgetAll, Action.prune, prune?_eq k, prune_eq ks]
      cases k.forget.prune? with
      | none => rfl
      | some a => rfl

end

/-- After pruning every group keeps its span, whatever was kept before. -/
theorem represents_prune (ks : List Kept) : Represents (prune ks) (Action.prune (forgetAll ks)) :=
  represents_iff.mpr (prune_eq ks)

/-! ## New spans -/

mutual

/-- An action with the next new spans for its edits, and the spans that are left. -/
def respanOne : Kept → List Span → Kept × List Span
  | .edit e, [] => (.edit e, [])
  | .edit e, s :: spans => (.edit { e with span := s }, spans)
  | .group _ members, spans =>
      let (members, rest) := respan members spans
      (ofMembers members, rest)

/-- Actions with the next new spans for their edits, and the spans that are left. -/
def respan : List Kept → List Span → List Kept × List Span
  | [], spans => ([], spans)
  | k :: ks, spans =>
      let (k, rest) := k.respanOne spans
      let (ks, rest) := respan ks rest
      (k :: ks, rest)

end

/-- Let a hook move the edits of a forest. -/
def applyHook (hook : Hook) (ks : List Kept) : List Kept :=
  (respan ks ((hook (Action.leaves (forgetAll ks))).map Edit.span)).1

mutual

theorem respanOne_eq : ∀ (k : Kept) (ss : List Span),
    k.respanOne ss = (ofAction (k.forget.respanOne ss).1, (k.forget.respanOne ss).2)
  | .edit e, [] => rfl
  | .edit e, s :: ss => rfl
  | .group _ members, ss => by
      rw [respanOne, respan_eq members ss, forget, Action.respanOne]
      rfl

theorem respan_eq : ∀ (ks : List Kept) (ss : List Span),
    respan ks ss =
      (ofActions (Action.respan (forgetAll ks) ss).1, (Action.respan (forgetAll ks) ss).2)
  | [], _ => rfl
  | k :: ks, ss => by
      have hrest := respan_eq ks (k.forget.respanOne ss).2
      rw [respan, respanOne_eq k ss]
      simp only [hrest, forgetAll, Action.respan, ofActions]

end

/-- With new spans every group keeps its span, whatever was kept before. -/
theorem represents_applyHook (hook : Hook) (ks : List Kept) :
    Represents (applyHook hook ks) (Action.applyHook hook (forgetAll ks)) := by
  rw [represents_iff, applyHook, respan_eq, Action.applyHook]

/-! ## Sorting -/

/-- Actions in the order of the spans that are kept. -/
def sortTop (ks : List Kept) : List Kept :=
  Span.sortOn span ks

mutual

/-- An action with all groups in it sorted. -/
def sortIn : Kept → Kept
  | .edit e => .edit e
  | .group span members => .group span (sortTop (sortEach members))

/-- Actions with all groups in them sorted. -/
def sortEach : List Kept → List Kept
  | [] => []
  | k :: ks => k.sortIn :: sortEach ks

end

/-- Actions sorted at every level. -/
def sort (ks : List Kept) : List Kept :=
  sortTop (sortEach ks)

theorem sortTop_ofActions (as : List Action) :
    sortTop (ofActions as) = ofActions (Action.sortTop as) := by
  have hspan : span ∘ ofAction = Action.span := funext span_ofAction
  rw [sortTop, ofActions_eq_map, Span.sortOn_map, hspan, ofActions_eq_map, Action.sortTop]

mutual

theorem sortIn_ofAction : ∀ (a : Action), (ofAction a).sortIn = ofAction a.sortIn
  | .edit e => rfl
  | .group members => by
      -- The group keeps the span it had, which is that of the sorted group.
      have hspan := Action.span_sortIn (.group members)
      rw [← span_ofAction, ← span_ofAction, Action.sortIn, ofAction, ofAction, ofMembers, ofMembers,
        span, span] at hspan
      rw [ofAction, ofMembers, sortIn, sortEach_ofActions members, sortTop_ofActions, ← hspan]
      rfl

theorem sortEach_ofActions : ∀ (as : List Action),
    sortEach (ofActions as) = ofActions (Action.sortEach as)
  | [] => rfl
  | a :: as => by
      rw [ofActions, sortEach, sortIn_ofAction a, sortEach_ofActions as, Action.sortEach, ofActions]

end

/-- If every group keeps its span, it does so after sorting. -/
theorem Represents.sort {ks : List Kept} {as : List Action} (h : Represents ks as) :
    Represents (sort ks) (Action.sort as) := by
  rw [represents_iff] at h ⊢
  rw [h, Kept.sort, sortEach_ofActions, sortTop_ofActions, Action.sort]

end Kept

end Emend
