import Emend.Action.Hook
import Emend.Proofs.StableOrder

/-!
# Forests of actions

What pruning, hooks and sorting do to a forest, and what they leave alone.

*Spans.*  The span of an action lies around all its edits (`edits_within`), and it
is not inverted if none of them is (`span_proper`).

*Normal forms.*  An action is normal if every group in it has two members or more.
Pruning gives normal actions, keeps the edits in order, and changes nothing that is
normal.  Hooks and sorting keep actions normal.

*Arranged forests.*  A forest is arranged if siblings are in order at every level.
Sorting arranges a forest and changes nothing that is arranged.

Functions on an action and on a list of actions call each other, and so do the
theorems about them.
-/

namespace Emend

namespace Span

/-! ## Hulls -/

/-- A span lies inside another. -/
def Within (a b : Span) : Prop := b.start ≤ a.start ∧ a.stop ≤ b.stop

theorem Within.refl (a : Span) : a.Within a := ⟨Nat.le_refl _, Nat.le_refl _⟩

theorem Within.trans {a b c : Span} (hab : a.Within b) (hbc : b.Within c) : a.Within c :=
  ⟨Nat.le_trans hbc.1 hab.1, Nat.le_trans hab.2 hbc.2⟩

theorem within_cover_left (a b : Span) : a.Within (a.cover b) :=
  ⟨Nat.min_le_left _ _, Nat.le_max_left _ _⟩

theorem within_cover_right (a b : Span) : b.Within (a.cover b) :=
  ⟨Nat.min_le_right _ _, Nat.le_max_right _ _⟩

theorem within_foldl_cover (l : List Span) :
    ∀ s : Span, s.Within (l.foldl cover s) ∧ ∀ t ∈ l, t.Within (l.foldl cover s) := by
  induction l with
  | nil => exact fun s => ⟨.refl s, by simp⟩
  | cons a l ih =>
      intro s
      obtain ⟨hs, hl⟩ := ih (s.cover a)
      refine ⟨(within_cover_left s a).trans hs, fun t ht => ?_⟩
      rcases List.mem_cons.mp ht with rfl | ht'
      · exact (within_cover_right s t).trans hs
      · exact hl t ht'

/-- The hull of spans lies around each of them. -/
theorem within_hull? {l : List Span} {s : Span} (h : hull? l = some s) : ∀ t ∈ l, t.Within s := by
  cases l with
  | nil => simp [hull?] at h
  | cons a l =>
      obtain rfl := Option.some.inj h
      intro t ht
      obtain ⟨ha, hl⟩ := within_foldl_cover l a
      rcases List.mem_cons.mp ht with rfl | ht'
      · exact ha
      · exact hl t ht'

theorem cover_comm (a b : Span) : a.cover b = b.cover a := by
  rw [cover, cover, Nat.min_comm, Nat.max_comm]

theorem cover_right_comm (a b c : Span) : (a.cover b).cover c = (a.cover c).cover b := by
  simp only [cover, mk.injEq]
  omega

/-- The hull of spans does not depend on their order. -/
theorem hull?_perm {l m : List Span} (h : l.Perm m) : hull? l = hull? m := by
  induction h with
  | nil => rfl
  | cons s h _ => exact congrArg some (h.foldl_eq' (fun a _ b _ c => cover_right_comm c a b) s)
  | swap s t l => rw [hull?, hull?, List.foldl_cons, List.foldl_cons, cover_comm]
  | trans _ _ ih ih' => exact ih.trans ih'

end Span

namespace Action

/-! ## Spans and edits -/

/-- A member of a group lies inside the span of the group. -/
theorem within_group {members : List Action} {s : Span} (h : s ∈ spans members) :
    s.Within (Action.group members).span := by
  rw [span]
  cases hh : Span.hull? (spans members) with
  | none =>
      cases hs : spans members with
      | nil => rw [hs] at h; cases h
      | cons t l => rw [hs] at hh; cases hh
  | some t => exact Span.within_hull? hh s h

mutual

/-- The edits of an action lie inside its span. -/
theorem edits_within : ∀ (a : Action), ∀ e ∈ a.edits, e.span.Within a.span
  | .edit e, e', h => by
      rw [edits, List.mem_singleton] at h
      subst h
      exact .refl _
  | .group members, e, h => by
      rw [edits] at h
      obtain ⟨s, hs, hes⟩ := leaves_within members e h
      exact hes.trans (within_group hs)

/-- The edits of actions lie inside the spans of these. -/
theorem leaves_within : ∀ (as : List Action), ∀ e ∈ leaves as, ∃ s ∈ spans as, e.span.Within s
  | [], e, h => by simp [leaves] at h
  | a :: as, e, h => by
      rw [leaves, List.mem_append] at h
      rcases h with ha | has
      · exact ⟨a.span, by simp [spans], edits_within a e ha⟩
      · obtain ⟨s, hs, hes⟩ := leaves_within as e has
        exact ⟨s, by simp [spans, hs], hes⟩

end

mutual

/-- An action without inverted edits has a span that is not inverted. -/
theorem span_proper : ∀ (a : Action), (∀ e ∈ a.edits, e.span.start ≤ e.span.stop) →
    a.span.start ≤ a.span.stop
  | .edit e, h => h e (by simp [edits])
  | .group [], _ => Nat.le_refl 0
  | .group (a :: as), h => by
      have hmem : a.span ∈ spans (a :: as) := by simp [spans]
      have ha := spans_proper (a :: as) (by simpa only [edits] using h) a.span hmem
      have hw := within_group hmem
      exact Nat.le_trans hw.1 (Nat.le_trans ha hw.2)

theorem spans_proper : ∀ (as : List Action), (∀ e ∈ leaves as, e.span.start ≤ e.span.stop) →
    ∀ s ∈ spans as, s.start ≤ s.stop
  | [], _, s, hs => by simp [spans] at hs
  | a :: as, h, s, hs => by
      rw [spans, List.mem_cons] at hs
      rcases hs with rfl | hs
      · exact span_proper a fun e he => h e (by simp [leaves, he])
      · exact spans_proper as (fun e he => h e (by simp [leaves, he])) s hs

end

theorem leaves_eq_flatMap (as : List Action) : leaves as = as.flatMap edits := by
  induction as with
  | nil => rfl
  | cons a as ih => rw [leaves, ih, List.flatMap_cons]

theorem leaves_append (as bs : List Action) : leaves (as ++ bs) = leaves as ++ leaves bs := by
  simp only [leaves_eq_flatMap, List.flatMap_append]

/-! ## Pruning -/

/-- Every group in an action has two members or more. -/
inductive Normal : Action → Prop where
  /-- An edit is normal. -/
  | edit (e : Edit) : Normal (.edit e)
  /-- A group of two or more is normal if its members are. -/
  | group {members : List Action} (h2 : 2 ≤ members.length) (h : ∀ a ∈ members, Normal a) :
      Normal (.group members)

theorem prune_cons (a : Action) (as : List Action) : prune (a :: as) = a.prune?.toList ++ prune as := by
  rw [prune]
  cases a.prune? with
  | none => rfl
  | some b => rfl

theorem leaves_ofMembers? : ∀ (as : List Action), leaves (ofMembers? as).toList = leaves as
  | [] => rfl
  | [_] => rfl
  | a :: b :: as => by simp [ofMembers?, leaves, edits]

mutual

theorem leaves_prune? : ∀ (a : Action), leaves a.prune?.toList = a.edits
  | .edit e => by simp [prune?, leaves, edits]
  | .group members => by rw [prune?, leaves_ofMembers?, leaves_prune members, edits]

/-- Pruning keeps the edits and their order. -/
theorem leaves_prune : ∀ (as : List Action), leaves (prune as) = leaves as
  | [] => rfl
  | a :: as => by rw [prune_cons, leaves_append, leaves_prune? a, leaves_prune as, leaves]

end

theorem ofMembers?_normal : ∀ {as : List Action} {b : Action}, (∀ a ∈ as, Normal a) →
    ofMembers? as = some b → Normal b
  | [], _, _, h => by simp [ofMembers?] at h
  | [a], b, hn, h => by
      obtain rfl := Option.some.inj h
      exact hn a (by simp)
  | a :: a' :: as, b, hn, h => by
      obtain rfl := Option.some.inj h
      exact .group (by simp) hn

mutual

theorem prune?_normal : ∀ {a b : Action}, a.prune? = some b → Normal b
  | .edit e, b, h => by
      obtain rfl := Option.some.inj h
      exact .edit e
  | .group members, b, h => ofMembers?_normal (fun _ => prune_normal members) h

/-- Pruning gives normal actions. -/
theorem prune_normal : ∀ (as : List Action) {b : Action}, b ∈ prune as → Normal b
  | [], b, h => by simp [prune] at h
  | a :: as, b, h => by
      rw [prune_cons, List.mem_append, Option.mem_toList] at h
      rcases h with ha | has
      · exact prune?_normal ha
      · exact prune_normal as has

end

theorem prune_eq_self_of {as : List Action} (h : ∀ a ∈ as, a.prune? = some a) : prune as = as := by
  induction as with
  | nil => rfl
  | cons a as ih =>
      rw [prune_cons, h a (by simp), ih fun b hb => h b (List.mem_cons_of_mem a hb)]
      rfl

theorem Normal.prune?_eq {a : Action} (h : Normal a) : a.prune? = some a := by
  induction h with
  | edit e => rfl
  | @group members h2 _ ih =>
      rw [prune?, prune_eq_self_of ih]
      match members, h2 with
      | a :: b :: as, _ => rfl

/-- Pruning changes nothing that is normal. -/
theorem prune_eq_self {as : List Action} (h : ∀ a ∈ as, Normal a) : prune as = as :=
  prune_eq_self_of fun a ha => (h a ha).prune?_eq

/-- A normal action has edits. -/
theorem Normal.edits_ne_nil {a : Action} (h : Normal a) : a.edits ≠ [] := by
  induction h with
  | edit e => simp [edits]
  | @group members h2 _ ih =>
      match members, h2 with
      | a :: b :: as, _ =>
          have ha := ih a (by simp)
          simp [edits, leaves, ha]

/-- Pruning leaves something exactly if there is an edit. -/
theorem prune_eq_nil_iff {as : List Action} : prune as = [] ↔ leaves as = [] := by
  rw [← leaves_prune as]
  constructor
  · intro h
    rw [h]
    rfl
  · intro h
    cases hp : prune as with
    | nil => rfl
    | cons b bs =>
        have hb : Normal b := prune_normal as (by rw [hp]; simp)
        rw [hp, leaves, List.append_eq_nil_iff] at h
        exact absurd h.1 hb.edits_ne_nil

/-! ## Hooks -/

mutual

theorem Normal.respanOne : ∀ {a : Action} (ss : List Span), Normal a → Normal (a.respanOne ss).1
  | .edit e, [], _ => .edit e
  | .edit e, s :: _, _ => .edit { e with span := s }
  | .group members, ss, h => by
      cases h with
      | group h2 hm =>
          obtain ⟨hlen, hn⟩ := respan_normal ss hm
          exact .group (by rw [hlen]; exact h2) hn

/-- New spans leave the number of actions alone and keep them normal. -/
theorem respan_normal : ∀ {as : List Action} (ss : List Span), (∀ a ∈ as, Normal a) →
    (respan as ss).1.length = as.length ∧ ∀ b ∈ (respan as ss).1, Normal b
  | [], _, _ => ⟨rfl, by simp [respan]⟩
  | a :: as, ss, h => by
      obtain ⟨hlen, hn⟩ := respan_normal (a.respanOne ss).2 fun b hb => h b (List.mem_cons_of_mem a hb)
      refine ⟨by simp [respan, hlen], fun b hb => ?_⟩
      rw [respan, List.mem_cons] at hb
      rcases hb with rfl | hb
      · exact (h a (by simp)).respanOne ss
      · exact hn b hb

end

theorem applyHook_normal (hook : Hook) {as : List Action} (h : ∀ a ∈ as, Normal a) :
    ∀ b ∈ applyHook hook as, Normal b :=
  (respan_normal _ h).2

/-! ## Sorting -/

/-- Siblings are in order at every level. -/
structure Arranged (as : List Action) : Prop where
  /-- The actions are in order. -/
  ordered : as.Pairwise fun a b => a.span ≤ b.span
  /-- So are all groups in them. -/
  inside : ∀ a ∈ as, a.sortIn = a

theorem mem_sortTop {a : Action} {as : List Action} : a ∈ sortTop as ↔ a ∈ as :=
  (Span.sortOn_perm span as).mem_iff

theorem length_sortTop (as : List Action) : (sortTop as).length = as.length :=
  (Span.sortOn_perm span as).length_eq

mutual

/-- Sorting a group inside leaves its span alone. -/
theorem span_sortIn : ∀ (a : Action), a.sortIn.span = a.span
  | .edit e => rfl
  | .group members => by
      have hperm : (spans (sortTop (sortEach members))).Perm (spans members) := by
        rw [← spans_sortEach members, spans_eq_map, spans_eq_map]
        exact (Span.sortOn_perm span _).map span
      rw [sortIn, span, span, Span.hull?_perm hperm]

theorem spans_sortEach : ∀ (as : List Action), spans (sortEach as) = spans as
  | [] => rfl
  | a :: as => by rw [sortEach, spans, spans, span_sortIn a, spans_sortEach as]

end

/-- The actions of one span come out of sorting in the order they had, each sorted
inside. -/
theorem filter_sort (as : List Action) (s : Span) :
    (sort as).filter (fun a => a.span = s) = (as.filter fun a => a.span = s).map sortIn := by
  rw [sort, sortTop, (Span.sortOn_stablySorted span _).stable s, sortEach_eq_map, List.filter_map]
  congr 2
  funext a
  rw [Function.comp, span_sortIn]

theorem Arranged.sublist {as bs : List Action} (h : Arranged bs) (hs : as.Sublist bs) :
    Arranged as :=
  ⟨h.ordered.sublist hs, fun a ha => h.inside a (hs.subset ha)⟩

/-- Sorting changes nothing that is arranged. -/
theorem Arranged.sort_eq {as : List Action} (h : Arranged as) : sort as = as := by
  have hmap : sortEach as = as := by
    rw [sortEach_eq_map]
    exact (List.map_congr_left h.inside).trans (List.map_id' as)
  rw [sort, hmap]
  exact Span.sortOn_eq_self h.ordered

/-- Once its members are sorted inside, sorting arranges a forest. -/
theorem sortTop_arranged {as : List Action} (h : ∀ a ∈ as, a.sortIn = a) : Arranged (sortTop as) :=
  ⟨Span.sortOn_pairwise span as, fun a ha => h a (mem_sortTop.mp ha)⟩

mutual

/-- A group that is sorted inside stays as it is. -/
theorem sortIn_sortIn : ∀ (a : Action), a.sortIn.sortIn = a.sortIn
  | .edit e => rfl
  | .group members => by
      have hsorted := (sortTop_arranged (sortEach_sortIn members)).sort_eq
      rw [sortIn, sortIn]
      exact congrArg Action.group hsorted

theorem sortEach_sortIn : ∀ (as : List Action), ∀ a ∈ sortEach as, a.sortIn = a
  | [], a, h => by simp [sortEach] at h
  | b :: as, a, h => by
      rw [sortEach, List.mem_cons] at h
      rcases h with rfl | h
      · exact sortIn_sortIn b
      · exact sortEach_sortIn as a h

end

/-- Sorting arranges a forest. -/
theorem sort_arranged (as : List Action) : Arranged (sort as) :=
  sortTop_arranged (sortEach_sortIn as)

theorem sort_normal_of {as : List Action} (h : ∀ a ∈ as, Normal a.sortIn) :
    ∀ b ∈ sort as, Normal b := by
  intro b hb
  rw [sort, mem_sortTop, sortEach_eq_map] at hb
  obtain ⟨a, ha, rfl⟩ := List.mem_map.mp hb
  exact h a ha

theorem Normal.sortIn {a : Action} (h : Normal a) : Normal a.sortIn := by
  induction h with
  | edit e => exact .edit e
  | @group members h2 _ ih =>
      rw [Action.sortIn]
      refine .group ?_ (sort_normal_of ih)
      rw [length_sortTop, sortEach_eq_map, List.length_map]
      exact h2

/-- Sorting keeps actions normal. -/
theorem sort_normal {as : List Action} (h : ∀ a ∈ as, Normal a) : ∀ b ∈ sort as, Normal b :=
  sort_normal_of fun a ha => (h a ha).sortIn

end Action

end Emend
