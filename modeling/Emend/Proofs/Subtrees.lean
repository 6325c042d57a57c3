import Emend.Host.RustTree
import Emend.Proofs.Forest
import Emend.Request

/-!
# Paths stay below their node

A path that is walked at a syntax tree leads downwards only.  The nodes it reaches are in
the subtree of the node it starts from, and a sequence of them is in the order of the
source (`resolve_below`).  In a tree where children lie inside their parents, one after
the other, the span a path leads to therefore lies inside the span of its node and covers
all that it reaches, although it is made from the first and the last node alone.

One segment is the case that has content: a name can lead to a child in a field, to the
elements of a list in one, to punctuation, to a list in brackets, or to an initializer of a
struct literal and its value (`child_below`).  The rest is an induction on the segments.
-/

namespace Emend

/-- Each result of a computation on a list comes from a member. -/
theorem exists_of_mapM_eq_ok {ε α β : Type} {f : α → Except ε β} {l : List α} :
    ∀ {bs : List β}, l.mapM f = .ok bs → ∀ b ∈ bs, ∃ a ∈ l, f a = .ok b := by
  induction l with
  | nil =>
      intro bs h b hb
      cases h
      cases hb
  | cons a l ih =>
      intro bs h b hb
      rw [List.mapM_cons] at h
      obtain ⟨first, hfirst, h⟩ := exists_of_bind_eq_ok h
      obtain ⟨rest, hrest, h⟩ := exists_of_bind_eq_ok h
      cases h
      rcases List.mem_cons.mp hb with rfl | hb
      · exact ⟨a, List.mem_cons_self, hfirst⟩
      · obtain ⟨x, hx, hfx⟩ := ih hrest b hb
        exact ⟨x, List.mem_cons_of_mem a hx, hfx⟩

namespace Span

/-! ## Spans inside another -/

/-- A span that is not inverted lies inside another. -/
def Inside (a b : Span) : Prop := a.start ≤ a.stop ∧ a.Within b

instance (a b : Span) : Decidable (a.Inside b) :=
  inferInstanceAs (Decidable (a.start ≤ a.stop ∧ b.start ≤ a.start ∧ a.stop ≤ b.stop))

theorem Inside.trans {a b c : Span} (hab : a.Inside b) (hbc : b.Inside c) : a.Inside c :=
  ⟨hab.1, hab.2.trans hbc.2⟩

theorem Inside.cover {a b s : Span} (ha : a.Inside s) (hb : b.Inside s) : (a.cover b).Inside s := by
  simp only [Inside, Within, Span.cover] at *
  omega

theorem inside_foldl_cover {s : Span} (l : List Span) :
    ∀ {a : Span}, a.Inside s → (∀ t ∈ l, t.Inside s) → (l.foldl Span.cover a).Inside s := by
  induction l with
  | nil => exact fun ha _ => ha
  | cons t l ih =>
      intro a ha hl
      exact ih (ha.cover (hl t List.mem_cons_self)) fun u hu => hl u (List.mem_cons_of_mem t hu)

/-- The hull of spans lies inside what all of them lie inside. -/
theorem hull?_inside {l : List Span} {s r : Span} (hl : ∀ t ∈ l, t.Inside s)
    (h : hull? l = some r) : r.Inside s := by
  cases l with
  | nil => cases h
  | cons a l =>
      obtain rfl := Option.some.inj h
      exact inside_foldl_cover l (hl a List.mem_cons_self) fun t ht =>
        hl t (List.mem_cons_of_mem a ht)

end Span

namespace Node

/-! ## Subtrees -/

/-- One node ends before another starts. -/
def Before (a b : Node) : Prop := a.span.stop ≤ b.span.start

instance (a b : Node) : Decidable (a.Before b) :=
  inferInstanceAs (Decidable (a.span.stop ≤ b.span.start))

/-- The children of a node lie inside it, one after the other. -/
structure Placed (n : Node) : Prop where
  /-- The span of the node is not inverted. -/
  proper : n.span.start ≤ n.span.stop
  /-- No child sticks out. -/
  inside : ∀ c ∈ n.children, c.span.Inside n.span
  /-- No two children overlap, and they are in order. -/
  ordered : n.children.Pairwise Before

instance (n : Node) : Decidable n.Placed :=
  decidable_of_iff (n.span.start ≤ n.span.stop ∧ (∀ c ∈ n.children, c.span.Inside n.span) ∧
      n.children.Pairwise Before)
    ⟨fun h => ⟨h.1, h.2.1, h.2.2⟩, fun h => ⟨h.proper, h.inside, h.ordered⟩⟩

/-- All nodes of a tree have their children inside them, one after the other. -/
def Nested (n : Node) : Prop := ∀ m ∈ n.preorder, m.Placed

instance (n : Node) : Decidable n.Nested :=
  inferInstanceAs (Decidable (∀ m ∈ n.preorder, m.Placed))

/-- What holds of a node if it holds of its children holds of all nodes. -/
@[elab_as_elim]
theorem childrenInduction {motive : Node → Prop}
    (step : ∀ n : Node, (∀ c ∈ n.children, motive c) → motive n) : ∀ n, motive n
  | .mk _ _ _ _ _ _ _ _ => step _ fun c _hc => childrenInduction step c
termination_by n => sizeOf n
decreasing_by
  have hsize := List.sizeOf_lt_of_mem _hc
  simp only [children, mk.sizeOf_spec] at hsize ⊢
  omega

theorem preorders_eq_flatMap (ns : List Node) : preorders ns = ns.flatMap preorder := by
  induction ns with
  | nil => rfl
  | cons n ns ih => rw [preorders, ih, List.flatMap_cons]

/-- A subtree holds its root and the subtrees of the children. -/
theorem mem_preorder_iff {m n : Node} :
    m ∈ n.preorder ↔ m = n ∨ ∃ c ∈ n.children, m ∈ c.preorder := by
  cases n with
  | mk number kind named extra malformed field span children =>
      rw [preorder, preorders_eq_flatMap, List.mem_cons, List.mem_flatMap]
      rfl

theorem mem_preorder_self (n : Node) : n ∈ n.preorder :=
  mem_preorder_iff.mpr (Or.inl rfl)

theorem mem_preorder_of_child {c n : Node} (h : c ∈ n.children) : c ∈ n.preorder :=
  mem_preorder_iff.mpr (Or.inr ⟨c, h, c.mem_preorder_self⟩)

theorem mem_preorder_trans {l m : Node} (hl : l ∈ m.preorder) :
    ∀ {n : Node}, m ∈ n.preorder → l ∈ n.preorder := by
  intro n
  induction n using childrenInduction with
  | step n ih =>
      intro hm
      rcases mem_preorder_iff.mp hm with rfl | ⟨c, hc, hmc⟩
      · exact hl
      · exact mem_preorder_iff.mpr (Or.inr ⟨c, hc, ih c hc hmc⟩)

theorem Nested.of_mem {m n : Node} (h : n.Nested) (hm : m ∈ n.preorder) : m.Nested :=
  fun _ hl => h _ (mem_preorder_trans hl hm)

theorem Nested.placed {n : Node} (h : n.Nested) : n.Placed :=
  h n n.mem_preorder_self

/-- The nodes of a subtree lie inside its root. -/
theorem Nested.inside {m : Node} :
    ∀ {n : Node}, n.Nested → m ∈ n.preorder → m.span.Inside n.span := by
  intro n
  induction n using childrenInduction with
  | step n ih =>
      intro h hm
      rcases mem_preorder_iff.mp hm with rfl | ⟨c, hc, hmc⟩
      · exact ⟨h.placed.proper, .refl _⟩
      · have hcn := h.placed.inside c hc
        exact (ih c hc (h.of_mem (mem_preorder_of_child hc)) hmc).trans hcn

end Node

/-! ## Values below a node -/

/-- The nodes of a value. -/
def Value.nodes {ν : Type} : Value ν → List ν
  | .node n => [n]
  | .sequence ns => ns
  | .text _ | .number _ | .bool _ | .absent => []

/-- The nodes of a value are in the subtree of a node, one after the other. -/
structure Value.Below (n : Node) (v : Value Node) : Prop where
  mem : ∀ m ∈ v.nodes, m ∈ n.preorder
  ordered : v.nodes.Pairwise Node.Before

namespace Value

theorem Below.of_nodes_eq_nil {n : Node} {v : Value Node} (h : v.nodes = []) : v.Below n := by
  constructor <;> rw [h] <;> simp

theorem below_node {n m : Node} (h : m ∈ n.preorder) : Below n (.node m) :=
  ⟨fun _ hx => List.mem_singleton.mp hx ▸ h, List.pairwise_singleton _ m⟩

theorem below_ofNode? {n : Node} {m? : Option Node} (h : ∀ m, m? = some m → m ∈ n.preorder) :
    Below n (.ofNode? m?) := by
  cases m? with
  | none => exact .of_nodes_eq_nil rfl
  | some m => exact below_node (h m rfl)

theorem Below.trans {m n : Node} {v : Value Node} (h : v.Below m) (hm : m ∈ n.preorder) :
    v.Below n :=
  ⟨fun x hx => Node.mem_preorder_trans (h.mem x hx) hm, h.ordered⟩

end Value

namespace RustTree

open Node (mem_preorder_of_child mem_preorder_trans)
open Value (below_node below_ofNode?)

/-! ## One name -/

theorem mem_preorder_of_inField {n m : Node} {name : Text} (h : (n.inField name).head? = some m) :
    m ∈ n.preorder :=
  mem_preorder_of_child (List.mem_filter.mp (List.mem_of_mem_head? h)).1

theorem mem_preorder_of_named {n m : Node} (h : m ∈ n.namedChildren) : m ∈ n.preorder :=
  mem_preorder_of_child (List.mem_filter.mp h).1

theorem mem_preorder_of_initializer? {source key : Text} {n m : Node}
    (h : initializer? source n key = some m) : m ∈ n.preorder := by
  obtain ⟨body, hbody, hfind⟩ := Option.bind_eq_some_iff.mp h
  exact mem_preorder_trans (mem_preorder_of_named (List.mem_of_find?_eq_some hfind))
    (mem_preorder_of_inField hbody)

theorem mem_preorder_of_initialValue? {source key : Text} {n m : Node}
    (h : initialValue? source n key = some m) : m ∈ n.preorder := by
  obtain ⟨init, hinit, hvalue⟩ := Option.bind_eq_some_iff.mp h
  refine mem_preorder_trans ?_ (mem_preorder_of_initializer? hinit)
  split at hvalue
  next => exact mem_preorder_of_inField hvalue
  next => exact mem_preorder_of_named (List.mem_of_mem_head? hvalue)

/-- Some of the children of a node, in their order. -/
theorem below_children {n : Node} (h : n.Nested) {ns : List Node} (hns : ns.Sublist n.children) :
    Value.Below n (.sequence ns) :=
  ⟨fun _ hm => mem_preorder_of_child (hns.subset hm), h.placed.ordered.sublist hns⟩

theorem fieldValue_below {n : Node} (h : n.Nested) (name : Text) :
    (fieldValue n name).Below n := by
  have hsub : (n.inField name).Sublist n.children := List.filter_sublist
  rw [fieldValue]
  split
  next => exact .of_nodes_eq_nil rfl
  next child hone =>
    have hchild : child ∈ n.preorder := by
      refine mem_preorder_of_child (hsub.subset ?_)
      rw [hone]
      exact List.mem_cons_self
    split
    next =>
      -- The elements of a list are not children of the node but of the list.
      have helements : (elements child).Sublist child.children :=
        List.filter_sublist.trans List.filter_sublist
      exact (below_children (h.of_mem hchild) helements).trans hchild
    next => exact below_node hchild
  next => exact below_children h hsub

theorem computed?_nodes {source name : Text} {n : Node} {v : Value Node}
    (h : computed? source n name = some v) : v.nodes = [] := by
  have hmap : ∀ {t? : Option Text}, t?.map .text = some v → v.nodes = [] := by
    intro t? ht
    obtain ⟨t, -, rfl⟩ := Option.map_eq_some_iff.mp ht
    rfl
  rw [computed?] at h
  split at h
  · cases h; rfl
  split at h
  · cases h; rfl
  split at h
  · exact hmap h
  split at h
  · exact hmap h
  split at h
  · cases h; rfl
  split at h
  · cases h; rfl
  · cases h

theorem structValue?_below {source name : Text} {n : Node} {v : Value Node}
    (h : structValue? source n name = some v) : v.Below n := by
  rw [structValue?] at h
  split at h
  next =>
    split at h
    next =>
      obtain rfl := Option.some.inj h
      exact below_ofNode? fun m hm => mem_preorder_of_initializer? hm
    next =>
      obtain rfl := Option.some.inj h
      exact below_ofNode? fun m hm => mem_preorder_of_initialValue? hm
    next => cases h
  next => cases h

/-- A name leads from a node to what is below it. -/
theorem child_below {isField : Text → Bool} {source name : Text} {n : Node} (hn : n.Nested)
    {v : Value Node} (h : child isField source n name = .ok v) : v.Below n := by
  have hpunctuation : ∀ mark, Value.Below n (.ofNode? (punctuation? n mark)) := fun mark =>
    below_ofNode? fun m hm => mem_preorder_of_child (List.mem_of_find?_eq_some hm)
  have hlist : ∀ kinds, Value.Below n (.ofNode? (list? n kinds)) := fun kinds =>
    below_ofNode? fun m hm => mem_preorder_of_named (List.mem_of_find?_eq_some hm)
  rw [child] at h
  split at h
  · cases h; exact fieldValue_below hn name
  split at h
  · cases h; exact hpunctuation _
  split at h
  · cases h; exact hpunctuation _
  split at h
  · cases h; exact hlist _
  split at h
  · cases h; exact hlist _
  split at h
  next hvalue => cases h; exact structValue?_below hvalue
  split at h
  next hvalue => cases h; exact .of_nodes_eq_nil (computed?_nodes hvalue)
  next => cases h

end RustTree

namespace Host

/-! ## Whole paths -/

theorem mem_of_nodeAt? {ν : Type} {ns : List ν} {i : Int} {m : ν} (h : nodeAt? ns i = some m) :
    m ∈ ns := by
  simp only [nodeAt?, Option.ite_none_left_eq_some] at h
  exact List.mem_of_getElem? h.2

section

variable {isField : Text → Bool} {source : Text} {n : Node}

theorem sequenceChild_below {ns : List Node} {name : Text} {v : Value Node}
    (hns : ∀ m ∈ ns, m ∈ n.preorder) (h : (ofRustTree isField source).sequenceChild ns name = .ok v) :
    v.Below n := by
  rw [sequenceChild] at h
  split at h
  · cases h; exact Value.below_ofNode? fun m hm => hns m (List.mem_of_mem_head? hm)
  split at h
  · cases h; exact Value.below_ofNode? fun m hm => hns m (List.mem_of_getLast? hm)
  split at h
  · cases h; exact .of_nodes_eq_nil rfl
  split at h
  · cases h; exact .of_nodes_eq_nil rfl
  · cases h

theorem step_below (hn : n.Nested) {v w : Value Node} {token : Token} (hv : v.Below n)
    (h : (ofRustTree isField source).step v token = .ok w) : w.Below n := by
  cases v with
  | node m =>
      have hm : m ∈ n.preorder := hv.mem m List.mem_cons_self
      cases token with
      | name name => exact (RustTree.child_below (hn.of_mem hm) h).trans hm
      | index i => cases h
  | sequence ns =>
      cases token with
      | name name => exact sequenceChild_below hv.mem h
      | index i =>
          rw [step] at h
          split at h
          next m hm => cases h; exact Value.below_node (hv.mem m (mem_of_nodeAt? hm))
          next => cases h
  | text t => cases h
  | number i => cases token <;> cases h
  | bool b => cases token <;> cases h
  | absent => cases token <;> cases h

theorem walk_below (hn : n.Nested) {tokens : List Token} :
    ∀ {v w : Value Node}, v.Below n → (ofRustTree isField source).walk v tokens = .ok w → w.Below n := by
  induction tokens with
  | nil =>
      intro v w hv h
      cases h
      exact hv
  | cons token tokens ih =>
      intro v w hv h
      obtain ⟨u, hu, hw⟩ := exists_of_bind_eq_ok h
      exact ih (step_below hn hv hu) hw

theorem resolve_below (hn : n.Nested) {path : Path} {v : Value Node}
    (h : (ofRustTree isField source).resolve n path = .ok v) : v.Below n :=
  walk_below hn (Value.below_node n.mem_preorder_self) h

/-! ## Spans of paths -/

theorem start_le_of_head? {ns : List Node} (hordered : ns.Pairwise Node.Before) {first m : Node}
    (hproper : first.span.start ≤ first.span.stop) (hfirst : ns.head? = some first) (hm : m ∈ ns) :
    first.span.start ≤ m.span.start := by
  cases ns with
  | nil => cases hm
  | cons a ns =>
      obtain rfl := Option.some.inj hfirst
      rcases List.mem_cons.mp hm with rfl | hm
      · exact Nat.le_refl _
      · exact Nat.le_trans hproper ((List.pairwise_cons.mp hordered).1 m hm)

theorem stop_le_of_getLast? {ns : List Node} (hordered : ns.Pairwise Node.Before) {last m : Node}
    (hproper : last.span.start ≤ last.span.stop) (hlast : ns.getLast? = some last) (hm : m ∈ ns) :
    m.span.stop ≤ last.span.stop := by
  obtain ⟨init, rfl⟩ := List.getLast?_eq_some_iff.mp hlast
  obtain ⟨-, -, hbefore⟩ := List.pairwise_append.mp hordered
  rcases List.mem_append.mp hm with hm | hm
  · exact Nat.le_trans (hbefore m hm last List.mem_cons_self) hproper
  · obtain rfl := List.mem_singleton.mp hm
    exact Nat.le_refl _

/-- The span of a value below a node lies inside the node and around the nodes of the value. -/
theorem sequenceSpan?_inside (hn : n.Nested) {ns : List Node} (hns : Value.Below n (.sequence ns))
    {r : Span} (h : (ofRustTree isField source).sequenceSpan? ns = some r) :
    r.Inside n.span ∧ ∀ m ∈ ns, m.span.Within r := by
  have hinside : ∀ m ∈ ns, m.span.Inside n.span := fun m hm => hn.inside (hns.mem m hm)
  rw [sequenceSpan?] at h
  split at h
  next first last hfirst hlast =>
    cases h
    have hf := hinside first (List.mem_of_mem_head? hfirst)
    have hl := hinside last (List.mem_of_getLast? hlast)
    refine ⟨hf.cover hl, fun m hm => ⟨?_, ?_⟩⟩
    · exact Nat.le_trans (Nat.min_le_left _ _) (start_le_of_head? hns.ordered hf.1 hfirst hm)
    · exact Nat.le_trans (stop_le_of_getLast? hns.ordered hl.1 hlast hm) (Nat.le_max_right _ _)
  next => cases h

theorem resolveSpan?_inside (hn : n.Nested) {path : Path} {r : Span}
    (h : (ofRustTree isField source).resolveSpan? n path = .ok (some r)) :
    r.Inside n.span ∧ ∀ v, (ofRustTree isField source).resolve n path = .ok v →
      ∀ m ∈ v.nodes, m.span.Within r := by
  obtain ⟨v, hv, hspan⟩ := exists_of_bind_eq_ok h
  have hbelow := resolve_below hn hv
  have hcovers : r.Inside n.span ∧ ∀ m ∈ v.nodes, m.span.Within r := by
    cases v with
    | node m =>
        cases hspan
        refine ⟨hn.inside (hbelow.mem m List.mem_cons_self), fun x hx => ?_⟩
        rw [List.mem_singleton.mp hx]
        exact .refl _
    | sequence ns => exact sequenceSpan?_inside hn hbelow (Except.ok.inj hspan)
    | text t => cases hspan
    | number i => cases hspan
    | bool b => cases hspan
    | absent => cases hspan
  refine ⟨hcovers.1, fun w hw => ?_⟩
  obtain rfl := Except.ok.inj (hv.symm.trans hw)
  exact hcovers.2

theorem targetSpan_inside (hn : n.Nested) {target : Option Text} {r : Span}
    (h : (ofRustTree isField source).targetSpan n target = .ok r) : r.Inside n.span := by
  cases target with
  | none =>
      cases h
      exact hn.inside n.mem_preorder_self
  | some p =>
      obtain ⟨found, hfound, hr⟩ := exists_of_bind_eq_ok h
      obtain ⟨path, -, hspan⟩ := exists_of_bind_eq_ok hfound
      cases found with
      | none => cases hr
      | some s =>
          cases hr
          exact (resolveSpan?_inside hn hspan).1

end

end Host

namespace Request

/-! ## Edits at paths -/

variable {isField : Text → Bool} {source : Text} {n : Node}

theorem replacedSpan_inside (hn : n.Nested) {selectors : List Text} {r : Span}
    (h : replacedSpan (.ofRustTree isField source) n selectors = .ok r) : r.Inside n.span := by
  obtain ⟨spans, hspans, hr⟩ := exists_of_bind_eq_ok h
  have hinside : ∀ s ∈ spans, s.Inside n.span := by
    intro s hs
    obtain ⟨selector, -, htarget⟩ := exists_of_mapM_eq_ok hspans s hs
    exact Host.targetSpan_inside hn htarget
  cases hhull : Span.hull? spans with
  | none => rw [hhull] at hr; cases hr
  | some s =>
      rw [hhull] at hr
      cases hr
      exact Span.hull?_inside hinside hhull

theorem span_of_edit {ν : Type} {h : Host ν} {tabWidth : Nat} {r : Request ν} {e : Edit}
    (he : r.edit h tabWidth = .ok e) : r.span h = .ok e.span := by
  obtain ⟨s, hs, hrest⟩ := exists_of_bind_eq_ok he
  obtain ⟨code, -, hedit⟩ := exists_of_bind_eq_ok hrest
  cases hedit
  exact hs

theorem replace_inside (hn : n.Nested) {selectors : List Text} {code : Text} {tabWidth : Nat}
    {e : Edit} (h : (replace n selectors code).edit (.ofRustTree isField source) tabWidth = .ok e) :
    e.span.Inside n.span := by
  have hspan := span_of_edit h
  rw [span, Failure.lift_eq_ok_iff] at hspan
  exact replacedSpan_inside hn hspan

theorem insert_inside (hn : n.Nested) {code : Text} {side : Side} {target : Option Text}
    {comma : Bool} {tabWidth : Nat} {e : Edit}
    (h : (insert n code side target comma).edit (.ofRustTree isField source) tabWidth = .ok e) :
    ∃ p, e.span = .point p ∧ n.span.start ≤ p ∧ p ≤ n.span.stop := by
  obtain ⟨s, hs, hside⟩ := exists_of_bind_eq_ok (span_of_edit h)
  rw [Failure.lift_eq_ok_iff] at hs
  obtain ⟨hproper, hstart, hstop⟩ := Host.targetSpan_inside hn hs
  cases side with
  | beginning => exact ⟨s.start, (Except.ok.inj hside).symm, hstart, Nat.le_trans hproper hstop⟩
  | ending => exact ⟨s.stop, (Except.ok.inj hside).symm, Nat.le_trans hstart hproper, hstop⟩

/-- A path leads nowhere but below its node.  At every node of a tree whose nodes are nested, a
path reaches nodes of the subtree only, in the order of the source.  The span it leads to lies
inside the node and covers all nodes that are reached.  So an edit that replaces children of a
node lies inside the node, and so does the offset of an insertion. -/
theorem paths_stay_inside {root : Node} (hroot : root.Nested) (hn : n ∈ root.preorder)
    (isField : Text → Bool) (source : Text) (path : Path) :
    (∀ v, (Host.ofRustTree isField source).resolve n path = .ok v →
      (∀ m ∈ v.nodes, m ∈ n.preorder) ∧ v.nodes.Pairwise Node.Before) ∧
    (∀ r, (Host.ofRustTree isField source).resolveSpan? n path = .ok (some r) →
      r.Inside n.span ∧ ∀ v, (Host.ofRustTree isField source).resolve n path = .ok v →
        ∀ m ∈ v.nodes, m.span.Within r) ∧
    (∀ selectors code tabWidth e,
      (replace n selectors code).edit (.ofRustTree isField source) tabWidth = .ok e →
        e.span.Inside n.span) ∧
    (∀ code side target comma tabWidth e,
      (insert n code side target comma).edit (.ofRustTree isField source) tabWidth = .ok e →
        ∃ p, e.span = .point p ∧ n.span.start ≤ p ∧ p ≤ n.span.stop) := by
  have hnested : n.Nested := hroot.of_mem hn
  refine ⟨fun v hv => ?_, fun r hr => Host.resolveSpan?_inside hnested hr, ?_, ?_⟩
  · have hbelow := Host.resolve_below hnested hv
    exact ⟨hbelow.mem, hbelow.ordered⟩
  · exact fun selectors code tabWidth e he => replace_inside hnested he
  · exact fun code side target comma tabWidth e he => insert_inside hnested he

/-- A call with a comment between its arguments. -/
def commentedCall : Node :=
  .mk 0 "call_expression".toList true false false none ⟨0, 13⟩
    [.mk 1 "identifier".toList true false false (some "function".toList) ⟨0, 1⟩ [],
      .mk 2 "arguments".toList true false false (some "arguments".toList) ⟨1, 13⟩
        [.mk 3 "(".toList false false false none ⟨1, 2⟩ [],
          .mk 4 "identifier".toList true false false none ⟨2, 3⟩ [],
          .mk 5 ",".toList false false false none ⟨3, 4⟩ [],
          .mk 6 "block_comment".toList true true false none ⟨5, 10⟩ [],
          .mk 7 "identifier".toList true false false none ⟨11, 12⟩ [],
          .mk 8 ")".toList false false false none ⟨12, 13⟩ []]]

/-- The fields of a call. -/
def isCallField (name : Text) : Bool := name = "function".toList || name = "arguments".toList

/-- The host of the call. -/
def commentedHost : Host Node := .ofRustTree isCallField "f(a, /*x*/ b)".toList

theorem paths_stay_inside_call :
    commentedCall.Nested ∧
    (∃ a b, commentedHost.resolve commentedCall ⟨[], [.name "arguments".toList]⟩ =
        .ok (.sequence [a, b]) ∧
      (∀ m ∈ [a, b], m ∈ commentedCall.preorder) ∧ [a, b].Pairwise Node.Before) ∧
    (commentedHost.resolveSpan? commentedCall ⟨[], [.name "arguments".toList]⟩ =
        .ok (some ⟨2, 12⟩) ∧
      Span.Inside ⟨2, 12⟩ commentedCall.span) ∧
    (∃ e, (replace commentedCall ["function".toList, "arguments.-1".toList] "g".toList).edit
        commentedHost 4 = .ok e ∧
      e.span.Inside commentedCall.span) ∧
    (∃ e, (insert commentedCall "c".toList .ending (some "arguments.0".toList) true).edit
        commentedHost 4 = .ok e ∧
      ∃ p, e.span = .point p ∧ commentedCall.span.start ≤ p ∧ p ≤ commentedCall.span.stop) := by
  have hnested : commentedCall.Nested := by decide
  obtain ⟨hresolve, hspan, hreplace, hinsert⟩ := paths_stay_inside hnested
    commentedCall.mem_preorder_self isCallField "f(a, /*x*/ b)".toList
    ⟨[], [.name "arguments".toList]⟩
  -- The code of an edit is a template, and the reader of templates does not unfold by itself.
  have hreplaced : (replace commentedCall ["function".toList, "arguments.-1".toList]
      "g".toList).edit commentedHost 4 = .ok ⟨.replace, ⟨0, 12⟩, some "g".toList⟩ := by
    with_unfolding_all rfl
  have hinserted : (insert commentedCall "c".toList .ending (some "arguments.0".toList)
      true).edit commentedHost 4 = .ok ⟨.insert, ⟨3, 3⟩, some ", c".toList⟩ := by
    with_unfolding_all rfl
  exact ⟨hnested, ⟨_, _, rfl, hresolve _ rfl⟩, ⟨rfl, (hspan _ rfl).1⟩,
    ⟨_, hreplaced, hreplace _ _ _ _ hreplaced⟩, ⟨_, hinserted, hinsert _ _ _ _ _ _ hinserted⟩⟩

end Request

end Emend
