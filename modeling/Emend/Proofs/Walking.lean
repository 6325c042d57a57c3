import Emend.Proofs.PathGrammar

/-!
# Walks along paths

A walk is the fold of `Host.step` over the segments of a path, so a path of two parts leads to
where the second leads from the end of the first (`Host.resolve_append`).  The text of such a path
is the two texts with a dot in between (`Path.parse_dotted`).

An index has two spellings.  In a sequence of `n` nodes the node at the place `k` is meant by `k`
and by `k - n`, and by no other integer (`Host.nodeAt?_eq_some_iff`).  From this follows which
indices there are, and which of them `first` and `last` are.  They differ from indices at the empty
sequence: an index is refused there, while the two names lead to a child that is not there.

`Checked.step` and `Checked.walk` do the same with signed words of 64 bits.  The length of a
sequence is turned into a word, a negative index is added to it, and the node is fetched without
another look at the length.  A step in which one of these fails breaks down.  None does
(`Checked.step_eq`): a length is not negative and the index that is added to it is, so the sum lies
between the two.  A whole walk breaks down no more than its steps (`Checked.resolve_eq`).
-/

namespace Emend

namespace Path

/-- Two paths with a dot in between are read as the segments of both. -/
theorem parse_dotted {s t : Text} {p q : Path} (hp : parse s = .ok p) (hq : parse t = .ok q) :
    parse (p.raw ++ '.' :: q.raw) = .ok ⟨p.raw ++ '.' :: q.raw, p.tokens ++ q.tokens⟩ := by
  obtain ⟨-, hpraw, hpreads⟩ := parse_eq_ok_iff.mp hp
  obtain ⟨-, hqraw, hqreads⟩ := parse_eq_ok_iff.mp hq
  rw [← hpraw] at hpreads
  rw [← hqraw] at hqreads
  have hreads :
      List.Forall₂ Reads ((p.raw ++ '.' :: q.raw).splitOn '.') (p.tokens ++ q.tokens) := by
    rw [List.splitOn_append_cons_self]
    exact List.rel_append hpreads hqreads
  have htrim := Text.trim_eq_self (isBlankChar_of_reads hreads)
  refine parse_eq_ok_iff.mpr ⟨?_, htrim.symm, htrim.symm ▸ hreads⟩
  rw [htrim]
  exact List.append_ne_nil_of_right_ne_nil _ (List.cons_ne_nil _ _)

end Path

namespace Host

variable {ν : Type} {h : Host ν}

/-! ## Walks in two parts -/

theorem walk_eq_foldlM {tokens : List Token} :
    ∀ v : Value ν, h.walk v tokens = tokens.foldlM h.step v := by
  induction tokens with
  | nil => exact fun v => rfl
  | cons token tokens ih =>
      intro v
      rw [walk, List.foldlM_cons]
      exact congrArg (h.step v token >>= ·) (funext ih)

/-- The rest of a path is walked from where its start leads. -/
theorem resolve_append (n : ν) (p q : List Token) (r s : Text) :
    h.resolve n ⟨r, p ++ q⟩ = h.resolve n ⟨s, p⟩ >>= fun v => q.foldlM h.step v := by
  rw [resolve, resolve, walk_eq_foldlM, walk_eq_foldlM, List.foldlM_append]

/-! ## Places and indices -/

section

variable {ns : List ν} {i : Int} {n : ν}

/-- An index means a place if it is the place, or the place less the length. -/
theorem nodeAt?_eq_some_iff :
    nodeAt? ns i = some n ↔ ∃ k : Nat, ns[k]? = some n ∧ (i = k ∨ i = k - ns.length) := by
  constructor
  · intro h
    simp only [nodeAt?, Option.ite_none_left_eq_some] at h
    obtain ⟨hplace, hn⟩ := h
    refine ⟨_, hn, ?_⟩
    split at hplace <;> omega
  · rintro ⟨k, hn, hi⟩
    have hk : k < ns.length := (List.getElem?_eq_some_iff.mp hn).1
    have hplace : (if i < 0 then (ns.length : Int) + i else i) = k := by
      rcases hi with rfl | rfl
      · exact if_neg (by omega)
      · rw [if_pos (by omega)]
        omega
    simp only [nodeAt?, hplace, Int.toNat_natCast, hn]
    exact if_neg (by omega)

/-- The indices from minus the length up to the length mean a place, and no others. -/
theorem nodeAt?_eq_none_iff :
    nodeAt? ns i = none ↔ ¬ (-(ns.length : Int) ≤ i ∧ i < ns.length) := by
  rw [Option.eq_none_iff_forall_ne_some]
  constructor
  · rintro hnone ⟨hlow, hhigh⟩
    by_cases hi : i < 0
    · have hk : (ns.length + i).toNat < ns.length := by omega
      refine hnone _ (nodeAt?_eq_some_iff.mpr ⟨_, List.getElem?_eq_getElem hk, Or.inr ?_⟩)
      omega
    · have hk : i.toNat < ns.length := by omega
      refine hnone _ (nodeAt?_eq_some_iff.mpr ⟨_, List.getElem?_eq_getElem hk, Or.inl ?_⟩)
      omega
  · intro hout n hn
    obtain ⟨k, hk, hi⟩ := nodeAt?_eq_some_iff.mp hn
    have hlt : k < ns.length := (List.getElem?_eq_some_iff.mp hk).1
    omega

/-- A place is reached by either of its indices. -/
theorem step_index_of_place {k : Nat} (hk : ns[k]? = some n) (hi : i = k ∨ i = k - ns.length) :
    h.step (.sequence ns) (.index i) = .ok (.node n) := by
  rw [step, nodeAt?_eq_some_iff.mpr ⟨k, hk, hi⟩]

/-- An index that means no place is refused. -/
theorem step_index_of_out (hi : ¬ (-(ns.length : Int) ≤ i ∧ i < ns.length)) :
    h.step (.sequence ns) (.index i) = .error (.selector (Text.ofInt i) (h.sequenceSource ns)) := by
  rw [step, nodeAt?_eq_none_iff.mpr hi]
  rfl

theorem exists_step_index_iff :
    (∃ v, h.step (.sequence ns) (.index i) = .ok v) ↔ -(ns.length : Int) ≤ i ∧ i < ns.length := by
  constructor
  · rintro ⟨v, hv⟩
    by_contra hout
    rw [step_index_of_out hout] at hv
    cases hv
  · intro hin
    obtain ⟨n, hn⟩ := Option.ne_none_iff_exists'.mp (mt nodeAt?_eq_none_iff.mp (not_not_intro hin))
    obtain ⟨k, hk, hi⟩ := nodeAt?_eq_some_iff.mp hn
    exact ⟨_, step_index_of_place hk hi⟩

/-! ## Names at sequences -/

theorem step_first (ns : List ν) :
    h.step (.sequence ns) (.name "first".toList) = .ok (.ofNode? ns.head?) := rfl

theorem step_last (ns : List ν) :
    h.step (.sequence ns) (.name "last".toList) = .ok (.ofNode? ns.getLast?) := rfl

theorem step_length (ns : List ν) :
    h.step (.sequence ns) (.name "length".toList) = .ok (.number ns.length) := rfl

theorem step_first_eq_index (hne : ns ≠ []) :
    h.step (.sequence ns) (.name "first".toList) = h.step (.sequence ns) (.index 0) := by
  have hfirst : ns[0]? = some (ns.head hne) := by
    rw [← List.head?_eq_getElem?, List.head?_eq_some_head hne]
  rw [step_first, List.head?_eq_some_head hne, step_index_of_place (i := 0) hfirst (Or.inl rfl)]
  rfl

/-- The last node is at the place before the length, which has the indices `-1` and the length
less one. -/
theorem step_last_eq_index (hne : ns ≠ []) (hi : i = -1 ∨ i = ns.length - 1) :
    h.step (.sequence ns) (.name "last".toList) = h.step (.sequence ns) (.index i) := by
  have hlast : ns[ns.length - 1]? = some (ns.getLast hne) := by
    rw [← List.getLast?_eq_getElem?, List.getLast?_eq_some_getLast hne]
  have hpos : 0 < ns.length := List.length_pos_of_ne_nil hne
  have hplace : i = (ns.length - 1 : Nat) ∨ i = (ns.length - 1 : Nat) - ns.length := by omega
  rw [step_last, List.getLast?_eq_some_getLast hne, step_index_of_place hlast hplace]
  rfl

end

end Host

/-! ## Walks in signed words -/

/-- A sequence whose length is a signed word of 64 bits, or no sequence. -/
def Value.Short {ν : Type} : Value ν → Prop
  | .sequence ns => (ns.length : Int) ≤ Text.maxInt64
  | _ => True

/-- An index that is a signed word of 64 bits, or a name. -/
def Token.InWord : Token → Prop
  | .index i => Text.minInt64 ≤ i ∧ i ≤ Text.maxInt64
  | .name _ => True

/-- The indices of a path that was read are signed words. -/
theorem Path.inWord_of_parse {s : Text} {p : Path} (h : parse s = .ok p) :
    ∀ token ∈ p.tokens, token.InWord := by
  obtain ⟨-, -, hreads⟩ := parse_eq_ok_iff.mp h
  generalize s.trim.splitOn '.' = parts, p.tokens = tokens at hreads
  induction hreads with
  | nil => exact fun _ htoken => absurd htoken List.not_mem_nil
  | cons hpart _ ih =>
      refine List.forall_mem_cons.mpr ⟨?_, ih⟩
      cases hpart with
      | index hindex => exact hindex.2
      | name => exact trivial

namespace Checked

variable {ν : Type}

/-- A length as a signed word, if it is one. -/
def signed? (n : Nat) : Option Int := if Text.fitsInt64 n then some n else none

/-- The sum of two signed words, if it is one. -/
def addSigned? (a b : Int) : Option Int := if Text.fitsInt64 (a + b) then some (a + b) else none

/-- The place that an index means in a sequence of this length. -/
def place? (length i : Int) : Option Int :=
  if i < 0 then addSigned? length i else some i

/-- The node at an index of a sequence, or that there is none.  A place that passed for one in the
sequence has to be one. -/
def nodeAt? (ns : List ν) (i : Int) : Option (Option ν) := do
  let length ← signed? ns.length
  let place ← place? length i
  if place < 0 ∨ length ≤ place then some none
  else do
    let n ← ns[place.toNat]?
    some (some n)

/-- Follow one segment from a value. -/
def step (h : Host ν) : Value ν → Token → Except Failure (Value ν)
  | .sequence ns, .index i =>
      match nodeAt? ns i with
      | some (some n) => .ok (.node n)
      | some none => .error (.refused (.selector (Token.index i).display (h.sequenceSource ns)))
      | none => .error .crashed
  | .sequence ns, .name name =>
      if name = "length".toList then
        match signed? ns.length with
        | some length => .ok (.number length)
        | none => .error .crashed
      else Failure.lift (h.sequenceChild ns name)
  | value, token => Failure.lift (h.step value token)

/-- Follow segments in order from a value. -/
def walk (h : Host ν) : Value ν → List Token → Except Failure (Value ν)
  | value, [] => .ok value
  | value, token :: tokens => do
      let next ← step h value token
      walk h next tokens

/-- The value at the end of a path. -/
def resolve (h : Host ν) (n : ν) (path : Path) : Except Failure (Value ν) :=
  walk h (.node n) path.tokens

theorem fitsInt64_iff {i : Int} :
    Text.fitsInt64 i = true ↔ -9223372036854775808 ≤ i ∧ i ≤ 9223372036854775807 := by
  simp only [Text.fitsInt64, Bool.and_eq_true, decide_eq_true_eq]
  rfl

theorem signed?_eq {n : Nat} (hn : (n : Int) ≤ Text.maxInt64) : signed? n = some (n : Int) :=
  if_pos (fitsInt64_iff.mpr ⟨by omega, hn⟩)

/-- A length and a negative index add up to a word. -/
theorem place?_eq {n : Nat} {i : Int} (hn : (n : Int) ≤ Text.maxInt64) (hi : Text.minInt64 ≤ i) :
    place? n i = some (if i < 0 then (n : Int) + i else i) := by
  have hn : (n : Int) ≤ 9223372036854775807 := hn
  have hi : -9223372036854775808 ≤ i := hi
  rw [place?]
  split
  next => exact if_pos (fitsInt64_iff.mpr (by omega))
  next => rfl

variable {h : Host ν}

theorem nodeAt?_eq {ns : List ν} {i : Int} (hns : (ns.length : Int) ≤ Text.maxInt64)
    (hi : Text.minInt64 ≤ i) : nodeAt? ns i = some (Host.nodeAt? ns i) := by
  rw [nodeAt?, Host.nodeAt?, signed?_eq hns, Option.bind_eq_bind, Option.bind_some,
    place?_eq hns hi, Option.bind_some]
  generalize (if i < 0 then (ns.length : Int) + i else i) = place
  by_cases hneg : place < 0
  · rw [if_pos (Or.inl hneg), if_pos hneg]
  · rw [if_neg hneg]
    by_cases hout : ns.length ≤ place
    · rw [if_pos (Or.inr hout), List.getElem?_eq_none (by omega)]
    · rw [if_neg (by omega), List.getElem?_eq_getElem (by omega)]
      rfl

/-- No check fails in a step. -/
theorem step_eq {v : Value ν} {token : Token} (hv : v.Short) (htoken : token.InWord) :
    step h v token = Failure.lift (h.step v token) := by
  cases v with
  | sequence ns =>
      cases token with
      | index i =>
          rw [step, Host.step, nodeAt?_eq hv htoken.1]
          cases Host.nodeAt? ns i with
          | some n => rfl
          | none => rfl
      | name name =>
          rw [step, Host.step, signed?_eq hv]
          split
          next hlength =>
            rw [hlength]
            rfl
          next => rfl
  | node n => cases token <;> rfl
  | text t => rfl
  | number i => rfl
  | bool b => rfl
  | absent => rfl

/-- Sequences come from the host only: what a step leads to from a sequence is none. -/
theorem step_short (hchild : ∀ n name v, h.child n name = .ok v → v.Short) {v w : Value ν}
    {token : Token} (hstep : h.step v token = .ok w) : w.Short := by
  have hofNode (n? : Option ν) : (Value.ofNode? n?).Short := by
    cases n? <;> exact trivial
  cases v with
  | node n =>
      cases token with
      | name name => exact hchild n name w hstep
      | index i => cases hstep
  | sequence ns =>
      cases token with
      | index i =>
          rw [Host.step] at hstep
          split at hstep
          next n hn =>
            obtain rfl := Except.ok.inj hstep
            exact trivial
          next => cases hstep
      | name name =>
          rw [Host.step, Host.sequenceChild] at hstep
          split at hstep
          · exact Except.ok.inj hstep ▸ hofNode _
          split at hstep
          · exact Except.ok.inj hstep ▸ hofNode _
          split at hstep
          · obtain rfl := Except.ok.inj hstep
            exact trivial
          split at hstep
          · obtain rfl := Except.ok.inj hstep
            exact trivial
          · cases hstep
  | text t => cases hstep
  | number i => cases hstep
  | bool b => cases hstep
  | absent => cases hstep

theorem walk_eq (hchild : ∀ n name v, h.child n name = .ok v → v.Short) {tokens : List Token} :
    ∀ {v : Value ν}, v.Short → (∀ token ∈ tokens, token.InWord) →
      walk h v tokens = Failure.lift (h.walk v tokens) := by
  induction tokens with
  | nil => exact fun _ _ => rfl
  | cons token tokens ih =>
      intro v hv htokens
      obtain ⟨htoken, htokens⟩ := List.forall_mem_cons.mp htokens
      rw [walk, Host.walk, step_eq hv htoken]
      cases hstep : h.step v token with
      | error e => rfl
      | ok w => exact ih (step_short hchild hstep) htokens

/-- No check fails along a path that was read. -/
theorem resolve_eq (hchild : ∀ n name v, h.child n name = .ok v → v.Short) {s : Text} {p : Path}
    (hp : Path.parse s = .ok p) (n : ν) : resolve h n p = Failure.lift (h.resolve n p) :=
  walk_eq hchild trivial (Path.inWord_of_parse hp)

end Checked

namespace Host

/-- What a name leads to from a node of a table is written down in one of its rows. -/
theorem exists_row_of_child {kind : HostKind} {source : Text} {rows : List Row} {n : Nat}
    {name : Text} {v : Value Nat} (h : (ofTable kind source rows).child n name = .ok v) :
    ∃ row ∈ rows, (name, v) ∈ row.children := by
  simp only [ofTable] at h
  split at h
  next value hvalue =>
    obtain rfl := Except.ok.inj h
    obtain ⟨before, after, hchildren, -⟩ := List.lookup_eq_some_iff.mp hvalue
    cases hrow : rows[n]? with
    | none =>
        rw [hrow] at hvalue
        cases hvalue
    | some row =>
        rw [hrow, Option.getD_some] at hchildren
        exact ⟨row, List.mem_of_getElem? hrow, by rw [hchildren]; simp⟩
  next => cases h

/-- Paths compose and indices are total.  To resolve a path of two parts is to resolve the first
and to fold `step` over the second, and an error of the first is an error of both; paths that were
read compose by a dot.  From a sequence whose length is a signed word, no index that is a signed
word fails for an overflow, and neither does any path from any node if all sequences of the host
are like that.  An index leads from a sequence to a node exactly if it is not below minus the
length and below the length, and is refused otherwise.  The place `k` has the indices `k` and `k`
less the length.  The first place is `first`, the last one is `last`, and the length is `length`.
In the empty sequence no index leads anywhere, while `first` and `last` lead to what is not
there. -/
theorem paths_compose_and_index {ν : Type} (h : Host ν) :
    (∀ (n : ν) (p q : List Token) (r s : Text),
      h.resolve n ⟨r, p ++ q⟩ = (h.resolve n ⟨s, p⟩ >>= fun v => q.foldlM h.step v) ∧
      ∀ e, h.resolve n ⟨s, p⟩ = .error e → h.resolve n ⟨r, p ++ q⟩ = .error e) ∧
    (∀ (s t : Text) (p q : Path), Path.parse s = .ok p → Path.parse t = .ok q →
      Path.parse (p.raw ++ '.' :: q.raw) = .ok ⟨p.raw ++ '.' :: q.raw, p.tokens ++ q.tokens⟩) ∧
    (∀ (ns : List ν) (i : Int), (ns.length : Int) ≤ Text.maxInt64 →
      Text.minInt64 ≤ i → i ≤ Text.maxInt64 →
      Checked.step h (.sequence ns) (.index i) =
        Failure.lift (h.step (.sequence ns) (.index i))) ∧
    ((∀ n name v, h.child n name = .ok v → v.Short) → ∀ s p, Path.parse s = .ok p → ∀ n,
      Checked.resolve h n p = Failure.lift (h.resolve n p)) ∧
    ∀ ns : List ν,
      (∀ i, (∃ v, h.step (.sequence ns) (.index i) = .ok v) ↔
        -(ns.length : Int) ≤ i ∧ i < ns.length) ∧
      (∀ i, ¬ (-(ns.length : Int) ≤ i ∧ i < ns.length) →
        h.step (.sequence ns) (.index i) =
          .error (.selector (Text.ofInt i) (h.sequenceSource ns))) ∧
      (∀ (k : Nat) (hk : k < ns.length),
        h.step (.sequence ns) (.index k) = .ok (.node ns[k]) ∧
        h.step (.sequence ns) (.index (k - ns.length)) = .ok (.node ns[k])) ∧
      h.step (.sequence ns) (.name "length".toList) = .ok (.number ns.length) ∧
      (ns ≠ [] →
        h.step (.sequence ns) (.name "first".toList) = h.step (.sequence ns) (.index 0) ∧
        h.step (.sequence ns) (.name "last".toList) = h.step (.sequence ns) (.index (-1)) ∧
        h.step (.sequence ns) (.name "last".toList) =
          h.step (.sequence ns) (.index (ns.length - 1))) ∧
      (ns = [] →
        (∀ i, h.step (.sequence ns) (.index i) = .error (.selector (Text.ofInt i) [])) ∧
        h.step (.sequence ns) (.name "first".toList) = .ok .absent ∧
        h.step (.sequence ns) (.name "last".toList) = .ok .absent) := by
  refine ⟨fun n p q r s => ⟨resolve_append n p q r s, fun e he => ?_⟩,
    fun s t p q hp hq => Path.parse_dotted hp hq,
    fun ns i hns hlow hhigh => Checked.step_eq hns ⟨hlow, hhigh⟩,
    fun hchild s p hp n => Checked.resolve_eq hchild hp n,
    fun ns => ⟨fun i => exists_step_index_iff, fun i => step_index_of_out, fun k hk => ?_,
      step_length ns, fun hne => ?_, fun hnil => ?_⟩⟩
  · rw [resolve_append n p q r s, he]
    rfl
  · have hplace : ns[k]? = some ns[k] := List.getElem?_eq_getElem hk
    exact ⟨step_index_of_place hplace (Or.inl rfl), step_index_of_place hplace (Or.inr rfl)⟩
  · exact ⟨step_first_eq_index hne, step_last_eq_index hne (Or.inl rfl),
      step_last_eq_index hne (Or.inr rfl)⟩
  · subst hnil
    exact ⟨fun i => step_index_of_out (by simp), step_first [], step_last []⟩

/-- The arguments of the call, from both ends and with the least index there is.  A path that fails
at its start fails, and so does the greatest index there is at no arguments. -/
theorem paths_compose_and_index_call :
    Path.parse "args.-3".toList =
      .ok ⟨"args.-3".toList, [.name "args".toList, .index (-3)]⟩ ∧
    Checked.resolve Session.call 0 ⟨"args.-3".toList, [.name "args".toList, .index (-3)]⟩ =
      .ok (.node 1) ∧
    Checked.step Session.call (.sequence [1, 2, 3]) (.index (-9223372036854775808)) =
      .error (.refused (.selector "-9223372036854775808".toList "a, é,\n  c".toList)) ∧
    Session.call.step (.sequence [1, 2, 3]) (.index (-2)) = .ok (.node 2) ∧
    Session.call.step (.sequence [1, 2, 3]) (.name "last".toList) = .ok (.node 3) ∧
    Session.call.step (.sequence []) (.index 9223372036854775807) =
      .error (.selector "9223372036854775807".toList []) ∧
    Session.call.resolve 1 ⟨"args.0".toList, [.name "args".toList, .index 0]⟩ =
      .error (.selector "args".toList "a".toList) := by
  obtain ⟨hcompose, hdotted, hstep, hresolve, hindex⟩ := paths_compose_and_index Session.call
  have hargs : Path.parse " args".toList = .ok ⟨"args".toList, [.name "args".toList]⟩ := rfl
  have hplace : Path.parse "-3".toList = .ok ⟨"-3".toList, [.index (-3)]⟩ := rfl
  have hpath := hdotted _ _ _ _ hargs hplace
  obtain ⟨-, -, hplaces, -, hnames, -⟩ := hindex [1, 2, 3]
  obtain ⟨-, -, -, -, -, hempty⟩ := hindex []
  have hshort : ∀ n name v, Session.call.child n name = .ok v → v.Short := by
    intro n name v hv
    obtain ⟨row, hrow, hentry⟩ := exists_row_of_child hv
    simp only [List.mem_cons, List.not_mem_nil, or_false] at hrow
    rcases hrow with rfl | rfl | rfl | rfl
    · cases List.mem_singleton.mp hentry
      exact show (3 : Int) ≤ Text.maxInt64 by decide
    all_goals exact absurd hentry List.not_mem_nil
  refine ⟨hpath, ?_, ?_, ?_, ?_, ?_, ?_⟩
  · exact hresolve hshort _ _ hpath 0
  · exact hstep _ _ (by decide) (by decide) (by decide)
  · exact (hplaces 1 (by decide)).2
  · exact (hnames (by decide)).2.1
  · exact (hempty rfl).1 _
  · exact (hcompose 1 [.name "args".toList] [.index 0] _ []).2 _ rfl

end Host

end Emend
