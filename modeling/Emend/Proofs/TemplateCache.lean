import Emend.Template.Render

/-!
# Templates looked up in a cache

A cache starts empty and is then called: a template is looked up, or the cache is
cleared.  Whatever calls came before, a look-up gives what reading the template gives,
and so does rendering a template that is looked up.

What holds of a cache after any calls is `Cache.Sound`.  A look-up can do three things,
which `get_cases` tells apart: find the template, read and keep it, or fail to read it.
The last two make room first, so that the bound holds however the reading ends.
-/

namespace Emend

namespace Template

namespace Cache

/-! ## Histories -/

/-- What can be asked of a cache. -/
inductive Call where
  /-- Look a template up. -/
  | get (template : Text)
  /-- Forget everything. -/
  | clear
deriving DecidableEq, Repr

/-- The answer to a call, if it has one, and the cache it leaves. -/
def call (c : Cache) : Call → Option (Except Error Template) × Cache
  | .get template =>
      let (answer, c) := c.get template
      (some answer, c)
  | .clear => (none, empty)

/-- The answers to calls one after the other, and the cache they leave. -/
def run : Cache → List Call → List (Option (Except Error Template)) × Cache
  | c, [] => ([], c)
  | c, call :: calls =>
      let (answer, c) := c.call call
      let (answers, c) := run c calls
      (answer :: answers, c)

/-- What a call is answered where nothing is kept. -/
def Call.answer : Call → Option (Except Error Template)
  | .get template => some (parse template)
  | .clear => none

/-! ## One look-up -/

/-- What holds of a cache. -/
structure Sound (c : Cache) : Prop where
  /-- Every template is kept as it is read. -/
  parse_eq : ∀ k t, (k, t) ∈ c.entries → parse k = .ok t
  /-- No text is kept twice. -/
  nodup : (c.entries.map Prod.fst).Nodup
  /-- The cache is not overfull. -/
  bounded : c.size ≤ capacity

theorem sound_empty : Sound empty :=
  ⟨fun _ _ h => absurd h List.not_mem_nil, List.nodup_nil, Nat.zero_le _⟩

/-- What a look-up can do. -/
theorem get_cases (c : Cache) (template : Text) :
    (∃ t, (template, t) ∈ c.entries ∧ c.get template = (.ok t, c)) ∨
    (template ∉ c.entries.map Prod.fst ∧
      ((∃ t, parse template = .ok t ∧
        c.get template = (.ok t, ⟨(template, t) :: c.makeRoom.entries⟩)) ∨
      (∃ e, parse template = .error e ∧ c.get template = (.error e, c.makeRoom)))) := by
  cases hlookup : c.entries.lookup template with
  | some t =>
      obtain ⟨before, after, hentries, -⟩ := List.lookup_eq_some_iff.mp hlookup
      refine Or.inl ⟨t, by simp [hentries], ?_⟩
      rw [get, hlookup]
  | none =>
      refine Or.inr ⟨?_, ?_⟩
      · rintro hmem
        obtain ⟨entry, hentry, rfl⟩ := List.mem_map.mp hmem
        simpa using List.lookup_eq_none_iff.mp hlookup entry hentry
      · rw [get, hlookup]
        cases parse template with
        | ok t => exact Or.inl ⟨t, rfl, rfl⟩
        | error e => exact Or.inr ⟨e, rfl, rfl⟩

theorem makeRoom_cases (c : Cache) : c.makeRoom = empty ∨ c.makeRoom = c ∧ c.size < capacity := by
  rw [makeRoom]
  split
  next => exact Or.inl rfl
  next h => exact Or.inr ⟨rfl, Nat.lt_of_not_le h⟩

theorem Sound.makeRoom {c : Cache} (h : Sound c) : Sound c.makeRoom := by
  rcases c.makeRoom_cases with hempty | ⟨hsame, -⟩
  · rw [hempty]
    exact sound_empty
  · rw [hsame]
    exact h

theorem Sound.keep {c : Cache} (h : Sound c) {template : Text} {t : Template}
    (hparse : parse template = .ok t) (hnew : template ∉ c.entries.map Prod.fst) :
    Sound ⟨(template, t) :: c.makeRoom.entries⟩ := by
  have hroom : template ∉ c.makeRoom.entries.map Prod.fst ∧ c.makeRoom.size < capacity := by
    rcases c.makeRoom_cases with hempty | ⟨hsame, hsize⟩
    · rw [hempty]
      exact ⟨List.not_mem_nil, by decide⟩
    · rw [hsame]
      exact ⟨hnew, hsize⟩
  refine ⟨?_, ?_, hroom.2⟩
  · intro k u hmem
    rcases List.mem_cons.mp hmem with hkept | hmem
    · cases hkept
      exact hparse
    · exact h.makeRoom.parse_eq k u hmem
  · exact List.nodup_cons.mpr ⟨hroom.1, h.makeRoom.nodup⟩

/-- A look-up gives what reading gives. -/
theorem Sound.get_fst {c : Cache} (h : Sound c) (template : Text) :
    (c.get template).1 = parse template := by
  rcases c.get_cases template with ⟨t, hmem, hget⟩ | ⟨-, ⟨t, ht, hget⟩ | ⟨e, he, hget⟩⟩
  · rw [hget, h.parse_eq template t hmem]
  · rw [hget, ht]
  · rw [hget, he]

theorem Sound.get_snd {c : Cache} (h : Sound c) (template : Text) : Sound (c.get template).2 := by
  rcases c.get_cases template with ⟨t, hmem, hget⟩ | ⟨hnew, ⟨t, ht, hget⟩ | ⟨e, he, hget⟩⟩
  · rw [hget]
    exact h
  · rw [hget]
    exact h.keep ht hnew
  · rw [hget]
    exact h.makeRoom

/-- A template that can be read is in the cache once it was looked up. -/
theorem Sound.mem_get {c : Cache} (h : Sound c) {template : Text} {t : Template}
    (hparse : parse template = .ok t) : (template, t) ∈ (c.get template).2.entries := by
  rcases c.get_cases template with ⟨u, hmem, hget⟩ | ⟨hnew, ⟨u, hu, hget⟩ | ⟨e, he, hget⟩⟩
  · obtain rfl := Except.ok.inj ((h.parse_eq template u hmem).symm.trans hparse)
    rw [hget]
    exact hmem
  · obtain rfl := Except.ok.inj (hu.symm.trans hparse)
    rw [hget]
    exact List.mem_cons_self
  · rw [hparse] at he
    cases he

/-- Rendering through a cache gives what rendering gives. -/
theorem Sound.renderThrough_eq {c : Cache} (h : Sound c) {ν : Type} (host : Host ν) (n : ν)
    (template : Text) :
    host.renderThrough c n template = (host.render n template, (c.get template).2) := by
  have hfst := h.get_fst template
  rw [Host.renderThrough, Host.render]
  cases hget : c.get template with
  | mk answer d =>
      rw [hget] at hfst
      rw [← hfst]
      cases answer <;> rfl

/-! ## Any number of calls -/

theorem Sound.call_fst {c : Cache} (h : Sound c) (call : Call) : (c.call call).1 = call.answer := by
  cases call with
  | get template => exact congrArg some (h.get_fst template)
  | clear => rfl

theorem Sound.call_snd {c : Cache} (h : Sound c) (call : Call) : Sound (c.call call).2 := by
  cases call with
  | get template => exact h.get_snd template
  | clear => exact sound_empty

theorem Sound.run {c : Cache} (h : Sound c) (calls : List Call) :
    (c.run calls).1 = calls.map Call.answer ∧ Sound (c.run calls).2 := by
  induction calls generalizing c with
  | nil => exact ⟨rfl, h⟩
  | cons call calls ih =>
      obtain ⟨hanswers, hsound⟩ := ih (h.call_snd call)
      refine ⟨?_, hsound⟩
      rw [Cache.run, List.map_cons, ← h.call_fst call, ← hanswers]

/-- A cache changes no answer.  Whatever calls a cache has seen since it was empty, the next
ones are answered as if nothing was kept.  After them it holds at most 256 templates, no text
twice, each template as it is read, and none that cannot be read.  A template that can be read
is kept when it is looked up.  Rendering a template depends on the host, the node and the
template alone. -/
theorem run_transparent (before calls : List Call) :
    let answered := ((empty.run before).2).run calls
    let c := answered.2
    answered.1 = calls.map Call.answer ∧
    (∀ k t, (k, t) ∈ c.entries → parse k = .ok t) ∧
    (∀ k e, parse k = .error e → k ∉ c.entries.map Prod.fst) ∧
    (c.entries.map Prod.fst).Nodup ∧ c.size ≤ 256 ∧
    (∀ k t, parse k = .ok t → (k, t) ∈ (c.get k).2.entries) ∧
    (∀ (ν : Type) (h : Host ν) (n : ν) (k : Text),
      h.renderThrough c n k = (h.render n k, (c.get k).2)) := by
  intro answered c
  obtain ⟨hanswers, hsound⟩ := (sound_empty.run before).2.run calls
  refine ⟨hanswers, hsound.parse_eq, ?_, hsound.nodup, hsound.bounded, ?_, ?_⟩
  · intro k e he hmem
    obtain ⟨⟨_, t⟩, hentry, rfl⟩ := List.mem_map.mp hmem
    rw [hsound.parse_eq _ t hentry] at he
    cases he
  · exact fun k t ht => hsound.mem_get ht
  · exact fun ν h n k => hsound.renderThrough_eq h n k

end Cache

end Template

end Emend
