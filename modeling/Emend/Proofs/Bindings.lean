import Mathlib.Data.List.Basic
import Emend.Query

/-!
# Nodes under a name

A match may capture several nodes under one name, if the query repeats the part that has the
name.  A finding has room for one of them.  Nodes are put under their names one after the other,
each in place of the one before (`lookup_rebind`), so what is left under a name is the node that
came last (`lookup_foldl_rebind`).

So the nodes that are read off the findings of a query are the last ones of the matches.  They
are all the nodes under the name if and only if no match has two of them.
-/

namespace Emend

namespace Query

variable {ν : Type} {names : List Text}

/-- The nodes that a match has under a name, in the order they were captured. -/
def boundTo (name : Text) (found : List (Fin names.length × ν)) : List ν :=
  (found.filter fun c => names.get c.1 = name).map Prod.snd

/-- The node that a match captured last under a name. -/
def lastBound? (name : Text) (found : List (Fin names.length × ν)) : Option ν :=
  (boundTo name found).getLast?

theorem boundTo_cons_self (i : Fin names.length) (n : ν) (found : List (Fin names.length × ν)) :
    boundTo (names.get i) ((i, n) :: found) = n :: boundTo (names.get i) found := by
  simp [boundTo]

theorem boundTo_cons_of_ne {name : Text} {i : Fin names.length} (h : names.get i ≠ name) (n : ν)
    (found : List (Fin names.length × ν)) : boundTo name ((i, n) :: found) = boundTo name found := by
  rw [boundTo, List.filter_cons_of_neg (by simpa using h), boundTo]

/-! ## One finding -/

theorem lookup_cons_of_ne {name other : Text} (h : other ≠ name) (n : ν)
    (captures : List (Text × ν)) :
    ((name, n) :: captures).lookup other = captures.lookup other := by
  rw [List.lookup_cons, beq_false_of_ne h]

theorem lookup_filter_ne (name other : Text) (captures : List (Text × ν)) :
    (captures.filter fun c => c.1 ≠ name).lookup other =
      if other = name then none else captures.lookup other := by
  induction captures with
  | nil => simp
  | cons c captures ih =>
      obtain ⟨key, n⟩ := c
      by_cases hkey : key = name
      · rw [List.filter_cons_of_neg (by simpa using hkey), ih]
        split
        next => rfl
        next hother => rw [lookup_cons_of_ne (hkey ▸ hother)]
      · rw [List.filter_cons_of_pos (by simpa using hkey)]
        by_cases hother : other = key
        · rw [hother, List.lookup_cons_self, List.lookup_cons_self, if_neg hkey]
        · rw [lookup_cons_of_ne hother, lookup_cons_of_ne hother, ih]

/-- Putting a node under a name has no bearing on other names. -/
theorem lookup_rebind (captures : List (Text × ν)) (name other : Text) (n : ν) :
    (rebind captures name n).lookup other =
      if other = name then some n else captures.lookup other := by
  rw [rebind, List.lookup_append, lookup_filter_ne]
  split
  next hother => rw [hother, List.lookup_cons_self, Option.none_or]
  next hother => rw [lookup_cons_of_ne hother, List.lookup_nil, Option.or_none]

/-- Under a name is the last of the nodes that were put there, or what was there before. -/
theorem lookup_foldl_rebind (name : Text) (found : List (Fin names.length × ν))
    (captures : List (Text × ν)) :
    (found.foldl (fun captures c => rebind captures (names.get c.1) c.2) captures).lookup name =
      (lastBound? name found).or (captures.lookup name) := by
  induction found generalizing captures with
  | nil => rfl
  | cons c found ih =>
      obtain ⟨i, n⟩ := c
      rw [List.foldl_cons, ih, lookup_rebind]
      by_cases hi : names.get i = name
      · rw [if_pos hi.symm, ← hi, lastBound?, lastBound?, boundTo_cons_self, List.getLast?_cons]
        cases (boundTo (names.get i) found).getLast? with
        | none => rfl
        | some last => rfl
      · rw [if_neg (Ne.symm hi), lastBound?, lastBound?, boundTo_cons_of_ne hi]

/-- The node of a finding under a name, read off the match. -/
theorem lookup_finding? (span : ν → Span) (found : List (Fin names.length × ν)) (name : Text) :
    ((finding? names span found).bind fun f => f.captures.lookup name) = lastBound? name found := by
  cases found with
  | nil => rfl
  | cons c found =>
      have hlookup := lookup_foldl_rebind name (c :: found) []
      rw [List.lookup_nil, Option.or_none] at hlookup
      exact hlookup

/-! ## All findings -/

theorem captures_findAll (span : ν → Span) (found : List (List (Fin names.length × ν)))
    (name : Text) :
    captures (findAll names span found) name = found.filterMap (lastBound? name) := by
  rw [captures, findAll, List.filterMap_filterMap]
  simp only [lookup_finding?]

/-- The last nodes of the matches are among all their nodes, in the same order. -/
theorem filterMap_lastBound?_sublist (name : Text) (found : List (List (Fin names.length × ν))) :
    (found.filterMap (lastBound? name)).Sublist (found.flatMap (boundTo name)) := by
  induction found with
  | nil => exact .slnil
  | cons m found ih =>
      rw [List.flatMap_cons]
      cases hlast : lastBound? name m with
      | none =>
          rw [List.filterMap_cons_none hlast]
          exact ih.trans (List.sublist_append_right _ _)
      | some n =>
          have hmem : n ∈ boundTo name m := List.mem_of_getLast? hlast
          rw [List.filterMap_cons_some hlast]
          exact (List.singleton_sublist.mpr hmem).append ih

/-- They are all the nodes exactly if no match has two. -/
theorem filterMap_lastBound?_eq_iff (name : Text) (found : List (List (Fin names.length × ν))) :
    found.filterMap (lastBound? name) = found.flatMap (boundTo name) ↔
      ∀ m ∈ found, (boundTo name m).length ≤ 1 := by
  induction found with
  | nil => simp
  | cons m found ih =>
      have hle := (filterMap_lastBound?_sublist name found).length_le
      rw [List.flatMap_cons, List.forall_mem_cons, ← ih]
      cases hbound : boundTo name m with
      | nil =>
          have hlast : lastBound? name m = none := by rw [lastBound?, hbound]; rfl
          rw [List.filterMap_cons_none hlast]
          simp
      | cons n rest =>
          cases rest with
          | nil =>
              have hlast : lastBound? name m = some n := by rw [lastBound?, hbound]; rfl
              rw [List.filterMap_cons_some hlast]
              simp
          | cons n' rest =>
              -- One node stands for two or more, and the other matches cannot make up for it.
              obtain ⟨last, hlast⟩ : ∃ last, lastBound? name m = some last := by
                rw [lastBound?, hbound, List.getLast?_cons]
                exact ⟨_, rfl⟩
              rw [List.filterMap_cons_some hlast]
              refine iff_of_false (fun heq => ?_) fun h => absurd h.1 (by simp)
              have hlength := congrArg List.length heq
              simp only [List.length_cons, List.length_append] at hlength
              omega

/-- The nodes that the findings of a query have under a name are, match by match, those that
were captured last.  They are a part of all nodes under the name, in match order and in the
order of capture, and they are all of them exactly if no match has two nodes under the
name. -/
theorem captures_keep_last (names : List Text) (span : ν → Span)
    (found : List (List (Fin names.length × ν))) (name : Text) :
    captures (findAll names span found) name = found.filterMap (lastBound? name) ∧
    (captures (findAll names span found) name).Sublist (found.flatMap (boundTo name)) ∧
    (captures (findAll names span found) name = found.flatMap (boundTo name) ↔
      ∀ m ∈ found, (boundTo name m).length ≤ 1) := by
  rw [captures_findAll]
  exact ⟨rfl, filterMap_lastBound?_sublist name found, filterMap_lastBound?_eq_iff name found⟩

/-- The names of a query that has only one. -/
def oneName : List Text := ["x".toList]

/-- A match that captured the name of a function and its body under one name. -/
def nameAndBody : List (Fin oneName.length × Span) :=
  [(⟨0, by decide⟩, ⟨3, 7⟩), (⟨0, by decide⟩, ⟨9, 12⟩)]

/-- Of two nodes under one name the first is lost. -/
theorem captures_lose_first :
    captures (findAll oneName id [nameAndBody]) "x".toList = [⟨9, 12⟩] ∧
    [nameAndBody].flatMap (boundTo "x".toList) = [⟨3, 7⟩, ⟨9, 12⟩] ∧
    captures (findAll oneName id [nameAndBody]) "x".toList ≠
      [nameAndBody].flatMap (boundTo "x".toList) := by
  decide

end Query

end Emend
