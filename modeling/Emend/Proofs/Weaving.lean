import Emend.Patch
import Emend.Proofs.Cuts
import Emend.Proofs.StableOrder

/-!
# Edits applied at once

What it means to apply edits *at once* has nothing to do with the order in which
a buffer is changed.  The source is cut where the splices say, the pieces between
them are kept, and the pieces at them are exchanged for their codes.  `weave?`
computes this in one pass over the source and refers to offsets of the source
only.

`Patch.apply` instead changes one buffer, from the last splice to the first.  And
a buffer can be changed from the first splice to the last if every offset is
moved by what the text has grown so far, which is `spliceShifted?`.  All three
agree.  The relation `Woven` carries the argument: it says how the source from
some offset on is laid out in pieces, and what the laid out pieces become.  Each
of the three functions is then a recursion on the layout.

* From the last splice to the first, the text before the layout is still that of
  the source.
* From the first splice to the last, the text before the layout is done, and its
  size is off by the growth.

Splices that fit the source and do not overlap have a layout (`exists_woven`).
Whether they overlap is asked of neighbours only, which is enough for sorted
splices.
-/

namespace Emend

namespace Patch

/-! ## Three ways to splice -/

/-- The source from an offset on with all splices put in, in one pass.  No result
means that the source cannot be cut at the splices in their order. -/
def weave? (source : Text) : Nat → List Splice → Option Text
  | p, [] => source.drop? p
  | p, s :: l => do
      let kept ← source.slice? p s.span.start
      let text ← weave? source s.span.stop l
      some (kept ++ s.code ++ text)

/-- A text with splices put in from the first to the last.  Their offsets are moved
by the growth of the text so far. -/
def spliceShifted? : Text → Int → List Splice → Option Text
  | text, _, [] => some text
  | text, growth, s :: l => do
      let start ← ((s.span.start : Int) + growth).toNat?
      let stop ← ((s.span.stop : Int) + growth).toNat?
      let text ← text.replace? start stop s.code
      spliceShifted? text (growth + s.code.size - s.span.width) l

/-- Splices lay out a text that starts at an offset, and this is what the text
becomes. -/
inductive Woven : Nat → Text → List Splice → Text → Prop where
  /-- Without splices all is kept. -/
  | rest (p : Nat) (text : Text) : Woven p text [] text
  /-- A piece is kept and the next one exchanged. -/
  | splice {p : Nat} {kept old rest text : Text} {s : Splice} {l : List Splice}
      (hstart : s.span.start = p + kept.size) (hstop : s.span.stop = p + kept.size + old.size)
      (h : Woven s.span.stop rest l text) :
      Woven p (kept ++ (old ++ rest)) (s :: l) (kept ++ (s.code ++ text))

/-! ## All three follow the layout -/

/-- One pass gives what the layout becomes. -/
theorem Woven.weave?_eq {p : Nat} {after text : Text} {l : List Splice}
    (h : Woven p after l text) :
    ∀ (before : Text), before.size = p → weave? (before ++ after) p l = some text := by
  induction h with
  | rest p text =>
      intro before hp
      subst hp
      exact Text.drop?_append before text
  | @splice p kept old rest text s l hstart hstop h ih =>
      intro before hp
      have hbefore : (before ++ (kept ++ old)).size = s.span.stop := by
        rw [Text.size_append, Text.size_append, hstop, hp, Nat.add_assoc]
      have hrest := ih _ hbefore
      rw [List.append_assoc, List.append_assoc] at hrest
      have hkept := Text.slice?_append before kept (old ++ rest)
      rw [hp, ← hstart] at hkept
      rw [weave?, hkept, hrest]
      simp

/-- From the last splice to the first, what stands before the layout is not
touched. -/
theorem Woven.spliceAll?_eq {p : Nat} {after text : Text} {l : List Splice}
    (h : Woven p after l text) :
    ∀ (before : Text), before.size = p → spliceAll? (before ++ after) l = some (before ++ text) := by
  induction h with
  | rest p text =>
      intro before hp
      rfl
  | @splice p kept old rest text s l hstart hstop h ih =>
      intro before hp
      have hsize : (before ++ kept).size = s.span.start := by
        rw [Text.size_append, hstart, hp]
      have hstop' : s.span.stop = (before ++ kept).size + old.size := by
        rw [hsize, hstop, hstart]
      have hrest : spliceAll? (before ++ (kept ++ (old ++ rest))) l =
          some (before ++ kept ++ (old ++ text)) := by
        have hbefore : (before ++ kept ++ old).size = s.span.stop := by
          rw [Text.size_append, hstop']
        have hall := ih _ hbefore
        simpa only [List.append_assoc] using hall
      have hreplace := Text.replace?_append (before ++ kept) old text s.code
      rw [← hstop', hsize] at hreplace
      rw [spliceAll?, hrest]
      simpa only [Option.bind_eq_bind, Option.bind_some, List.append_assoc] using hreplace

/-- From the first splice to the last, what stands before the layout is done, and
the growth is the difference between its size and the offset of the layout. -/
theorem Woven.spliceShifted?_eq {p : Nat} {after text : Text} {l : List Splice}
    (h : Woven p after l text) :
    ∀ (done : Text), spliceShifted? (done ++ after) (done.size - p) l = some (done ++ text) := by
  induction h with
  | rest p text =>
      intro done
      rfl
  | @splice p kept old rest text s l hstart hstop h ih =>
      intro done
      have hsize : (done ++ kept).size = done.size + kept.size := Text.size_append done kept
      have hs : (s.span.start : Int) + (done.size - p) = ((done ++ kept).size : Nat) := by
        omega
      have ht : (s.span.stop : Int) + (done.size - p) = ((done ++ kept).size + old.size : Nat) := by
        omega
      have hgrowth : (done.size : Int) - p + s.code.size - s.span.width =
          ((done ++ kept ++ s.code).size : Nat) - (s.span.stop : Int) := by
        have hwidth : s.span.width = old.size := by
          rw [Span.width]
          omega
        rw [Text.size_append, hwidth]
        omega
      have hreplace := Text.replace?_append (done ++ kept) old rest s.code
      have hrest := ih (done ++ kept ++ s.code)
      simp only [List.append_assoc] at hreplace hrest hgrowth
      rw [spliceShifted?, hs, ht, hgrowth]
      simp only [Int.toNat?, Option.bind_eq_bind, Option.bind_some]
      rw [hreplace]
      exact hrest

/-- Splices that fit a source and follow each other lay it out from every offset
that none of them starts before. -/
theorem exists_woven {l : List Splice} :
    ∀ (before after : Text), (∀ s ∈ l, s.span.fits (before ++ after) = true) →
      (∀ s ∈ l, before.size ≤ s.span.start) →
      (l.Pairwise fun a b => a.span.stop ≤ b.span.start) → ∃ text, Woven before.size after l text := by
  induction l with
  | nil =>
      intro before after _ _ _
      exact ⟨after, .rest _ _⟩
  | cons s l ih =>
      intro before after hfits hfrom hl
      obtain ⟨hs, hl'⟩ := List.pairwise_cons.mp hl
      obtain ⟨kept, old, rest, hafter, hstart, hstop⟩ :=
        Span.fits_append (hfits s (by simp)) (hfrom s (by simp))
      subst hafter
      have hsize : (before ++ (kept ++ old)).size = s.span.stop := by
        rw [Text.size_append, Text.size_append, hstop, Nat.add_assoc]
      have hsource : before ++ (kept ++ (old ++ rest)) = before ++ (kept ++ old) ++ rest := by
        simp only [List.append_assoc]
      obtain ⟨text, htext⟩ := ih (before ++ (kept ++ old)) rest
        (fun t ht => hsource ▸ hfits t (List.mem_cons_of_mem s ht))
        (fun t ht => hsize ▸ hs t ht) hl'
      exact ⟨_, .splice hstart hstop (hsize ▸ htext)⟩

/-! ## Collisions -/

/-- Two edits with code, at different places of a list, overlap. -/
def Colliding (edits : List Edit) : Prop :=
  ∃ (i j : Nat) (a b : Edit), i ≠ j ∧ edits[i]? = some a ∧ edits[j]? = some b ∧
    a.code.isSome = true ∧ b.code.isSome = true ∧ a.span.Overlaps b.span

theorem not_colliding_iff {edits : List Edit} :
    ¬ Colliding edits ↔ edits.Pairwise fun a b =>
      a.code.isSome = true → b.code.isSome = true → ¬ a.span.Overlaps b.span := by
  rw [List.pairwise_iff_getElem]
  constructor
  · intro h i j hi hj hij ha hb ho
    exact h ⟨i, j, edits[i], edits[j], Nat.ne_of_lt hij, List.getElem?_eq_getElem hi,
      List.getElem?_eq_getElem hj, ha, hb, ho⟩
  · rintro h ⟨i, j, a, b, hne, hi, hj, ha, hb, ho⟩
    obtain ⟨hi', rfl⟩ := List.getElem?_eq_some_iff.mp hi
    obtain ⟨hj', rfl⟩ := List.getElem?_eq_some_iff.mp hj
    rcases Nat.lt_or_gt_of_ne hne with hij | hji
    · exact h i j hi' hj' hij ha hb ho
    · exact h j i hj' hi' hji hb ha ho.symm

/-- The splices of edits overlap exactly if the edits collide. -/
theorem filterMap_splice?_pairwise_iff {edits : List Edit} :
    ((edits.filterMap Edit.splice?).Pairwise fun a b => ¬ a.span.Overlaps b.span) ↔
      ¬ Colliding edits := by
  rw [not_colliding_iff, List.pairwise_filterMap]
  constructor
  · refine List.Pairwise.imp fun {a b} h ha hb => ?_
    obtain ⟨c, hc⟩ := Option.isSome_iff_exists.mp ha
    obtain ⟨d, hd⟩ := Option.isSome_iff_exists.mp hb
    exact h ⟨a.span, c⟩ (by simp [Edit.splice?, hc]) ⟨b.span, d⟩ (by simp [Edit.splice?, hd])
  · refine List.Pairwise.imp fun {a b} h s hs t ht => ?_
    obtain ⟨c, hc, rfl⟩ := Option.map_eq_some_iff.mp hs
    obtain ⟨d, hd, rfl⟩ := Option.map_eq_some_iff.mp ht
    exact h (by simp [hc]) (by simp [hd])

/-! ## The splices of edits -/

/-- The splices of edits are those of the list, arranged stably. -/
theorem splices_stablySorted (edits : List Edit) :
    Span.StablySorted Splice.span (edits.filterMap Edit.splice?) (splices edits) :=
  Span.sortOn_stablySorted Splice.span _

theorem splices_fit {source : Text} {edits : List Edit}
    (hfits : ∀ e ∈ edits, e.span.fits source = true) :
    ∀ s ∈ splices edits, s.span.fits source = true := by
  intro s hs
  obtain ⟨e, he, hes⟩ := List.mem_filterMap.mp ((splices_stablySorted edits).perm.mem_iff.mp hs)
  obtain ⟨c, -, rfl⟩ := Option.map_eq_some_iff.mp hes
  exact hfits e he

theorem splices_proper {source : Text} {edits : List Edit}
    (hfits : ∀ e ∈ edits, e.span.fits source = true) :
    ∀ s ∈ (splices edits).map Splice.span, s.start ≤ s.stop := by
  intro s hs
  obtain ⟨t, ht, rfl⟩ := List.mem_map.mp hs
  exact Span.start_le_stop_of_fits (splices_fit hfits t ht)

theorem overlap?_eq_none_iff {l : List Splice} :
    overlap? l = none ↔ Span.anyOverlap (l.map Splice.span) = false := by
  induction l with
  | nil => simp [overlap?, Span.anyOverlap]
  | cons a l ih =>
      cases l with
      | nil => simp [overlap?, Span.anyOverlap]
      | cons b l =>
          by_cases hab : b.span.start < a.span.stop
          · simp [overlap?, Span.anyOverlap, hab]
          · simpa [overlap?, Span.anyOverlap, hab] using ih

/-- What the check of neighbours reports is an overlap. -/
theorem overlap?_eq_some {l : List Splice} {e : Error} (h : overlap? l = some e) :
    ∃ a b, e = .overlap a b := by
  induction l with
  | nil => simp [overlap?] at h
  | cons a l ih =>
      cases l with
      | nil => simp [overlap?] at h
      | cons b l =>
          rw [overlap?] at h
          split at h
          next => exact ⟨a.span, b.span, (Option.some.inj h).symm⟩
          next => exact ih h

section

variable {source : Text} {edits : List Edit}

/-- If all edits fit, neighbours tell whether any two of them collide. -/
theorem overlap?_splices_eq_none_iff (hfits : ∀ e ∈ edits, e.span.fits source = true) :
    overlap? (splices edits) = none ↔ ¬ Colliding edits := by
  have hsorted := splices_stablySorted edits
  have hle : ((splices edits).map Splice.span).Pairwise fun a b => a ≤ b :=
    List.pairwise_map.mpr hsorted.ordered
  rw [overlap?_eq_none_iff, Span.anyOverlap_sorted_iff hle (splices_proper hfits),
    List.pairwise_map, hsorted.perm.pairwise_iff Span.not_overlaps_comm, filterMap_splice?_pairwise_iff]

/-- Edits that fit a source and do not collide lay it out. -/
theorem exists_woven_splices (hfits : ∀ e ∈ edits, e.span.fits source = true)
    (hc : ¬ Colliding edits) : ∃ text, Woven 0 source (splices edits) text := by
  have hnone := overlap?_eq_none_iff.mp ((overlap?_splices_eq_none_iff hfits).mpr hc)
  have hapart := (Span.anyOverlap_eq_false_iff (splices_proper hfits)).mp hnone
  exact exists_woven [] source (splices_fit hfits) (fun _ _ => Nat.zero_le _)
    (List.pairwise_map.mp hapart)

/-! ## Applying edits -/

/-- The first edit that does not fit is reported. -/
theorem apply_of_misfit {before after : List Edit} {e : Edit}
    (hbefore : ∀ x ∈ before, x.span.fits source = true) (he : e.span.fits source = false) :
    apply source (before ++ e :: after) = .error (.refused (.badSpan e.span source.size)) := by
  have hfind : (before ++ e :: after).find? (fun x => !x.span.fits source) = some e := by
    rw [List.find?_eq_some_iff_append]
    refine ⟨by simp [he], before, after, rfl, fun x hx => ?_⟩
    simp [hbefore x hx]
  rw [apply, misfit?, hfind]
  rfl

theorem apply_of_exists_misfit (h : ∃ e ∈ edits, e.span.fits source = false) :
    ∃ e ∈ edits, e.span.fits source = false ∧
      apply source edits = .error (.refused (.badSpan e.span source.size)) := by
  cases hfind : edits.find? (fun x => !x.span.fits source) with
  | none =>
      obtain ⟨e, he, hfit⟩ := h
      have := List.find?_eq_none.mp hfind e he
      simp [hfit] at this
  | some e =>
      obtain ⟨hfit, before, after, rfl, hbefore⟩ := List.find?_eq_some_iff_append.mp hfind
      have hfit' : e.span.fits source = false := by simpa using hfit
      exact ⟨e, by simp, hfit', apply_of_misfit (fun x hx => by simpa using hbefore x hx) hfit'⟩

theorem misfit?_eq_none (hfits : ∀ e ∈ edits, e.span.fits source = true) :
    misfit? source edits = none := by
  rw [misfit?, Option.map_eq_none_iff, List.find?_eq_none]
  intro e he
  simp [hfits e he]

theorem apply_of_colliding (hfits : ∀ e ∈ edits, e.span.fits source = true)
    (hc : Colliding edits) : ∃ a b, apply source edits = .error (.refused (.overlap a b)) := by
  cases ho : overlap? (splices edits) with
  | none => exact absurd hc ((overlap?_splices_eq_none_iff hfits).mp ho)
  | some e =>
      obtain ⟨a, b, rfl⟩ := overlap?_eq_some ho
      exact ⟨a, b, by rw [apply, misfit?_eq_none hfits, ho]⟩

/-- Edits that fit and do not collide give what their layout becomes. -/
theorem apply_of_woven (hfits : ∀ e ∈ edits, e.span.fits source = true) (hc : ¬ Colliding edits)
    {text : Text} (h : Woven 0 source (splices edits) text) : apply source edits = .ok text := by
  have ho := (overlap?_splices_eq_none_iff hfits).mpr hc
  have hall : spliceAll? source (splices edits) = some text :=
    h.spliceAll?_eq [] rfl
  rw [apply, misfit?_eq_none hfits, ho, hall]

/-- One edit with code leaves the source around it alone. -/
theorem apply_around (kind : EditKind) (before part after code : Text) :
    apply (before ++ (part ++ after)) [⟨kind, .around before part, some code⟩] =
      .ok (before ++ (code ++ after)) := by
  have hfits : (Span.around before part).fits (before ++ (part ++ after)) = true :=
    Span.fits_iff_around.mpr ⟨before, part, after, rfl, rfl⟩
  have hwoven : Woven 0 (before ++ (part ++ after)) [⟨.around before part, code⟩]
      (before ++ (code ++ after)) :=
    .splice (s := ⟨.around before part, code⟩) (by simp) (by simp) (.rest _ _)
  have hone : ¬ Colliding [⟨kind, .around before part, some code⟩] :=
    not_colliding_iff.mpr (List.pairwise_singleton _ _)
  refine apply_of_woven (fun e he => ?_) hone hwoven
  rw [List.mem_singleton.mp he]
  exact hfits

/-- While splices are put in from the last to the first, each meets a buffer that it
fits. -/
theorem fits_buffer_of_spliceAll? {s : Splice} {l : List Splice} :
    ∀ {m : List Splice} {text : Text}, spliceAll? source (m ++ s :: l) = some text →
      ∃ buffer, spliceAll? source l = some buffer ∧ s.span.fits buffer = true
  | [], text, h => by
      obtain ⟨buffer, hbuffer, hreplace⟩ := Option.bind_eq_some_iff.mp h
      exact ⟨buffer, hbuffer, Span.fits_of_replace? hreplace⟩
  | t :: m, text, h => by
      obtain ⟨text', h', -⟩ := Option.bind_eq_some_iff.mp h
      exact fits_buffer_of_spliceAll? h'

end

/-- Applying edits is weaving them into the source at once.  The first edit that does
not fit is reported.  If all fit, an overlap is reported exactly if two edits collide.
Otherwise the text is that of one pass over the source and that of splicing from the
first to the last with moved offsets, and from the last to the first every splice
meets a buffer it fits. -/
theorem apply_eq_weave (source : Text) (edits : List Edit) :
    (∀ before e after, edits = before ++ e :: after →
      (∀ x ∈ before, x.span.fits source = true) → e.span.fits source = false →
      apply source edits = .error (.refused (.badSpan e.span source.size))) ∧
    ((∀ e ∈ edits, e.span.fits source = true) →
      ((∃ a b, apply source edits = .error (.refused (.overlap a b))) ↔ Colliding edits) ∧
      (¬ Colliding edits →
        ∃ text, apply source edits = .ok text ∧
          weave? source 0 (splices edits) = some text ∧
          spliceShifted? source 0 (splices edits) = some text ∧
          ∀ s l, s :: l <:+ splices edits →
            ∃ buffer, spliceAll? source l = some buffer ∧ s.span.fits buffer = true)) ∧
    Span.StablySorted Splice.span (edits.filterMap Edit.splice?) (splices edits) := by
  refine ⟨?_, fun hfits => ⟨⟨?_, apply_of_colliding hfits⟩, fun hc => ?_⟩,
    splices_stablySorted edits⟩
  · intro before e after hedits hbefore he
    rw [hedits]
    exact apply_of_misfit hbefore he
  · rintro ⟨a, b, herror⟩
    refine Classical.byContradiction fun hc => ?_
    obtain ⟨text, htext⟩ := exists_woven_splices hfits hc
    rw [apply_of_woven hfits hc htext] at herror
    cases herror
  · obtain ⟨text, htext⟩ := exists_woven_splices hfits hc
    refine ⟨text, apply_of_woven hfits hc htext, htext.weave?_eq [] rfl,
      htext.spliceShifted?_eq [], ?_⟩
    rintro s l ⟨m, hm⟩
    have hall : spliceAll? source (splices edits) = some text := htext.spliceAll?_eq [] rfl
    rw [← hm] at hall
    exact fits_buffer_of_spliceAll? hall

-- Insertions at both borders of a replacement do not collide with it.
example :
    apply "aéb".toList
      [⟨.replace, ⟨1, 3⟩, some "e".toList⟩, ⟨.noop, ⟨0, 3⟩, none⟩,
        ⟨.insert, ⟨3, 3⟩, some ")".toList⟩, ⟨.insert, ⟨1, 1⟩, some "(".toList⟩] =
      .ok "a(e)b".toList := by
  rfl

end Patch

end Emend
