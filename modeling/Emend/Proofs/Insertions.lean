import Emend.Proofs.Outcomes

/-!
# Insertions

An insertion is an action whose span has width zero.  What becomes of insertions is
decided by their offsets and the policy alone.

*Acceptance.*  In the order of spans, the insertions at an offset come before
everything else that starts there, so no action to their right starts before them,
and they are never broken.  The one thing they can conflict with is an insertion at
the same offset (`conflicts_of_point`).  If the policy lets insertions share an
offset, all of them are accepted, and otherwise the last one registered is.

*Place.*  An offset is a *seam* of edits if no edit with code reaches across it.  At
a seam the text falls into three parts: what the edits on the left make of the source
before the seam, the codes inserted at the seam, and what the edits on the right make
of the source behind it (`weave?_at_seam`).  Both sorting and applying keep insertions
at one offset in order, so their codes stand in the order of registration.
-/

namespace Emend

namespace Span

theorem isEmpty_iff {s : Span} : s.isEmpty = true ↔ s = .point s.start := by
  obtain ⟨start, stop⟩ := s
  simp [isEmpty, point, eq_comm]

theorem anyOverlap_of_within_point {p : Nat} {l : List Span} (h : ∀ s ∈ l, s.Within (.point p)) :
    anyOverlap l = false := by
  induction l with
  | nil => rfl
  | cons a l ih =>
      cases l with
      | nil => rfl
      | cons b l =>
          have ha : a.stop ≤ p := (h a (by simp)).2
          have hb : p ≤ b.start := (h b (by simp)).1
          rw [anyOverlap, ih fun s hs => h s (List.mem_cons_of_mem a hs)]
          simp
          omega

/-- In an ordered list without inverted spans, what starts before an offset comes first,
then what is inserted there, then the rest. -/
theorem cut_at_offset {α : Type} {f : α → Span} {l : List α} (p : Nat)
    (hle : l.Pairwise fun x y => f x ≤ f y) (hproper : ∀ x ∈ l, (f x).start ≤ (f x).stop) :
    l.filter (fun x => (f x).start < p) ++ (l.filter (fun x => f x = .point p) ++
      l.filter fun x => !decide ((f x).start < p) && !decide (f x = .point p)) = l := by
  have hbefore : l.Pairwise fun x y =>
      decide ((f y).start < p) = true → decide ((f x).start < p) = true := by
    refine hle.imp fun {x y} hxy hy => ?_
    simp only [decide_eq_true_eq, le_def] at hxy hy ⊢
    omega
  have hfrom : (l.filter fun x => !decide ((f x).start < p)).Pairwise fun x y =>
      decide (f y = .point p) = true → decide (f x = .point p) = true := by
    refine (hle.filter _).imp_of_mem fun {x y} hx _ hxy hy => ?_
    obtain ⟨hx, hstart⟩ := List.mem_filter.mp hx
    have hwidth := hproper x hx
    simp only [Bool.not_eq_true', decide_eq_false_iff_not, decide_eq_true_eq] at hstart hy ⊢
    rw [hy, le_def] at hxy
    cases hspan : f x with
    | mk start stop =>
        simp only [hspan, point, mk.injEq] at hxy hstart hwidth ⊢
        omega
  have hpoints : (l.filter fun x => !decide ((f x).start < p)).filter (fun x => f x = .point p) =
      l.filter fun x => f x = .point p := by
    rw [List.filter_filter]
    refine List.filter_congr fun x _ => ?_
    by_cases hx : f x = .point p
    · simp [hx, point]
    · simp [hx]
  have hcut := filter_append_filter_not hfrom
  rw [hpoints, List.filter_filter] at hcut
  simp only [Bool.and_comm] at hcut ⊢
  rw [hcut]
  exact filter_append_filter_not hbefore

end Span

/-! ## Acceptance of insertions -/

namespace Clash

section

variable {policy : Policy} {a : Action} {as : List Action} {p : Nat}

/-- An insertion that is a group is never broken, since all its edits are insertions at
its offset or inverted. -/
theorem isBroken_of_point (ha : a.span = .point p) : isBroken a = false := by
  cases a with
  | edit e => rfl
  | group members =>
      refine Span.anyOverlap_of_within_point (p := p) fun s hs => ?_
      rw [(Span.sortOn_perm id _).mem_iff, spliceSpans_eq_map] at hs
      obtain ⟨t, ht, rfl⟩ := List.mem_map.mp hs
      obtain ⟨e, he, hes⟩ := List.mem_filterMap.mp ht
      obtain ⟨c, -, rfl⟩ := Option.map_eq_some_iff.mp hes
      rw [← ha]
      exact Action.edits_within (.group members) e he

/-- An insertion conflicts exactly if the action kept to its right is an insertion at the
same offset and the policy does not let the two share it. -/
theorem conflicts_of_point {kept : Option Span} (ha : a.span = .point p)
    (hkept : ∀ k ∈ kept, a.span ≤ k) :
    conflicts policy a kept = (kept = some (.point p) && !policy.shareOffsets) := by
  cases kept with
  | none => simp [conflicts, isBroken_of_point ha]
  | some k =>
      have hle : p ≤ k.start := by
        have := hkept k rfl
        rw [ha, Span.le_def] at this
        simp only [Span.point] at this
        omega
      have hstart : ¬ k.start < p := by omega
      obtain ⟨start, stop⟩ := k
      simp only [conflicts, isBroken_of_point ha, hits, ha, Span.isEmpty, Span.point,
        Option.some.injEq, Span.mk.injEq] at hstart ⊢
      by_cases hs : start = p
      · subst hs
        simp [eq_comm]
      · simp [hs, hstart]

theorem le_of_mem_accepted_head? (h : (a :: as).Pairwise fun a b => a.span ≤ b.span) :
    ∀ k ∈ (accepted policy as).head?.map Action.span, a.span ≤ k := by
  intro k hk
  obtain ⟨b, hb, rfl⟩ := Option.map_eq_some_iff.mp hk
  exact (List.pairwise_cons.mp h).1 b ((accepted_sublist policy as).subset (List.mem_of_head? hb))

theorem isEmpty_of_mem_rejected (hshare : policy.shareOffsets = true)
    (h : as.Pairwise fun a b => a.span ≤ b.span) :
    ∀ a ∈ rejected policy as, a.span.isEmpty = false := by
  induction as with
  | nil => exact fun a ha => absurd ha List.not_mem_nil
  | cons b as ih =>
      intro a ha
      rw [rejected_cons] at ha
      split at ha
      next hc =>
        rcases List.mem_cons.mp ha with rfl | ha'
        · cases hempty : a.span.isEmpty with
          | false => rfl
          | true =>
              rw [conflicts_of_point (Span.isEmpty_iff.mp hempty) (le_of_mem_accepted_head? h),
                hshare] at hc
              simp at hc
        · exact ih h.tail a ha'
      next => exact ih h.tail a ha

theorem filter_accepted_of_share (hshare : policy.shareOffsets = true)
    (h : as.Pairwise fun a b => a.span ≤ b.span) (p : Nat) :
    (accepted policy as).filter (fun a => a.span = .point p) =
      as.filter fun a => a.span = .point p := by
  induction as with
  | nil => rfl
  | cons a as ih =>
      have ih := ih h.tail
      rw [accepted_cons]
      by_cases ha : a.span = .point p
      · rw [conflicts_of_point ha (le_of_mem_accepted_head? h), hshare]
        simpa [ha] using ih
      · split
        · simpa [ha] using ih
        · simpa [ha] using ih

/-- To the right of an insertion nothing comes before another insertion at its offset. -/
theorem head?_accepted_of_point {b : Action} (h : (a :: as).Pairwise fun a b => a.span ≤ b.span)
    (ha : a.span = .point p) (hb : b ∈ accepted policy as) (hbp : b.span = .point p) :
    (accepted policy as).head?.map Action.span = some (.point p) := by
  have hleft : ∀ k ∈ (accepted policy as).head?.map Action.span, a.span ≤ k :=
    le_of_mem_accepted_head? h
  have hsorted := h.tail.sublist (accepted_sublist policy as)
  cases hacc : accepted policy as with
  | nil =>
      rw [hacc] at hb
      cases hb
  | cons c cs =>
      rw [hacc] at hb hleft hsorted
      have hpc : Span.point p ≤ c.span := ha ▸ hleft c.span rfl
      have hcp : c.span ≤ Span.point p := by
        rcases List.mem_cons.mp hb with rfl | hb'
        · exact hbp ▸ Span.le_refl _
        · exact hbp ▸ (List.pairwise_cons.mp hsorted).1 b hb'
      exact congrArg some (Span.le_antisymm hcp hpc)

/-- If insertions may not share offsets, the last of those at one offset is accepted and
no other. -/
theorem filter_accepted_of_not_share (hshare : policy.shareOffsets = false)
    (h : as.Pairwise fun a b => a.span ≤ b.span) (p : Nat) :
    (accepted policy as).filter (fun a => a.span = .point p) =
      (as.filter fun a => a.span = .point p).getLast?.toList := by
  induction as with
  | nil => rfl
  | cons a as ih =>
      have ih := ih h.tail
      have hsub := accepted_sublist policy as
      rw [accepted_cons]
      by_cases ha : a.span = .point p
      · rw [conflicts_of_point ha (le_of_mem_accepted_head? h), hshare]
        cases hlater : as.filter fun a => a.span = .point p with
        | nil =>
            -- Nothing else is inserted here, so what is kept to the right is not an insertion.
            rw [hlater] at ih
            have hkept : (accepted policy as).head?.map Action.span ≠ some (.point p) := by
              intro hk
              obtain ⟨b, hb, hbp⟩ := Option.map_eq_some_iff.mp hk
              have hmem : b ∈ as.filter fun a => a.span = .point p :=
                List.mem_filter.mpr ⟨hsub.subset (List.mem_of_head? hb), by simpa using hbp⟩
              rw [hlater] at hmem
              cases hmem
            simp [hkept, ha, ih, hlater]
        | cons b bs =>
            -- One of the later insertions is accepted, and nothing stands before it.
            rw [hlater] at ih
            have hlast : bs.getLast?.getD b ∈
                (accepted policy as).filter fun a => a.span = .point p := by
              rw [ih]
              simp [List.getLast?_cons]
            obtain ⟨hmem, hspan⟩ := List.mem_filter.mp hlast
            have hkept := head?_accepted_of_point h ha hmem (by simpa using hspan)
            simp [hkept, ha, ih, hlater, List.getLast?_cons_cons]
      · split
        · simpa [ha] using ih
        · simpa [ha] using ih

end

end Clash

/-! ## Layouts that are cut at an offset -/

namespace Patch

theorem Woven.eq_of_nil {p : Nat} {after text : Text} (h : Woven p after [] text) :
    text = after := by
  cases h with
  | rest => rfl

theorem Woven.le_start {p : Nat} {after text : Text} {l : List Splice} (h : Woven p after l text) :
    ∀ s ∈ l, p ≤ s.span.start := by
  induction h with
  | rest p text => exact fun s hs => absurd hs List.not_mem_nil
  | splice hstart hstop _ ih =>
      intro s hs
      rcases List.mem_cons.mp hs with rfl | hs'
      · omega
      · have := ih s hs'
        omega

/-- A layout whose splices stop before an offset or start behind it is two layouts, one
on each side. -/
theorem Woven.split {q : Nat} {back : Text} {m : List Splice} (hm : ∀ s ∈ m, q ≤ s.span.start) :
    ∀ {l : List Splice} {p : Nat} {front text : Text}, Woven p (front ++ back) (l ++ m) text →
      q = p + front.size → (∀ s ∈ l, s.span.stop ≤ q) →
      ∃ left right, text = left ++ right ∧ Woven p front l left ∧ Woven q back m right
  | [], p, front, text, h, hq, _ => by
      rw [List.nil_append] at h
      generalize hsource : front ++ back = source at h
      cases h with
      | rest => exact ⟨front, back, hsource.symm, .rest _ _, .rest _ _⟩
      | @splice _ kept old rest text s l hstart hstop h' =>
          have hfrom := hm s (by simp)
          obtain ⟨k, rfl, rfl⟩ := Text.exists_append_of_size_le hsource (by omega)
          rw [Text.size_append] at hstart hstop
          refine ⟨front, k ++ (s.code ++ text), by rw [List.append_assoc], .rest _ _, ?_⟩
          exact .splice (by omega) (by omega) h'
  | t :: l, p, front, text, h, hq, hl => by
      rw [List.cons_append] at h
      generalize hsource : front ++ back = source at h
      cases h with
      | @splice _ kept old rest text _ _ hstart hstop h' =>
          have hupto := hl t (by simp)
          have hsource' : kept ++ old ++ rest = front ++ back := by
            rw [List.append_assoc, hsource]
          have hsize : (kept ++ old).size ≤ front.size := by
            rw [Text.size_append]
            omega
          obtain ⟨k, rfl, rfl⟩ := Text.exists_append_of_size_le hsource' hsize
          rw [Text.size_append, Text.size_append] at hq
          obtain ⟨left, right, rfl, hleft, hright⟩ :=
            Woven.split hm h' (by omega) fun s hs => hl s (by simp [hs])
          refine ⟨kept ++ (t.code ++ left), right, by simp, ?_, hright⟩
          rw [List.append_assoc]
          exact .splice hstart hstop hleft

/-- Insertions where a layout starts put their codes in front. -/
theorem Woven.of_points {p : Nat} {after : Text} {m : List Splice} :
    ∀ {l : List Splice} {text : Text}, Woven p after (l ++ m) text →
      (∀ s ∈ l, s.span = .point p) →
      ∃ right, text = (l.map Splice.code).flatten ++ right ∧ Woven p after m right
  | [], text, h, _ => ⟨text, rfl, h⟩
  | s :: l, text, h, hl => by
      have hs := hl s (by simp)
      rw [List.cons_append] at h
      cases h with
      | @splice _ kept old rest text _ _ hstart hstop h' =>
          rw [hs, Span.point] at hstart hstop h'
          simp only at hstart hstop
          have hkept : kept = [] := Text.size_eq_zero_iff.mp (by omega)
          have hold : old = [] := Text.size_eq_zero_iff.mp (by omega)
          obtain ⟨right, rfl, hright⟩ := Woven.of_points h' fun t ht => hl t (by simp [ht])
          refine ⟨right, by simp [hkept], ?_⟩
          simpa [hkept, hold] using hright

/-- The code of a splice that stops where a layout does stands at the end. -/
theorem Woven.code_suffix {p : Nat} {after text : Text} {l : List Splice} {s : Splice}
    (h : Woven p after l text) (hs : s ∈ l) (hstop : s.span.stop = p + after.size)
    (hl : ∀ t ∈ l, t.span.start < p + after.size) : s.code <:+ text := by
  induction h with
  | rest => cases hs
  | @splice p kept old rest text t l hstart hstop' h ih =>
      rw [Text.size_append, Text.size_append] at hstop hl
      rcases List.mem_cons.mp hs with rfl | hs'
      · -- No splice follows, since it would start where the layout stops.
        have hnil : l = [] := by
          refine List.eq_nil_iff_forall_not_mem.mpr fun u hu => ?_
          have h1 := h.le_start u hu
          have h2 := hl u (by simp [hu])
          omega
        have hrest : rest = [] := Text.size_eq_zero_iff.mp (by omega)
        subst hnil hrest
        exact ⟨kept, by rw [h.eq_of_nil, List.append_nil]⟩
      · have htext := ih hs' (by omega) fun u hu => by
          have := hl u (by simp [hu])
          omega
        exact htext.trans ((List.suffix_append _ _).trans (List.suffix_append _ _))

/-- The code of a splice that starts where a layout does stands in front, unless there
are insertions. -/
theorem Woven.code_prefix {p : Nat} {after text : Text} {l : List Splice} {s : Splice}
    (h : Woven p after l text) (hs : s ∈ l) (hstart : s.span.start = p)
    (hl : ∀ t ∈ l, p < t.span.stop) : s.code <+: text := by
  cases h with
  | rest => cases hs
  | @splice _ kept old rest text t l hstart' hstop h =>
      rcases List.mem_cons.mp hs with rfl | hs'
      · have hkept : kept = [] := Text.size_eq_zero_iff.mp (by omega)
        exact ⟨text, by simp [hkept]⟩
      · have h1 := h.le_start s hs'
        have h2 := hl t (by simp)
        omega

/-! ## Seams -/

/-- The source can be cut at an offset, and no edit with code reaches across it. -/
structure Seam (source : Text) (edits : List Edit) (p : Nat) : Prop where
  boundary : source.isBoundary p = true
  uncut : ∀ e ∈ edits, e.code.isSome = true → ¬ (e.span.start < p ∧ p < e.span.stop)

/-- The edits that start before an offset. -/
def leftOf (edits : List Edit) (p : Nat) : List Edit :=
  edits.filter fun e => e.span.start < p

/-- The edits that stop behind an offset. -/
def rightOf (edits : List Edit) (p : Nat) : List Edit :=
  edits.filter fun e => p < e.span.stop

/-- The codes of the insertions at an offset, one after the other. -/
def insertedAt (edits : List Edit) (p : Nat) : Text :=
  ((edits.filter fun e => e.span = .point p).filterMap Edit.code).flatten

theorem mem_splices {edits : List Edit} {s : Splice} :
    s ∈ splices edits ↔ ∃ e ∈ edits, e.span = s.span ∧ e.code = some s.code := by
  rw [(splices_stablySorted edits).perm.mem_iff, List.mem_filterMap]
  refine exists_congr fun e => and_congr_right fun _ => ?_
  obtain ⟨span, code⟩ := s
  simp only [Edit.splice?, Option.map_eq_some_iff, Splice.mk.injEq]
  constructor
  · rintro ⟨c, hc, hspan, rfl⟩
    exact ⟨hspan, hc⟩
  · rintro ⟨hspan, hc⟩
    exact ⟨code, hc, hspan, rfl⟩

theorem splices_filter (edits : List Edit) (q : Span → Bool) :
    splices (edits.filter fun e => q e.span) = (splices edits).filter fun s => q s.span := by
  rw [splices, splices, Span.filter_sortOn, List.filterMap_filter, List.filter_filterMap]
  congr 2
  funext e
  cases hc : e.code with
  | none => simp [Edit.splice?, hc]
  | some c => cases hq : q e.span <;> simp [Edit.splice?, hc, hq, Option.filter]

theorem codes_at_point (edits : List Edit) (p : Nat) :
    (((splices edits).filter fun s => s.span = .point p).map Splice.code).flatten =
      insertedAt edits p := by
  rw [(splices_stablySorted edits).stable, insertedAt]
  congr 1
  rw [List.filter_filterMap, List.filterMap_filter, List.map_filterMap]
  congr 1
  funext e
  cases hc : e.code with
  | none => simp [Edit.splice?, hc]
  | some c => by_cases hp : e.span = .point p <;> simp [Edit.splice?, hc, hp, Option.filter]

section

variable {source : Text} {edits : List Edit} {p : Nat}

theorem uncut_splices (hseam : Seam source edits p) :
    ∀ s ∈ splices edits, ¬ (s.span.start < p ∧ p < s.span.stop) := by
  intro s hs
  obtain ⟨e, he, hspan, hcode⟩ := mem_splices.mp hs
  rw [← hspan]
  exact hseam.uncut e he (by rw [hcode]; rfl)

theorem mem_splices_leftOf {s : Splice} :
    s ∈ splices (leftOf edits p) ↔ s ∈ splices edits ∧ s.span.start < p := by
  have hfilter := splices_filter edits fun s => s.start < p
  rw [leftOf, hfilter, List.mem_filter, decide_eq_true_eq]

theorem mem_splices_rightOf {s : Splice} :
    s ∈ splices (rightOf edits p) ↔ s ∈ splices edits ∧ p < s.span.stop := by
  have hfilter := splices_filter edits fun s => p < s.stop
  rw [rightOf, hfilter, List.mem_filter, decide_eq_true_eq]

/-- At a seam the splices fall into those on the left, the insertions, and those on the
right. -/
theorem splices_at_seam (hfits : ∀ e ∈ edits, e.span.fits source = true)
    (hseam : Seam source edits p) :
    splices (leftOf edits p) ++ ((splices edits).filter (fun s => s.span = .point p) ++
      splices (rightOf edits p)) = splices edits := by
  have hproper : ∀ s ∈ splices edits, s.span.start ≤ s.span.stop := fun s hs =>
    Span.start_le_stop_of_fits (splices_fit hfits s hs)
  have hleft : splices (leftOf edits p) = (splices edits).filter fun s => s.span.start < p :=
    splices_filter edits fun s => s.start < p
  have hright : splices (rightOf edits p) =
      (splices edits).filter fun s => !decide (s.span.start < p) && !decide (s.span = .point p) := by
    refine (splices_filter edits fun s => p < s.stop).trans (List.filter_congr fun s hs => ?_)
    have huncut := uncut_splices hseam s hs
    have hwidth := hproper s hs
    obtain ⟨⟨start, stop⟩, code⟩ := s
    rw [Bool.eq_iff_iff]
    simp only [Span.point, Span.mk.injEq, Bool.and_eq_true, Bool.not_eq_true', decide_eq_true_eq,
      decide_eq_false_iff_not] at huncut hwidth ⊢
    omega
  rw [hleft, hright]
  exact Span.cut_at_offset p (splices_stablySorted edits).ordered hproper

/-- At a seam the text falls into what the edits on the left make of the source before
it, the codes inserted there, and what the edits on the right make of the source behind
it.  An edit that stops at the seam ends the first part, and one that starts there begins
the last. -/
theorem weave?_at_seam (hfits : ∀ e ∈ edits, e.span.fits source = true) (hc : ¬ Colliding edits)
    (hseam : Seam source edits p) :
    ∃ front left right, source.take? p = some front ∧
      weave? front 0 (splices (leftOf edits p)) = some left ∧
      weave? source p (splices (rightOf edits p)) = some right ∧
      weave? source 0 (splices edits) = some (left ++ (insertedAt edits p ++ right)) ∧
      ∀ e ∈ edits, ∀ c, e.code = some c → e.span.start < e.span.stop →
        (e.span.stop = p → c <:+ left) ∧ (e.span.start = p → c <+: right) := by
  obtain ⟨front, back, rfl, hfront⟩ := Text.isBoundary_iff.mp hseam.boundary
  obtain ⟨text, htext⟩ := exists_woven_splices hfits hc
  have hwhole : weave? (front ++ back) 0 (splices edits) = some text := htext.weave?_eq [] rfl
  have hcut := splices_at_seam hfits hseam
  have hpoints : ∀ s ∈ (splices edits).filter fun s => s.span = .point p, s.span = .point p :=
    fun s hs => by simpa using (List.mem_filter.mp hs).2
  have hupto : ∀ s ∈ splices (leftOf edits p), s.span.stop ≤ p := by
    intro s hs
    obtain ⟨hs, hstart⟩ := mem_splices_leftOf.mp hs
    have := uncut_splices hseam s hs
    omega
  have hfrom : ∀ s ∈ (splices edits).filter (fun s => s.span = .point p) ++
      splices (rightOf edits p), p ≤ s.span.start := by
    intro s hs
    rcases List.mem_append.mp hs with hpoint | hright
    · rw [hpoints s hpoint]
      exact Nat.le_refl p
    · obtain ⟨hs, hstop⟩ := mem_splices_rightOf.mp hright
      have := uncut_splices hseam s hs
      omega
  rw [← hcut] at htext
  obtain ⟨left, rest, rfl, hleft, hrest⟩ := htext.split hfrom (by omega) hupto
  obtain ⟨right, rfl, hright⟩ := hrest.of_points hpoints
  rw [codes_at_point] at hwhole
  have htake := Text.take?_append front back
  rw [hfront] at htake
  refine ⟨front, left, right, htake, hleft.weave?_eq [] rfl, hright.weave?_eq front hfront, hwhole, ?_⟩
  intro e he c hcode hwide
  have hs : ⟨e.span, c⟩ ∈ splices edits := mem_splices.mpr ⟨e, he, rfl, hcode⟩
  constructor
  · intro hstop
    refine hleft.code_suffix (mem_splices_leftOf.mpr ⟨hs, hstop ▸ hwide⟩) ?_ fun t ht => ?_
    · simp only
      omega
    · have := (mem_splices_leftOf.mp ht).2
      omega
  · intro hstart
    exact hright.code_prefix (mem_splices_rightOf.mpr ⟨hs, hstart ▸ hwide⟩) hstart
      fun t ht => (mem_splices_rightOf.mp ht).2

end

end Patch

/-! ## Insertions of a session -/

namespace Action

theorem filter_leaves {as : List Action} (h : ∀ a ∈ as, ∃ e, a = .edit e) (q : Span → Bool) :
    (leaves as).filter (fun e => q e.span) = leaves (as.filter fun a => q a.span) := by
  induction as with
  | nil => rfl
  | cons a as ih =>
      obtain ⟨e, rfl⟩ := h a (by simp)
      have ih := ih fun b hb => h b (List.mem_cons_of_mem _ hb)
      cases hq : q e.span with
      | true => simp [leaves, edits, span, hq, ih]
      | false => simp [leaves, edits, span, hq, ih]

theorem map_sortIn_of_edits {as : List Action} (h : ∀ a ∈ as, ∃ e, a = .edit e) :
    as.map sortIn = as := by
  refine (List.map_congr_left fun a ha => ?_).trans (List.map_id' as)
  obtain ⟨e, rfl⟩ := h a ha
  rfl

end Action

namespace Session

variable {ν : Type}

/-- The actions of a session in the order in which they were registered, pruned and moved
by the hook. -/
def registered (s : Session ν) (hook : Option Hook) : List Action :=
  match hook with
  | none => Action.prune s.actions
  | some hook => Action.applyHook hook (Action.prune s.actions)

theorem forest_eq_sort (s : Session ν) (hook : Option Hook) :
    s.forest hook = Action.sort (s.registered hook) := by
  cases hook with
  | none => rfl
  | some hook => rfl

section

variable {s : Session ν} {hook : Option Hook}

theorem forest_ordered : (s.forest hook).Pairwise fun a b => a.span ≤ b.span := by
  rw [forest_eq_sort]
  exact (Action.sort_arranged _).ordered

theorem filter_accepted_forest (hshare : s.settings.policy.shareOffsets = true) (p : Nat) :
    (s.accepted hook).filter (fun a => a.span = .point p) =
      ((s.registered hook).filter fun a => a.span = .point p).map Action.sortIn := by
  rw [accepted, Clash.filter_accepted_of_share hshare forest_ordered, forest_eq_sort,
    Action.filter_sort]

theorem accepted_edits (hedits : ∀ a ∈ s.registered hook, ∃ e, a = .edit e) :
    ∀ a ∈ s.accepted hook, ∃ e, a = .edit e := by
  intro a ha
  have hmem := (Clash.accepted_sublist _ _).subset ha
  rw [forest_eq_sort, Action.sort, Action.mem_sortTop, Action.sortEach_eq_map,
    Action.map_sortIn_of_edits hedits] at hmem
  exact hedits a hmem

/-- The insertions among the accepted edits are those registered, in the same order. -/
theorem filter_leaves_accepted (hedits : ∀ a ∈ s.registered hook, ∃ e, a = .edit e)
    (hshare : s.settings.policy.shareOffsets = true) (p : Nat) :
    (Action.leaves (s.accepted hook)).filter (fun e => e.span = .point p) =
      (Action.leaves (s.registered hook)).filter fun e => e.span = .point p := by
  have hfixed : ((s.registered hook).filter fun a => a.span = .point p).map Action.sortIn =
      (s.registered hook).filter fun a => a.span = .point p :=
    Action.map_sortIn_of_edits fun a ha => hedits a (List.mem_filter.mp ha).1
  have hleft := Action.filter_leaves (accepted_edits hedits) fun s => s = .point p
  have hright := Action.filter_leaves hedits fun s => s = .point p
  rw [hleft, hright, filter_accepted_forest hshare, hfixed]

theorem accepted_not_colliding
    (hfits : ∀ e ∈ Action.leaves (s.accepted hook), e.span.fits s.host.source = true) :
    ¬ Patch.Colliding (Action.leaves (s.accepted hook)) :=
  (Clash.accepted_clear _ _).not_colliding fun e he => Span.start_le_stop_of_fits (hfits e he)

theorem seam_of_insertion (hedits : ∀ a ∈ s.registered hook, ∃ e, a = .edit e)
    (hshare : s.settings.policy.shareOffsets = true)
    (hfits : ∀ e ∈ Action.leaves (s.accepted hook), e.span.fits s.host.source = true)
    {e : Edit} (he : e ∈ Action.leaves (s.registered hook)) (hcode : e.code.isSome = true)
    {p : Nat} (hp : e.span = .point p) :
    Patch.Seam s.host.source (Action.leaves (s.accepted hook)) p := by
  have hmem : e ∈ (Action.leaves (s.accepted hook)).filter fun e => e.span = .point p := by
    rw [filter_leaves_accepted hedits hshare]
    exact List.mem_filter.mpr ⟨he, by simpa using hp⟩
  have hacc := (List.mem_filter.mp hmem).1
  constructor
  · have hfit := hfits e hacc
    rw [hp, Span.fits, Bool.and_eq_true] at hfit
    exact hfit.2
  · rintro f hf hfcode ⟨hstart, hstop⟩
    -- An edit across the offset would overlap the insertion.
    refine accepted_not_colliding hfits ?_
    obtain ⟨i, hi, rfl⟩ := List.mem_iff_getElem.mp hf
    obtain ⟨j, hj, rfl⟩ := List.mem_iff_getElem.mp hacc
    refine ⟨i, j, _, _, ?_, List.getElem?_eq_getElem hi, List.getElem?_eq_getElem hj, hfcode, hcode,
      ?_⟩
    · rintro rfl
      rw [hp] at hstart
      exact Nat.lt_irrefl p hstart
    · rw [hp]
      exact ⟨hstart, hstop⟩

end

/-- The law of insertions.  If insertions may share offsets, none of them is ever dropped.
If they may not, exactly one of those at each offset is accepted, the last registered,
whatever else lies there.  And if all actions are edits, insertions may share offsets and
everything accepted fits, the new source has at each seam the codes inserted there, in
the order of registration, between what ends and what begins there; wherever code is
inserted there is a seam. -/
theorem insertion_spec (s : Session ν) (hook : Option Hook) :
    (s.settings.policy.shareOffsets = true →
      (∀ a ∈ s.rejected hook, a.span.isEmpty = false) ∧
      ∀ p, (s.accepted hook).filter (fun a => a.span = .point p) =
        ((s.registered hook).filter fun a => a.span = .point p).map Action.sortIn) ∧
    (s.settings.policy.shareOffsets = false → ∀ p,
      (s.accepted hook).filter (fun a => a.span = .point p) =
        (((s.registered hook).filter fun a => a.span = .point p).getLast?.map
          Action.sortIn).toList) ∧
    ((∀ a ∈ s.registered hook, ∃ e, a = .edit e) →
      s.settings.policy.shareOffsets = true → Action.leaves s.actions ≠ [] → ¬ s.Refuses hook →
      (∀ e ∈ Action.leaves (s.accepted hook), e.span.fits s.host.source = true) →
      ∃ text,
        s.process hook = .ok ⟨none, true, !(s.rejected hook).isEmpty, some text, none⟩ ∧
        ∀ p,
          (∀ e ∈ Action.leaves (s.registered hook), e.code.isSome = true → e.span = .point p →
            Patch.Seam s.host.source (Action.leaves (s.accepted hook)) p) ∧
          (Patch.Seam s.host.source (Action.leaves (s.accepted hook)) p →
            ∃ front left right,
              text = left ++ (Patch.insertedAt (Action.leaves (s.registered hook)) p ++ right) ∧
              s.host.source.take? p = some front ∧
              Patch.weave? front 0
                (Patch.splices (Patch.leftOf (Action.leaves (s.accepted hook)) p)) = some left ∧
              Patch.weave? s.host.source p
                (Patch.splices (Patch.rightOf (Action.leaves (s.accepted hook)) p)) =
                  some right ∧
              ∀ e ∈ Action.leaves (s.accepted hook), ∀ c, e.code = some c →
                e.span.start < e.span.stop →
                (e.span.stop = p → c <:+ left) ∧ (e.span.start = p → c <+: right))) := by
  refine ⟨fun hshare => ?_, fun hshare p => ?_, ?_⟩
  · exact ⟨Clash.isEmpty_of_mem_rejected hshare forest_ordered, filter_accepted_forest hshare⟩
  · rw [accepted, Clash.filter_accepted_of_not_share hshare forest_ordered, forest_eq_sort,
      Action.filter_sort, List.getLast?_map]
  · intro hedits hshare h hr hfits
    obtain ⟨text, hweave, hprocess⟩ := process_of_fits h hr hfits
    refine ⟨text, hprocess, fun p => ⟨?_, fun hseam => ?_⟩⟩
    · exact fun e he hcode hp => seam_of_insertion hedits hshare hfits he hcode hp
    · obtain ⟨front, left, right, hfront, hleft, hright, hwhole, hends⟩ :=
        Patch.weave?_at_seam hfits (accepted_not_colliding hfits) hseam
      refine ⟨front, left, right, ?_, hfront, hleft, hright, hends⟩
      rw [hweave] at hwhole
      rw [Option.some.inj hwhole, Patch.insertedAt, Patch.insertedAt,
        filter_leaves_accepted hedits hshare]

/-- Two insertions between two replacements, and a deletion across them all. -/
def busy : Session Span :=
  ⟨.ofSpans "aébcd".toList,
    { Settings.default with policy := { keepRunning := true, shareOffsets := true } },
    [⟨.replace, ⟨3, 4⟩, some "B".toList⟩, ⟨.insert, ⟨3, 3⟩, some "1".toList⟩,
      ⟨.delete, ⟨0, 5⟩, some []⟩, ⟨.replace, ⟨1, 3⟩, some "E".toList⟩,
      ⟨.insert, ⟨3, 3⟩, some "2".toList⟩].map .edit, []⟩

theorem insertion_spec_busy :
    busy.process none = .ok ⟨none, true, true, some "aE12Bcd".toList, none⟩ ∧
    ∃ left right, "aE12Bcd".toList = left ++ ("12".toList ++ right) ∧
      "E".toList <:+ left ∧ "B".toList <+: right := by
  have hedits : ∀ a ∈ busy.registered none, ∃ e, a = .edit e := by
    have hregistered : busy.registered none = busy.actions := rfl
    rw [hregistered]
    intro a ha
    obtain ⟨e, -, rfl⟩ := List.mem_map.mp ha
    exact ⟨e, rfl⟩
  have hr : ¬ busy.Refuses none := fun hr => Bool.noConfusion hr.1
  obtain ⟨text, hprocess, htext⟩ := (insertion_spec busy none).2.2 hedits rfl
    (List.cons_ne_nil _ _) hr (by decide)
  have hnew : busy.process none = .ok ⟨none, true, true, some "aE12Bcd".toList, none⟩ := rfl
  obtain rfl : text = "aE12Bcd".toList := by
    rw [hnew] at hprocess
    injection hprocess with houtcome
    injection houtcome with _ _ _ hsource
    exact (Option.some.inj hsource).symm
  obtain ⟨hseam, hparts⟩ := htext 3
  have hinsert : ⟨.insert, ⟨3, 3⟩, some "1".toList⟩ ∈ Action.leaves (busy.registered none) := by
    decide
  obtain ⟨front, left, right, hsplit, -, -, -, hends⟩ := hparts (hseam _ hinsert rfl rfl)
  refine ⟨hnew, left, right, hsplit, ?_, ?_⟩
  · exact (hends ⟨.replace, ⟨1, 3⟩, some "E".toList⟩ (by decide) _ rfl (by decide)).1 rfl
  · exact (hends ⟨.replace, ⟨3, 4⟩, some "B".toList⟩ (by decide) _ rfl (by decide)).2 rfl

end Session

end Emend
