import Emend.Host.Table
import Emend.Proofs.LineCuts
import Emend.Request

/-!
# What goes with a span

A span that is taken out of a source takes more with it, in up to five steps: a comma,
the spaces that follow, the rest of its lines, a newline, and an empty line.  Each step
is computed from offsets.  Here each is read off the parts of the source instead.  A
source that is written as what stands before a span, what stands at it, and what stands
after it makes every step an equation between such ways to write it
(`overSpaces_around`, `overComma?_after`, `overComma?_before`).

What a step takes in is *litter*: blank characters and a limited number of commas.
`Widens` says that a span grows into another by taking in litter on its two sides.  It
is a relation between spans that fit the source, and steps compose
(`Widens.trans`), with their commas added up.  Only the step over a comma brings one.
So whatever is deleted or removed fits the source and takes no code with it.
-/

namespace Emend

/-! ## Parts of a text -/

namespace Text

theorem size_eq_length {t : Text} (h : ∀ c ∈ t, c = ' ') : t.size = t.length := by
  induction t with
  | nil => rfl
  | cons c t ih =>
      have hc : c = ' ' := h c (by simp)
      rw [size_cons, ih fun d hd => h d (by simp [hd]), hc, List.length_cons, Nat.add_comm]
      rfl

theorem charAt?_append (a b : Text) : charAt? (a ++ b) a.size = b.head? := by
  rw [charAt?, drop?_append, Option.bind_some]

/-! ## Litter -/

/-- Blank characters and at most so many commas. -/
structure Litter (commas : Nat) (t : Text) : Prop where
  /-- Every character is a comma or blank. -/
  chars : ∀ c ∈ t, c = ',' ∨ isBlankChar c = true
  /-- The commas are not too many. -/
  count : t.count ',' ≤ commas

theorem Litter.mono {m n : Nat} {t : Text} (h : Litter m t) (hmn : m ≤ n) : Litter n t :=
  ⟨h.chars, Nat.le_trans h.count hmn⟩

theorem litter_of_blank {t : Text} (h : t.isBlank = true) : Litter 0 t where
  chars c hc := Or.inr (List.all_eq_true.mp h c hc)
  count := by
    rw [List.count_eq_zero.mpr fun hc => ?_]
    exact absurd (List.all_eq_true.mp h ',' hc) (by decide)

theorem litter_comma {t : Text} (h : t.isBlank = true) : Litter 1 (',' :: t) where
  chars c hc := (List.mem_cons.mp hc).imp_right fun hc => List.all_eq_true.mp h c hc
  count := by
    rw [List.count_cons_self]
    exact Nat.succ_le_succ (litter_of_blank h).count

theorem Litter.perm {n : Nat} {t u : Text} (h : Litter n t) (hperm : u.Perm t) : Litter n u where
  chars c hc := h.chars c (hperm.mem_iff.mp hc)
  count := hperm.count_eq ',' ▸ h.count

theorem Litter.append {m n : Nat} {t u : Text} (ht : Litter m t) (hu : Litter n u) :
    Litter (m + n) (t ++ u) where
  chars c hc := (List.mem_append.mp hc).elim (ht.chars c) (hu.chars c)
  count := by
    rw [List.count_append]
    exact Nat.add_le_add ht.count hu.count

end Text

/-! ## Spans that grow -/

namespace Span

/-- A span of a source grows into another by taking in litter on its two sides. -/
def Widens (source : Text) (commas : Nat) (s t : Span) : Prop :=
  ∃ before left part right after, source = before ++ (left ++ (part ++ (right ++ after))) ∧
    s = around (before ++ left) part ∧ t = around before (left ++ (part ++ right)) ∧
    Text.Litter commas (left ++ right)

section

variable {source : Text} {m n : Nat} {s t u : Span}

theorem Widens.fits (h : Widens source n s t) : t.fits source = true := by
  obtain ⟨before, left, part, right, after, hsource, -, ht, -⟩ := h
  exact fits_iff_around.mpr ⟨before, left ++ (part ++ right), after, by simp [hsource], ht⟩

theorem Widens.mono (h : Widens source m s t) (hmn : m ≤ n) : Widens source n s t := by
  obtain ⟨before, left, part, right, after, hsource, hs, ht, hlitter⟩ := h
  exact ⟨before, left, part, right, after, hsource, hs, ht, hlitter.mono hmn⟩

theorem Widens.refl (h : s.fits source = true) : Widens source 0 s s := by
  obtain ⟨before, part, after, hsource, hs⟩ := fits_iff_around.mp h
  exact ⟨before, [], part, [], after, hsource, by simpa using hs, by simpa using hs,
    Text.litter_of_blank rfl⟩

/-- Spans that grow twice take in the litter of both steps. -/
theorem Widens.trans (hst : Widens source m s t) (htu : Widens source n t u) :
    Widens source (m + n) s u := by
  obtain ⟨before, left, part, right, after, hsource, hs, ht, hinner⟩ := hst
  obtain ⟨before', left', part', right', after', hsource', ht', hu, houter⟩ := htu
  -- The part that the second step starts from is what the first step ends with.
  have hcut : before ++ ((left ++ (part ++ right)) ++ after) =
      (before' ++ left') ++ (part' ++ (right' ++ after')) := by
    simpa using hsource.symm.trans hsource'
  obtain ⟨rfl, rfl, rfl⟩ := around_inj hcut (ht.symm.trans ht')
  refine ⟨before', left' ++ left, part, right ++ right', after', by simp [hsource'],
    by simp [hs], by simp [hu], (hinner.append houter).perm ?_⟩
  simpa using List.perm_append_comm_assoc left' (left ++ right) right'

end

/-- A part of a source takes in what follows it. -/
theorem widens_right (before part after : Text) {right : Text} {n : Nat} (h : Text.Litter n right) :
    Widens (before ++ (part ++ (right ++ after))) n (around before part)
      (around before (part ++ right)) :=
  ⟨before, [], part, right, after, rfl, by simp, rfl, h⟩

/-- A part of a source takes in what comes before it. -/
theorem widens_left (before part after : Text) {left : Text} {n : Nat} (h : Text.Litter n left) :
    Widens (before ++ (left ++ (part ++ after))) n (around (before ++ left) part)
      (around before (left ++ part)) :=
  ⟨before, left, part, [], after, rfl, rfl, by simp, by simpa using h⟩

end Span

/-! ## One step at a time -/

namespace Region

/-- The spaces that a text starts with. -/
def leadingSpaces (t : Text) : Text := t.takeWhile (· = ' ')

theorem eq_space_of_mem_leadingSpaces {t : Text} {c : Char} (hc : c ∈ leadingSpaces t) :
    c = ' ' := by
  simpa using List.mem_takeWhile_imp hc

theorem leadingSpaces_append_dropWhile (t : Text) :
    leadingSpaces t ++ t.dropWhile (· = ' ') = t :=
  List.takeWhile_append_dropWhile

theorem spacesAt_append (front after : Text) :
    spacesAt (front ++ after) front.size = (leadingSpaces after).size := by
  rw [spacesAt, Text.drop?_append, Text.size_eq_length fun _ hc => eq_space_of_mem_leadingSpaces hc]
  rfl

section

variable (before part after : Text)

theorem spacesAt_around :
    spacesAt (before ++ (part ++ after)) (Span.around before part).stop =
      (leadingSpaces after).size := by
  have hspaces := spacesAt_append (before ++ part) after
  rwa [List.append_assoc, Text.size_append] at hspaces

/-- The spaces after a part are taken in. -/
theorem overSpaces_around :
    overSpaces (before ++ (part ++ after)) (.around before part) =
      .around before (part ++ leadingSpaces after) := by
  rw [overSpaces, spacesAt_around]
  simp only [Span.around, Text.size_append, Nat.add_assoc]

/-- The character behind a part and the spaces after it. -/
theorem charAt?_around :
    (before ++ (part ++ after)).charAt?
        ((Span.around before part).stop + (leadingSpaces after).size) =
      (after.dropWhile (· = ' ')).head? := by
  have hchar := Text.charAt?_append (before ++ (part ++ leadingSpaces after))
    (after.dropWhile (· = ' '))
  simpa only [List.append_assoc, leadingSpaces_append_dropWhile, Text.size_append, Span.around,
    Nat.add_assoc] using hchar

end

section

variable {before part after : Text}

/-- A comma after a part, behind spaces, is taken in. -/
theorem overComma?_after {rest : Text} (h : after.dropWhile (· = ' ') = ',' :: rest) :
    overComma? (before ++ (part ++ after)) (.around before part) =
      some (.around before (part ++ (leadingSpaces after ++ [',']))) := by
  rw [overComma?, spacesAt_around]
  simp only [charAt?_around, h, List.head?_cons, if_true]
  simp only [Span.around, Text.size_append, Nat.add_assoc]
  rfl

theorem overComma?_of_no_comma (h : (after.dropWhile (· = ' ')).head? ≠ some ',') :
    overComma? (before ++ (part ++ after)) (.around before part) =
      overCommaBefore? (before ++ (part ++ after)) (.around before part) := by
  rw [overComma?, spacesAt_around]
  simp only [charAt?_around, if_neg h]

/-- If no comma follows, one before the part is taken in, with the gap in between. -/
theorem overComma?_before {front gap : Text} (h : (after.dropWhile (· = ' ')).head? ≠ some ',')
    (hgap : ∀ c ∈ gap, isGap c = true) :
    overComma? ((front ++ ',' :: gap) ++ (part ++ after)) (.around (front ++ ',' :: gap) part) =
      some (.around front (',' :: gap ++ part)) := by
  have hkept : Text.dropTail isGap (front ++ ',' :: gap) = front ++ [','] := by
    rw [List.append_cons, Text.dropTail_append hgap]
    simp [Text.dropTail, isGap]
  have hsize : Char.utf8Size ',' = 1 := rfl
  rw [overComma?_of_no_comma h, overCommaBefore?]
  simp only [Span.around, Text.take?_append, hkept, List.getLast?_concat, if_true]
  simp only [Text.size_append, Text.size_cons, Text.size_nil, hsize, List.cons_append]
  simp only [Option.some.injEq, Span.mk.injEq]
  omega

/-- If no comma stands next to a part, it stays as it is. -/
theorem overComma?_self (h : (after.dropWhile (· = ' ')).head? ≠ some ',')
    (hbefore : (before.dropTail isGap).getLast? ≠ some ',') :
    overComma? (before ++ (part ++ after)) (.around before part) =
      some (.around before part) := by
  rw [overComma?_of_no_comma h, overCommaBefore?]
  simp only [Span.around, Text.take?_append, if_neg hbefore]

end

theorem isBlankChar_of_isGap {c : Char} (h : isGap c = true) : Text.isBlankChar c = true := by
  simp only [isGap, Bool.or_eq_true, decide_eq_true_eq] at h
  rcases h with ((rfl | rfl) | rfl) | rfl <;> decide

theorem leadingSpaces_isBlank (t : Text) : (leadingSpaces t).isBlank = true := by
  refine List.all_eq_true.mpr fun c hc => ?_
  rw [eq_space_of_mem_leadingSpaces hc]
  decide

section

variable {source : Text} {s : Span}

/-- The step over spaces takes in no comma. -/
theorem overSpaces_widens (h : s.fits source = true) :
    Span.Widens source 0 s (overSpaces source s) := by
  obtain ⟨before, part, after, rfl, rfl⟩ := Span.fits_iff_around.mp h
  rw [overSpaces_around]
  have hlitter := Text.litter_of_blank (leadingSpaces_isBlank after)
  have hwidens := Span.widens_right before part (after.dropWhile (· = ' ')) hlitter
  rwa [leadingSpaces_append_dropWhile] at hwidens

/-- The step over a comma takes in one at most. -/
theorem overComma?_widens (h : s.fits source = true) :
    ∃ t, overComma? source s = some t ∧ Span.Widens source 1 s t := by
  obtain ⟨before, part, after, rfl, rfl⟩ := Span.fits_iff_around.mp h
  by_cases hafter : (after.dropWhile (· = ' ')).head? = some ','
  · obtain ⟨rest, hrest⟩ := List.head?_eq_some_iff.mp hafter
    refine ⟨_, overComma?_after hrest, ?_⟩
    have hlitter : Text.Litter 1 (leadingSpaces after ++ [',']) :=
      (Text.litter_comma (leadingSpaces_isBlank after)).perm (List.perm_append_singleton ..)
    have hwidens := Span.widens_right before part rest hlitter
    rwa [List.append_assoc, List.singleton_append, ← hrest, leadingSpaces_append_dropWhile]
      at hwidens
  · by_cases hbefore : (before.dropTail isGap).getLast? = some ','
    · obtain ⟨front, hfront⟩ := List.getLast?_eq_some_iff.mp hbefore
      obtain ⟨gap, hgap, hall⟩ := Text.exists_dropTail isGap before
      rw [hfront, List.append_assoc, List.singleton_append] at hgap
      rw [hgap]
      refine ⟨_, overComma?_before hafter hall, ?_⟩
      have hlitter : Text.Litter 1 (',' :: gap) :=
        Text.litter_comma (List.all_eq_true.mpr fun c hc => isBlankChar_of_isGap (hall c hc))
      rw [List.append_assoc]
      exact Span.widens_left front part after hlitter
    · exact ⟨_, overComma?_self hafter hbefore, (Span.Widens.refl h).mono (Nat.zero_le 1)⟩

theorem overCommaIf?_widens (comma : Bool) (h : s.fits source = true) :
    ∃ t, overCommaIf? comma source s = some t ∧
      Span.Widens source (if comma then 1 else 0) s t := by
  cases comma with
  | true => exact overComma?_widens h
  | false => exact ⟨s, rfl, Span.Widens.refl h⟩

/-- What goes with deleted text. -/
theorem deletion?_widens (comma : Bool) (h : s.fits source = true) :
    ∃ t, deletion? comma source s = some t ∧
      Span.Widens source (if comma then 1 else 0) s t := by
  obtain ⟨t, ht, hwidens⟩ := overCommaIf?_widens comma h
  exact ⟨overSpaces source t, by rw [deletion?, ht]; rfl,
    hwidens.trans (overSpaces_widens hwidens.fits)⟩

end

/-! ## Whole lines -/

theorem size_newline : Text.size ['\n'] = 1 := rfl

theorem litter_newline : Text.Litter 0 ['\n'] := Text.litter_of_blank (by decide)

section

variable (front lines rest : Text)

/-- Lines before a newline take it in. -/
theorem withNewline_after :
    withNewline (front ++ (lines ++ '\n' :: rest)) (.around front lines) =
      .around front (lines ++ ['\n']) := by
  have hlt : (Span.around front lines).stop < Text.size (front ++ (lines ++ '\n' :: rest)) := by
    have hnewline : 0 < Char.utf8Size '\n' := Char.utf8Size_pos _
    simp only [Span.around, Text.size_append, Text.size_cons]
    omega
  rw [withNewline, if_pos hlt]
  simp only [Span.around, Text.size_append, size_newline, Nat.add_assoc]

/-- Lines at the end of the source take in the newline before them. -/
theorem withNewline_before :
    withNewline ((front ++ ['\n']) ++ lines) (.around (front ++ ['\n']) lines) =
      .around front ('\n' :: lines) := by
  have hnlt : ¬ (Span.around (front ++ ['\n']) lines).stop <
      Text.size ((front ++ ['\n']) ++ lines) := by
    simp only [Span.around, Text.size_append]
    omega
  have hpos : 0 < (Span.around (front ++ ['\n']) lines).start := by
    simp only [Span.around, Text.size_append, size_newline]
    omega
  have hsize : Text.size ('\n' :: lines) = 1 + lines.size := rfl
  rw [withNewline, if_neg hnlt, if_pos hpos]
  simp only [Span.around, Text.size_append, size_newline, hsize, Span.mk.injEq]
  omega

/-- Lines that are the whole source have no newline to take in. -/
theorem withNewline_all : withNewline lines (.around [] lines) = .around [] lines := by
  simp [withNewline]

end

/-- Whole lines take in one newline at most. -/
theorem withNewline_widens {front lines back : Text}
    (hfront : front = [] ∨ ∃ rest, front = rest ++ ['\n'])
    (hback : back = [] ∨ ∃ rest, back = '\n' :: rest) :
    Span.Widens (front ++ (lines ++ back)) 0 (.around front lines)
      (withNewline (front ++ (lines ++ back)) (.around front lines)) := by
  rcases hback with rfl | ⟨rest, rfl⟩
  · rw [List.append_nil]
    rcases hfront with rfl | ⟨rest, rfl⟩
    · rw [List.nil_append, withNewline_all]
      exact .refl (Span.fits_iff_around.mpr ⟨[], lines, [], by simp, rfl⟩)
    · rw [withNewline_before]
      simpa using Span.widens_left rest lines [] litter_newline
  · rw [withNewline_after]
    exact Span.widens_right front lines rest litter_newline

/-- A part that stands alone on its lines takes in the rest of them, with a newline. -/
theorem wholeLines_widens {before after : Text} (part : Text)
    (hbefore : before.lastLine.isBlank = true) (hafter : after.firstLine.isBlank = true) :
    Span.Widens (before ++ (part ++ after)) 0 (.around before part)
      (withNewline (before ++ (part ++ after))
        ⟨(Span.around before part).start - before.lastLine.size,
          (Span.around before part).stop + after.firstLine.size⟩) := by
  obtain ⟨front, hfront, hstart⟩ := Text.exists_lastLine before
  obtain ⟨back, hback, hend⟩ := Text.exists_firstLine after
  generalize before.lastLine = last at *
  generalize after.firstLine = first at *
  subst hfront hback
  have hspan : (⟨(Span.around (front ++ last) part).start - last.size,
      (Span.around (front ++ last) part).stop + first.size⟩ : Span) =
      .around front (last ++ (part ++ first)) := by
    simp only [Span.around, Text.size_append, Span.mk.injEq]
    omega
  have hlitter := (Text.litter_of_blank hbefore).append (Text.litter_of_blank hafter)
  have hlines : Span.Widens (front ++ ((last ++ (part ++ first)) ++ back)) 0
      (.around (front ++ last) part) (.around front (last ++ (part ++ first))) :=
    ⟨front, last, part, first, back, by simp, rfl, rfl, hlitter⟩
  have hboth := hlines.trans (withNewline_widens hstart hend)
  rw [hspan]
  simpa only [List.append_assoc] using hboth

section

variable {source : Text} {s : Span}

/-- The step over an empty line takes in a newline at most. -/
theorem squeeze_widens (node : Span) (h : s.fits source = true) :
    Span.Widens source 0 s (squeeze source node s) := by
  rw [squeeze]
  split
  next hsqueeze =>
    obtain ⟨before, part, after, rfl, rfl⟩ := Span.fits_iff_around.mp h
    have hchar := (Bool.and_eq_true_iff.mp hsqueeze).2
    have hafter := Text.charAt?_append (before ++ part) after
    rw [List.append_assoc, Text.size_append] at hafter
    simp only [Span.around, hafter, decide_eq_true_eq] at hchar
    obtain ⟨rest, rfl⟩ := List.head?_eq_some_iff.mp hchar
    have hwidens := Span.widens_right before part rest litter_newline
    simpa only [Span.around, Text.size_append, size_newline, Nat.add_assoc,
      List.singleton_append] using hwidens
  next => exact .refl h

/-- What goes with a removed node. -/
theorem removal?_widens (comma : Bool) (h : s.fits source = true) :
    ∃ t, removal? comma source s = some t ∧
      Span.Widens source (if comma then 1 else 0) s t := by
  obtain ⟨u, hu, hcomma⟩ := overCommaIf?_widens comma h
  have hspaces := hcomma.trans (overSpaces_widens hcomma.fits)
  rw [removal?, hu, Option.bind_eq_bind, Option.bind_some]
  generalize overSpaces source u = t at hspaces
  obtain ⟨before, part, after, hsource, rfl⟩ := Span.fits_iff_around.mp hspaces.fits
  have htake : source.take? (Span.around before part).start = some before := by
    rw [hsource]
    exact Text.take?_append before _
  have hdrop : source.drop? (Span.around before part).stop = some after := by
    rw [hsource, ← List.append_assoc, Span.around_stop, ← Text.size_append]
    exact Text.drop?_append _ after
  simp only [htake, hdrop, Option.bind_eq_bind, Option.bind_some]
  split
  next hblank =>
    obtain ⟨hbefore, hafter⟩ := Bool.and_eq_true_iff.mp hblank
    have hlines := wholeLines_widens part hbefore hafter
    rw [← hsource] at hlines
    exact ⟨_, rfl, (hspaces.trans hlines).trans (squeeze_widens s hlines.fits)⟩
  next => exact ⟨_, rfl, hspaces⟩

end

end Region

namespace Request

/-- Whatever is removed or deleted spares the code around it.  If the base span fits the
source, that of the node or the least one around the children that are there, a span is
found.  It fits the source, it contains the base span, and between the two lie blank
characters only, with one comma at most, and none if no comma is asked for. -/
theorem regions_spare_code {ν : Type} (h : Host ν) (n : ν) (comma : Bool) :
    ((h.span n).fits h.source = true →
      ∃ s, (Request.remove n comma).span h = .ok s ∧ s.fits h.source = true ∧
        Span.Widens h.source (if comma then 1 else 0) (h.span n) s) ∧
    (∀ selectors base, deletedSpan h n selectors = .ok base → base.fits h.source = true →
      ∃ s, (Request.delete n selectors comma).span h = .ok s ∧ s.fits h.source = true ∧
        Span.Widens h.source (if comma then 1 else 0) base s) := by
  constructor
  · intro hfits
    obtain ⟨s, hs, hwidens⟩ := Region.removal?_widens comma hfits
    exact ⟨s, by rw [span, hs]; rfl, hwidens.fits, hwidens⟩
  · intro selectors base hbase hfits
    obtain ⟨s, hs, hwidens⟩ := Region.deletion?_widens comma hfits
    exact ⟨s, by rw [span, hbase]; exact congrArg regionOr hs, hwidens.fits, hwidens⟩

/-- A call with two arguments on lines of their own. -/
def tall : Host Nat :=
  .ofTable .span "f(\n  é ,\n\n  b\n)".toList
    [⟨⟨0, 16⟩, [("args".toList, .sequence [1, 2])]⟩, ⟨⟨5, 7⟩, []⟩, ⟨⟨13, 14⟩, []⟩]

theorem regions_spare_code_tall :
    ((tall.span 1).fits tall.source = true ∧
      ∃ s, (Request.remove 1 true).span tall = .ok s ∧ s.fits tall.source = true ∧
        Span.Widens tall.source 1 (tall.span 1) s) ∧
    (deletedSpan tall 0 ["args.1".toList] = .ok ⟨13, 14⟩ ∧
      ∃ s, (Request.delete 0 ["args.1".toList] true).span tall = .ok s ∧
        s.fits tall.source = true ∧ Span.Widens tall.source 1 ⟨13, 14⟩ s) := by
  have hnode : (tall.span 1).fits tall.source = true := by decide
  have hchild : deletedSpan tall 0 ["args.1".toList] = .ok ⟨13, 14⟩ := rfl
  exact ⟨⟨hnode, (regions_spare_code tall 1 true).1 hnode⟩, hchild,
    (regions_spare_code tall 0 true).2 _ _ hchild (by decide)⟩

-- The comma that goes with the second argument is the one after the first, two lines above.
example : (Request.delete 0 ["args.1".toList] true).span tall = .ok ⟨8, 14⟩ := by rfl

end Request

end Emend
