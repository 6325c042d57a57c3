import Emend.Proofs.MachineWords
import Emend.Proofs.PathGrammar

/-!
# Requests at any span

A span that is given as a node may be inverted, lie outside the source or tear a character.
Nobody looks at it until an edit is applied.  So every request has to get along with such a
span, and the edit that comes of it is refused later if its own span does not fit.

All requests for a whole node do so but one (`Session.requests_at_any_span`).  Most never cut
the source at the bounds of the node: a span that does not fit has the empty text as its source,
and the offset of the edit is one of its bounds.  A removal does cut there.  It looks at the line
before the node and at the line after it, and breaks down if a bound is no boundary of the source
(`Region.removal?_isSome_iff`).  It does so whatever it skipped before, for neither commas nor
spaces can make up for a bad bound.
-/

namespace Emend

open Text (HasDouble)

/-! ## Boundaries -/

/-- A character starts at a boundary and ends at one. -/
theorem Text.isBoundary_of_charAt? {t : Text} {n : Nat} {c : Char} (h : t.charAt? n = some c) :
    t.isBoundary n = true ∧ t.isBoundary (n + c.utf8Size) = true := by
  obtain ⟨front, tail, rfl, rfl⟩ := exists_of_charAt? h
  exact ⟨isBoundary_iff.mpr ⟨front, _, rfl, rfl⟩,
    isBoundary_iff.mpr ⟨front ++ [c], tail, by simp, by simp⟩⟩

/-- Both bounds of a span are boundaries of a text.  They may be in the wrong order. -/
def Span.OnBoundaries (s : Span) (t : Text) : Prop :=
  t.isBoundary s.start = true ∧ t.isBoundary s.stop = true

namespace Region

variable {source : Text} {s t : Span}

theorem isBoundary_add_spacesAt (source : Text) (n : Nat) :
    source.isBoundary (n + spacesAt source n) = source.isBoundary n := by
  cases hn : source.isBoundary n with
  | false => rw [spacesAt_of_not_isBoundary hn, Nat.add_zero, hn]
  | true =>
      obtain ⟨front, after, rfl, rfl⟩ := Text.isBoundary_iff.mp hn
      rw [spacesAt_append, Text.isBoundary_iff]
      refine ⟨front ++ leadingSpaces after, after.dropWhile (· = ' '), ?_, Text.size_append _ _⟩
      rw [List.append_assoc, leadingSpaces_append_dropWhile]

theorem overSpaces_onBoundaries :
    (overSpaces source s).OnBoundaries source ↔ s.OnBoundaries source := by
  rw [Span.OnBoundaries, overSpaces, isBoundary_add_spacesAt]
  rfl

/-- A comma is only stepped over from a boundary to another one. -/
theorem overCommaIf?_onBoundaries {comma : Bool} (h : overCommaIf? comma source s = some t) :
    t.OnBoundaries source ↔ s.OnBoundaries source := by
  rcases overCommaIf?_cases h with rfl | ⟨hcomma, rfl⟩ | ⟨front, gap, rest, hsource, hstart, rfl⟩
  · exact Iff.rfl
  · obtain ⟨hstop, hnext⟩ := Text.isBoundary_of_charAt? hcomma
    rw [isBoundary_add_spacesAt] at hstop
    exact and_congr_right fun _ => iff_of_true hnext hstop
  · have hfront : source.isBoundary front.size = true :=
      Text.isBoundary_iff.mpr ⟨front, _, hsource, rfl⟩
    have hs : source.isBoundary s.start = true :=
      Text.isBoundary_iff.mpr ⟨front ++ ',' :: gap, rest, by rw [hsource]; simp, hstart.symm⟩
    exact and_congr_left fun _ => iff_of_true hfront hs

/-- Looking for a comma before a span breaks down only if the span starts behind the source. -/
theorem not_isBoundary_of_overCommaBefore? (h : overCommaBefore? source s = none) :
    source.isBoundary s.start = false := by
  rw [overCommaBefore?] at h
  split at h
  next =>
    simp only at h
    split at h
    next => cases h
    next => cases h
  next htake => rw [← Text.isSome_take?, htake, Option.isSome_none]

theorem not_isBoundary_of_overCommaIf? {comma : Bool} (h : overCommaIf? comma source s = none) :
    source.isBoundary s.start = false := by
  cases comma with
  | false => cases h
  | true =>
      replace h : overComma? source s = none := h
      rw [overComma?] at h
      split at h
      next => cases h
      next => exact not_isBoundary_of_overCommaBefore? h

/-- A removal breaks down exactly if a bound of the node is no boundary. -/
theorem removal?_isSome_iff (comma : Bool) (source : Text) (s : Span) :
    (removal? comma source s).isSome = true ↔ s.OnBoundaries source := by
  rw [removal?]
  cases hcomma : overCommaIf? comma source s with
  | none =>
      have hstart := not_isBoundary_of_overCommaIf? hcomma
      exact iff_of_false Bool.false_ne_true fun hs => Bool.false_ne_true (hstart.symm.trans hs.1)
  | some t =>
      rw [← overCommaIf?_onBoundaries hcomma, ← overSpaces_onBoundaries, Span.OnBoundaries,
        ← Text.isSome_take?, ← Text.isSome_drop?]
      simp only [Option.bind_eq_bind, Option.bind_some]
      cases source.take? (overSpaces source t).start with
      | none => simp
      | some before =>
          cases source.drop? (overSpaces source t).stop with
          | none => simp
          | some after =>
              simp only [Option.bind_some, Option.isSome_some, and_self, iff_true]
              split
              next => rfl
              next => rfl

end Region

/-! ## Spans that do not fit -/

theorem Host.sourceOf_of_misfit {ν : Type} {h : Host ν} {n : ν}
    (hmisfit : (h.span n).fits h.source = false) : h.sourceOf n = [] := by
  rw [sourceOf, sourceAt]
  cases hslice : (h.span n).slice? h.source with
  | none => rfl
  | some part =>
      obtain ⟨before, after, hsource, hspan⟩ := Span.exists_of_slice? hslice
      have hfits := Span.fits_iff_around.mpr ⟨before, part, after, hsource, hspan⟩
      rw [hfits] at hmisfit
      cases hmisfit

/-- One edit whose span fits can be applied. -/
theorem Patch.exists_apply_singleton {source : Text} {e : Edit}
    (hfits : e.span.fits source = true) : ∃ text, Patch.apply source [e] = .ok text := by
  have hall : ∀ x ∈ [e], x.span.fits source = true := by simpa using hfits
  have hone : ¬ Colliding [e] := not_colliding_iff.mpr (List.pairwise_singleton _ _)
  obtain ⟨text, hwoven⟩ := exists_woven_splices hall hone
  exact ⟨text, apply_of_woven hall hone hwoven⟩

/-- Spans have no children. -/
theorem Host.targetSpan_ofSpans (source : Text) (s : Span) (path : Text) :
    ∃ cause, (Host.ofSpans source).targetSpan s (some path) = .error cause := by
  rw [targetSpan, childSpan?]
  cases hparse : Path.parse path with
  | error cause => exact ⟨cause, rfl⟩
  | ok p =>
      obtain ⟨raw, tokens⟩ := p
      obtain ⟨-, -, hreads⟩ := Path.parse_eq_ok_iff.mp hparse
      cases tokens with
      | nil => exact absurd (List.forall₂_nil_right_iff.mp hreads) (List.splitOn_ne_nil _ _)
      | cons token tokens =>
          cases token with
          | index i => exact ⟨_, rfl⟩
          | name name => exact ⟨_, rfl⟩

namespace Request

variable {ν : Type} {h : Host ν} {n : ν}

theorem appendOffset_of_misfit (hmisfit : (h.span n).fits h.source = false) :
    appendOffset h n = (h.span n).stop := by
  rw [appendOffset, Host.sourceOf_of_misfit hmisfit]
  rfl

theorem prependOffset_of_misfit (hmisfit : (h.span n).fits h.source = false) :
    prependOffset h n = (h.span n).stop := by
  rw [prependOffset, Host.sourceOf_of_misfit hmisfit]
  rfl

theorem edit_replaceWith {code : Text} (tabWidth : Nat) (hdouble : ¬ HasDouble '\x7b' code) :
    (Request.replaceWith n code).edit h tabWidth =
      .ok ⟨.replaceWith, h.span n, some (Payload.replacement (margin h n 0) code)⟩ := by
  rw [edit, span, Request.code, h.render_literal n hdouble]
  rfl

/-- The edit that removes a node, if its region can be computed. -/
theorem edit_remove (h : Host ν) (n : ν) (comma : Bool) (tabWidth : Nat) :
    (Request.remove n comma).edit h tabWidth =
      (regionOr (Region.removal? comma h.source (h.span n))).map
        fun s => ⟨.remove, s, some []⟩ := by
  rw [edit, span]
  cases Region.removal? comma h.source (h.span n) with
  | none => rfl
  | some s => rfl

end Request

/-! ## Sessions -/

namespace Session

section

variable {ν : Type}

/-- A request gives an edit, and all offsets on the way to it are words.  The edit is applied if
its span fits the source, and else its span is reported. -/
structure Builds (h : Host ν) (settings : Settings) (r : Request ν) (e : Edit) : Prop where
  edit : r.edit h settings.tabWidth = .ok e
  checked : Checked.edit h settings.tabWidth r = .ok e
  applied : e.span.fits h.source = true → ∃ text, requestAlone h settings r = becomes text
  reported : e.span.fits h.source = false →
    requestAlone h settings r = some (.error (.refused (.badSpan e.span h.source.size)))

variable {h : Host ν} {settings : Settings} {r : Request ν}

theorem builds {e : Edit} (hsource : h.source.size + settings.tabWidth < Checked.limit)
    (hr : Checked.InWords h settings.tabWidth r) (hedit : r.edit h settings.tabWidth = .ok e) :
    Builds h settings r e where
  edit := hedit
  checked := (Checked.edit_eq hsource hr).trans hedit
  applied := by
    intro hfits
    obtain ⟨text, happly⟩ := Patch.exists_apply_singleton hfits
    exact ⟨text, process_build hedit happly⟩
  reported := by
    intro hmisfit
    have happly : Patch.apply h.source ([] ++ [e]) =
        .error (.refused (.badSpan e.span h.source.size)) :=
      Patch.apply_of_misfit (List.forall_mem_nil _) hmisfit
    rw [List.nil_append] at happly
    rw [requestAlone, process_build_eq hedit, happly]
    rfl

theorem requestAlone_of_crashed (hedit : r.edit h settings.tabWidth = .error .crashed) :
    requestAlone h settings r = none := by
  rw [requestAlone, run, step, register_of_error (s := ⟨h, settings, [], []⟩) hedit]
  rfl

end

/-- At a span, whatever its bounds are, a request for the whole node gives an edit, and no
offset on the way leaves the words.  If the span does not fit the source, that of the edit is the
span itself or one of its bounds, and processing reports it if it does not fit either.  Code
for a child is refused.  A removal alone may break down, and does so exactly if a bound is no
boundary of the source. -/
theorem requests_at_any_span (source : Text) (settings : Settings) (s : Span) (code : Text)
    (comma : Bool) (level : Nat) (hsource : source.size + settings.tabWidth < Checked.limit)
    (hs : s.stop < Checked.limit) (hlevel : settings.tabWidth * level < Checked.limit)
    (hdouble : ¬ HasDouble '\x7b' code) :
    (∀ x ∈ [(Request.append s code, Span.point s.stop), (.prepend s code, .point s.stop),
        (.insert s code .beginning none comma, .point s.start),
        (.insert s code .ending none comma, .point s.stop), (.replaceWith s code, s),
        (.indent s level, s), (.noop s, s)],
      ∃ e, Builds (.ofSpans source) settings x.1 e ∧ (s.fits source = false → e.span = x.2)) ∧
    (∀ side path, ∃ cause,
      (Request.insert s code side (some path) comma).edit (.ofSpans source) settings.tabWidth =
        .error (.refused cause)) ∧
    (s.OnBoundaries source → ∃ e, Builds (.ofSpans source) settings (.remove s comma) e) ∧
    (¬ s.OnBoundaries source →
      (Request.remove s comma).edit (.ofSpans source) settings.tabWidth = .error .crashed ∧
      requestAlone (.ofSpans source) settings (.remove s comma) = none) := by
  have hremove := Request.edit_remove (.ofSpans source) s comma settings.tabWidth
  have hsome := Region.removal?_isSome_iff comma source s
  refine ⟨?_, fun side path => ?_, fun hbounds => ?_, fun hbounds => ?_⟩
  · simp only [List.forall_mem_cons, List.not_mem_nil, false_implies, implies_true, and_true]
    refine ⟨?_, ?_, ?_, ?_, ?_, ?_, ?_⟩
    · have hedit := Request.edit_statement (h := .ofSpans source) (n := s) settings.tabWidth
        (List.mem_pair.mpr (Or.inl rfl)) rfl hdouble
      exact ⟨_, builds hsource trivial hedit, fun hmisfit =>
        congrArg Span.point (Request.appendOffset_of_misfit hmisfit)⟩
    · have hedit := Request.edit_statement (h := .ofSpans source) (n := s) settings.tabWidth
        (List.mem_pair.mpr (Or.inr rfl)) rfl hdouble
      exact ⟨_, builds hsource hs hedit, fun hmisfit =>
        congrArg Span.point (Request.prependOffset_of_misfit hmisfit)⟩
    · exact ⟨_, builds hsource trivial (edit_insert_comma .beginning comma _ hdouble), fun _ => rfl⟩
    · exact ⟨_, builds hsource trivial (edit_insert_comma .ending comma _ hdouble), fun _ => rfl⟩
    · exact ⟨_, builds hsource trivial (Request.edit_replaceWith _ hdouble), fun _ => rfl⟩
    · exact ⟨_, builds hsource hlevel rfl, fun _ => rfl⟩
    · exact ⟨_, builds hsource trivial rfl, fun _ => rfl⟩
  · obtain ⟨cause, hcause⟩ := Host.targetSpan_ofSpans source s path
    rw [Request.edit, Request.span, hcause]
    exact ⟨cause, rfl⟩
  · obtain ⟨t, ht⟩ := Option.isSome_iff_exists.mp (hsome.mpr hbounds)
    exact ⟨_, builds hsource hs (hremove.trans (congrArg _ (congrArg Request.regionOr ht)))⟩
  · have hnone := Option.not_isSome_iff_eq_none.mp (mt hsome.mp hbounds)
    have hedit := hremove.trans (congrArg _ (congrArg Request.regionOr hnone))
    exact ⟨hedit, requestAlone_of_crashed hedit⟩

/-- A span that starts at the largest word and stops inside a character.  A statement at it is
reported when it is processed, and its removal breaks down.  An inverted span between boundaries
can be removed. -/
theorem requests_at_any_span_torn :
    requestAlone (.ofSpans "é\nb".toList) .default
        (.append ⟨18446744073709551615, 1⟩ "x".toList) =
      some (.error (.refused (.badSpan ⟨1, 1⟩ 4))) ∧
    requestAlone (.ofSpans "é\nb".toList) .default (.remove ⟨18446744073709551615, 1⟩ true) =
      none ∧
    ∃ e, Builds (.ofSpans "é\nb".toList) .default (.remove ⟨3, 2⟩ true) e := by
  have hdouble : ¬ HasDouble '\x7b' "x".toList := Text.not_hasDouble_of_not_mem (by decide)
  obtain ⟨hwhole, -, -, htorn⟩ := requests_at_any_span "é\nb".toList .default
    ⟨18446744073709551615, 1⟩ "x".toList true 1 (by decide) (by decide) (by decide) hdouble
  obtain ⟨-, -, hbetween, -⟩ := requests_at_any_span "é\nb".toList .default ⟨3, 2⟩ "x".toList
    true 1 (by decide) (by decide) (by decide) hdouble
  obtain ⟨e, he, hspan⟩ := hwhole _ List.mem_cons_self
  have hpoint : e.span = ⟨1, 1⟩ := hspan (by decide)
  refine ⟨?_, (htorn (by rw [Span.OnBoundaries]; decide)).2, hbetween ⟨by decide, by decide⟩⟩
  rw [← hpoint]
  exact he.reported (by rw [hpoint]; decide)

/-- A removal breaks down at a span that ends behind the source, and at one that ends inside a
character.  Neither span is reported. -/
theorem remove_breaks_down :
    ((Request.remove ⟨0, 9⟩ false).edit (.ofSpans "abc".toList) Settings.default.tabWidth =
        .error .crashed ∧
      requestAlone (.ofSpans "abc".toList) .default (.remove ⟨0, 9⟩ false) = none) ∧
    (Request.remove ⟨0, 1⟩ false).edit (.ofSpans "é".toList) Settings.default.tabWidth =
        .error .crashed ∧
      requestAlone (.ofSpans "é".toList) .default (.remove ⟨0, 1⟩ false) = none :=
  ⟨⟨rfl, requestAlone_of_crashed rfl⟩, rfl, requestAlone_of_crashed rfl⟩

end Session

end Emend
