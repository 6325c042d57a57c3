import Mathlib.Data.List.TakeWhile
import Emend.Host.RustTree
import Emend.Host.Table
import Emend.Proofs.Outcomes
import Emend.Proofs.Programs

/-!
# A child replaced by its own placeholder

A path leads to a child in two ways.  As a selector it gives the span of the child,
and as a placeholder in a template it gives the text of the child.  The two meet if a
request replaces the child at a path by the template that holds the path alone: the
code is the source at the span it replaces, and nothing changes.

* The text of a path holds no brace (`Path.isPathChar_of_parse`), so the template is
  read as one placeholder with the same path, whatever blanks there are around it.
* The text of a node and the text of a sequence are the source at their spans, unless
  the host has a text of its own for the node, or the sequence has one node on each
  line and is dedented (`Host.Verbatim`).
* Replacing a piece of the source by itself lays out the source as it is.
-/

namespace Emend

/-! ## The characters of a path -/

namespace Text

theorem mem_dropWhile_or {q : Char → Bool} {c : Char} {t : Text} (h : c ∈ t) :
    c ∈ t.dropWhile q ∨ q c = true := by
  rw [← List.takeWhile_append_dropWhile (p := q) (l := t), List.mem_append] at h
  exact h.symm.imp_right List.mem_takeWhile_imp

theorem mem_trim_or {c : Char} {t : Text} (h : c ∈ t) : c ∈ t.trim ∨ isBlankChar c = true := by
  rcases mem_dropWhile_or (q := isBlankChar) h with hstart | hblank
  · have hreverse : c ∈ t.trimStart.reverse := List.mem_reverse.mpr hstart
    exact (mem_dropWhile_or hreverse).imp_left List.mem_reverse.mpr
  · exact Or.inr hblank

theorem mem_splitOn_or {c d : Char} {t : Text} (h : c ∈ t) :
    c = d ∨ ∃ segment ∈ t.splitOn d, c ∈ segment := by
  induction t with
  | nil => cases h
  | cons x t ih =>
      rw [List.splitOn_cons_eq_if_modifyHead]
      by_cases hx : x = d
      · rcases List.mem_cons.mp h with rfl | ht
        · exact Or.inl hx
        · refine (ih ht).imp_right fun ⟨segment, hs, hc⟩ => ⟨segment, ?_, hc⟩
          simp [hx, hs]
      · obtain ⟨first, rest, hsplit⟩ := List.exists_cons_of_ne_nil (List.splitOn_ne_nil d t)
        rw [hsplit] at ih ⊢
        simp only [beq_iff_eq, hx, if_false, List.modifyHead_cons, List.mem_cons, exists_eq_or_imp]
        rcases List.mem_cons.mp h with rfl | ht
        · exact Or.inr (Or.inl (Or.inl rfl))
        · rcases ih ht with hd | ⟨segment, hs, hc⟩
          · exact Or.inl hd
          · rcases List.mem_cons.mp hs with rfl | hs'
            · exact Or.inr (Or.inl (Or.inr hc))
            · exact Or.inr (Or.inr ⟨segment, hs', hc⟩)

end Text

namespace Path

/-- Whether a character may stand in the text of a path. -/
def isPathChar (c : Char) : Bool :=
  isNameChar c || c = '.' || c = '+' || c = '-' || Text.isBlankChar c

theorem isNameChar_of_readNat? {t : Text} {n : Nat} (h : Text.readNat? 10 t = some n) :
    ∀ c ∈ t, isNameChar c = true := by
  intro c hc
  simp [isNameChar, Char.isAlphanum, Text.isDigit_of_readNat? h c hc]

/-- The characters of a numeral are digits, after a sign. -/
theorem isPathChar_of_readSigned? {t : Text} {i : Int} (h : Text.readSigned? t = some i) :
    ∀ c ∈ t, isPathChar c = true := by
  have hdigits : ∀ {t : Text} {f : Nat → Int}, (Text.readNat? 10 t).map f = some i →
      ∀ c ∈ t, isPathChar c = true := by
    intro t f h c hc
    obtain ⟨n, hn, -⟩ := Option.map_eq_some_iff.mp h
    simp [isPathChar, isNameChar_of_readNat? hn c hc]
  rw [Text.readSigned?.eq_def] at h
  split at h
  next t =>
    intro c hc
    rcases List.mem_cons.mp hc with rfl | hc'
    · decide
    · exact hdigits h c hc'
  next t =>
    intro c hc
    rcases List.mem_cons.mp hc with rfl | hc'
    · decide
    · exact hdigits h c hc'
  next => exact hdigits h

theorem isPathChar_of_readToken {segment : Text} {token : Token}
    (h : readToken segment = .ok token) : ∀ c ∈ segment, isPathChar c = true := by
  rw [readToken] at h
  split at h
  next => cases h
  next =>
    split at h
    next i hi =>
      rw [Text.readInt64?, Option.filter_eq_some_iff] at hi
      exact isPathChar_of_readSigned? hi.1
    next =>
      split at h
      next hall =>
        intro c hc
        simp [isPathChar, List.all_eq_true.mp hall c hc]
      next => cases h

theorem isPathChar_of_readTokens {segments : List Text} :
    ∀ {tokens : List Token}, readTokens segments = .ok tokens →
      ∀ segment ∈ segments, ∀ c ∈ segment, isPathChar c = true := by
  induction segments with
  | nil => exact fun _ segment hs => absurd hs List.not_mem_nil
  | cons segment segments ih =>
      intro tokens h
      rw [readTokens] at h
      cases hfirst : readToken segment with
      | error flaw => rw [hfirst] at h; cases h
      | ok token =>
          rw [hfirst] at h
          cases hrest : readTokens segments with
          | error flaw => rw [hrest] at h; cases h
          | ok rest =>
              intro s hs
              rcases List.mem_cons.mp hs with rfl | hs'
              · exact isPathChar_of_readToken hfirst
              · exact ih hrest s hs'

theorem isPathChar_of_parse {p : Text} {path : Path} (h : parse p = .ok path) :
    ∀ c ∈ p, isPathChar c = true := by
  intro c hc
  rw [parse, readTrimmed] at h
  split at h
  next tokens htokens =>
    split at htokens
    next => cases htokens
    next =>
      rcases Text.mem_trim_or hc with htrim | hblank
      · rcases Text.mem_splitOn_or (d := '.') htrim with rfl | ⟨segment, hs, hcs⟩
        · decide
        · exact isPathChar_of_readTokens htokens segment hs c hcs
      · simp [isPathChar, hblank]
  next => cases h

end Path

/-! ## A template of one placeholder -/

namespace Template

/-- The template that holds a path and nothing else. -/
def placeholder (path : Text) : Text :=
  "\x7b\x7b".toList ++ path ++ "\x7d\x7d".toList

theorem cutAtDouble_append {c : Char} {t : Text} (h : c ∉ t) (rest : Text) :
    cutAtDouble c (t ++ c :: c :: rest) = some (t, rest) := by
  induction t with
  | nil => simp [cutAtDouble]
  | cons a t ih =>
      have ha : a ≠ c := fun ha => h (by simp [ha])
      have ih := ih fun ht => h (List.mem_cons_of_mem a ht)
      cases t with
      | nil => simp [cutAtDouble, ha] at ih ⊢
      | cons b t =>
          simp only [List.cons_append] at ih ⊢
          rw [cutAtDouble, if_neg fun hab => ha hab.1, ih]
          rfl

theorem parse_placeholder {p : Text} {path : Path} (h : Path.parse p = .ok path) :
    parse (placeholder p) = .ok [.placeholder path] := by
  have hclose : '\x7d' ∉ p := fun hc => absurd (Path.isPathChar_of_parse h _ hc) (by decide)
  have hcut : cutAtDouble '\x7b' (placeholder p) = some ([], p ++ "\x7d\x7d".toList) := rfl
  have hcut' : cutAtDouble '\x7d' (p ++ "\x7d\x7d".toList) = some (p, []) :=
    cutAtDouble_append hclose []
  have hrest : parseRest (placeholder p) [] = .ok [] := by
    rw [parseRest]
    rfl
  rw [parse, parseRest]
  split
  next hnone =>
    rw [hcut] at hnone
    cases hnone
  next before inside hopen =>
    obtain ⟨rfl, rfl⟩ := Prod.mk.inj (Option.some.inj (hcut.symm.trans hopen))
    split
    next hnone =>
      rw [hcut'] at hnone
      cases hnone
    next path' after hclose' =>
      obtain ⟨rfl, rfl⟩ := Prod.mk.inj (Option.some.inj (hcut'.symm.trans hclose'))
      rw [h, hrest]
      rfl

end Template

/-! ## Values that stand for their source -/

namespace Host

variable {ν : Type} {h : Host ν}

theorem sourceAt_around {before part after : Text}
    (hsource : h.source = before ++ (part ++ after)) : h.sourceAt (.around before part) = part := by
  rw [sourceAt, Span.slice?, hsource, Span.around_start, Span.around_stop, Text.slice?_append]
  rfl

/-- The values whose text in a template is the source at their span. -/
inductive Verbatim (h : Host ν) : Value ν → Span → Prop where
  /-- A node for which the host has no text of its own. -/
  | node {c : ν} (htext : h.nodeText c = h.sourceOf c) : Verbatim h (.node c) (h.span c)
  /-- A sequence that has not one node on each of several lines. -/
  | sequence {ns : List ν} {s : Span} (hspan : h.sequenceSpan? ns = some s)
      (hlines : (h.sequenceSource ns).pieces.length ≤ 1 ∨
        (h.sequenceSource ns).pieces.length ≠ ns.length) : Verbatim h (.sequence ns) s

theorem Verbatim.valueText_eq {v : Value ν} {s : Span} (hv : h.Verbatim v s) (path : Path) :
    h.valueText path v = .ok (h.sourceAt s) := by
  cases hv with
  | node htext => exact congrArg Except.ok htext
  | sequence hspan hlines =>
      rw [valueText, sequenceText]
      simp only [hspan, if_pos hlines]
      rw [sequenceSource, hspan]

theorem Verbatim.resolveSpan?_eq {v : Value ν} {s : Span} (hv : h.Verbatim v s) {n : ν}
    {path : Path} (hresolve : h.resolve n path = .ok v) :
    h.resolveSpan? n path = .ok (some s) := by
  rw [resolveSpan?, hresolve]
  cases hv with
  | node => rfl
  | sequence hspan => exact congrArg Except.ok hspan

section

variable {n : ν} {p : Text} {path : Path} {v : Value ν} {s : Span}

theorem render_placeholder (hpath : Path.parse p = .ok path) (hresolve : h.resolve n path = .ok v)
    (hv : h.Verbatim v s) : h.render n (Template.placeholder p) = .ok (h.sourceAt s) := by
  rw [render, Template.parse_placeholder hpath]
  simp only [bind, Except.bind, renderTemplate, segmentText, hresolve, hv.valueText_eq,
    List.append_nil]

theorem replacedSpan_singleton (hpath : Path.parse p = .ok path)
    (hresolve : h.resolve n path = .ok v) (hv : h.Verbatim v s) :
    Request.replacedSpan h n [p] = .ok s := by
  have htarget : h.targetSpan n (some p) = .ok s := by
    rw [targetSpan, childSpan?, hpath]
    simp only [bind, Except.bind, hv.resolveSpan?_eq hresolve]
  rw [Request.replacedSpan, List.mapM_cons, htarget]
  rfl

/-- The edit that puts the placeholder of a child in place of the child has the source
there as its code. -/
theorem edit_placeholder (hpath : Path.parse p = .ok path) (hresolve : h.resolve n path = .ok v)
    (hv : h.Verbatim v s) (tabWidth : Nat) :
    (Request.replace n [p] (Template.placeholder p)).edit h tabWidth =
      .ok ⟨.replace, s, some (h.sourceAt s)⟩ := by
  rw [Request.edit, Request.span, replacedSpan_singleton hpath hresolve hv, Request.code,
    render_placeholder hpath hresolve hv]
  rfl

end

end Host

/-! ## Sessions -/

/-- Replacing a piece of the source by itself changes nothing. -/
theorem Patch.apply_slice {source code : Text} {s : Span} (kind : EditKind)
    (hfits : s.fits source = true) (hcode : s.slice? source = some code) :
    Patch.apply source [⟨kind, s, some code⟩] = .ok source := by
  obtain ⟨before, old, after, rfl, rfl⟩ := Span.fits_iff_around.mp hfits
  obtain rfl : old = code := by
    rw [Span.slice?, Span.around_start, Span.around_stop, Text.slice?_append] at hcode
    exact Option.some.inj hcode
  exact Patch.apply_around kind before old after old

namespace Session

variable {ν : Type}

theorem process_edit (h : Host ν) (settings : Settings) (e : Edit) :
    process ⟨h, settings, [.edit e], []⟩ none =
      (Patch.apply h.source [e]).bind fun text => .ok ⟨none, true, false, some text, none⟩ :=
  Outcome.process_of_some h.source (r := ⟨[.edit e], []⟩) rfl

/-- What processing gives if a session has one step, a request that gets this edit. -/
theorem process_build_eq {h : Host ν} {settings : Settings} {r : Request ν} {e : Edit}
    (hedit : r.edit h settings.tabWidth = .ok e) :
    (run ⟨h, settings, [], []⟩ [.build r]).map (fun x => x.1.process none) =
      some ((Patch.apply h.source [e]).bind fun text =>
        .ok ⟨none, true, false, some text, none⟩) := by
  rw [run, step, register_of_ok (s := ⟨h, settings, [], []⟩) hedit]
  exact congrArg some (process_edit h settings e)

theorem process_build {h : Host ν} {settings : Settings} {r : Request ν} {e : Edit} {text : Text}
    (hedit : r.edit h settings.tabWidth = .ok e) (happly : Patch.apply h.source [e] = .ok text) :
    (run ⟨h, settings, [], []⟩ [.build r]).map (fun x => x.1.process none) =
      some (.ok ⟨none, true, false, some text, none⟩) := by
  rw [process_build_eq hedit, happly]
  rfl

/-- What processing gives if the only step of a session replaces a child by its own
placeholder. -/
def replaceByPlaceholder (h : Host ν) (settings : Settings) (n : ν) (p : Text) :
    Option (Except Failure Outcome) :=
  (run ⟨h, settings, [], []⟩ [.build (.replace n [p] (Template.placeholder p))]).map
    fun x => x.1.process none

/-- The source comes out as it was. -/
def sourceKept (source : Text) : Option (Except Failure Outcome) :=
  some (.ok ⟨none, true, false, some source, none⟩)

theorem replaceByPlaceholder_of_verbatim {h : Host ν} {n : ν} {p : Text} {path : Path}
    {v : Value ν} {s : Span} (settings : Settings) (hpath : Path.parse p = .ok path)
    (hresolve : h.resolve n path = .ok v) (hv : h.Verbatim v s) (hfits : s.fits h.source = true) :
    replaceByPlaceholder h settings n p = sourceKept h.source := by
  obtain ⟨before, old, after, hsource, hstart, hstop⟩ := Span.fits_iff.mp hfits
  have hslice : s.slice? h.source = some old := by
    rw [Span.slice?, hsource, hstart, hstop, Text.slice?_append]
  have hcode : h.sourceAt s = old := by
    rw [Host.sourceAt, hslice]
    rfl
  have hedit := Host.edit_placeholder hpath hresolve hv settings.tabWidth
  rw [hcode] at hedit
  exact process_build hedit (Patch.apply_slice .replace hfits hslice)

/-- A child that is replaced by its own placeholder stays as it is.  This holds at every
host that shows nodes as their source, for every path to a node or to a sequence that is
not dedented, if the span of the child fits.  At a syntax tree it holds for every path to
a node other than closure parameters. -/
theorem process_own_placeholder {p : Text} {path : Path} (hpath : Path.parse p = .ok path)
    (settings : Settings) :
    (∀ (ν : Type) (h : Host ν) (n : ν), (∀ c, h.nodeText c = h.sourceOf c) →
      (∀ c, h.resolve n path = .ok (.node c) → (h.span c).fits h.source = true →
        replaceByPlaceholder h settings n p = sourceKept h.source) ∧
      (∀ ns s, h.resolve n path = .ok (.sequence ns) → h.sequenceSpan? ns = some s →
        s.fits h.source = true →
        ((h.sequenceSource ns).pieces.length ≤ 1 ∨
          (h.sequenceSource ns).pieces.length ≠ ns.length) →
        replaceByPlaceholder h settings n p = sourceKept h.source)) ∧
    (∀ (isField : Text → Bool) (source : Text) (n c : Node),
      (Host.ofRustTree isField source).resolve n path = .ok (.node c) →
      c.kind ≠ "closure_parameters".toList → c.span.fits source = true →
      replaceByPlaceholder (Host.ofRustTree isField source) settings n p =
        sourceKept source) := by
  refine ⟨fun ν h n htext => ⟨fun c hc hfits => ?_, fun ns s hns hspan hfits hlines => ?_⟩, ?_⟩
  · exact replaceByPlaceholder_of_verbatim settings hpath hc (.node (htext c)) hfits
  · exact replaceByPlaceholder_of_verbatim settings hpath hns (.sequence hspan hlines) hfits
  · intro isField source n c hc hkind hfits
    have htext : (Host.ofRustTree isField source).nodeText c =
        (Host.ofRustTree isField source).sourceOf c :=
      if_neg hkind
    exact replaceByPlaceholder_of_verbatim settings hpath hc (.node htext) hfits

/-- A call with three arguments on two lines. -/
def call : Host Nat :=
  .ofTable .span "f(a, é,\n  c)".toList
    [⟨⟨0, 13⟩, [("args".toList, .sequence [1, 2, 3])]⟩, ⟨⟨2, 3⟩, []⟩, ⟨⟨5, 7⟩, []⟩, ⟨⟨11, 12⟩, []⟩]

/-- The fields of an access. -/
def isAccessField (name : Text) : Bool := name = "value".toList || name = "field".toList

/-- The access to a field. -/
def access : Node :=
  .mk 0 "field_expression".toList true false false none ⟨0, 3⟩
    [.mk 1 "identifier".toList true false false (some "value".toList) ⟨0, 1⟩ [],
      .mk 2 ".".toList false false false none ⟨1, 2⟩ [],
      .mk 3 "field_identifier".toList true false false (some "field".toList) ⟨2, 3⟩ []]

theorem process_own_placeholder_call :
    replaceByPlaceholder call .default 0 " args.-2 ".toList = sourceKept call.source ∧
    replaceByPlaceholder call .default 0 "args".toList = sourceKept call.source ∧
    replaceByPlaceholder (.ofRustTree isAccessField "a.b".toList) .default access "value".toList =
      sourceKept "a.b".toList := by
  refine ⟨?_, ?_, ?_⟩
  · have hpath : Path.parse " args.-2 ".toList =
        .ok ⟨"args.-2".toList, [.name "args".toList, .index (-2)]⟩ := rfl
    exact ((process_own_placeholder hpath .default).1 Nat call 0 fun _ => rfl).1 2 rfl rfl
  · have hpath : Path.parse "args".toList = .ok ⟨"args".toList, [.name "args".toList]⟩ := rfl
    exact ((process_own_placeholder hpath .default).1 Nat call 0 fun _ => rfl).2 [1, 2, 3] ⟨2, 12⟩
      rfl rfl rfl (Or.inr (by decide))
  · have hpath : Path.parse "value".toList = .ok ⟨"value".toList, [.name "value".toList]⟩ := rfl
    exact (process_own_placeholder hpath .default).2 isAccessField "a.b".toList access _ rfl
      (by decide) rfl

end Session

end Emend
