import Mathlib.Data.List.Chain
import Emend.Proofs.Placeholders

/-!
# The grammar of templates

Reading a template is compared with writing one.  A list of parts is *canonical* if it
is what reading can give: no literal is empty or holds two opening braces in a row, and
what follows a literal is a placeholder, before which the literal does not end in a
brace.  A text *spells* parts if it is made of them in order, with blanks allowed between
the braces of a placeholder and its path.

* A text is read as some parts exactly if these are canonical, hold paths that were
  read, and are spelled by the text (`parse_eq_ok_iff`).
* A text is refused for an open placeholder exactly if it starts with a spelling of such
  parts and goes on with two opening braces that no closing ones follow
  (`parse_eq_openPlaceholder_iff`).

Both are proved along *chunks*.  A chunk is a literal, possibly empty, and the placeholder
after it, which is what one round of the reader takes off the text.
-/

namespace Emend

namespace Text

/-! ## Blanks around a text -/

/-- Blanks at the ends of a text do not change what trimming gives. -/
theorem trim_append {a b : Text} (ha : isBlank a = true) (hb : isBlank b = true) (t : Text) :
    (a ++ t ++ b).trim = t.trim :=
  calc
    (a ++ t ++ b).trim = (a ++ t).trim := strip_append_right (List.all_eq_true.mp hb) _
    _ = t.trim := strip_append_left (List.all_eq_true.mp ha) t

/-- A text is its trimmed form between blanks. -/
theorem exists_blanks_around_trim (t : Text) :
    ∃ a b, isBlank a = true ∧ isBlank b = true ∧ t = a ++ t.trim ++ b := by
  have hblank : ∀ l : Text, isBlank (l.takeWhile isBlankChar) = true := fun l =>
    List.all_eq_true.mpr fun _ hc => List.mem_takeWhile_imp hc
  refine ⟨t.takeWhile isBlankChar, (t.trimStart.reverse.takeWhile isBlankChar).reverse,
    hblank t, ?_, ?_⟩
  · rw [isBlank, List.all_reverse]
    exact hblank _
  · have hend : t.trim ++ (t.trimStart.reverse.takeWhile isBlankChar).reverse = t.trimStart := by
      rw [trim, trimEnd, dropTail, ← List.reverse_append, List.takeWhile_append_dropWhile,
        List.reverse_reverse]
    rw [List.append_assoc, hend]
    exact List.takeWhile_append_dropWhile.symm

/-! ## A character twice in a row -/

/-- Whether a character stands somewhere twice in a row. -/
def HasDouble (c : Char) (t : Text) : Prop := [c, c] <:+: t

instance (c : Char) (t : Text) : Decidable (HasDouble c t) :=
  inferInstanceAs (Decidable ([c, c] <:+: t))

theorem not_hasDouble_iff {c : Char} {t : Text} :
    ¬ HasDouble c t ↔ t.IsChain fun a b => ¬ (a = c ∧ b = c) := by
  rw [List.isChain_iff_forall_rel_of_append_cons_cons]
  constructor
  · intro h a b before after ht hab
    refine h ⟨before, after, ?_⟩
    rw [ht, hab.1, hab.2]
    simp
  · rintro h ⟨before, after, ht⟩
    have hpair : t = before ++ c :: c :: after := by simp [← ht]
    exact h hpair ⟨rfl, rfl⟩

theorem not_hasDouble_concat_iff {c : Char} {t : Text} :
    ¬ HasDouble c (t ++ [c]) ↔ ¬ HasDouble c t ∧ t.getLast? ≠ some c := by
  rw [not_hasDouble_iff, not_hasDouble_iff, List.isChain_append]
  constructor
  · rintro ⟨ht, -, hlast⟩
    exact ⟨ht, fun hc => hlast c hc c rfl ⟨rfl, rfl⟩⟩
  · rintro ⟨ht, hlast⟩
    refine ⟨ht, .singleton c, ?_⟩
    rintro x hx y - ⟨rfl, -⟩
    exact hlast hx

theorem not_hasDouble_concat_of_not_mem {c : Char} {t : Text} (h : c ∉ t) :
    ¬ HasDouble c (t ++ [c]) := by
  refine not_hasDouble_concat_iff.mpr ⟨?_, fun hlast => h (List.mem_of_getLast? hlast)⟩
  exact fun hdouble => h (hdouble.subset (by simp))

end Text

namespace Path

theorem raw_of_parse {t : Text} {p : Path} (h : parse t = .ok p) : p.raw = t.trim := by
  rw [parse] at h
  split at h
  next => obtain rfl := Except.ok.inj h; rfl
  next => cases h

theorem parse_eq_of_trim_eq {t u : Text} (h : t.trim = u.trim) : parse t = parse u := by
  rw [parse, parse, h]

/-- The text of a path reads as the path, whatever blanks there are around it. -/
theorem parse_raw {t a b : Text} {p : Path} (h : parse t = .ok p)
    (ha : Text.isBlank a = true) (hb : Text.isBlank b = true) :
    parse (a ++ p.raw ++ b) = .ok p := by
  obtain ⟨x, y, hx, hy, ht⟩ := Text.exists_blanks_around_trim t
  have htrim : (a ++ p.raw ++ b).trim = t.trim := by
    rw [Text.trim_append ha hb, raw_of_parse h]
    conv => rhs; rw [ht]
    exact (Text.trim_append hx hy t.trim).symm
  rw [parse_eq_of_trim_eq htrim, h]

theorem parse_ne_openPlaceholder {t template : Text} {n : Nat} :
    parse t ≠ .error (.openPlaceholder template n) := by
  intro h
  rw [parse] at h
  split at h <;> cases h

end Path

namespace Template

open Text (HasDouble)

/-! ## The cut of the reader -/

theorem cutAtDouble_eq_none_iff {c : Char} {t : Text} :
    cutAtDouble c t = none ↔ ¬ HasDouble c t := by
  rw [Text.not_hasDouble_iff]
  fun_induction cutAtDouble c t with
  | case1 a b t hab => simp [hab]
  | case2 a b t hab ih => rw [Option.map_eq_none_iff, ih, List.isChain_cons_cons, and_iff_right hab]
  | case3 t ht =>
      cases t with
      | nil => simp
      | cons a t =>
          cases t with
          | nil => simp
          | cons b t => exact absurd rfl (ht a b t)

/-- A cut is at the first place where the character stands twice. -/
theorem not_hasDouble_of_cutAtDouble {c : Char} {t : Text} :
    ∀ {before after : Text}, cutAtDouble c t = some (before, after) →
      ¬ HasDouble c (before ++ [c]) := by
  fun_induction cutAtDouble c t with
  | case1 a b t hab =>
      intro before after h
      obtain ⟨rfl, rfl⟩ := Prod.mk.inj (Option.some.inj h)
      exact Text.not_hasDouble_iff.mpr (.singleton c)
  | case2 a b t hab ih =>
      intro before after h
      obtain ⟨⟨x, y⟩, hcut, he⟩ := Option.map_eq_some_iff.mp h
      obtain ⟨rfl, rfl⟩ := Prod.mk.inj he
      have hx := Text.not_hasDouble_iff.mp (ih hcut)
      have hbt := cutAtDouble_eq_some hcut
      refine Text.not_hasDouble_iff.mpr ?_
      cases x with
      | nil =>
          obtain ⟨rfl, -⟩ := List.cons.inj hbt
          simpa using hab
      | cons d x =>
          obtain ⟨rfl, -⟩ := List.cons.inj hbt
          exact List.isChain_cons_cons.mpr ⟨hab, hx⟩
  | case3 => intro before after h; cases h

theorem cutAtDouble_of_not_hasDouble {c : Char} {before : Text}
    (h : ¬ HasDouble c (before ++ [c])) (after : Text) :
    cutAtDouble c (before ++ c :: c :: after) = some (before, after) := by
  induction before with
  | nil => simp [cutAtDouble]
  | cons a before ih =>
      rw [Text.not_hasDouble_iff, List.cons_append] at h
      have ih := ih (Text.not_hasDouble_iff.mpr h.of_cons)
      cases before with
      | nil =>
          have hac : ¬ (a = c ∧ c = c) := (List.isChain_cons_cons.mp h).1
          rw [List.nil_append] at ih
          rw [List.cons_append, List.nil_append, cutAtDouble, if_neg hac, ih]
          rfl
      | cons b before =>
          have hab : ¬ (a = c ∧ b = c) := (List.isChain_cons_cons.mp h).1
          rw [List.cons_append, List.cons_append, cutAtDouble, if_neg hab, ← List.cons_append, ih]
          rfl

/-! ## One round of the reader -/

section

variable {template before inside inner : Text}

theorem parseRest_literal {rest : Text} (h : ¬ HasDouble '\x7b' rest) :
    parseRest template rest = .ok (literal rest) := by
  have hcut := cutAtDouble_eq_none_iff.mpr h
  rw [parseRest]
  split
  next => rfl
  next hopen => rw [hcut] at hopen; cases hopen

theorem parseRest_open (hbefore : ¬ HasDouble '\x7b' (before ++ ['\x7b']))
    (hinside : ¬ HasDouble '\x7d' inside) :
    parseRest template (before ++ '\x7b' :: '\x7b' :: inside) =
      .error (.openPlaceholder template
        (template.size - (before ++ '\x7b' :: '\x7b' :: inside).size + before.size)) := by
  have hcut := cutAtDouble_of_not_hasDouble hbefore inside
  have hcut' := cutAtDouble_eq_none_iff.mpr hinside
  rw [parseRest]
  split
  next hopen => rw [hcut] at hopen; cases hopen
  next hopen =>
    obtain ⟨rfl, rfl⟩ := Prod.mk.inj (Option.some.inj (hcut.symm.trans hopen))
    split
    next => rfl
    next hclose => rw [hcut'] at hclose; cases hclose

theorem parseRest_placeholder (hbefore : ¬ HasDouble '\x7b' (before ++ ['\x7b']))
    (hinner : ¬ HasDouble '\x7d' (inner ++ ['\x7d'])) (after : Text) :
    parseRest template (before ++ (placeholder inner ++ after)) = (do
      let path ← Path.parse inner
      let segments ← parseRest template after
      .ok (literal before ++ .placeholder path :: segments)) := by
  have hcut : cutAtDouble '\x7b' (before ++ (placeholder inner ++ after)) =
      some (before, inner ++ '\x7d' :: '\x7d' :: after) := by
    rw [← cutAtDouble_of_not_hasDouble hbefore]
    simp [placeholder]
  have hcut' := cutAtDouble_of_not_hasDouble hinner after
  rw [parseRest]
  split
  next hopen => rw [hcut] at hopen; cases hopen
  next hopen =>
    obtain ⟨rfl, rfl⟩ := Prod.mk.inj (Option.some.inj (hcut.symm.trans hopen))
    split
    next hclose => rw [hcut'] at hclose; cases hclose
    next hclose =>
      obtain ⟨rfl, rfl⟩ := Prod.mk.inj (Option.some.inj (hcut'.symm.trans hclose))
      rfl

end

/-- The rounds of the reader as a rule of induction.  What is left of a text has no
placeholder, or one that does not close, or a literal, a placeholder and a shorter rest. -/
@[elab_as_elim]
theorem rounds {motive : Text → Prop} (last : ∀ t, ¬ HasDouble '\x7b' t → motive t)
    (opened : ∀ t inside, ¬ HasDouble '\x7b' (t ++ ['\x7b']) → ¬ HasDouble '\x7d' inside →
      motive (t ++ '\x7b' :: '\x7b' :: inside))
    (chunk : ∀ t inner rest, ¬ HasDouble '\x7b' (t ++ ['\x7b']) →
      ¬ HasDouble '\x7d' (inner ++ ['\x7d']) → motive rest →
      motive (t ++ (placeholder inner ++ rest))) (rest : Text) : motive rest := by
  induction rest using parseRest.induct with
  | case1 rest hcut => exact last rest (cutAtDouble_eq_none_iff.mp hcut)
  | case2 rest before inside hcut hcut' =>
      rw [cutAtDouble_eq_some hcut]
      exact opened before inside (not_hasDouble_of_cutAtDouble hcut)
        (cutAtDouble_eq_none_iff.mp hcut')
  | case3 rest before inside hcut inner after hcut' _ ih =>
      have hrest : rest = before ++ (placeholder inner ++ after) := by
        rw [cutAtDouble_eq_some hcut, cutAtDouble_eq_some hcut']
        simp [placeholder]
      rw [hrest]
      exact chunk before inner after (not_hasDouble_of_cutAtDouble hcut)
        (not_hasDouble_of_cutAtDouble hcut') ih

end Template

/-! ## Canonical parts and their spellings -/

/-- Whether a part may stand right before another. -/
def Segment.MayPrecede : Segment → Segment → Prop
  | .literal _, .literal _ => False
  | .literal t, .placeholder _ => t.getLast? ≠ some '\x7b'
  | .placeholder _, _ => True

/-- How a part is written. -/
def Segment.print : Segment → Text
  | .literal t => t
  | .placeholder p => Template.placeholder p.raw

namespace Template

open Text (HasDouble isBlank)

/-- Parts as reading gives them. -/
structure Canonical (segments : Template) : Prop where
  /-- No literal is empty. -/
  literal_ne_nil : ∀ t, .literal t ∈ segments → t ≠ []
  /-- No literal holds the start of a placeholder. -/
  literal_closed : ∀ t, .literal t ∈ segments → ¬ HasDouble '\x7b' t
  /-- No two literals are neighbours, and a literal before a placeholder does not end in
  a brace. -/
  neighbours : segments.IsChain Segment.MayPrecede

/-- Placeholders hold paths that were read. -/
def HoldsPaths (segments : Template) : Prop :=
  ∀ p, .placeholder p ∈ segments → ∃ text, Path.parse text = .ok p

/-- How parts are written. -/
def print (segments : Template) : Text :=
  segments.flatMap Segment.print

/-- The texts that parts stand for: the parts in order, with blanks around the paths. -/
inductive Spells : Template → Text → Prop where
  | nil : Spells [] []
  | literal {segments : Template} {rest : Text} (t : Text) :
      Spells segments rest → Spells (.literal t :: segments) (t ++ rest)
  | placeholder {segments : Template} {rest before after : Text} (p : Path) :
      isBlank before = true → isBlank after = true → Spells segments rest →
      Spells (.placeholder p :: segments) (placeholder (before ++ p.raw ++ after) ++ rest)

theorem spells_print (segments : Template) : Spells segments (print segments) := by
  induction segments with
  | nil => exact .nil
  | cons segment segments ih =>
      rw [print, List.flatMap_cons]
      cases segment with
      | literal t => exact .literal t ih
      | placeholder p =>
          have h : Spells (.placeholder p :: segments)
              (placeholder ([] ++ p.raw ++ []) ++ print segments) := .placeholder p rfl rfl ih
          rwa [List.nil_append, List.append_nil] at h

/-! ## Chunks -/

/-- Parts as the reader comes by them: literals, possibly empty, each with the placeholder
after it, and a last literal. -/
inductive Chunks : Template → Prop where
  | last {t : Text} (ht : ¬ HasDouble '\x7b' t) : Chunks (literal t)
  | chunk {t : Text} {p : Path} {segments : Template} (ht : ¬ HasDouble '\x7b' (t ++ ['\x7b'])) :
      Chunks segments → Chunks (literal t ++ .placeholder p :: segments)

theorem literal_of_ne_nil {t : Text} (h : t ≠ []) : literal t = [.literal t] :=
  if_neg fun he => h (List.isEmpty_iff.mp he)

theorem Canonical.tail {segment : Segment} {segments : Template}
    (h : Canonical (segment :: segments)) : Canonical segments where
  literal_ne_nil t ht := h.literal_ne_nil t (List.mem_cons_of_mem _ ht)
  literal_closed t ht := h.literal_closed t (List.mem_cons_of_mem _ ht)
  neighbours := h.neighbours.of_cons

theorem Canonical.chunks : ∀ {segments : Template}, Canonical segments → Chunks segments
  | [], _ => .last (t := []) (by decide)
  | .placeholder _ :: _, h => .chunk (t := []) (by decide) h.tail.chunks
  | [.literal t], h => by
      have ht : ¬ HasDouble '\x7b' t := h.literal_closed t (by simp)
      rw [← literal_of_ne_nil (h.literal_ne_nil t (by simp))]
      exact .last ht
  | .literal t :: .placeholder p :: segments, h => by
      have ht : ¬ HasDouble '\x7b' t := h.literal_closed t (by simp)
      have hlast : t.getLast? ≠ some '\x7b' := (List.isChain_cons_cons.mp h.neighbours).1
      have hchunk := Chunks.chunk (p := p) (Text.not_hasDouble_concat_iff.mpr ⟨ht, hlast⟩)
        h.tail.tail.chunks
      rwa [literal_of_ne_nil (h.literal_ne_nil t (by simp))] at hchunk
  | .literal _ :: .literal _ :: _, h => absurd (List.isChain_cons_cons.mp h.neighbours).1 id

theorem canonical_literal {t : Text} (ht : ¬ HasDouble '\x7b' t) : Canonical (literal t) := by
  by_cases hnil : t = []
  · subst hnil
    exact ⟨by simp [literal], by simp [literal], .nil⟩
  · rw [literal_of_ne_nil hnil]
    exact ⟨by simpa using hnil, by simpa using ht, .singleton _⟩

theorem Canonical.cons_placeholder {segments : Template} (h : Canonical segments) (p : Path) :
    Canonical (.placeholder p :: segments) where
  literal_ne_nil t ht := h.literal_ne_nil t (by simpa using ht)
  literal_closed t ht := h.literal_closed t (by simpa using ht)
  neighbours := by
    cases segments with
    | nil => exact .singleton _
    | cons segment segments => exact List.isChain_cons_cons.mpr ⟨trivial, h.neighbours⟩

theorem canonical_chunk {t : Text} {segments : Template} (p : Path)
    (ht : ¬ HasDouble '\x7b' (t ++ ['\x7b'])) (h : Canonical segments) :
    Canonical (literal t ++ .placeholder p :: segments) := by
  obtain ⟨hclosed, hlast⟩ := Text.not_hasDouble_concat_iff.mp ht
  have hp := h.cons_placeholder p
  by_cases hnil : t = []
  · subst hnil
    exact hp
  · rw [literal_of_ne_nil hnil]
    refine ⟨?_, ?_, List.isChain_cons_cons.mpr ⟨hlast, hp.neighbours⟩⟩
    · intro u hu
      rcases List.mem_cons.mp hu with hu | hu
      · cases hu; exact hnil
      · exact hp.literal_ne_nil u hu
    · intro u hu
      rcases List.mem_cons.mp hu with hu | hu
      · cases hu; exact hclosed
      · exact hp.literal_closed u hu

theorem Chunks.canonical {segments : Template} (h : Chunks segments) : Canonical segments := by
  induction h with
  | last ht => exact canonical_literal ht
  | chunk ht _ ih => exact canonical_chunk _ ht ih

theorem spells_literal_append {segments : Template} {t u : Text} :
    Spells (literal t ++ segments) u ↔ ∃ rest, u = t ++ rest ∧ Spells segments rest := by
  by_cases hnil : t = []
  · subst hnil
    simp [literal]
  · rw [literal_of_ne_nil hnil]
    constructor
    · intro h
      cases h with
      | literal _ h => exact ⟨_, rfl, h⟩
    · rintro ⟨rest, rfl, h⟩
      exact .literal t h

theorem spells_literal {t u : Text} : Spells (literal t) u ↔ u = t := by
  have h := @spells_literal_append [] t u
  rw [List.append_nil] at h
  rw [h]
  constructor
  · rintro ⟨rest, rfl, hrest⟩
    cases hrest
    exact List.append_nil t
  · rintro rfl
    exact ⟨[], (List.append_nil u).symm, .nil⟩

theorem spells_chunk {t inner rest : Text} {p : Path} {segments : Template}
    (hp : Path.parse inner = .ok p) (h : Spells segments rest) :
    Spells (literal t ++ .placeholder p :: segments) (t ++ (placeholder inner ++ rest)) := by
  obtain ⟨a, b, ha, hb, hinner⟩ := Text.exists_blanks_around_trim inner
  rw [← Path.raw_of_parse hp] at hinner
  refine spells_literal_append.mpr ⟨_, rfl, ?_⟩
  rw [hinner]
  exact .placeholder p ha hb h

theorem HoldsPaths.of_append {a b : Template} (h : HoldsPaths (a ++ b)) : HoldsPaths b :=
  fun p hp => h p (List.mem_append_right a hp)

theorem HoldsPaths.tail {segment : Segment} {segments : Template}
    (h : HoldsPaths (segment :: segments)) : HoldsPaths segments :=
  fun p hp => h p (List.mem_cons_of_mem _ hp)

theorem holdsPaths_literal (t : Text) : HoldsPaths (literal t) := by
  intro p hp
  rw [literal] at hp
  split at hp
  next => cases hp
  next => cases List.mem_singleton.mp hp

theorem holdsPaths_chunk {t x : Text} {p : Path} {segments : Template}
    (hp : Path.parse x = .ok p) (h : HoldsPaths segments) :
    HoldsPaths (literal t ++ .placeholder p :: segments) := by
  intro q hq
  rcases List.mem_append.mp hq with hq | hq
  · exact holdsPaths_literal t q hq
  · rcases List.mem_cons.mp hq with hq | hq
    · cases hq; exact ⟨x, hp⟩
    · exact h q hq

/-! ## What is read -/

/-- A chunk is read off a text that starts with a spelling of it. -/
theorem parseRest_chunk {template t before after : Text} {p : Path}
    (ht : ¬ HasDouble '\x7b' (t ++ ['\x7b'])) (hp : ∃ x, Path.parse x = .ok p)
    (hbefore : isBlank before = true) (hafter : isBlank after = true) (rest : Text) :
    parseRest template (t ++ (placeholder (before ++ p.raw ++ after) ++ rest)) =
      (parseRest template rest).map fun segments => literal t ++ .placeholder p :: segments := by
  obtain ⟨x, hx⟩ := hp
  have hpath := Path.parse_raw hx hbefore hafter
  have hclose : '\x7d' ∉ before ++ p.raw ++ after := fun hc =>
    absurd (Path.isPathChar_of_parse hpath _ hc) (by decide)
  rw [parseRest_placeholder ht (Text.not_hasDouble_concat_of_not_mem hclose), hpath]
  cases parseRest template rest <;> rfl

theorem parseRest_of_spells {template : Text} {segments : Template} (h : Chunks segments) :
    ∀ {u : Text}, HoldsPaths segments → Spells segments u →
      parseRest template u = .ok segments := by
  induction h with
  | last ht =>
      intro u _ hu
      rw [spells_literal.mp hu]
      exact parseRest_literal ht
  | @chunk t p segments ht _ ih =>
      intro u hpaths hu
      obtain ⟨rest, rfl, hrest⟩ := spells_literal_append.mp hu
      cases hrest with
      | placeholder _ hbefore hafter hrest =>
          have hp := hpaths p (by simp)
          rw [parseRest_chunk ht hp hbefore hafter, ih hpaths.of_append.tail hrest]
          rfl

theorem spells_of_parseRest {template rest : Text} :
    ∀ {segments : Template}, parseRest template rest = .ok segments →
      Chunks segments ∧ HoldsPaths segments ∧ Spells segments rest := by
  induction rest using rounds with
  | last t ht =>
      intro segments h
      rw [parseRest_literal ht] at h
      obtain rfl := Except.ok.inj h
      exact ⟨.last ht, holdsPaths_literal t, spells_literal.mpr rfl⟩
  | opened t inside ht hinside =>
      intro segments h
      rw [parseRest_open ht hinside] at h
      cases h
  | chunk t inner rest ht hinner ih =>
      intro segments h
      rw [parseRest_placeholder ht hinner] at h
      obtain ⟨p, hp, h⟩ := exists_of_bind_eq_ok h
      obtain ⟨tail, htail, h⟩ := exists_of_bind_eq_ok h
      obtain rfl := Except.ok.inj h
      obtain ⟨hchunks, hpaths, hspells⟩ := ih htail
      exact ⟨.chunk ht hchunks, holdsPaths_chunk hp hpaths, spells_chunk hp hspells⟩

/-- A text is read as parts exactly if it spells them and they are as reading gives them. -/
theorem parse_eq_ok_iff {t : Text} {segments : Template} :
    parse t = .ok segments ↔ Canonical segments ∧ HoldsPaths segments ∧ Spells segments t := by
  constructor
  · intro h
    obtain ⟨hchunks, hpaths, hspells⟩ := spells_of_parseRest h
    exact ⟨hchunks.canonical, hpaths, hspells⟩
  · rintro ⟨hcanonical, hpaths, hspells⟩
    exact parseRest_of_spells hcanonical.chunks hpaths hspells

theorem parse_print_iff {segments : Template} :
    parse (print segments) = .ok segments ↔ Canonical segments ∧ HoldsPaths segments := by
  rw [parse_eq_ok_iff]
  exact ⟨fun h => ⟨h.1, h.2.1⟩, fun h => ⟨h.1, h.2, spells_print segments⟩⟩

/-! ## What is refused -/

/-- A placeholder opens at an offset of a text and does not close.  Before the offset stand
parts that are read one after the other, and after it no two closing braces in a row. -/
inductive OpenAt : Text → Nat → Prop where
  | mk {segments : Template} {u inside : Text}
      (canonical : ∀ p, Canonical (segments ++ [.placeholder p])) (paths : HoldsPaths segments)
      (spells : Spells segments u) (unclosed : ¬ HasDouble '\x7d' inside) :
      OpenAt (u ++ '\x7b' :: '\x7b' :: inside) u.size

theorem Canonical.of_concat {segments : Template} {p : Path}
    (h : Canonical (segments ++ [.placeholder p])) :
    Canonical segments ∧ ∀ t, segments.getLast? = some (.literal t) → t.getLast? ≠ some '\x7b' := by
  obtain ⟨hsegments, -, hlast⟩ := List.isChain_append.mp h.neighbours
  refine ⟨⟨?_, ?_, hsegments⟩, ?_⟩
  · exact fun t ht => h.literal_ne_nil t (List.mem_append_left _ ht)
  · exact fun t ht => h.literal_closed t (List.mem_append_left _ ht)
  · exact fun t ht => hlast _ ht _ rfl

theorem OpenAt.chunk {t inner rest : Text} {p : Path} {n : Nat}
    (ht : ¬ HasDouble '\x7b' (t ++ ['\x7b'])) (hp : Path.parse inner = .ok p) (h : OpenAt rest n) :
    OpenAt (t ++ (placeholder inner ++ rest)) (t.size + ((placeholder inner).size + n)) := by
  cases h with
  | @mk segments u inside hcanonical hpaths hspells hinside =>
      have hopen : OpenAt ((t ++ (placeholder inner ++ u)) ++ '\x7b' :: '\x7b' :: inside)
          (t ++ (placeholder inner ++ u)).size := by
        refine .mk (fun q => ?_) (holdsPaths_chunk hp hpaths) (spells_chunk hp hspells) hinside
        rw [List.append_assoc]
        exact canonical_chunk p ht (hcanonical q)
      simpa using hopen

theorem openAt_of_parseRest {template rest : Text} :
    ∀ {done template' : Text} {n : Nat}, template = done ++ rest →
      parseRest template rest = .error (.openPlaceholder template' n) →
      template' = template ∧ ∃ k, n = done.size + k ∧ OpenAt rest k := by
  induction rest using rounds with
  | last t ht =>
      intro done template' n _ h
      rw [parseRest_literal ht] at h
      cases h
  | opened t inside ht hinside =>
      intro done template' n htemplate h
      rw [parseRest_open ht hinside, htemplate, Text.size_append done, Nat.add_sub_cancel] at h
      cases h
      refine ⟨htemplate.symm, t.size, rfl, ?_⟩
      refine .mk (fun p => ?_) (holdsPaths_literal t) (spells_literal.mpr rfl) hinside
      exact canonical_chunk p ht (canonical_literal (t := []) (by decide))
  | chunk t inner rest ht hinner ih =>
      intro done template' n htemplate h
      rw [parseRest_placeholder ht hinner] at h
      cases hp : Path.parse inner with
      | error e =>
          rw [hp] at h
          cases h
          exact absurd hp Path.parse_ne_openPlaceholder
      | ok p =>
          rw [hp] at h
          cases htail : parseRest template rest with
          | ok tail => rw [htail] at h; cases h
          | error e =>
              rw [htail] at h
              cases h
              have hdone : template = (done ++ t ++ placeholder inner) ++ rest := by
                rw [htemplate]
                simp
              obtain ⟨rfl, k, rfl, hopen⟩ := ih hdone htail
              refine ⟨rfl, _, ?_, hopen.chunk ht hp⟩
              simp [Nat.add_assoc]

theorem parseRest_of_open {template inside : Text} {segments : Template} (h : Chunks segments)
    (hinside : ¬ HasDouble '\x7d' inside) :
    ∀ {done u : Text}, HoldsPaths segments → Spells segments u →
      (∀ t, segments.getLast? = some (.literal t) → t.getLast? ≠ some '\x7b') →
      template = done ++ (u ++ '\x7b' :: '\x7b' :: inside) →
      parseRest template (u ++ '\x7b' :: '\x7b' :: inside) =
        .error (.openPlaceholder template (done.size + u.size)) := by
  induction h with
  | @last t ht =>
      intro done u _ hu hlast htemplate
      obtain rfl := spells_literal.mp hu
      have hopen : ¬ HasDouble '\x7b' (u ++ ['\x7b']) := by
        refine Text.not_hasDouble_concat_iff.mpr ⟨ht, fun hbrace => hlast u ?_ hbrace⟩
        rw [literal_of_ne_nil (by rintro rfl; cases hbrace)]
        rfl
      rw [parseRest_open hopen hinside, htemplate, Text.size_append done, Nat.add_sub_cancel]
  | @chunk t p segments ht _ ih =>
      intro done u hpaths hu hlast htemplate
      obtain ⟨rest, rfl, hrest⟩ := spells_literal_append.mp hu
      cases hrest with
      | @placeholder _ rest before after _ hbefore hafter hrest =>
          have hlast' : ∀ t, segments.getLast? = some (.literal t) → t.getLast? ≠ some '\x7b' := by
            intro t ht
            refine hlast t ?_
            rw [List.getLast?_append, List.getLast?_cons, ht]
            rfl
          rw [List.append_assoc, List.append_assoc] at htemplate ⊢
          have hdone : template = (done ++ t ++ placeholder (before ++ p.raw ++ after)) ++
              (rest ++ '\x7b' :: '\x7b' :: inside) := by
            rw [htemplate]
            simp
          rw [parseRest_chunk ht (hpaths p (by simp)) hbefore hafter,
            ih hpaths.of_append.tail hrest hlast' hdone]
          simp [Except.map, Nat.add_assoc]

/-- A text is refused for an open placeholder exactly where one opens and does not close. -/
theorem parse_eq_openPlaceholder_iff {t template : Text} {n : Nat} :
    parse t = .error (.openPlaceholder template n) ↔ template = t ∧ OpenAt t n := by
  constructor
  · intro h
    have htemplate : t = [] ++ t := rfl
    obtain ⟨rfl, k, hn, hopen⟩ := openAt_of_parseRest htemplate h
    rw [hn, Text.size_nil, Nat.zero_add]
    exact ⟨rfl, hopen⟩
  · rintro ⟨rfl, hopen⟩
    cases hopen with
    | @mk segments u inside hcanonical hpaths hspells hinside =>
        obtain ⟨hsegments, hlast⟩ := (hcanonical ⟨[], []⟩).of_concat
        have htemplate : u ++ '\x7b' :: '\x7b' :: inside =
            [] ++ (u ++ '\x7b' :: '\x7b' :: inside) := rfl
        have h := parseRest_of_open hsegments.chunks hinside hpaths hspells hlast htemplate
        rwa [Text.size_nil, Nat.zero_add] at h

/-- Reading and writing templates are inverse.  A text is read as the canonical parts that it
spells.  Parts are read back from how they are written exactly if they are canonical and hold
paths.  A placeholder is reported as open exactly if it starts after parts that can be read
and does not end, and it is reported with its offset. -/
theorem parse_inverts_print :
    (∀ t segments, parse t = .ok segments ↔
      Canonical segments ∧ HoldsPaths segments ∧ Spells segments t) ∧
    (∀ segments, parse (print segments) = .ok segments ↔
      Canonical segments ∧ HoldsPaths segments) ∧
    (∀ t template n, parse t = .error (.openPlaceholder template n) ↔
      template = t ∧ OpenAt t n) :=
  ⟨fun _ _ => parse_eq_ok_iff, fun _ => parse_print_iff, fun _ _ _ => parse_eq_openPlaceholder_iff⟩

end Template

end Emend
