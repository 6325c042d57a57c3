import Mathlib.Data.List.Basic
import Emend.Settings.Change

/-!
# Settings stay valid

A document is checked field by field, and all that is wrong with it is reported at once.  Here its
faults are said once more, by the names that a document may use and not by the functions that look
them up (`Document.faults`), and validation is compared with them (`Document.validate_eq`).

The flags of a document are collected one by one.  The policy they make depends only on which of
the three names occur (`Document.policyOf_eq`), so neither their order nor their number matters.

The tab width is set in two ways: by a change that checks it, and by a document that was validated.
Both keep to the same bounds, so the settings that a list of changes leaves behind are within them
(`Change.widthInBounds_afterAll`), and a change that is refused leaves the settings as they were
(`Change.eq_of_run_error`).
-/

namespace Emend

namespace Settings

namespace Document

/-! ## Names -/

/-- The name of the flag to drop conflicting edits. -/
def keepName : Text := "keep-running".toList

/-- The name of the flag to refuse all edits. -/
def refuseName : Text := "throw-error".toList

/-- The name of the flag that lets insertions share an offset. -/
def shareName : Text := "allow-insert-at-same-position".toList

/-- The names that hosts have in a document. -/
def hostNames : List Text := ["tree-sitter-rust".toList, "span".toList]

/-- The names that flags have in a document. -/
def flagNames : List Text := [keepName, refuseName, shareName]

/-- The names of flags in a document. -/
def names (d : Document) : List Text := d.flags.getD []

/-- The policy of exactly the flags that are named. -/
def named (names : List Text) : Policy where
  keepRunning := names.contains keepName
  refuseAll := names.contains refuseName
  shareOffsets := names.contains shareName

theorem mem_flagNames_iff {name : Text} :
    name ∈ flagNames ↔ name = keepName ∨ name = refuseName ∨ name = shareName := by
  simp [flagNames]

theorem ofName?_keepName : Policy.ofName? keepName = some { keepRunning := true } := by decide

theorem ofName?_refuseName : Policy.ofName? refuseName = some { refuseAll := true } := by decide

theorem ofName?_shareName : Policy.ofName? shareName = some { shareOffsets := true } := by decide

theorem ofName?_of_not_mem {name : Text} (h : name ∉ flagNames) : Policy.ofName? name = none := by
  rw [mem_flagNames_iff, not_or, not_or] at h
  obtain ⟨hkeep, hrefuse, hshare⟩ := h
  rw [Policy.ofName?]
  split
  next he => exact absurd he hkeep
  next =>
    split
    next he => exact absurd he hrefuse
    next =>
      split
      next he => exact absurd he hshare
      next => rfl

theorem isNone_ofName?_iff {name : Text} :
    (Policy.ofName? name).isNone = true ↔ name ∉ flagNames := by
  constructor
  · intro hnone hmem
    rw [Option.isNone_iff_eq_none] at hnone
    rcases mem_flagNames_iff.mp hmem with rfl | rfl | rfl
    · cases ofName?_keepName.symm.trans hnone
    · cases ofName?_refuseName.symm.trans hnone
    · cases ofName?_shareName.symm.trans hnone
  · intro hnot
    rw [ofName?_of_not_mem hnot]
    rfl

/-- One more name adds its flag, if it is the name of one. -/
theorem named_cons (name : Text) (names : List Text) :
    named (name :: names) = ((Policy.ofName? name).getD .empty).union (named names) := by
  have hkeep : keepName ≠ refuseName ∧ keepName ≠ shareName := by decide
  have hrefuse : refuseName ≠ shareName := by decide
  by_cases hmem : name ∈ flagNames
  · rcases mem_flagNames_iff.mp hmem with rfl | rfl | rfl
    · simp [ofName?_keepName, named, Policy.union, hkeep.1.symm, hkeep.2.symm]
    · simp [ofName?_refuseName, named, Policy.union, hkeep.1, hrefuse.symm]
    · simp [ofName?_shareName, named, Policy.union, hkeep.2, hrefuse]
  · rw [ofName?_of_not_mem hmem]
    rw [mem_flagNames_iff, not_or, not_or] at hmem
    simp [named, Policy.union, Policy.empty, Ne.symm hmem.1, Ne.symm hmem.2.1, Ne.symm hmem.2.2]

theorem union_assoc (p q r : Policy) : (p.union q).union r = p.union (q.union r) := by
  simp [Policy.union, Bool.or_assoc]

/-- The flags that names stand for are those that are named. -/
theorem policyOf_eq (names : List Text) : policyOf names = named names := by
  have hrun : ∀ p : Policy,
      names.foldl (fun policy name => policy.union ((Policy.ofName? name).getD .empty)) p =
        p.union (named names) := by
    induction names with
    | nil =>
        intro p
        simp [named, Policy.union]
    | cons name names ih =>
        intro p
        rw [List.foldl_cons, ih, union_assoc, named_cons]
  rw [policyOf, hrun]
  simp [Policy.union, Policy.empty]

theorem host_of_mem {name : Text} (h : name ∈ hostNames) :
    (HostKind.ofName? name).map HostKind.name = some name := by
  simp only [hostNames, List.mem_cons, List.not_mem_nil, or_false] at h
  rcases h with rfl | rfl
  · decide
  · decide

theorem host_of_not_mem {name : Text} (h : name ∉ hostNames) : HostKind.ofName? name = none := by
  simp only [hostNames, List.mem_cons, List.not_mem_nil, or_false, not_or] at h
  rw [HostKind.ofName?]
  split
  next htree => exact absurd htree h.1
  next =>
    split
    next hspan => exact absurd hspan h.2
    next => rfl

/-! ## Faults -/

/-- All that is wrong with a document: a host by another name than those of hosts, each flag by
another name than those of flags, two flags that oppose each other, and a width out of bounds. -/
def faults (d : Document) : List Issue :=
  (d.host.toList.filter (!hostNames.contains ·)).map .unknownHost ++
    (d.names.filter (!flagNames.contains ·)).map .unknownFlag ++
    (if d.names.contains keepName && d.names.contains refuseName then [.opposedFlags] else []) ++
    (d.tabWidth.toList.filter fun width => width < 1 ∨ 16 < width).map .tabWidth

theorem hostIssues_eq (host : Option Text) :
    hostIssues host = (host.toList.filter (!hostNames.contains ·)).map .unknownHost := by
  cases host with
  | none => rfl
  | some name =>
      rw [hostIssues]
      by_cases h : name ∈ hostNames
      · have hsome : (HostKind.ofName? name).isSome = true := by
          rw [← Option.isSome_map (f := HostKind.name), host_of_mem h]
          rfl
        simp [hsome, h]
      · simp [host_of_not_mem h, h]

theorem flagIssues_eq (flags : Option (List Text)) :
    flagIssues flags = ((flags.getD []).filter (!flagNames.contains ·)).map .unknownFlag ++
      if (flags.getD []).contains keepName && (flags.getD []).contains refuseName then
        [.opposedFlags] else [] := by
  cases flags with
  | none => simp [flagIssues]
  | some names =>
      have hunknown : names.filter (fun name => (Policy.ofName? name).isNone) =
          names.filter (!flagNames.contains ·) :=
        List.filter_congr fun name _ => by
          rw [Bool.eq_iff_iff, isNone_ofName?_iff, Bool.not_eq_true', List.contains_eq_mem,
            decide_eq_false_iff_not]
      simp only [flagIssues, hunknown, policyOf_eq]
      simp [named]

theorem widthFits_iff {width : Int} : widthFits width = true ↔ 1 ≤ width ∧ width ≤ 16 := by
  rw [widthFits, Bool.and_eq_true, decide_eq_true_iff, decide_eq_true_iff]
  exact Iff.rfl

theorem widthIssues_eq (width : Option Int) :
    widthIssues width = (width.toList.filter fun w => w < 1 ∨ 16 < w).map .tabWidth := by
  cases width with
  | none => rfl
  | some w =>
      rw [widthIssues]
      split
      next hfits =>
        have hin := widthFits_iff.mp hfits
        simp [hin]
      next hfits =>
        have hout : w < 1 ∨ 16 < w := by
          have := mt widthFits_iff.mpr hfits
          omega
        simp [hout]

theorem issues_eq_faults (d : Document) : d.issues = d.faults := by
  rw [issues, hostIssues_eq, flagIssues_eq, widthIssues_eq, faults, names]
  simp only [List.append_assoc]

/-- A document is refused with all its faults, and one without faults has settings. -/
theorem validate_eq (d : Document) :
    d.validate = if d.faults = [] then .ok d.settings else .error d.faults := by
  rw [validate, issues_eq_faults]
  cases d.faults with
  | nil => rfl
  | cons issue issues => rfl

theorem validate_eq_ok_iff {d : Document} {s : Settings} :
    d.validate = .ok s ↔ d.faults = [] ∧ d.settings = s := by
  rw [validate_eq]
  split
  next h => simp [h]
  next h => simp [h]

/-- What a document without faults is like. -/
theorem faults_eq_nil_iff {d : Document} :
    d.faults = [] ↔
      (∀ name ∈ d.host, name ∈ hostNames) ∧ (∀ name ∈ d.names, name ∈ flagNames) ∧
        ¬ (keepName ∈ d.names ∧ refuseName ∈ d.names) ∧
        ∀ width ∈ d.tabWidth, 1 ≤ width ∧ width ≤ 16 := by
  simp [faults]

/-- The policy of a document, flag by flag. -/
theorem policy_eq (d : Document) :
    d.policy = ⟨keepName ∈ d.names ∨ refuseName ∉ d.names, refuseName ∈ d.names,
      shareName ∈ d.names⟩ := by
  rw [policy, names]
  cases d.flags with
  | none => simp [Policy.default]
  | some names =>
      simp only [policyOf_eq, Option.getD_some]
      by_cases hkeep : keepName ∈ names
      · simp [named, hkeep]
      · by_cases hrefuse : refuseName ∈ names
        · simp [named, hkeep, hrefuse]
        · simp [named, hkeep, hrefuse]

/-- Documents that name the same flags, in any order and any number, have the same settings. -/
theorem validate_eq_ok_of_same_names {d d' : Document} (hhost : d'.host = d.host)
    (hwidth : d'.tabWidth = d.tabWidth) (hnames : ∀ name, name ∈ d'.names ↔ name ∈ d.names)
    (s : Settings) : d'.validate = .ok s ↔ d.validate = .ok s := by
  have hfaults : d'.faults = [] ↔ d.faults = [] := by
    rw [faults_eq_nil_iff, faults_eq_nil_iff, hhost, hwidth]
    simp only [hnames]
  have hsettings : d'.settings = d.settings := by
    rw [settings, settings, policy_eq, policy_eq, hhost, hwidth]
    simp only [hnames]
  rw [validate_eq_ok_iff, validate_eq_ok_iff, hfaults, hsettings]

/-- The settings of a document without faults, field by field. -/
structure Describes (d : Document) (s : Settings) : Prop where
  /-- Conflicts are either dropped or refused. -/
  keepRunning_eq : s.policy.keepRunning = !s.policy.refuseAll
  /-- They are refused if the document says so. -/
  refuseAll_iff : s.policy.refuseAll = true ↔ refuseName ∈ d.names
  /-- Insertions share an offset if the document says so. -/
  shareOffsets_iff : s.policy.shareOffsets = true ↔ shareName ∈ d.names
  /-- The host is the one that is named, if one is. -/
  host_eq : s.host.map HostKind.name = d.host
  /-- The width is the given one, or two. -/
  tabWidth_eq : (s.tabWidth : Int) = d.tabWidth.getD 2

theorem describes_settings {d : Document} (h : d.faults = []) : d.Describes d.settings := by
  obtain ⟨hhost, -, hopposed, hwidth⟩ := faults_eq_nil_iff.mp h
  have hpolicy : d.settings.policy = _ := d.policy_eq
  refine ⟨?_, ?_, ?_, ?_, ?_⟩
  · rw [hpolicy]
    by_cases hrefuse : refuseName ∈ d.names
    · have hkeep : keepName ∉ d.names := fun hkeep => hopposed ⟨hkeep, hrefuse⟩
      simp [hkeep, hrefuse]
    · simp [hrefuse]
  · rw [hpolicy, decide_eq_true_iff]
  · rw [hpolicy, decide_eq_true_iff]
  · rw [settings]
    cases hd : d.host with
    | none => rfl
    | some name => exact host_of_mem (hhost name hd)
  · rw [settings]
    cases hd : d.tabWidth with
    | none => rfl
    | some width => exact Int.toNat_of_nonneg (by have := hwidth width hd; omega)

end Document

/-! ## Changes -/

/-- The bounds of the tab width. -/
def WidthInBounds (s : Settings) : Prop := 1 ≤ s.tabWidth ∧ s.tabWidth ≤ 16

section

variable {read : Text → Option Document} {s t : Settings}

/-- A validated document sets a width within the bounds. -/
theorem widthInBounds_of_validate {d : Document} (h : d.validate = .ok s) : s.WidthInBounds := by
  obtain ⟨hfaults, rfl⟩ := Document.validate_eq_ok_iff.mp h
  have hwidth := (Document.faults_eq_nil_iff.mp hfaults).2.2.2
  have htab := (Document.describes_settings hfaults).tabWidth_eq
  rw [WidthInBounds]
  cases hd : d.tabWidth with
  | none =>
      rw [hd, Option.getD_none] at htab
      omega
  | some width =>
      have hbounds := hwidth width hd
      rw [hd, Option.getD_some] at htab
      omega

theorem widthInBounds_of_ofText {file : Option Text} {text : Text}
    (h : ofText read file text = .ok s) : s.WidthInBounds := by
  rw [ofText] at h
  split at h
  next => cases h
  next d _ =>
    split at h
    next found hvalid =>
      cases h
      exact widthInBounds_of_validate hvalid
    next => cases h

theorem widthInBounds_of_ofFile {name : Text} {file : File} (h : ofFile read name file = .ok s) :
    s.WidthInBounds := by
  rw [ofFile] at h
  split at h
  next => exact widthInBounds_of_ofText h
  next => cases h

/-- So does a change of the width that is not refused. -/
theorem widthInBounds_of_withTabWidth {width : Nat} (h : s.withTabWidth width = .ok t) :
    t.WidthInBounds := by
  rw [withTabWidth] at h
  split at h
  next hbounds =>
    cases h
    exact hbounds
  next => cases h

end

namespace Change

section

variable {read : Text → Option Document} {s t : Settings} {c : Change}

theorem mapError_eq_ok {ε δ α : Type} {f : ε → δ} {x : Except ε α} {a : α}
    (h : x.mapError f = .ok a) : x = .ok a := by
  cases x with
  | ok b =>
      cases h
      rfl
  | error e => cases h

/-- Settings are put in place, or all stays as it was. -/
theorem put_cases {x : Except Error Settings} (h : ∀ t, x = .ok t → t.WidthInBounds)
    (s : Settings) :
    (∃ t, put x s = .ok () t ∧ t.WidthInBounds) ∨ ∃ e, put x s = .error e s := by
  cases x with
  | ok t => exact Or.inl ⟨t, rfl, h t rfl⟩
  | error e => exact Or.inr ⟨e, rfl⟩

/-- All that a change does: it keeps the width or sets one within the bounds, or it is refused and
leaves the settings as they were. -/
theorem run_cases (read : Text → Option Document) (c : Change) (s : Settings) :
    (∃ t, c.run read s = .ok () t ∧ (t.tabWidth = s.tabWidth ∨ t.WidthInBounds)) ∨
      ∃ e, c.run read s = .error e s := by
  have hput : ∀ {x : Except Error Settings}, (∀ t, x = .ok t → t.WidthInBounds) →
      c.run read s = put x s →
        (∃ t, c.run read s = .ok () t ∧ (t.tabWidth = s.tabWidth ∨ t.WidthInBounds)) ∨
          ∃ e, c.run read s = .error e s := by
    intro x hx hrun
    rw [hrun]
    exact (put_cases hx s).imp_left fun ⟨t, hput, hbounds⟩ => ⟨t, hput, Or.inr hbounds⟩
  cases c with
  | policy p => exact Or.inl ⟨s.withPolicy p, rfl, Or.inl rfl⟩
  | pin kind => exact Or.inl ⟨s.pin kind, rfl, Or.inl rfl⟩
  | tabWidth width => exact hput (fun t => widthInBounds_of_withTabWidth) rfl
  | adopt d => exact hput (fun t ht => widthInBounds_of_validate (mapError_eq_ok ht)) rfl
  | load text => exact hput (fun t ht => widthInBounds_of_ofText (mapError_eq_ok ht)) rfl
  | loadFile name file => exact hput (fun t ht => widthInBounds_of_ofFile (mapError_eq_ok ht)) rfl

/-- A change that is refused leaves the settings as they were. -/
theorem eq_of_run_error {e : Error} (h : c.run read s = .error e t) : t = s := by
  rcases run_cases read c s with ⟨t', hok, -⟩ | ⟨e', herror⟩
  · cases hok.symm.trans h
  · cases herror.symm.trans h
    rfl

theorem widthInBounds_after (h : s.WidthInBounds) (c : Change) :
    (after read s c).WidthInBounds := by
  rw [after]
  rcases run_cases read c s with ⟨t, hok, hkept | hset⟩ | ⟨e, herror⟩
  · rw [hok, WidthInBounds, hkept]
    exact h
  · rw [hok]
    exact hset
  · rw [herror]
    exact h

theorem widthInBounds_afterAll (changes : List Change) :
    ∀ {s : Settings}, s.WidthInBounds → (afterAll read s changes).WidthInBounds := by
  induction changes with
  | nil => exact fun h => h
  | cons c changes ih => exact fun h => ih (widthInBounds_after h c)

end

end Change

/-- A document is refused with all its faults, and otherwise it has settings that say what the
document says, whatever the order and the number of its flags.  However settings are changed from
the default ones, and whatever reads the texts, the tab width stays within its bounds, and a change
that is refused leaves them as they were. -/
theorem settings_stay_valid :
    (∀ d : Document, d.faults ≠ [] → d.validate = .error d.faults) ∧
    (∀ d : Document, d.faults = [] → ∃ s, d.validate = .ok s ∧ d.Describes s) ∧
    (∀ d d' : Document, d'.host = d.host → d'.tabWidth = d.tabWidth →
      (∀ name, name ∈ d'.names ↔ name ∈ d.names) →
      ∀ s, d'.validate = .ok s ↔ d.validate = .ok s) ∧
    ∀ (read : Text → Option Document) (changes : List Change),
      (Change.afterAll read default changes).WidthInBounds ∧
        ∀ (c : Change) (e : Error) (t : Settings),
          c.run read (Change.afterAll read default changes) = .error e t →
            t = Change.afterAll read default changes := by
  refine ⟨fun d h => ?_, fun d h => ?_, fun d d' => Document.validate_eq_ok_of_same_names,
    fun read changes => ⟨?_, fun c e t => Change.eq_of_run_error⟩⟩
  · rw [Document.validate_eq, if_neg h]
  · exact ⟨d.settings, Document.validate_eq_ok_iff.mpr ⟨h, rfl⟩, Document.describes_settings h⟩
  · exact Change.widthInBounds_afterAll changes ⟨by decide, by decide⟩

/-- A document with every kind of fault, one of them twice. -/
def faulty : Document where
  host := some "libcst".toList
  flags := some ["retry".toList, Document.keepName, "retry".toList, Document.refuseName]
  tabWidth := some 17

/-- A document without faults. -/
def sound : Document where
  host := some "span".toList
  flags := some [Document.shareName, Document.refuseName, Document.shareName]
  tabWidth := some 16

/-- The same with its flags in another order. -/
def reordered : Document :=
  { sound with flags := some [Document.refuseName, Document.shareName] }

/-- A reader of texts that say nothing or give a tab width. -/
def readWidth (text : Text) : Option Document :=
  if text = [] then some .empty
  else if text = "tab_width = 4".toList then some { Document.empty with tabWidth := some 4 }
  else if text = "tab_width = 17".toList then some { Document.empty with tabWidth := some 17 }
  else none

/-- A width that is loaded, a text that cannot be read, and a document that is refused. -/
def threeChanges : List Change :=
  [.load "tab_width = 4".toList, .load "tab_width = [".toList, .adopt faulty]

theorem settings_stay_valid_documents :
    (faulty.faults ≠ [] ∧ faulty.validate = .error [.unknownHost "libcst".toList,
      .unknownFlag "retry".toList, .unknownFlag "retry".toList, .opposedFlags, .tabWidth 17]) ∧
    (sound.faults = [] ∧ ∃ s, sound.validate = .ok s ∧ sound.Describes s ∧
      reordered.validate = .ok s) ∧
    (Change.afterAll readWidth default threeChanges).tabWidth = 4 ∧
    ∃ e t, (Change.load "tab_width = 17".toList).run readWidth
        (Change.afterAll readWidth default threeChanges) = .error e t ∧
      t = Change.afterAll readWidth default threeChanges := by
  obtain ⟨hfaults, hsound, hsame, hchanges⟩ := settings_stay_valid
  have hfaulty : faulty.faults = [.unknownHost "libcst".toList, .unknownFlag "retry".toList,
      .unknownFlag "retry".toList, .opposedFlags, .tabWidth 17] := by
    decide
  have hne : faulty.faults ≠ [] := by
    rw [hfaulty]
    exact List.cons_ne_nil _ _
  have hnone : sound.faults = [] := by decide
  obtain ⟨s, hs, hdescribes⟩ := hsound sound hnone
  refine ⟨⟨hne, ?_⟩, ⟨hnone, s, hs, hdescribes, ?_⟩, by decide, ?_⟩
  · rw [hfaults faulty hne, hfaulty]
  · have hnames : ∀ name, name ∈ reordered.names ↔ name ∈ sound.names := by
      simp [Document.names, reordered, sound, or_comm, or_left_comm]
    exact (hsame sound reordered rfl rfl hnames s).mpr hs
  · have hrun : (Change.load "tab_width = 17".toList).run readWidth
        (Change.afterAll readWidth default threeChanges) =
        .error (.settings (.rejected none [.tabWidth 17]))
          (Change.afterAll readWidth default threeChanges) := rfl
    exact ⟨_, _, hrun, (hchanges readWidth threeChanges).2 _ _ _ hrun⟩

end Settings

end Emend
