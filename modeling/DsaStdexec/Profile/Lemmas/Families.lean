import DsaStdexec.Profile.Lemmas.Contract
import Mathlib.Data.List.Nodup
import Mathlib.Data.List.ProdSigma

/-!
# Families, and the manifest as a whole

The families and their entries are validated one after the other, against what was seen before. This is
where an exception can escape that is not a `ManifestError`: the upstream name of an entry is looked up
without asking whether the upstream manifest has the workload.
-/

namespace DsaStdexec.Profile.Contract

open DsaStdexec.Lib

variable {F : Type}

/-! ## Entries -/

section Entries

variable {py : Python F} {family : RunFamily} {labels : List String} {upstream : List (String × Pair)}
  {entry : Value F} {report : EndpointReport} {state state' : EntryState} {index : Nat}

theorem known_ok_iff {α : Type} {found : Option α} {text : String} {a : α} :
    known found text = .ok a ↔ found = some a := by
  unfold known
  split <;> simp

theorem raises_known {α : Type} {found : Option α} {text : String} : Raises IsManifest (known found text) := by
  unfold known
  split
  · exact raises_ok _
  · exact raises_error (isManifest _)

theorem roleOfText_iff {text : String} {role : EndpointRole} :
    EndpointRole.ofText? text = some role ↔ text = role.text := by
  constructor
  · intro h
    have := List.find?_some h
    exact (eq_of_beq this).symm
  · rintro rfl
    cases role <;> rfl

variable (family labels) in
/-- What an entry has to meet by itself. -/
structure EntryOK (entry : Value F) (report : EndpointReport) : Prop where
  fields : ∃ obj : Dict F, entry = .object obj ∧ get obj "workload_label" = .string report.workloadLabel ∧
    get obj "endpoint_role" = .string report.endpointRole.text ∧
    get obj "artifact" = .string report.artifact
  labelled : report.workloadLabel ≠ ""
  curated : report.workloadLabel ∈ labels
  under : family.under.toList <+: report.artifact.toList

variable (upstream) in
/-- The artifact has the name that the upstream manifest gives it. -/
def Named (report : EndpointReport) : Prop :=
  ∃ pair, upstream.lookup report.workloadLabel = some pair ∧
    (PurePath.ofString report.artifact).name = pair.get report.endpointRole

theorem EntryOK.artifact_ne (h : EntryOK family labels entry report) : report.artifact ≠ "" := by
  intro he
  have hunder := h.under
  rw [he] at hunder
  have hnil := List.prefix_nil.mp hunder
  cases family <;> exact absurd hnil (by decide)

theorem checkEntry_ok_iff {scope : String} {validated : List EndpointReport} {used : List String} :
    checkEntry py family labels scope validated used entry = .ok report ↔
      EntryOK family labels entry report ∧ report.pair ∉ validated.map EndpointReport.pair ∧
        report.artifact ∉ used := by
  simp only [checkEntry, bind_ok_iff, asObject_ok_iff, requiredStr_ok_iff, ensure_ok_iff, known_ok_iff,
    roleOfText_iff, pure_ok_iff]
  constructor
  · rintro ⟨obj, rfl, label, ⟨hl, hlne⟩, _, ⟨hr, -⟩, artifact, ⟨ha, -⟩, -, hcur, role, rfl, -, hpair, -, hused,
      -, hunder, rfl⟩
    exact ⟨⟨⟨obj, rfl, hl, hr, ha⟩, hlne, hcur, hunder⟩, hpair, hused⟩
  · rintro ⟨h, hpair, hused⟩
    obtain ⟨obj, rfl, hl, hr, ha⟩ := h.fields
    have hrole : report.endpointRole.text ≠ "" := by cases report.endpointRole <;> decide
    exact ⟨obj, rfl, _, ⟨hl, h.labelled⟩, _, ⟨hr, hrole⟩, _, ⟨ha, h.artifact_ne⟩, (), h.curated, _, rfl, (),
      hpair, (), hused, (), h.under, rfl⟩

theorem raises_checkEntry {scope : String} {validated : List EndpointReport} {used : List String} :
    Raises IsManifest (checkEntry py family labels scope validated used entry) :=
  raises_asObject.bind fun _ _ => raises_requiredStr.bind fun _ _ => raises_requiredStr.bind fun _ _ =>
    raises_requiredStr.bind fun _ _ => (raises_ensure (isManifest _)).bind fun _ _ =>
      raises_known.bind fun _ _ => (raises_ensure (isManifest _)).bind fun _ _ =>
        (raises_ensure (isManifest _)).bind fun _ _ => (raises_ensure (isManifest _)).bind fun _ _ =>
          raises_ok _

theorem subscript_ok_iff {α : Type} {bindings : List (String × α)} {key : String} {a : α} :
    subscript bindings key = .ok a ↔ bindings.lookup key = some a := by
  unfold subscript
  split
  · next h => simp only [h, reduceCtorEq]
  · next h => simp only [h, Except.ok.injEq, Option.some.injEq]

theorem subscript_escapes_iff {α : Type} {bindings : List (String × α)} {key : String} :
    Escapes IsManifest (subscript bindings key) ↔ bindings.lookup key = none := by
  unfold subscript
  split
  · next h =>
      simp only [h, iff_true]
      exact ⟨.key key, rfl, nofun⟩
  · next h => simp [(raises_ok _).escapes_iff, h]

theorem validateEntry_ok_iff :
    validateEntry py family labels upstream state index entry = .ok state' ↔
      ∃ report, (EntryOK family labels entry report ∧ Named upstream report) ∧
        report.pair ∉ state.validated.map EndpointReport.pair ∧ report.artifact ∉ state.globalArtifacts ∧
        state' = ⟨state.validated ++ [report], state.globalArtifacts ++ [report.artifact]⟩ := by
  simp only [validateEntry, bind_ok_iff, checkEntry_ok_iff, subscript_ok_iff, ensure_ok_iff, pure_ok_iff]
  constructor
  · rintro ⟨report, ⟨hok, hpair, hused⟩, pair, hlookup, -, hname, rfl⟩
    exact ⟨report, ⟨hok, pair, hlookup, hname⟩, hpair, hused, rfl⟩
  · rintro ⟨report, ⟨hok, pair, hlookup, hname⟩, hpair, hused, rfl⟩
    exact ⟨report, ⟨hok, hpair, hused⟩, pair, hlookup, (), hname, rfl⟩

theorem validateEntry_escapes_iff :
    Escapes IsManifest (validateEntry py family labels upstream state index entry) ↔
      ∃ report, EntryOK family labels entry report ∧
        report.pair ∉ state.validated.map EndpointReport.pair ∧ report.artifact ∉ state.globalArtifacts ∧
        upstream.lookup report.workloadLabel = none := by
  simp only [validateEntry, escapes_bind_iff, raises_checkEntry.escapes_iff, checkEntry_ok_iff,
    subscript_escapes_iff, escapes_ensure_iff, escapes_pure_iff, false_or, and_false, exists_false, or_false,
    and_assoc]

variable (family labels upstream) in
/-- What an entry has to meet to be taken. -/
def Taken (entry : Value F) (report : EndpointReport) : Prop :=
  EntryOK family labels entry report ∧ Named upstream report

/-- The artifacts of some entries. -/
def artifactsOf (reports : List EndpointReport) : List String := reports.map EndpointReport.artifact

/-- The endpoints of some entries. -/
def pairsOf (reports : List EndpointReport) : List (String × EndpointRole) :=
  reports.map EndpointReport.pair

theorem entries_ok_iff {entries : List (Value F)} :
    checkLoop (validateEntry py family labels upstream) state index entries = .ok state' ↔
      ∃ reports, List.Forall₂ (Taken family labels upstream) entries reports ∧
        Fresh (pairsOf state.validated) (pairsOf reports) ∧
        Fresh state.globalArtifacts (artifactsOf reports) ∧
        state' = ⟨state.validated ++ reports, state.globalArtifacts ++ artifactsOf reports⟩ := by
  induction entries generalizing state index with
  | nil =>
      simp only [checkLoop, List.forall₂_nil_left_iff, Except.ok.injEq]
      constructor
      · rintro rfl
        exact ⟨[], rfl, fresh_nil _, fresh_nil _, by simp [artifactsOf]⟩
      · rintro ⟨reports, rfl, -, -, rfl⟩
        simp [artifactsOf]
  | cons entry entries ih =>
      simp only [checkLoop, bind_ok_iff, validateEntry_ok_iff, ih, List.forall₂_cons_left_iff]
      constructor
      · rintro ⟨_, ⟨report, hok, hpair, hused, rfl⟩, reports, hall, hpairs, hartifacts, rfl⟩
        rw [pairsOf, List.map_append] at hpairs
        refine ⟨report :: reports, ⟨report, reports, hok, hall, rfl⟩, fresh_cons_iff.mpr ⟨hpair, hpairs⟩,
          fresh_cons_iff.mpr ⟨hused, hartifacts⟩, ?_⟩
        simp [artifactsOf]
      · rintro ⟨_, ⟨report, reports, hok, hall, rfl⟩, hpairs, hartifacts, rfl⟩
        obtain ⟨hpair, hpairs⟩ := fresh_cons_iff.mp hpairs
        obtain ⟨hused, hartifacts⟩ := fresh_cons_iff.mp hartifacts
        refine ⟨_, ⟨report, hok, hpair, hused, rfl⟩, reports, hall, ?_, hartifacts, ?_⟩
        · rwa [pairsOf, List.map_append]
        · simp [artifactsOf]

/-- Every endpoint of every curated workload has an entry. -/
def Complete (labels : List String) (reports : List EndpointReport) : Prop :=
  ∀ label ∈ labels, ∀ role, (label, role) ∈ pairsOf reports

theorem missingPairs_eq_nil_iff {reports : List EndpointReport} :
    missingPairs labels reports = [] ↔ Complete labels reports := by
  simp only [missingPairs, List.filter_eq_nil_iff, decide_not, Bool.not_eq_true', decide_eq_false_iff_not,
    not_not, Complete]
  constructor
  · intro h label hl role
    refine h (label, role) (List.mem_product.mpr ⟨hl, ?_⟩)
    cases role <;> simp [expectedEndpointRoles]
  · rintro h ⟨label, role⟩ hmem
    exact h label (List.mem_product.mp hmem).1 role

theorem validateFamilyEntries_ok_iff {value : Value F} {used : List String} :
    validateFamilyEntries py family labels upstream value used = .ok state ↔
      ∃ entries reports, value = .array entries ∧ entries ≠ [] ∧
        List.Forall₂ (Taken family labels upstream) entries reports ∧ (pairsOf reports).Nodup ∧
        Fresh used (artifactsOf reports) ∧ Complete labels reports ∧
        state = ⟨reports, used ++ artifactsOf reports⟩ := by
  simp only [validateFamilyEntries, bind_ok_iff, nonEmptyArray_ok_iff, entries_ok_iff, ensure_ok_iff,
    missingPairs_eq_nil_iff, pure_ok_iff]
  constructor
  · rintro ⟨entries, ⟨hvalue, hne⟩, _, ⟨reports, hall, hpairs, hart, rfl⟩, -, hcomplete, rfl⟩
    exact ⟨entries, reports, hvalue, hne, hall, fresh_nil_left.mp hpairs, hart, hcomplete, rfl⟩
  · rintro ⟨entries, reports, hvalue, hne, hall, hpairs, hart, hcomplete, rfl⟩
    exact ⟨entries, ⟨hvalue, hne⟩, _, ⟨reports, hall, fresh_nil_left.mpr hpairs, hart, rfl⟩, (), hcomplete, rfl⟩

variable (family labels upstream) in
/-- The validation comes to an entry whose workload the upstream manifest does not have. -/
def EntriesMiss (used : List String) (value : Value F) : Prop :=
  ∃ before entry after reports report, value = .array (before ++ entry :: after) ∧
    List.Forall₂ (Taken family labels upstream) before reports ∧ EntryOK family labels entry report ∧
    (pairsOf (reports ++ [report])).Nodup ∧ Fresh used (artifactsOf (reports ++ [report])) ∧
    upstream.lookup report.workloadLabel = none

theorem validateFamilyEntries_escapes_iff {value : Value F} {used : List String} :
    Escapes IsManifest (validateFamilyEntries py family labels upstream value used) ↔
      EntriesMiss family labels upstream used value := by
  simp only [validateFamilyEntries, escapes_bind_iff, raises_nonEmptyArray.escapes_iff, nonEmptyArray_ok_iff,
    checkLoop_escapes_iff, entries_ok_iff, validateEntry_escapes_iff, escapes_ensure_iff, escapes_pure_iff,
    false_or, and_false, exists_false, or_false]
  constructor
  · rintro ⟨_, ⟨hvalue, -⟩, before, entry, after, _, rfl, ⟨reports, hall, hpairs, hart, rfl⟩, report, hok,
      hpair, hused, hmiss⟩
    refine ⟨before, entry, after, reports, report, hvalue, hall, hok, ?_, ?_, hmiss⟩
    · rw [← fresh_nil_left, pairsOf, List.map_append]
      exact fresh_concat_iff.mpr ⟨hpairs, hpair⟩
    · rw [artifactsOf, List.map_append]
      exact fresh_concat_iff.mpr ⟨hart, hused⟩
  · rintro ⟨before, entry, after, reports, report, hvalue, hall, hok, hpairs, hart, hmiss⟩
    rw [← fresh_nil_left, pairsOf, List.map_append] at hpairs
    rw [artifactsOf, List.map_append] at hart
    obtain ⟨hpairs, hpair⟩ := fresh_concat_iff.mp hpairs
    obtain ⟨hart, hused⟩ := fresh_concat_iff.mp hart
    exact ⟨_, ⟨hvalue, by simp⟩, before, entry, after, _, rfl, ⟨reports, hall, hpairs, hart, rfl⟩, report, hok,
      hpair, hused, hmiss⟩

end Entries

/-! ## Families -/

section Families

variable {py : Python F} {inputs : Inputs} {scope : Scope} {upstream : Upstream} {value : Value F}
  {header : FamilyHeader} {state state' : FamilyState} {index : Nat}

theorem familyOfText_iff {text : String} {family : RunFamily} :
    RunFamily.ofText? text = some family ↔ text = family.text := by
  constructor
  · intro h
    have := List.find?_some h
    exact (eq_of_beq this).symm
  · rintro rfl
    cases family <;> rfl

theorem familyText_injective : Function.Injective RunFamily.text := by
  intro a b h
  have h' := familyOfText_iff.mpr h
  rw [familyOfText_iff.mpr rfl] at h'
  exact Option.some.inj h'

variable (inputs) in
structure HeaderOK (obj : Dict F) (header : FamilyHeader) : Prop where
  runFamily : get obj "run_family" = .string header.runFamily.text
  sourceManifest : get obj "source_manifest" = .string header.sourceManifest
  instrumentation : get obj "instrumentation" = .string header.instrumentation
  selectedPath : get obj "selected_path" = .string header.selectedPath
  named : header.sourceManifest ≠ ""
  source : header.sourceManifest = inputs.source header.runFamily
  mode : header.instrumentation = header.runFamily.instrumentation.text
  path : header.selectedPath = header.runFamily.selectedPath

/-- The families of a list. -/
def familiesOf (families : List ArtifactFamily) : List RunFamily := families.map (·.runFamily)

theorem checkFamily_ok_iff {scopeName : String} {validated : List ArtifactFamily} {obj : Dict F} :
    checkFamily py inputs scopeName validated obj = .ok header ↔
      HeaderOK inputs obj header ∧ header.runFamily ∉ familiesOf validated := by
  have hnew : ∀ family : RunFamily, (family.text ∉ validated.map fun f => f.runFamily.text) ↔
      family ∉ familiesOf validated := by
    intro family
    rw [familiesOf, ← List.mem_map_of_injective familyText_injective, List.map_map]
    rfl
  simp only [checkFamily, bind_ok_iff, requiredStr_ok_iff, ensure_ok_iff, known_ok_iff, familyOfText_iff,
    pure_ok_iff]
  constructor
  · rintro ⟨_, ⟨hfamily, -⟩, -, hfresh, family, rfl, source, ⟨hsource, hne⟩, -, hs, _, ⟨hmode, -⟩, -, hm, _,
      ⟨hpath, -⟩, -, hp, rfl⟩
    exact ⟨⟨hfamily, hsource, hmode, hpath, hne, hs, hm, hp⟩, (hnew family).mp hfresh⟩
  · rintro ⟨h, hfresh⟩
    have hfamily : header.runFamily.text ≠ "" := by cases header.runFamily <;> decide
    have hmode : header.instrumentation ≠ "" := by
      rw [h.mode]
      cases header.runFamily <;> decide
    have hpath : header.selectedPath ≠ "" := by
      rw [h.path]
      cases header.runFamily <;> decide
    exact ⟨_, ⟨h.runFamily, hfamily⟩, (), (hnew _).mpr hfresh, _, rfl, _, ⟨h.sourceManifest, h.named⟩, (),
      h.source, _, ⟨h.instrumentation, hmode⟩, (), h.mode, _, ⟨h.selectedPath, hpath⟩, (), h.path, rfl⟩

theorem raises_checkFamily {scopeName : String} {validated : List ArtifactFamily} {obj : Dict F} :
    Raises IsManifest (checkFamily py inputs scopeName validated obj) :=
  raises_requiredStr.bind fun _ _ => (raises_ensure (isManifest _)).bind fun _ _ =>
    raises_known.bind fun _ _ => raises_requiredStr.bind fun _ _ =>
      (raises_ensure (isManifest _)).bind fun _ _ => raises_requiredStr.bind fun _ _ =>
        (raises_ensure (isManifest _)).bind fun _ _ => raises_requiredStr.bind fun _ _ =>
          (raises_ensure (isManifest _)).bind fun _ _ => raises_ok _

variable (inputs scope upstream) in
/-- A family by itself. -/
structure FamilyOK (value : Value F) (family : ArtifactFamily) : Prop where
  fields : ∃ (obj : Dict F) (entries : List (Value F)), value = .object obj ∧
    HeaderOK inputs obj family.toFamilyHeader ∧ get obj "endpoint_reports" = .array entries ∧ entries ≠ [] ∧
    List.Forall₂ (Taken family.runFamily scope.workloadLabels (upstream.artifacts family.runFamily)) entries
      family.endpointReports
  pairs : (pairsOf family.endpointReports).Nodup
  complete : Complete scope.workloadLabels family.endpointReports

/-- The artifacts of all entries of some families. -/
def allArtifacts (families : List ArtifactFamily) : List String :=
  families.flatMap fun family => artifactsOf family.endpointReports

theorem validateFamily_ok_iff :
    validateFamily py inputs scope upstream state index value = .ok state' ↔
      ∃ family, FamilyOK inputs scope upstream value family ∧ family.runFamily ∉ familiesOf state.validated ∧
        Fresh state.globalArtifacts (artifactsOf family.endpointReports) ∧
        state' = ⟨state.validated ++ [family],
          state.globalArtifacts ++ artifactsOf family.endpointReports⟩ := by
  simp only [validateFamily, bind_ok_iff, asObject_ok_iff, checkFamily_ok_iff, validateFamilyEntries_ok_iff,
    pure_ok_iff]
  constructor
  · rintro ⟨obj, rfl, header, ⟨hheader, hnew⟩, _, ⟨entries, reports, hget, hne, hall, hpairs, hart, hcomplete,
      rfl⟩, rfl⟩
    exact ⟨⟨header, reports⟩, ⟨⟨obj, entries, rfl, hheader, hget, hne, hall⟩, hpairs, hcomplete⟩, hnew, hart,
      rfl⟩
  · rintro ⟨family, hok, hnew, hart, rfl⟩
    obtain ⟨obj, entries, rfl, hheader, hget, hne, hall⟩ := hok.fields
    exact ⟨obj, rfl, _, ⟨hheader, hnew⟩, _, ⟨entries, _, hget, hne, hall, hok.pairs, hart, hok.complete, rfl⟩,
      rfl⟩

theorem families_ok_iff {values : List (Value F)} :
    checkLoop (validateFamily py inputs scope upstream) state index values = .ok state' ↔
      ∃ families, List.Forall₂ (FamilyOK inputs scope upstream) values families ∧
        Fresh (familiesOf state.validated) (familiesOf families) ∧
        Fresh state.globalArtifacts (allArtifacts families) ∧
        state' = ⟨state.validated ++ families, state.globalArtifacts ++ allArtifacts families⟩ := by
  induction values generalizing state index with
  | nil =>
      simp only [checkLoop, List.forall₂_nil_left_iff, Except.ok.injEq]
      constructor
      · rintro rfl
        exact ⟨[], rfl, fresh_nil _, fresh_nil _, by simp [allArtifacts]⟩
      · rintro ⟨families, rfl, -, -, rfl⟩
        simp [allArtifacts]
  | cons value values ih =>
      simp only [checkLoop, bind_ok_iff, validateFamily_ok_iff, ih, List.forall₂_cons_left_iff]
      constructor
      · rintro ⟨_, ⟨family, hok, hnew, hart, rfl⟩, families, hall, hfamilies, harts, rfl⟩
        rw [familiesOf, List.map_append] at hfamilies
        refine ⟨family :: families, ⟨family, families, hok, hall, rfl⟩, fresh_cons_iff.mpr ⟨hnew, hfamilies⟩,
          fresh_append_iff.mpr ⟨hart, harts⟩, ?_⟩
        simp [allArtifacts]
      · rintro ⟨_, ⟨family, families, hok, hall, rfl⟩, hfamilies, harts, rfl⟩
        obtain ⟨hnew, hfamilies⟩ := fresh_cons_iff.mp hfamilies
        obtain ⟨hart, harts⟩ := fresh_append_iff.mp harts
        refine ⟨_, ⟨family, hok, hnew, hart, rfl⟩, families, hall, ?_, harts, ?_⟩
        · rwa [familiesOf, List.map_append]
        · simp [allArtifacts]

variable (inputs scope upstream) in
/-- After `families`, the validation comes to a family with an entry whose workload the upstream
manifest does not have. -/
def FamilyMisses (families : List ArtifactFamily) (value : Value F) : Prop :=
  ∃ obj header, value = .object obj ∧ HeaderOK inputs obj header ∧ header.runFamily ∉ familiesOf families ∧
    EntriesMiss header.runFamily scope.workloadLabels (upstream.artifacts header.runFamily)
      (allArtifacts families) (get obj "endpoint_reports")

theorem validateFamily_escapes_iff :
    Escapes IsManifest (validateFamily py inputs scope upstream state index value) ↔
      ∃ obj header, value = .object obj ∧ HeaderOK inputs obj header ∧
        header.runFamily ∉ familiesOf state.validated ∧
        EntriesMiss header.runFamily scope.workloadLabels (upstream.artifacts header.runFamily)
          state.globalArtifacts (get obj "endpoint_reports") := by
  simp only [validateFamily, escapes_bind_iff, raises_asObject.escapes_iff, asObject_ok_iff,
    raises_checkFamily.escapes_iff, checkFamily_ok_iff, validateFamilyEntries_escapes_iff, escapes_pure_iff,
    false_or, and_false, exists_false, or_false]
  constructor
  · rintro ⟨obj, hobj, header, ⟨hheader, hnew⟩, h⟩
    exact ⟨obj, header, hobj, hheader, hnew, h⟩
  · rintro ⟨obj, header, hobj, hheader, hnew, h⟩
    exact ⟨obj, hobj, header, ⟨hheader, hnew⟩, h⟩

end Families

/-! ## The manifest -/

section Manifest

variable {py : Python F} {files : Files F} {repoRoot : PurePath} {inputs : Inputs} {scope : Scope}
  {value : Value F}

variable (files repoRoot inputs scope) in
/-- The validated families. -/
structure FamiliesOK (value : Value F) (families : List ArtifactFamily) : Prop where
  each : ∃ values upstream, value = .array values ∧ values ≠ [] ∧ UpstreamOK files repoRoot inputs upstream ∧
    List.Forall₂ (FamilyOK inputs scope upstream) values families
  distinct : (familiesOf families).Nodup
  all : ∀ family, family ∈ familiesOf families
  artifacts : (allArtifacts families).Nodup

theorem validateArtifactFamilies_ok_iff {families : List ArtifactFamily} :
    validateArtifactFamilies py files repoRoot inputs scope value = .ok families ↔
      FamiliesOK files repoRoot inputs scope value families := by
  have hmissing : ∀ fs : List ArtifactFamily,
      (RunFamily.all.filter fun family => family ∉ fs.map (·.runFamily)) = [] ↔
        ∀ family, family ∈ familiesOf fs := by
    intro fs
    simp only [List.filter_eq_nil_iff, decide_not, Bool.not_eq_true', decide_eq_false_iff_not, not_not,
      familiesOf]
    constructor
    · intro h family
      exact h family (by cases family <;> simp [RunFamily.all])
    · exact fun h family _ => h family
  simp only [validateArtifactFamilies, bind_ok_iff, nonEmptyArray_ok_iff, loadUpstream_ok_iff, families_ok_iff,
    ensure_ok_iff, hmissing, pure_ok_iff]
  constructor
  · rintro ⟨values, ⟨hvalue, hne⟩, upstream, hup, _, ⟨fs, hall, hdistinct, hart, rfl⟩, -, hcomplete, rfl⟩
    exact ⟨⟨values, upstream, hvalue, hne, hup, hall⟩, fresh_nil_left.mp hdistinct, hcomplete,
      fresh_nil_left.mp hart⟩
  · rintro ⟨⟨values, upstream, hvalue, hne, hup, hall⟩, hdistinct, hcomplete, hart⟩
    exact ⟨values, ⟨hvalue, hne⟩, upstream, hup, _, ⟨families, hall, fresh_nil_left.mpr hdistinct,
      fresh_nil_left.mpr hart, rfl⟩, (), hcomplete, rfl⟩

variable (files repoRoot inputs scope) in
/-- The decoder gives up on an upstream manifest, or the validation comes to an entry whose workload the
upstream manifest of its family does not have. -/
def FamiliesEscape (value : Value F) : Prop :=
  ∃ values, value = .array values ∧ values ≠ [] ∧
    (UpstreamRaises files repoRoot inputs ∨
      ∃ upstream before item after families, UpstreamOK files repoRoot inputs upstream ∧
        values = before ++ item :: after ∧ List.Forall₂ (FamilyOK inputs scope upstream) before families ∧
        (familiesOf families).Nodup ∧ (allArtifacts families).Nodup ∧
        FamilyMisses inputs scope upstream families item)

theorem validateArtifactFamilies_escapes_iff :
    Escapes IsManifest (validateArtifactFamilies py files repoRoot inputs scope value) ↔
      FamiliesEscape files repoRoot inputs scope value := by
  simp only [validateArtifactFamilies, escapes_bind_iff, raises_nonEmptyArray.escapes_iff,
    nonEmptyArray_ok_iff, loadUpstream_escapes_iff, loadUpstream_ok_iff, checkLoop_escapes_iff, families_ok_iff,
    validateFamily_escapes_iff, escapes_ensure_iff, escapes_pure_iff, false_or, and_false, exists_false,
    or_false]
  constructor
  · rintro ⟨values, ⟨hvalue, hne⟩, h | ⟨upstream, hup, before, item, after, _, hsplit,
      ⟨families, hall, hdistinct, hart, rfl⟩, hmiss⟩⟩
    · exact ⟨values, hvalue, hne, Or.inl h⟩
    · exact ⟨values, hvalue, hne, Or.inr ⟨upstream, before, item, after, families, hup, hsplit, hall,
        fresh_nil_left.mp hdistinct, fresh_nil_left.mp hart, hmiss⟩⟩
  · rintro ⟨values, hvalue, hne, h | ⟨upstream, before, item, after, families, hup, hsplit, hall, hdistinct,
      hart, hmiss⟩⟩
    · exact ⟨values, ⟨hvalue, hne⟩, Or.inl h⟩
    · exact ⟨values, ⟨hvalue, hne⟩, Or.inr ⟨upstream, hup, before, item, after, _, hsplit, ⟨families, hall,
        fresh_nil_left.mpr hdistinct, fresh_nil_left.mpr hart, rfl⟩, hmiss⟩⟩

variable (py files repoRoot) in
/-- The validation of a manifest comes to something that it does not report as a `ManifestError`. -/
def ManifestEscapes (path : PurePath) : Prop :=
  (∃ text, files.read path = .gaveUp text) ∨
    ∃ obj scope, files.read path = .value (.object obj) ∧ py.eqOne (get obj "version") = true ∧
      get obj "run_root" = .string expectedRunRoot ∧ ScopeOK (get obj "scope") scope ∧
      (InputsRaise files repoRoot (get obj "inputs") ∨
        ∃ inputs, InputsOK files repoRoot (get obj "inputs") inputs ∧ DerivedOK (get obj "derived_outputs") ∧
          FamiliesEscape files repoRoot inputs scope (get obj "artifact_families"))

theorem loadManifest_escapes_iff {path : PurePath} :
    Escapes IsManifest (loadManifest py files repoRoot path) ↔ ManifestEscapes py files repoRoot path := by
  simp only [loadManifest, escapes_bind_iff, loadJson_escapes_iff, loadJson_ok_iff, escapes_ensure_iff,
    ensure_ok_iff, raises_requiredStr.escapes_iff, requiredStr_ok_iff, raises_validateScope.escapes_iff,
    validateScope_ok_iff, validateInputs_escapes_iff, validateInputs_ok_iff,
    raises_validateDerivedOutputs.escapes_iff, validateDerivedOutputs_ok_iff,
    validateArtifactFamilies_escapes_iff, raises_validateReport.escapes_iff, escapes_pure_iff, false_or,
    and_false, exists_false, or_false]
  refine or_congr Iff.rfl ?_
  constructor
  · rintro ⟨obj, hread, -, hversion, _, ⟨hroot, -⟩, -, rfl, scope, hscope, h⟩
    refine ⟨obj, scope, hread, hversion, hroot, hscope, ?_⟩
    rcases h with h | ⟨inputs, hinputs, _, ⟨hderived, rfl⟩, h⟩
    · exact Or.inl h
    · exact Or.inr ⟨inputs, hinputs, hderived, h⟩
  · rintro ⟨obj, scope, hread, hversion, hroot, hscope, h⟩
    refine ⟨obj, hread, (), hversion, _, ⟨hroot, by decide⟩, (), rfl, scope, hscope, ?_⟩
    rcases h with h | ⟨inputs, hinputs, hderived, h⟩
    · exact Or.inl h
    · exact Or.inr ⟨inputs, hinputs, _, ⟨hderived, rfl⟩, h⟩

/-- What is known of an accepted manifest. -/
structure Accepted (manifest : Manifest) : Prop where
  curated : SameSet manifest.scope.workloadLabels requiredLabels
  distinct : (familiesOf manifest.artifactFamilies).Nodup
  all : ∀ family, family ∈ familiesOf manifest.artifactFamilies
  artifacts : (allArtifacts manifest.artifactFamilies).Nodup
  selected : ∀ family ∈ manifest.artifactFamilies, family.selectedPath = family.runFamily.selectedPath
  under : ∀ family ∈ manifest.artifactFamilies, ∀ report ∈ family.endpointReports,
    family.runFamily.under.toList <+: report.artifact.toList
  labelled : ∀ family ∈ manifest.artifactFamilies, ∀ report ∈ family.endpointReports,
    report.workloadLabel ∈ manifest.scope.workloadLabels
  pairs : ∀ family ∈ manifest.artifactFamilies, (pairsOf family.endpointReports).Nodup
  complete : ∀ family ∈ manifest.artifactFamilies,
    Complete manifest.scope.workloadLabels family.endpointReports

theorem accepted {path : PurePath} {manifest : Manifest}
    (h : loadManifest py files repoRoot path = .ok manifest) : Accepted manifest := by
  simp only [loadManifest, bind_ok_iff, loadJson_ok_iff, ensure_ok_iff, requiredStr_ok_iff,
    validateScope_ok_iff, validateInputs_ok_iff, validateDerivedOutputs_ok_iff,
    validateArtifactFamilies_ok_iff, pure_ok_iff] at h
  obtain ⟨obj, -, -, -, runRoot, -, -, -, scope, hscope, inputs, -, outputs, -, families, hfamilies, report, -,
    rfl⟩ := h
  obtain ⟨values, upstream, -, -, -, hall⟩ := hfamilies.each
  have hfamily : ∀ family ∈ families, ∃ value : Value F, FamilyOK inputs scope upstream value family :=
    fun family hmem => exists_left_of_forall₂ hall hmem
  have hreport : ∀ family ∈ families, ∀ report ∈ family.endpointReports,
      ∃ entry : Value F, EntryOK family.runFamily scope.workloadLabels entry report := by
    intro family hmem report hr
    obtain ⟨value, hok⟩ := hfamily family hmem
    obtain ⟨obj, entries, -, -, -, -, htaken⟩ := hok.fields
    obtain ⟨entry, htaken⟩ := exists_left_of_forall₂ htaken hr
    exact ⟨entry, htaken.1⟩
  refine ⟨hscope.curated, hfamilies.distinct, hfamilies.all, hfamilies.artifacts, ?_, ?_, ?_, ?_, ?_⟩
  · intro family hmem
    obtain ⟨value, hok⟩ := hfamily family hmem
    obtain ⟨obj, entries, -, hheader, -⟩ := hok.fields
    exact hheader.path
  · intro family hmem report hr
    obtain ⟨entry, hok⟩ := hreport family hmem report hr
    exact hok.under
  · intro family hmem report hr
    obtain ⟨entry, hok⟩ := hreport family hmem report hr
    exact hok.curated
  · intro family hmem
    obtain ⟨value, hok⟩ := hfamily family hmem
    exact hok.pairs
  · intro family hmem
    obtain ⟨value, hok⟩ := hfamily family hmem
    exact hok.complete

end Manifest

end DsaStdexec.Profile.Contract
