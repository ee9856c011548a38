import DsaStdexec.Profile.Lemmas.Families
import DsaStdexec.Profile.Summary
import Mathlib.Data.List.Perm.Basic

/-!
# The rows of a comparison

For an accepted manifest whose reports load, the dictionaries of the script hold one report for each
entry, and a row is built for every label of the scope and every role.
-/

namespace DsaStdexec.Profile.Summary

open DsaStdexec.Lib Contract

variable {F : Type} {py : Python F} {files : Files F}

/-! ## A loaded report -/

theorem requireValue_ok_iff {obj : Dict F} {key scope : String} {value : Value F} :
    requireValue obj key scope = .ok value ↔ member? obj key = some value := by
  unfold requireValue
  split
  · next h => simp only [h, reduceCtorEq]
  · next h => simp only [h, Except.ok.injEq, Option.some.injEq]

theorem item_ok_iff {obj : Dict F} {key : String} {value : Value F} :
    item obj key = .ok value ↔ member? obj key = some value := by
  unfold item
  split
  · next h => simp only [h, reduceCtorEq]
  · next h => simp only [h, Except.ok.injEq, Option.some.injEq]

theorem textItem_ok_iff {obj : Dict F} {key s : String} :
    textItem obj key = .ok s ↔ member? obj key = some (.string s) := by
  have hfound : ∀ value : Value F, foundText value = .ok s ↔ value = .string s := by
    intro value
    unfold foundText
    split <;> simp_all
  simp only [textItem, bind_ok_iff, item_ok_iff, hfound]
  exact ⟨fun ⟨value, hm, hv⟩ => hv ▸ hm, fun h => ⟨_, h, rfl⟩⟩

theorem member_of_device {metadata : Dict F} {context : String} {u : Unit}
    (h : checkDevicePath metadata context "idxd" = .ok u) :
    ∃ value, member? metadata "accelerated_device_path" = some value := by
  cases hm : member? metadata "accelerated_device_path" with
  | some value => exact ⟨value, rfl⟩
  | none => simp [checkDevicePath, get, hm] at h

variable (py) in
/-- What the rows take from a report. -/
structure Loads (selectedPath : String) (report : LoadedReport F) : Prop where
  runId : ∃ s, member? report.metadata "run_id" = some (.string s)
  metrics : ∀ field ∈ requiredMetricNames, ∃ value x, member? report.metrics field = some value ∧
    py.float value = .ok x
  device : selectedPath = "idxd" → ∃ value, member? report.metadata "accelerated_device_path" = some value

theorem loads_of_loadReport {path : PurePath} {key : ReportKey} {report : LoadedReport F}
    (h : loadReport py files path key = .ok report) : Loads py key.selectedPath report := by
  simp only [loadReport, bind_ok_iff, textItem_ok_iff, ensure_ok_iff, pure_ok_iff] at h
  obtain ⟨obj, -, metadata, -, metrics, -, stages, -, _, -, _, hmetrics, enabled, -, -, -, -, -, -, -, -, -, -,
    -, runId, hrun, -, -, _, -, _, hdevice, totals, -, rfl⟩ := h
  refine ⟨⟨runId, hrun⟩, ?_, ?_⟩
  · intro field hfield
    obtain ⟨_, x, hx⟩ := checkEach_ok_mem hmetrics hfield
    simp only [requireNumber, bind_ok_iff, requireValue_ok_iff, ensure_ok_iff] at hx
    obtain ⟨value, hvalue, -, -, hfloat⟩ := hx
    exact ⟨value, x, hvalue, hfloat⟩
  · intro hpath
    rw [hpath] at hdevice
    exact member_of_device hdevice

theorem Loads.column_ok {selectedPath : String} {report : LoadedReport F}
    (h : Loads py selectedPath report) : ∃ c, column py report = .ok c := by
  have hmetric : ∀ field ∈ requiredMetricNames, ∃ x, metric py report.metrics field = .ok x := by
    intro field hfield
    obtain ⟨value, x, hm, hx⟩ := h.metrics field hfield
    refine ⟨x, ?_⟩
    simp only [metric, bind_ok_iff, item_ok_iff]
    exact ⟨value, hm, hx⟩
  obtain ⟨runId, hrun⟩ := h.runId
  obtain ⟨rps, hrps⟩ := hmetric "throughput_rps" (by decide)
  obtain ⟨p50, hp50⟩ := hmetric "latency_us_p50" (by decide)
  obtain ⟨p95, hp95⟩ := hmetric "latency_us_p95" (by decide)
  refine ⟨⟨report.artifact, runId, rps, p50, p95, report.stageTotals.totalNanos,
    report.stageTotals.totalBytes⟩, ?_⟩
  simp only [column, bind_ok_iff, textItem_ok_iff, pure_ok_iff]
  exact ⟨rps, hrps, p50, hp50, runId, hrun, p95, hp95, rfl⟩

/-! ## The dictionaries -/

theorem lookup_of_mem {κ α : Type} [BEq κ] [LawfulBEq κ] {l : List (κ × α)} {k : κ} {a : α}
    (hnodup : (l.map Prod.fst).Nodup) (h : (k, a) ∈ l) : l.lookup k = some a := by
  induction l with
  | nil => cases h
  | cons entry l ih =>
      obtain ⟨k', a'⟩ := entry
      rw [List.map_cons, List.nodup_cons] at hnodup
      rcases List.mem_cons.mp h with heq | hmem
      · cases heq
        rw [List.lookup_cons_self]
      · have hne : (k == k') = false := by
          rw [beq_eq_false_iff_ne]
          rintro rfl
          exact hnodup.1 (List.mem_map.mpr ⟨(k, a), hmem, rfl⟩)
        rw [List.lookup_cons, hne]
        exact ih hnodup.2 hmem

theorem filter_eq_singleton {α κ : Type} [DecidableEq κ] {g : α → κ} {l : List α} {a : α}
    (hnodup : (l.map g).Nodup) (h : a ∈ l) : l.filter (fun x => g x = g a) = [a] := by
  induction l with
  | nil => cases h
  | cons b l ih =>
      rw [List.map_cons, List.nodup_cons] at hnodup
      rcases List.mem_cons.mp h with rfl | h
      · have hnil : l.filter (fun x => g x = g a) = [] := by
          simp only [List.filter_eq_nil_iff, decide_eq_true_eq]
          intro x hx he
          exact hnodup.1 (List.mem_map.mpr ⟨x, hx, he⟩)
        rw [List.filter_cons_of_pos (by simp), hnil]
      · have hne : g b ≠ g a := by
          intro he
          exact hnodup.1 (List.mem_map.mpr ⟨a, h, he.symm⟩)
        rw [List.filter_cons_of_neg (by simpa using hne), ih hnodup.2 h]

/-- The entries of a family of the manifest. -/
def entriesOf (manifest : Manifest) (family : RunFamily) : List EndpointReport :=
  (manifest.artifactFamilies.filter (·.runFamily = family)).flatMap (·.endpointReports)

section Run

variable (py files) (resolve : PurePath → Except PyError PurePath) (runRoot : PurePath) in
/-- The reports of a run pass `load_report`, and the check of the run ids. -/
structure ReportsPass (manifest : Manifest) : Prop where
  loads : ∀ family ∈ manifest.artifactFamilies, ∀ entry ∈ family.endpointReports,
    ∃ report, loadEntry py files resolve runRoot family.toFamilyHeader entry = .ok report
  paired : ∀ family ∈ manifest.artifactFamilies, ∀ client ∈ family.endpointReports,
    ∀ server ∈ family.endpointReports, client.workloadLabel = server.workloadLabel →
      client.endpointRole = .client → server.endpointRole = .server → ∀ c s,
      loadEntry py files resolve runRoot family.toFamilyHeader client = .ok c →
      loadEntry py files resolve runRoot family.toFamilyHeader server = .ok s →
      get c.metadata "run_id" = get s.metadata "run_id"

variable (py files) (resolve : PurePath → Except PyError PurePath) (runRoot : PurePath) in
/-- The same, with the loaded reports as a function of the entries. -/
structure Passes (manifest : Manifest) (report : RunFamily → EndpointReport → LoadedReport F) : Prop where
  loads : ∀ family ∈ manifest.artifactFamilies, ∀ entry ∈ family.endpointReports,
    loadEntry py files resolve runRoot family.toFamilyHeader entry = .ok (report family.runFamily entry)
  paired : ∀ family ∈ manifest.artifactFamilies, ∀ client ∈ family.endpointReports,
    ∀ server ∈ family.endpointReports, client.workloadLabel = server.workloadLabel →
      client.endpointRole = .client → server.endpointRole = .server →
      get (report family.runFamily client).metadata "run_id" =
        get (report family.runFamily server).metadata "run_id"

variable {resolve : PurePath → Except PyError PurePath} {runRoot : PurePath} {manifest : Manifest}
  {report : RunFamily → EndpointReport → LoadedReport F}

theorem ReportsPass.exists_passes (h : ReportsPass py files resolve runRoot manifest)
    (hM : Accepted manifest) : ∃ report, Passes py files resolve runRoot manifest report := by
  have hreport : ∀ runFamily entry, ∃ report, ∀ family ∈ manifest.artifactFamilies,
      family.runFamily = runFamily → entry ∈ family.endpointReports →
        loadEntry py files resolve runRoot family.toFamilyHeader entry = .ok report := by
    intro runFamily entry
    by_cases hex : ∃ family ∈ manifest.artifactFamilies, family.runFamily = runFamily ∧
        entry ∈ family.endpointReports
    · obtain ⟨family, hf, rfl, he⟩ := hex
      obtain ⟨report, hr⟩ := h.loads family hf entry he
      refine ⟨report, fun family' hf' heq _ => ?_⟩
      -- there is one family of each kind
      obtain rfl := List.inj_on_of_nodup_map hM.distinct hf' hf heq
      exact hr
    · exact ⟨⟨"", [], [], [], py.zero, py.zero⟩, fun family hf heq he => absurd ⟨family, hf, heq, he⟩ hex⟩
  choose report hreport using hreport
  have hloads : ∀ family ∈ manifest.artifactFamilies, ∀ entry ∈ family.endpointReports,
      loadEntry py files resolve runRoot family.toFamilyHeader entry = .ok (report family.runFamily entry) :=
    fun family hf entry he => hreport family.runFamily entry family hf rfl he
  refine ⟨report, hloads, ?_⟩
  intro family hf client hc server hs hlabel hcr hsr
  exact h.paired family hf client hc server hs hlabel hcr hsr _ _ (hloads family hf client hc)
    (hloads family hf server hs)

/-- The reports of a family, the last entry first. -/
def reportsOf (report : RunFamily → EndpointReport → LoadedReport F) (family : ArtifactFamily) :
    FamilyReports F :=
  (family.endpointReports.map fun entry => (entry.pair, report family.runFamily entry)).reverse

/-- The reports of all families, the last family first. -/
def loadedOf (report : RunFamily → EndpointReport → LoadedReport F) (manifest : Manifest) : Loaded F :=
  (manifest.artifactFamilies.map fun family => (family.runFamily, reportsOf report family)).reverse

theorem Passes.addFamily_eq (h : Passes py files resolve runRoot manifest report) {family : ArtifactFamily}
    (hf : family ∈ manifest.artifactFamilies) (loaded : Loaded F) (index : Nat) :
    addFamily py files resolve runRoot loaded index family =
      .ok ((family.runFamily, reportsOf report family) :: loaded) := by
  have hentry : ∀ entry ∈ family.endpointReports, ∀ (reports : FamilyReports F) (i : Nat),
      addEntry py files resolve runRoot family.toFamilyHeader reports i entry =
        .ok ((entry.pair, report family.runFamily entry) :: reports) := by
    intro entry he reports i
    simp only [addEntry, bind_ok_iff, pure_ok_iff]
    exact ⟨_, h.loads family hf entry he, rfl⟩
  simp only [addFamily, bind_ok_iff, pure_ok_iff]
  refine ⟨reportsOf report family, ?_, rfl⟩
  rw [checkLoop_cons hentry, List.append_nil]
  rfl

theorem Passes.loaded_eq (h : Passes py files resolve runRoot manifest report) :
    checkLoop (addFamily py files resolve runRoot) [] 0 manifest.artifactFamilies =
      .ok (loadedOf report manifest) := by
  rw [checkLoop_cons (fun family hf => h.addFamily_eq hf), List.append_nil]
  rfl

/-- The lookup of an entry finds its own report. -/
theorem reportAt_eq (hM : Accepted manifest) {family : ArtifactFamily}
    (hf : family ∈ manifest.artifactFamilies) {entry : EndpointReport} (he : entry ∈ family.endpointReports) :
    reportAt (loadedOf report manifest) family.runFamily entry.pair =
      .ok (report family.runFamily entry) := by
  have hfamily : (loadedOf report manifest).lookup family.runFamily = some (reportsOf report family) := by
    apply lookup_of_mem
    · rw [loadedOf, List.map_reverse, List.map_map, List.nodup_reverse]
      exact hM.distinct
    · rw [loadedOf, List.mem_reverse]
      exact List.mem_map.mpr ⟨family, hf, rfl⟩
  have hentry : (reportsOf report family).lookup entry.pair = some (report family.runFamily entry) := by
    apply lookup_of_mem
    · rw [reportsOf, List.map_reverse, List.map_map, List.nodup_reverse]
      exact hM.pairs family hf
    · rw [reportsOf, List.mem_reverse]
      exact List.mem_map.mpr ⟨entry, he, rfl⟩
  simp only [reportAt, hfamily, hentry]

/-- Every family has exactly one entry for a label of the scope and a role. -/
theorem exists_entry (hM : Accepted manifest) (family : RunFamily) {label : String}
    (hl : label ∈ manifest.scope.workloadLabels) (role : EndpointRole) :
    ∃ f ∈ manifest.artifactFamilies, f.runFamily = family ∧ ∃ entry ∈ f.endpointReports,
      entry.pair = (label, role) ∧ (entriesOf manifest family).filter (·.pair = (label, role)) = [entry] := by
  obtain ⟨f, hf, rfl⟩ := List.mem_map.mp (hM.all family)
  obtain ⟨entry, he, hpair⟩ := List.mem_map.mp (hM.complete f hf label hl role)
  refine ⟨f, hf, rfl, entry, he, hpair, ?_⟩
  have hentries : entriesOf manifest f.runFamily = f.endpointReports := by
    have hone := filter_eq_singleton (g := fun f : ArtifactFamily => f.runFamily) hM.distinct hf
    rw [entriesOf, hone]
    simp
  rw [hentries, ← hpair]
  exact filter_eq_singleton (hM.pairs f hf) he

theorem Passes.loads_report (h : Passes py files resolve runRoot manifest report) {family : ArtifactFamily}
    (hf : family ∈ manifest.artifactFamilies) {entry : EndpointReport} (he : entry ∈ family.endpointReports) :
    Loads py family.selectedPath (report family.runFamily entry) := by
  have hload := h.loads family hf entry he
  simp only [loadEntry, bind_ok_iff] at hload
  obtain ⟨path, -, hload⟩ := hload
  exact loads_of_loadReport hload

theorem Passes.checkPairing_eq (h : Passes py files resolve runRoot manifest report) (hM : Accepted manifest)
    {family : ArtifactFamily} (hf : family ∈ manifest.artifactFamilies) {label : String}
    (hl : label ∈ manifest.scope.workloadLabels) :
    checkPairing py runRoot (loadedOf report manifest) family label = .ok () := by
  obtain ⟨client, hc, hcpair⟩ := List.mem_map.mp (hM.complete family hf label hl .client)
  obtain ⟨server, hs, hspair⟩ := List.mem_map.mp (hM.complete family hf label hl .server)
  obtain ⟨clientId, hcid⟩ := (h.loads_report hf hc).runId
  obtain ⟨serverId, hsid⟩ := (h.loads_report hf hs).runId
  have hids := h.paired family hf client hc server hs
    ((congrArg Prod.fst hcpair).trans (congrArg Prod.fst hspair).symm) (congrArg Prod.snd hcpair)
    (congrArg Prod.snd hspair)
  simp only [get, hcid, hsid, Option.getD_some, Json.string.injEq] at hids
  simp only [checkPairing, bind_ok_iff, textItem_ok_iff, ensure_ok_iff]
  refine ⟨_, ?_, _, ?_, clientId, hcid, serverId, hsid, hids⟩
  · rw [← hcpair]
    exact reportAt_eq hM hf hc
  · rw [← hspair]
    exact reportAt_eq hM hf hs

theorem Passes.loadFamilyReports_eq (h : Passes py files resolve runRoot manifest report)
    (hM : Accepted manifest) :
    loadFamilyReports py files resolve runRoot manifest = .ok (loadedOf report manifest) := by
  simp only [loadFamilyReports, bind_ok_iff, pure_ok_iff]
  refine ⟨_, h.loaded_eq, ?_⟩
  have hpairing : ∀ family ∈ manifest.artifactFamilies, ∃ b, (∀ _ : Nat,
      checkEach (fun _ label => checkPairing py runRoot (loadedOf report manifest) family label) 0
        manifest.scope.workloadLabels = .ok b) ∧ True := by
    intro family hf
    obtain ⟨units, hunits, -⟩ := checkEach_ok_of_forall (R := fun _ _ => True)
      (f := fun _ label => checkPairing py runRoot (loadedOf report manifest) family label)
      (fun label hl => ⟨(), fun _ => h.checkPairing_eq hM hf hl, trivial⟩) 0
    exact ⟨units, fun _ => hunits, trivial⟩
  obtain ⟨bs, hbs, -⟩ := checkEach_ok_of_forall (R := fun _ _ => True) hpairing 0
  exact ⟨bs, hbs, rfl⟩

variable (py files resolve runRoot manifest) in
/-- A row has, for each family, the columns of the report of the only entry with its label and role. -/
def FromEntries (row : Row F) : Prop :=
  ∀ runFamily, ∃ family ∈ manifest.artifactFamilies, family.runFamily = runFamily ∧ ∃ entry report,
    (entriesOf manifest runFamily).filter (·.pair = row.pair) = [entry] ∧
    loadEntry py files resolve runRoot family.toFamilyHeader entry = .ok report ∧
    column py report = .ok (row.column runFamily)

/-- What a row takes from one family. -/
theorem Passes.column_ok (h : Passes py files resolve runRoot manifest report) (hM : Accepted manifest)
    (runFamily : RunFamily) {label : String} (hl : label ∈ manifest.scope.workloadLabels)
    (role : EndpointRole) :
    ∃ family ∈ manifest.artifactFamilies, family.runFamily = runFamily ∧ ∃ entry r c,
      (entriesOf manifest runFamily).filter (·.pair = (label, role)) = [entry] ∧
      loadEntry py files resolve runRoot family.toFamilyHeader entry = .ok r ∧
      reportAt (loadedOf report manifest) runFamily (label, role) = .ok r ∧
      Loads py runFamily.selectedPath r ∧ column py r = .ok c := by
  obtain ⟨f, hf, rfl, entry, he, hpair, hone⟩ := exists_entry hM runFamily hl role
  have hloads := h.loads_report hf he
  rw [hM.selected f hf] at hloads
  obtain ⟨c, hc⟩ := hloads.column_ok
  exact ⟨f, hf, rfl, entry, _, c, hone, h.loads f hf entry he, hpair ▸ reportAt_eq hM hf he, hloads, hc⟩

theorem Passes.buildRow_ok (h : Passes py files resolve runRoot manifest report) (hM : Accepted manifest)
    {label : String} (hl : label ∈ manifest.scope.workloadLabels) (role : EndpointRole) :
    ∃ row, buildRow py (loadedOf report manifest) (label, role) = .ok row ∧ row.pair = (label, role) ∧
      FromEntries py files resolve runRoot manifest row := by
  obtain ⟨f₁, hf₁, hrf₁, e₁, r₁, c₁, hone₁, hr₁, hat₁, -, hc₁⟩ := h.column_ok hM .softwareBaseline hl role
  obtain ⟨f₂, hf₂, hrf₂, e₂, r₂, c₂, hone₂, hr₂, hat₂, -, hc₂⟩ := h.column_ok hM .softwareAttribution hl role
  obtain ⟨f₃, hf₃, hrf₃, e₃, r₃, c₃, hone₃, hr₃, hat₃, hloads, hc₃⟩ := h.column_ok hM .idxdAttribution hl role
  obtain ⟨device, hdevice⟩ := hloads.device rfl
  refine ⟨makeRow py (label, role) device c₁ c₂ c₃, ?_, ?_, ?_⟩
  · simp only [buildRow, bind_ok_iff, item_ok_iff, pure_ok_iff]
    exact ⟨_, hat₁, _, hat₂, _, hat₃, device, hdevice, c₁, hc₁, c₂, hc₂, c₃, hc₃, rfl⟩
  · rfl
  · intro runFamily
    cases runFamily with
    | softwareBaseline => exact ⟨f₁, hf₁, hrf₁, e₁, r₁, hone₁, hr₁, hc₁⟩
    | softwareAttribution => exact ⟨f₂, hf₂, hrf₂, e₂, r₂, hone₂, hr₂, hc₂⟩
    | idxdAttribution => exact ⟨f₃, hf₃, hrf₃, e₃, r₃, hone₃, hr₃, hc₃⟩

theorem Passes.buildRows_ok (h : Passes py files resolve runRoot manifest report) (hM : Accepted manifest) :
    ∃ rows, buildRows py manifest (loadedOf report manifest) = .ok rows ∧
      rows.map Row.pair = manifest.scope.workloadLabels.product expectedEndpointRoles ∧
      ∀ row ∈ rows, FromEntries py files resolve runRoot manifest row := by
  have hrow : ∀ pair ∈ manifest.scope.workloadLabels.product expectedEndpointRoles, ∃ row,
      (∀ _ : Nat, buildRow py (loadedOf report manifest) pair = .ok row) ∧
        (row.pair = pair ∧ FromEntries py files resolve runRoot manifest row) := by
    rintro ⟨label, role⟩ hmem
    obtain ⟨row, hrow, hpair, hentries⟩ := h.buildRow_ok hM (List.mem_product.mp hmem).1 role
    exact ⟨row, fun _ => hrow, hpair, hentries⟩
  obtain ⟨rows, hrows, hall⟩ := checkEach_ok_of_forall hrow 0
  refine ⟨rows, hrows, map_eq_of_forall₂ (hall.imp fun _ _ h => h.1), ?_⟩
  intro row hmem
  obtain ⟨pair, hpair⟩ := exists_left_of_forall₂ hall hmem
  exact hpair.2

end Run

/-! ## One row for each endpoint -/

theorem nodup_of_product {labels : List String} (h : (labels.product expectedEndpointRoles).Nodup) :
    labels.Nodup := by
  have hclient : (labels.product expectedEndpointRoles).filter (·.2 = .client) =
      labels.map fun label => (label, EndpointRole.client) := by
    clear h
    induction labels with
    | nil => rfl
    | cons label labels ih =>
        have hcons : (label :: labels).product expectedEndpointRoles =
            expectedEndpointRoles.map (Prod.mk label) ++ labels.product expectedEndpointRoles := rfl
        rw [hcons, List.filter_append, ih]
        rfl
  have hmap := h.filter fun pair => decide (pair.2 = EndpointRole.client)
  rw [hclient] at hmap
  exact hmap.of_map _

theorem perm_required_iff {labels : List String} (hset : SameSet labels requiredLabels) :
    (labels.product expectedEndpointRoles).Perm (requiredLabels.product expectedEndpointRoles) ↔
      labels.Nodup := by
  constructor
  · intro h
    exact nodup_of_product (h.nodup_iff.mpr (by decide))
  · intro h
    have hperm : labels.Perm requiredLabels :=
      (List.perm_ext_iff_of_nodup h (by decide)).mpr fun label => ⟨hset.1 label, hset.2 label⟩
    exact hperm.product (List.Perm.refl _)

/-- The lookups of the script succeed, and there is one row for each curated label and role. -/
def Determines (py : Python F) (files : Files F) (resolve : PurePath → Except PyError PurePath)
    (runRoot : PurePath) (manifest : Manifest) : Prop :=
  ∃ loaded rows, loadFamilyReports py files resolve runRoot manifest = .ok loaded ∧
    buildRows py manifest loaded = .ok rows ∧
    (rows.map Row.pair).Perm (requiredLabels.product expectedEndpointRoles) ∧
    ∀ row ∈ rows, FromEntries py files resolve runRoot manifest row

theorem determines_iff {resolve : PurePath → Except PyError PurePath} {runRoot : PurePath}
    {manifest : Manifest} (hM : Accepted manifest) (h : ReportsPass py files resolve runRoot manifest) :
    Determines py files resolve runRoot manifest ↔ manifest.scope.workloadLabels.Nodup := by
  obtain ⟨report, hpasses⟩ := h.exists_passes hM
  obtain ⟨rows, hrows, hpairs, hentries⟩ := hpasses.buildRows_ok hM
  rw [← perm_required_iff hM.curated, ← hpairs]
  constructor
  · rintro ⟨loaded, rows', hloaded, hrows', hperm, -⟩
    obtain rfl := Except.ok.inj ((hpasses.loadFamilyReports_eq hM).symm.trans hloaded)
    obtain rfl := Except.ok.inj (hrows.symm.trans hrows')
    exact hperm
  · exact fun hperm => ⟨_, rows, hpasses.loadFamilyReports_eq hM, hrows, hperm, hentries⟩

end DsaStdexec.Profile.Summary
