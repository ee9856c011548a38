import DsaStdexec.Profile.Contract

/-!
# What a manifest has to meet

Every validator is given by what passes it and by the errors that it raises. A manifest is accepted item
by item; whatever is wrong with it is reported as a `ManifestError`, but for what the interpreter raises
and for the lookup of an upstream name.
-/

namespace DsaStdexec.Profile.Contract

open DsaStdexec.Lib

variable {F : Type}

/-- A `ManifestError`. -/
def IsManifest (e : PyError) : Prop := ∃ text, e = .manifest text

theorem isManifest (text : String) : IsManifest (.manifest text) := ⟨text, rfl⟩

theorem escapes_ensure_iff {p : Prop} [Decidable p] {text : String} :
    Escapes IsManifest (ensure p (.manifest text)) ↔ False :=
  (raises_ensure (isManifest text)).escapes_iff

/-! ## Fields -/

section Fields

variable {obj : Dict F} {key scope text : String} {value : Value F}

theorem asObject_ok_iff {members : Dict F} : asObject value text = .ok members ↔ value = .object members := by
  unfold asObject
  split <;> simp_all

theorem raises_asObject : Raises IsManifest (asObject value text) := by
  unfold asObject
  split
  · exact raises_ok _
  · exact raises_error (isManifest _)

theorem requiredStr_ok_iff {s : String} :
    requiredStr obj key scope = .ok s ↔ get obj key = .string s ∧ s ≠ "" := by
  unfold requiredStr
  split
  · next s' hs =>
      split
      · next he => simp [hs, he]
      · next he =>
          simp only [hs, Except.ok.injEq, Json.string.injEq]
          constructor
          · rintro rfl
            exact ⟨rfl, he⟩
          · exact fun h => h.1
  · next hne =>
      constructor
      · exact fun h => nomatch h
      · exact fun h => absurd h.1 (hne s)

theorem raises_requiredStr : Raises IsManifest (requiredStr obj key scope) := by
  unfold requiredStr
  split
  · split
    · exact raises_error (isManifest _)
    · exact raises_ok _
  · exact raises_error (isManifest _)

theorem nonEmptyArray_ok_iff {items : List (Value F)} :
    nonEmptyArray value text = .ok items ↔ value = .array items ∧ items ≠ [] := by
  unfold nonEmptyArray
  split
  · next item rest =>
      simp only [Except.ok.injEq, Json.array.injEq]
      constructor
      · rintro rfl
        exact ⟨rfl, nofun⟩
      · exact fun h => h.1
  · next hne =>
      constructor
      · exact fun h => nomatch h
      · rintro ⟨h, hnil⟩
        cases items with
        | nil => exact absurd rfl hnil
        | cons item rest => exact absurd h (hne item rest)

theorem raises_nonEmptyArray : Raises IsManifest (nonEmptyArray value text) := by
  unfold nonEmptyArray
  split
  · exact raises_ok _
  · exact raises_error (isManifest _)

theorem nonEmptyString_ok_iff {index : Nat} {s : String} :
    nonEmptyString scope index value = .ok s ↔ value = .string s ∧ s ≠ "" := by
  unfold nonEmptyString
  split
  · next s' =>
      split
      · next he => simp [he]
      · next he =>
          simp only [Except.ok.injEq, Json.string.injEq]
          constructor
          · rintro rfl
            exact ⟨rfl, he⟩
          · exact fun h => h.1
  · next hne =>
      constructor
      · exact fun h => nomatch h
      · exact fun h => absurd h.1 (hne s)

theorem nonEmptyStrings_ok_iff {items : List (Value F)} {names : List String} :
    nonEmptyStrings scope items = .ok names ↔ items = names.map .string ∧ "" ∉ names := by
  have hitem : ∀ i (a : Value F) b, nonEmptyString scope i a = .ok b ↔ a = .string b ∧ b ≠ "" :=
    fun _ _ _ => nonEmptyString_ok_iff
  rw [nonEmptyStrings, checkEach_ok_iff hitem]
  constructor
  · intro h
    induction h with
    | nil => simp
    | cons hab _ ih =>
        obtain ⟨rfl, hne⟩ := hab
        obtain ⟨rfl, hnot⟩ := ih
        exact ⟨rfl, List.not_mem_cons_of_ne_of_not_mem (Ne.symm hne) hnot⟩
  · rintro ⟨rfl, hnot⟩
    induction names with
    | nil => exact .nil
    | cons name names ih =>
        simp only [List.mem_cons, not_or] at hnot
        exact .cons ⟨rfl, Ne.symm hnot.1⟩ (ih hnot.2)

theorem raises_nonEmptyStrings {items : List (Value F)} :
    Raises IsManifest (nonEmptyStrings scope items) := by
  refine raises_checkEach (fun index item => ?_) 0 items
  unfold nonEmptyString
  split
  · split
    · exact raises_error (isManifest _)
    · exact raises_ok _
  · exact raises_error (isManifest _)

end Fields

/-! ## Scope, inputs, outputs and report -/

structure ScopeOK (value : Value F) (scope : Scope) : Prop where
  fields : ∃ obj : Dict F, value = .object obj ∧
    get obj "workload_labels" = .array (scope.workloadLabels.map .string) ∧
    get obj "pairing_keys" = .array (scope.pairingKeys.map .string)
  curated : SameSet scope.workloadLabels requiredLabels
  keys : scope.pairingKeys = requiredPairingKeys

theorem not_mem_of_sameSet {labels : List String} (h : SameSet labels requiredLabels) :
    labels ≠ [] ∧ "" ∉ labels := by
  constructor
  · rintro rfl
    exact absurd (h.2 _ List.mem_cons_self) List.not_mem_nil
  · intro hmem
    exact absurd (h.1 _ hmem) (by decide)

theorem validateScope_ok_iff {value : Value F} {scope : Scope} :
    validateScope value = .ok scope ↔ ScopeOK value scope := by
  simp only [validateScope, bind_ok_iff, asObject_ok_iff, requiredList, nonEmptyArray_ok_iff, nonEmptyStrings_ok_iff,
    ensure_ok_iff, pure_ok_iff]
  constructor
  · rintro ⟨obj, rfl, _, ⟨hlabels, -⟩, labels, ⟨rfl, -⟩, -, hset, _, ⟨hkeys, -⟩, keys, ⟨rfl, -⟩, -, hk, rfl⟩
    exact ⟨⟨obj, rfl, hlabels, hkeys⟩, hset, hk⟩
  · rintro ⟨⟨obj, rfl, hlabels, hkeys⟩, hset, hk⟩
    obtain ⟨hne, hnot⟩ := not_mem_of_sameSet hset
    refine ⟨obj, rfl, _, ⟨hlabels, by simpa using hne⟩, _, ⟨rfl, hnot⟩, (), hset, _, ⟨hkeys, ?_⟩, _, ⟨rfl, ?_⟩,
      (), hk, rfl⟩
    · rw [hk]
      simp [requiredPairingKeys]
    · rw [hk]
      decide

theorem raises_validateScope {value : Value F} : Raises IsManifest (validateScope value) :=
  raises_asObject.bind fun _ _ => raises_nonEmptyArray.bind fun _ _ => raises_nonEmptyStrings.bind fun _ _ =>
    (raises_ensure (isManifest _)).bind fun _ _ => raises_nonEmptyArray.bind fun _ _ =>
      raises_nonEmptyStrings.bind fun _ _ => (raises_ensure (isManifest _)).bind fun _ _ => raises_ok _

section Inputs

variable {files : Files F} {repoRoot : PurePath} {obj : Dict F} {key : InputKey} {raw : String}

variable (files repoRoot) in
/-- An input that exists. -/
def InputOK (obj : Dict F) (key : InputKey) (raw : String) : Prop :=
  get obj key.text = .string raw ∧ raw ≠ "" ∧
    files.pathExists (resolveRepoPath repoRoot raw) = .ok true

variable (files repoRoot) in
/-- An input that the system does not answer for. -/
def InputRaises (obj : Dict F) (key : InputKey) : Prop :=
  ∃ raw text, get obj key.text = .string raw ∧ raw ≠ "" ∧
    files.pathExists (resolveRepoPath repoRoot raw) = .error text

theorem pathExists_ok_iff {path : PurePath} {there : Bool} :
    pathExists files path = .ok there ↔ files.pathExists path = .ok there := by
  unfold pathExists
  split <;> simp_all

theorem validateInput_ok_iff :
    validateInput files repoRoot obj key = .ok raw ↔ InputOK files repoRoot obj key raw := by
  simp only [validateInput, bind_ok_iff, requiredStr_ok_iff, ensure_ok_iff, pure_ok_iff]
  constructor
  · rintro ⟨_, ⟨hget, hne⟩, there, hthere, -, rfl, rfl⟩
    exact ⟨hget, hne, pathExists_ok_iff.mp hthere⟩
  · rintro ⟨hget, hne, h⟩
    exact ⟨raw, ⟨hget, hne⟩, true, pathExists_ok_iff.mpr h, (), rfl, rfl⟩

theorem validateInput_escapes_iff :
    Escapes IsManifest (validateInput files repoRoot obj key) ↔ InputRaises files repoRoot obj key := by
  simp only [validateInput, escapes_bind_iff, raises_requiredStr.escapes_iff, requiredStr_ok_iff,
    escapes_ensure_iff, escapes_pure_iff, false_or, and_false,
    exists_false, or_false]
  constructor
  · rintro ⟨raw, ⟨hget, hne⟩, e, he, hnot⟩
    unfold pathExists at he
    split at he
    · cases he
    · next text h => exact ⟨raw, text, hget, hne, h⟩
  · rintro ⟨raw, text, hget, hne, h⟩
    refine ⟨raw, ⟨hget, hne⟩, .other text, ?_, nofun⟩
    simp only [pathExists, h]

/-- The inputs in the order in which they are asked for. -/
def inputKeys : List InputKey := [.softwareManifest, .idxdManifest, .controlFloorSummary, .reportContract]

variable (files repoRoot) in
structure InputsOK (value : Value F) (inputs : Inputs) : Prop where
  fields : ∃ obj : Dict F, value = .object obj ∧
    InputOK files repoRoot obj .softwareManifest inputs.softwareManifest ∧
    InputOK files repoRoot obj .idxdManifest inputs.idxdManifest ∧
    InputOK files repoRoot obj .controlFloorSummary inputs.controlFloorSummary ∧
    InputOK files repoRoot obj .reportContract inputs.reportContract

variable (files repoRoot) in
/-- The validation comes to an input that the system does not answer for. -/
def InputsRaise (value : Value F) : Prop :=
  ∃ obj : Dict F, value = .object obj ∧ ∃ before key after, inputKeys = before ++ key :: after ∧
    (∀ k ∈ before, ∃ raw, InputOK files repoRoot obj k raw) ∧ InputRaises files repoRoot obj key

theorem validateInputs_ok_iff {value : Value F} {inputs : Inputs} :
    validateInputs files repoRoot value = .ok inputs ↔ InputsOK files repoRoot value inputs := by
  simp only [validateInputs, bind_ok_iff, asObject_ok_iff, validateInput_ok_iff, pure_ok_iff]
  constructor
  · rintro ⟨obj, rfl, a, ha, b, hb, c, hc, d, hd, rfl⟩
    exact ⟨⟨obj, rfl, ha, hb, hc, hd⟩⟩
  · rintro ⟨⟨obj, rfl, ha, hb, hc, hd⟩⟩
    exact ⟨obj, rfl, _, ha, _, hb, _, hc, _, hd, rfl⟩

theorem validateInputs_escapes_iff {value : Value F} :
    Escapes IsManifest (validateInputs files repoRoot value) ↔ InputsRaise files repoRoot value := by
  simp only [validateInputs, escapes_bind_iff, raises_asObject.escapes_iff, asObject_ok_iff,
    validateInput_escapes_iff, validateInput_ok_iff, escapes_pure_iff, false_or, and_false,
    exists_false, or_false]
  constructor
  · rintro ⟨obj, rfl, h | ⟨a, ha, h | ⟨b, hb, h | ⟨c, hc, h⟩⟩⟩⟩
    · exact ⟨obj, rfl, [], _, _, rfl, by simp, h⟩
    · exact ⟨obj, rfl, [.softwareManifest], _, _, rfl, by simpa using ⟨a, ha⟩, h⟩
    · refine ⟨obj, rfl, [.softwareManifest, .idxdManifest], _, _, rfl, ?_, h⟩
      simpa using ⟨⟨a, ha⟩, ⟨b, hb⟩⟩
    · refine ⟨obj, rfl, [.softwareManifest, .idxdManifest, .controlFloorSummary], _, _, rfl, ?_, h⟩
      simpa using ⟨⟨a, ha⟩, ⟨b, hb⟩, ⟨c, hc⟩⟩
  · rintro ⟨obj, rfl, before, key, after, hkeys, hbefore, h⟩
    refine ⟨obj, rfl, ?_⟩
    -- one case for each input that can be the first one to raise
    rcases before with _ | ⟨a, _ | ⟨b, _ | ⟨c, _ | ⟨d, before⟩⟩⟩⟩
    · obtain ⟨rfl, -⟩ := List.cons.inj hkeys
      exact Or.inl h
    · simp only [inputKeys, List.cons_append, List.nil_append, List.cons.injEq] at hkeys
      obtain ⟨rfl, rfl, -⟩ := hkeys
      obtain ⟨a, ha⟩ := hbefore _ List.mem_cons_self
      exact Or.inr ⟨a, ha, Or.inl h⟩
    · simp only [inputKeys, List.cons_append, List.nil_append, List.cons.injEq] at hkeys
      obtain ⟨rfl, rfl, rfl, -⟩ := hkeys
      simp only [List.forall_mem_cons] at hbefore
      obtain ⟨⟨a, ha⟩, ⟨b, hb⟩, -⟩ := hbefore
      exact Or.inr ⟨a, ha, Or.inr ⟨b, hb, Or.inl h⟩⟩
    · simp only [inputKeys, List.cons_append, List.nil_append, List.cons.injEq] at hkeys
      obtain ⟨rfl, rfl, rfl, rfl, -⟩ := hkeys
      simp only [List.forall_mem_cons] at hbefore
      obtain ⟨⟨a, ha⟩, ⟨b, hb⟩, ⟨c, hc⟩, -⟩ := hbefore
      exact Or.inr ⟨a, ha, Or.inr ⟨b, hb, Or.inr ⟨c, hc, h⟩⟩⟩
    · simp [inputKeys] at hkeys

end Inputs

section Outputs

variable {py : Python F} {value : Value F}

def DerivedOK (value : Value F) : Prop :=
  ∃ obj : Dict F, value = .object obj ∧
    ∀ output ∈ expectedDerivedOutputs, get obj output.1 = .string output.2

theorem validateDerivedOutputs_ok_iff {outputs : List (String × String)} :
    validateDerivedOutputs py value = .ok outputs ↔ DerivedOK value ∧ outputs = expectedDerivedOutputs := by
  simp only [validateDerivedOutputs, bind_ok_iff, asObject_ok_iff, expectedDerivedOutputs, checkLoop,
    validateDerivedOutput, requiredStr_ok_iff, ensure_ok_iff, pure_ok_iff, Except.ok.injEq]
  constructor
  · rintro ⟨obj, rfl, _, ⟨_, ⟨h₁, -⟩, -, rfl, -, -, rfl⟩, _, ⟨_, ⟨h₂, -⟩, -, rfl, -, -, rfl⟩, _,
      ⟨_, ⟨h₃, -⟩, -, rfl, -, -, rfl⟩, rfl⟩
    refine ⟨⟨obj, rfl, ?_⟩, rfl⟩
    simp only [expectedDerivedOutputs, List.forall_mem_cons]
    exact ⟨h₁, h₂, h₃, fun _ h => absurd h List.not_mem_nil⟩
  · rintro ⟨⟨obj, rfl, h⟩, rfl⟩
    simp only [expectedDerivedOutputs, List.forall_mem_cons] at h
    obtain ⟨h₁, h₂, h₃, -⟩ := h
    exact ⟨obj, rfl, _, ⟨_, ⟨h₁, by decide⟩, (), rfl, (), by decide, rfl⟩, _,
      ⟨_, ⟨h₂, by decide⟩, (), rfl, (), by decide, rfl⟩, _, ⟨_, ⟨h₃, by decide⟩, (), rfl, (), by decide, rfl⟩, rfl⟩

theorem raises_validateDerivedOutputs : Raises IsManifest (validateDerivedOutputs py value) :=
  raises_asObject.bind fun _ _ => raises_checkLoop (fun _ _ _ =>
    raises_requiredStr.bind fun _ _ => (raises_ensure (isManifest _)).bind fun _ _ =>
      (raises_ensure (isManifest _)).bind fun _ _ => raises_ok _) _ _ _

theorem raises_validateReport {runRoot : String} : Raises IsManifest (validateReport py value runRoot) :=
  raises_asObject.bind fun _ _ => raises_requiredStr.bind fun _ _ =>
    (raises_ensure (isManifest _)).bind fun _ _ => raises_nonEmptyArray.bind fun _ _ =>
      raises_nonEmptyStrings.bind fun _ _ => (raises_ensure (isManifest _)).bind fun _ _ => raises_ok _

end Outputs

/-! ## Upstream manifests -/

section Upstream

variable {py : Python F} {files : Files F} {repoRoot : PurePath} {scope : String}

theorem loadJson_ok_iff {path : PurePath} {obj : Dict F} :
    loadJson files path scope = .ok obj ↔ files.read path = .value (.object obj) := by
  unfold loadJson
  split <;> simp_all [asObject_ok_iff]

theorem loadJson_escapes_iff {path : PurePath} :
    Escapes IsManifest (loadJson files path scope) ↔ ∃ text, files.read path = .gaveUp text := by
  unfold loadJson
  split
  · next h => simp [(raises_error (isManifest _)).escapes_iff, h]
  · next h => simp [(raises_error (isManifest _)).escapes_iff, h]
  · next text h =>
      constructor
      · exact fun _ => ⟨text, h⟩
      · exact fun _ => ⟨.other text, rfl, nofun⟩
  · next h => simp [raises_asObject.escapes_iff, h]

variable (files repoRoot) in
/-- The workloads of an upstream manifest. -/
def Lists (raw : String) (workloads : List (Value F)) : Prop :=
  ∃ obj : Dict F, files.read (resolveRepoPath repoRoot raw) = .value (.object obj) ∧
    get obj "workloads" = .array workloads ∧ workloads ≠ []

def PairOK (value : Value F) (pair : Pair) : Prop :=
  ∃ obj : Dict F, value = .object obj ∧ get obj "client" = .string pair.client ∧ pair.client ≠ "" ∧
    get obj "server" = .string pair.server ∧ pair.server ≠ ""

/-- A workload of the software manifest. -/
def S02OK (entry : Value F) (indexed : String × ModePairs) : Prop :=
  ∃ obj artifacts : Dict F, entry = .object obj ∧ get obj "label" = .string indexed.1 ∧ indexed.1 ≠ "" ∧
    get obj "endpoint_artifacts" = .object artifacts ∧ PairOK (get artifacts "off") indexed.2.off ∧
    PairOK (get artifacts "on") indexed.2.on

/-- A workload of the IDXD manifest. -/
def S03OK (entry : Value F) (indexed : String × Pair) : Prop :=
  ∃ obj : Dict F, entry = .object obj ∧ get obj "label" = .string indexed.1 ∧ indexed.1 ≠ "" ∧
    PairOK (get obj "endpoint_artifacts") indexed.2

variable (files repoRoot) in
structure UpstreamOK (inputs : Inputs) (upstream : Upstream) : Prop where
  software : ∃ workloads, Lists files repoRoot inputs.softwareManifest workloads ∧
    List.Forall₂ S02OK workloads upstream.s02.reverse
  idxd : ∃ workloads, Lists files repoRoot inputs.idxdManifest workloads ∧
    List.Forall₂ S03OK workloads upstream.s03.reverse

variable (files repoRoot) in
/-- The decoder gives up on an upstream manifest. -/
def UpstreamRaises (inputs : Inputs) : Prop :=
  (∃ text, files.read (resolveRepoPath repoRoot inputs.softwareManifest) = .gaveUp text) ∨
    (∃ workloads, Lists files repoRoot inputs.softwareManifest workloads) ∧
      ∃ text, files.read (resolveRepoPath repoRoot inputs.idxdManifest) = .gaveUp text

theorem workloadsOf_eq {obj : Dict F} {workloads : List (Value F)}
    (h : get obj "workloads" = .array workloads) : workloadsOf obj = .ok workloads := by
  unfold get at h
  unfold workloadsOf
  cases hm : member? obj "workloads" with
  | none =>
      rw [hm] at h
      cases h
  | some value =>
      rw [hm, Option.getD_some] at h
      simp [h]

theorem loadUpstreamManifest_ok_iff {raw : String} {obj : Dict F} :
    loadUpstreamManifest files repoRoot raw scope = .ok obj ↔
      files.read (resolveRepoPath repoRoot raw) = .value (.object obj) ∧
        ∃ workloads, get obj "workloads" = .array workloads ∧ workloads ≠ [] := by
  simp only [loadUpstreamManifest, bind_ok_iff, loadJson_ok_iff, nonEmptyArray_ok_iff, pure_ok_iff]
  constructor
  · rintro ⟨_, hread, workloads, h, rfl⟩
    exact ⟨hread, workloads, h⟩
  · rintro ⟨hread, workloads, h⟩
    exact ⟨obj, hread, workloads, h, rfl⟩

theorem loadUpstreamManifest_escapes_iff {raw : String} :
    Escapes IsManifest (loadUpstreamManifest files repoRoot raw scope) ↔
      ∃ text, files.read (resolveRepoPath repoRoot raw) = .gaveUp text := by
  simp only [loadUpstreamManifest, escapes_bind_iff, loadJson_escapes_iff,
    raises_nonEmptyArray.escapes_iff, escapes_pure_iff, and_false, exists_false, or_false]

theorem requiredPair_ok_iff {obj : Dict F} {pair : Pair} :
    requiredPair obj scope = .ok pair ↔ PairOK (.object obj) pair := by
  simp only [requiredPair, bind_ok_iff, requiredStr_ok_iff, pure_ok_iff, PairOK]
  constructor
  · rintro ⟨_, ⟨hc, hcn⟩, _, ⟨hs, hsn⟩, rfl⟩
    exact ⟨obj, rfl, hc, hcn, hs, hsn⟩
  · rintro ⟨_, ⟨⟩, hc, hcn, hs, hsn⟩
    exact ⟨_, ⟨hc, hcn⟩, _, ⟨hs, hsn⟩, rfl⟩

theorem raises_requiredPair {obj : Dict F} : Raises IsManifest (requiredPair obj scope) :=
  raises_requiredStr.bind fun _ _ => raises_requiredStr.bind fun _ _ => raises_ok _

theorem indexS02Mode_ok_iff {index : Nat} {label : String} {artifacts : Dict F}
    {instrumentation : Instrumentation} {pair : Pair} :
    indexS02Mode py index label artifacts instrumentation = .ok pair ↔
      PairOK (get artifacts instrumentation.text) pair := by
  simp only [indexS02Mode, bind_ok_iff, asObject_ok_iff, requiredPair_ok_iff]
  constructor
  · rintro ⟨obj, hobj, h⟩
    rwa [hobj]
  · intro h
    obtain ⟨obj, hobj, -⟩ := id h
    exact ⟨obj, hobj, hobj ▸ h⟩

theorem indexS02Workload_ok_iff {index : Nat} {entry : Value F} {indexed : String × ModePairs} :
    indexS02Workload py index entry = .ok indexed ↔ S02OK entry indexed := by
  simp only [indexS02Workload, bind_ok_iff, asObject_ok_iff, requiredStr_ok_iff, indexS02Mode_ok_iff,
    pure_ok_iff]
  constructor
  · rintro ⟨obj, rfl, label, ⟨hl, hne⟩, artifacts, ha, off, hoff, on, hon, rfl⟩
    exact ⟨obj, artifacts, rfl, hl, hne, ha, hoff, hon⟩
  · rintro ⟨obj, artifacts, rfl, hl, hne, ha, hoff, hon⟩
    exact ⟨obj, rfl, _, ⟨hl, hne⟩, artifacts, ha, _, hoff, _, hon, rfl⟩

theorem raises_indexS02Workload {index : Nat} {entry : Value F} :
    Raises IsManifest (indexS02Workload py index entry) :=
  raises_asObject.bind fun _ _ => raises_requiredStr.bind fun _ _ => raises_asObject.bind fun _ _ =>
    (raises_asObject.bind fun _ _ => raises_requiredPair).bind fun _ _ =>
      (raises_asObject.bind fun _ _ => raises_requiredPair).bind fun _ _ => raises_ok _

theorem indexS03Workload_ok_iff {index : Nat} {entry : Value F} {indexed : String × Pair} :
    indexS03Workload py index entry = .ok indexed ↔ S03OK entry indexed := by
  simp only [indexS03Workload, bind_ok_iff, asObject_ok_iff, requiredStr_ok_iff, requiredPair_ok_iff,
    pure_ok_iff]
  constructor
  · rintro ⟨obj, rfl, label, ⟨hl, hne⟩, artifacts, ha, pair, hp, rfl⟩
    exact ⟨obj, rfl, hl, hne, ha ▸ hp⟩
  · rintro ⟨obj, rfl, hl, hne, hp⟩
    obtain ⟨artifacts, ha, -⟩ := id hp
    exact ⟨obj, rfl, _, ⟨hl, hne⟩, artifacts, ha, _, ha ▸ hp, rfl⟩

theorem raises_indexS03Workload {index : Nat} {entry : Value F} :
    Raises IsManifest (indexS03Workload py index entry) :=
  raises_asObject.bind fun _ _ => raises_requiredStr.bind fun _ _ => raises_asObject.bind fun _ _ =>
    raises_requiredPair.bind fun _ _ => raises_ok _

theorem indexS02Workloads_ok_iff {obj : Dict F} {workloads : List (Value F)} {index : List (String × ModePairs)}
    (h : get obj "workloads" = .array workloads) :
    indexS02Workloads py obj = .ok index ↔ List.Forall₂ S02OK workloads index.reverse := by
  have hentry : ∀ i (a : Value F) b, indexS02Workload py i a = .ok b ↔ S02OK a b :=
    fun _ _ _ => indexS02Workload_ok_iff
  simp only [indexS02Workloads, bind_ok_iff, workloadsOf_eq h, Except.ok.injEq, exists_eq_left',
    checkEach_ok_iff hentry, pure_ok_iff]
  constructor
  · rintro ⟨indexed, hi, rfl⟩
    rwa [List.reverse_reverse]
  · exact fun hi => ⟨_, hi, List.reverse_reverse _⟩

theorem indexS03Workloads_ok_iff {obj : Dict F} {workloads : List (Value F)} {index : List (String × Pair)}
    (h : get obj "workloads" = .array workloads) :
    indexS03Workloads py obj = .ok index ↔ List.Forall₂ S03OK workloads index.reverse := by
  have hentry : ∀ i (a : Value F) b, indexS03Workload py i a = .ok b ↔ S03OK a b :=
    fun _ _ _ => indexS03Workload_ok_iff
  simp only [indexS03Workloads, bind_ok_iff, workloadsOf_eq h, Except.ok.injEq, exists_eq_left',
    checkEach_ok_iff hentry, pure_ok_iff]
  constructor
  · rintro ⟨indexed, hi, rfl⟩
    rwa [List.reverse_reverse]
  · exact fun hi => ⟨_, hi, List.reverse_reverse _⟩

theorem raises_indexS02Workloads {obj : Dict F} {workloads : List (Value F)}
    (h : get obj "workloads" = .array workloads) : Raises IsManifest (indexS02Workloads py obj) := by
  refine Raises.bind (workloadsOf_eq h ▸ raises_ok _) fun _ _ => ?_
  exact (raises_checkEach (fun _ _ => raises_indexS02Workload) _ _).bind fun _ _ => raises_ok _

theorem raises_indexS03Workloads {obj : Dict F} {workloads : List (Value F)}
    (h : get obj "workloads" = .array workloads) : Raises IsManifest (indexS03Workloads py obj) := by
  refine Raises.bind (workloadsOf_eq h ▸ raises_ok _) fun _ _ => ?_
  exact (raises_checkEach (fun _ _ => raises_indexS03Workload) _ _).bind fun _ _ => raises_ok _

theorem loadUpstream_ok_iff {inputs : Inputs} {upstream : Upstream} :
    loadUpstream py files repoRoot inputs = .ok upstream ↔ UpstreamOK files repoRoot inputs upstream := by
  simp only [loadUpstream, bind_ok_iff, loadUpstreamManifest_ok_iff, pure_ok_iff]
  constructor
  · rintro ⟨sw, ⟨hsw, ws, hws⟩, ix, ⟨hix, vs, hvs⟩, s02, h02, s03, h03, rfl⟩
    exact ⟨⟨ws, ⟨sw, hsw, hws⟩, (indexS02Workloads_ok_iff hws.1).mp h02⟩,
      ⟨vs, ⟨ix, hix, hvs⟩, (indexS03Workloads_ok_iff hvs.1).mp h03⟩⟩
  · rintro ⟨⟨ws, ⟨sw, hsw, hws⟩, h02⟩, ⟨vs, ⟨ix, hix, hvs⟩, h03⟩⟩
    exact ⟨sw, ⟨hsw, ws, hws⟩, ix, ⟨hix, vs, hvs⟩, _, (indexS02Workloads_ok_iff hws.1).mpr h02, _,
      (indexS03Workloads_ok_iff hvs.1).mpr h03, rfl⟩

theorem loadUpstream_escapes_iff {inputs : Inputs} :
    Escapes IsManifest (loadUpstream py files repoRoot inputs) ↔ UpstreamRaises files repoRoot inputs := by
  simp only [loadUpstream, escapes_bind_iff, loadUpstreamManifest_escapes_iff, loadUpstreamManifest_ok_iff,
    escapes_pure_iff, and_false, exists_false, or_false, UpstreamRaises]
  constructor
  · rintro (h | ⟨sw, ⟨hsw, ws, hws⟩, h | ⟨ix, ⟨hix, vs, hvs⟩, h | ⟨s02, h02, h⟩⟩⟩)
    · exact Or.inl h
    · exact Or.inr ⟨⟨ws, sw, hsw, hws⟩, h⟩
    · exact absurd h (raises_iff_not_escapes.mp (raises_indexS02Workloads hws.1))
    · exact absurd h (raises_iff_not_escapes.mp (raises_indexS03Workloads hvs.1))
  · rintro (h | ⟨⟨ws, sw, hsw, hws⟩, h⟩)
    · exact Or.inl h
    · exact Or.inr ⟨sw, ⟨hsw, ws, hws⟩, Or.inl h⟩

end Upstream

end DsaStdexec.Profile.Contract
