import FlatpakBlackbox.Coverage.Verification

set_option autoImplicit false

/-! # The credit loop

The loop of `CoverageModel.summarize` over the results of a verified report. Each passing result
adds to three sets and three dictionaries of lists; looking up a surface, a requirement or the
selected CLI raises where the key is missing, and so does decoding the id of an equivalent
option. `creditResults_eq_ok` is its closed form: the loop returns iff every id it decodes can be
decoded, and then each set is a union and each dictionary a grouping of what the single results
contribute. What a single result contributes is `passedBy`, `creditedBy` and `invokedBy`.
-/

namespace FlatpakBlackbox

open PyLib PyException

/-! ## Evidence of one result -/

/-- `command, option = identifier.removeprefix("cli.option.").split(".", 1)`. -/
def decodeOption (id : String) : Except PyException (String × String) :=
  match splitOnce (removePrefix id "cli.option.") '.' with
  | some decoded => .ok decoded
  | none => .error (valueError "not enough values to unpack (expected 2, got 1)")

/-- `report["target_provenance"]["cli_path"]`. -/
def RunReport.cliPath (report : RunReport) : Except PyException String :=
  match report.targetProvenance with
  | none => .error (keyError "target_provenance")
  | some target =>
      match target.cliPath with
      | none => .error (keyError "cli_path")
      | some cli => .ok cli

/-- `any(invoked_option(record, ...) for record in records)`. -/
def anyInvoked (report : RunReport) (command option : String) :
    List EvidenceRecord → Except PyException Bool
  | [] => .ok false
  | record :: records => do
      let cli ← report.cliPath
      if invokedOption record cli command option then return true
      else anyInvoked report command option records

/-- Whether a result invoked the equivalent option `id`. -/
def isInvoked (report : RunReport) (result : CaseResult) (id : String) :
    Except PyException Bool := do
  let (command, option) ← decodeOption id
  anyInvoked report command option (result.evidence.getD [])

/-- The names a trace of the library commands of a result lists, under a label. -/
def CaseResult.observed (result : CaseResult) (label : String)
    (trace : EvidenceRecord → Option (List String)) : List String :=
  ((result.evidence.getD []).filter fun record => record.interface = some "library").flatMap
    fun record => ((trace record).getD []).map fun name => label ++ name

/-- `observed_functions`. -/
def CaseResult.observedFunctions (result : CaseResult) : List String :=
  result.observed "library.function." EvidenceRecord.apiCalls

/-- `observed_signals`. -/
def CaseResult.observedSignals (result : CaseResult) : List String :=
  result.observed "library.signal." EvidenceRecord.signals

/-! ## The loop -/

/-- What the loop accumulates. -/
structure Credit where
  statuses : Dict String Nat
  passed : Finset String
  passedSurfaces : Finset String
  passedEquivalent : Finset String
  evidence : Dict String (List CaseKey)
  interfaceEvidence : Dict String (List CaseKey)
  equivalentEvidence : Dict String (List CaseKey)

def Credit.empty : Credit := ⟨Dict.empty, ∅, ∅, ∅, Dict.empty, Dict.empty, Dict.empty⟩

/-- Record a result that contributes these requirements, surfaces and equivalent options. -/
def Credit.record (credit : Credit) (result : CaseResult) (ids surfaces options : List String) :
    Credit where
  statuses := credit.statuses.increment result.status
  passed := credit.passed ∪ ids.toFinset
  passedSurfaces := credit.passedSurfaces ∪ surfaces.toFinset
  passedEquivalent := credit.passedEquivalent ∪ options.toFinset
  evidence := credit.evidence.pushAll ids result.caseKey
  interfaceEvidence := credit.interfaceEvidence.pushAll surfaces result.caseKey
  equivalentEvidence := credit.equivalentEvidence.pushAll options result.caseKey

namespace ModelData

variable (m : ModelData)

/-- `self.surfaces[id]["kind"]`. -/
def surfaceKind (id : String) : Except PyException Kind :=
  match kindOf m.surfaces id with
  | none => .error (keyError id)
  | some kind => .ok kind

/-- `self.requirements[id]["surfaces"]`. -/
def requirementSurfaces (id : String) : Except PyException (List String) :=
  match m.requirements.get? id with
  | none => .error (keyError id)
  | some r => .ok r.surfaces

/-- Whether a surface the case asserts is credited: a function or a signal has to be observed. -/
def isCredited (result : CaseResult) (id : String) : Except PyException Bool := do
  let kind ← m.surfaceKind id
  return !(kind = .libraryFunction && id ∉ result.observedFunctions)
    && !(kind = .librarySignal && id ∉ result.observedSignals)

/-- One turn of the loop. -/
def creditResult (report : RunReport) (credit : Credit) (result : CaseResult) :
    Except PyException Credit :=
  if result.isPassed = false then .ok (credit.record result [] [] [])
  else do
    let key := result.caseKey
    let options ← filterChecked (isInvoked report result) (m.equivalents key)
    let ids := m.mapped key
    let surfaces ← ids.mapM m.requirementSurfaces
    let asserted := (m.asserted key ++ surfaces.flatten).dedup
    let credited ← filterChecked (m.isCredited result) asserted
    return credit.record result ids (sorted credited) options

/-- The loop. -/
def creditResults (report : RunReport) : Except PyException Credit :=
  report.results.foldlM (m.creditResult report) Credit.empty

/-! ## The contribution of one result -/

/-- The surfaces the mapping of a case asserts, directly or through its requirements. -/
def assertedBy (key : CaseKey) : List String :=
  (m.asserted key ++ (m.mapped key).flatMap (surfacesOf m.requirements)).dedup

/-- The requirements a result passes. -/
def passedBy (result : CaseResult) : List String :=
  if result.isPassed then m.mapped result.caseKey else []

/-- The surfaces a result credits. -/
def creditedBy (result : CaseResult) : List String :=
  if result.isPassed then
    sorted ((m.assertedBy result.caseKey).filter fun id => isTrue (m.isCredited result id))
  else []

/-- The equivalent options a result invokes. -/
def invokedBy (report : RunReport) (result : CaseResult) : List String :=
  if result.isPassed then
    (m.equivalents result.caseKey).filter fun id => isTrue (isInvoked report result id)
  else []

/-- The closed form of the loop. -/
def creditOf (report : RunReport) : Credit where
  statuses := report.results.foldl (fun d result => d.increment result.status) Dict.empty
  passed := (report.results.flatMap m.passedBy).toFinset
  passedSurfaces := (report.results.flatMap m.creditedBy).toFinset
  passedEquivalent := (report.results.flatMap (m.invokedBy report)).toFinset
  evidence := Dict.group m.passedBy CaseResult.caseKey report.results Dict.empty
  interfaceEvidence := Dict.group m.creditedBy CaseResult.caseKey report.results Dict.empty
  equivalentEvidence := Dict.group (m.invokedBy report) CaseResult.caseKey report.results Dict.empty

/-- The ids of equivalent options that the loop decodes for a result. -/
def Decodable (result : CaseResult) : Prop :=
  result.isPassed = true → ∀ id ∈ m.equivalents result.caseKey, ∃ decoded,
    decodeOption id = .ok decoded

end ModelData

/-! ## The closed form -/

theorem anyInvoked_eq_ok {report : RunReport} {cli command option : String}
    {records : List EvidenceRecord} (hcli : report.cliPath = .ok cli) :
    anyInvoked report command option records
      = .ok (records.any fun record => invokedOption record cli command option) := by
  induction records with
  | nil => rfl
  | cons record records ih =>
      rw [anyInvoked, hcli, List.any_cons]
      cases h : invokedOption record cli command option with
      | false => simpa [h, bind, Except.bind] using ih
      | true => simp [h, bind, Except.bind, pure, Except.pure]

theorem isInvoked_isOk_iff {report : RunReport} {result : CaseResult} {id cli : String}
    (hcli : report.cliPath = .ok cli) :
    (∃ b, isInvoked report result id = .ok b) ↔ ∃ decoded, decodeOption id = .ok decoded := by
  constructor
  · rintro ⟨b, h⟩
    obtain ⟨decoded, hdecoded, _⟩ := bind_eq_ok.mp h
    exact ⟨decoded, hdecoded⟩
  · rintro ⟨decoded, hdecoded⟩
    exact ⟨_, bind_eq_ok.mpr ⟨decoded, hdecoded, anyInvoked_eq_ok hcli⟩⟩

/-- The selected CLI is recorded in a report whose passing results are attributed. -/
theorem cliPath_of_attributed {report : RunReport} {library : Bool}
    (h : attributionProblem report library = none) : ∃ cli, report.cliPath = .ok cli := by
  have htarget : report.targetProvenance.any TargetProvenance.attributed = true := by
    have hall := firstProblem_eq_none_iff.mp h
    simp only [List.forall_mem_cons] at hall
    exact hall.2.2.2.2.1
  cases hprovenance : report.targetProvenance with
  | none => rw [hprovenance] at htarget; cases htarget
  | some target =>
      rw [hprovenance] at htarget
      simp only [Option.any_some, TargetProvenance.attributed, Bool.and_eq_true] at htarget
      cases hcli : target.cliPath with
      | none => rw [hcli] at htarget; simp [isText] at htarget
      | some cli => exact ⟨cli, by simp only [RunReport.cliPath, hprovenance, hcli]⟩

/-- The fold of single contributions is the closed form. -/
theorem foldl_record {m : ModelData} (report : RunReport) (results : List CaseResult)
    (credit : Credit) :
    results.foldl (fun credit result => credit.record result (m.passedBy result)
        (m.creditedBy result) (m.invokedBy report result)) credit
      = { statuses := results.foldl (fun d result => d.increment result.status) credit.statuses
          passed := credit.passed ∪ (results.flatMap m.passedBy).toFinset
          passedSurfaces := credit.passedSurfaces ∪ (results.flatMap m.creditedBy).toFinset
          passedEquivalent :=
            credit.passedEquivalent ∪ (results.flatMap (m.invokedBy report)).toFinset
          evidence := Dict.group m.passedBy CaseResult.caseKey results credit.evidence
          interfaceEvidence :=
            Dict.group m.creditedBy CaseResult.caseKey results credit.interfaceEvidence
          equivalentEvidence :=
            Dict.group (m.invokedBy report) CaseResult.caseKey results credit.equivalentEvidence
          : Credit } := by
  induction results generalizing credit with
  | nil => simp [Dict.group]
  | cons result results ih =>
      rw [List.foldl_cons, ih]
      simp only [Credit.record, List.foldl_cons, List.flatMap_cons, List.toFinset_append,
        Finset.union_assoc, Dict.group]

section Valid

variable {m : ModelData} (hm : m.Valid)

include hm

/-- A requirement a mapping names is known. -/
theorem mapped_known {key : CaseKey} {id : String} (h : id ∈ m.mapped key) :
    ∃ r, m.requirements.get? id = some r ∧ r.interface = key.driver
      ∧ (r.profile = "any" ∨ r.profile = key.profile) :=
  (hm.tables.mapped key).2 id h

/-- A surface of a known requirement is known. -/
theorem surfacesOf_known {id surface : String} (h : surface ∈ surfacesOf m.requirements id) :
    ∃ kind, kindOf m.surfaces surface = some kind := by
  unfold surfacesOf at h
  cases hr : m.requirements.get? id with
  | none => rw [hr] at h; cases h
  | some r =>
      rw [hr] at h
      obtain ⟨s, hs, _⟩ := (hm.requirement id r hr).surfaces_known surface h
      exact ⟨s.kind, by rw [kindOf, hs]; rfl⟩

/-- A surface a case asserts is known. -/
theorem assertedBy_known {key : CaseKey} {surface : String} (h : surface ∈ m.assertedBy key) :
    ∃ kind, kindOf m.surfaces surface = some kind := by
  rw [ModelData.assertedBy, List.mem_dedup, List.mem_append, List.mem_flatMap] at h
  rcases h with h | ⟨id, _, h⟩
  · obtain ⟨kind, _, hkind⟩ := (hm.tables.asserted key).2 surface h
    exact ⟨kind, hkind⟩
  · exact surfacesOf_known hm h

theorem requirementSurfaces_mapM {ids : List String} {key : CaseKey}
    (h : ∀ id ∈ ids, id ∈ m.mapped key) :
    ids.mapM m.requirementSurfaces = .ok (ids.map (surfacesOf m.requirements)) := by
  rw [mapM_eq_ok, List.forall₂_map_right_iff, List.forall₂_same]
  intro id hid
  obtain ⟨r, hr, _⟩ := mapped_known hm (h id hid)
  rw [ModelData.requirementSurfaces, surfacesOf, hr]
  rfl

theorem isCredited_isOk {result : CaseResult} {key : CaseKey} {surface : String}
    (h : surface ∈ m.assertedBy key) : ∃ b, m.isCredited result surface = .ok b := by
  obtain ⟨kind, hkind⟩ := assertedBy_known hm h
  exact ⟨_, bind_eq_ok.mpr ⟨kind, by rw [ModelData.surfaceKind, hkind], rfl⟩⟩

/-- One turn of the loop: only decoding can fail. -/
theorem creditResult_eq_ok {report : RunReport} {result : CaseResult} {credit credit' : Credit}
    (hcli : result.isPassed = true → ∃ cli, report.cliPath = .ok cli) :
    m.creditResult report credit result = .ok credit' ↔ m.Decodable result
      ∧ credit' = credit.record result (m.passedBy result) (m.creditedBy result)
          (m.invokedBy report result) := by
  unfold ModelData.creditResult ModelData.Decodable ModelData.passedBy ModelData.creditedBy
    ModelData.invokedBy
  cases hpassed : result.isPassed with
  | false =>
      simp only [if_true, Bool.false_eq_true, if_false, Except.ok.injEq, false_imp_iff, true_and]
      exact eq_comm
  | true =>
      obtain ⟨cli, hcli⟩ := hcli hpassed
      have hsurfaces := requirementSurfaces_mapM hm (fun id (h : id ∈ m.mapped result.caseKey) => h)
      have hcredited : filterChecked (m.isCredited result) (m.assertedBy result.caseKey)
          = .ok ((m.assertedBy result.caseKey).filter fun id => isTrue (m.isCredited result id)) :=
        filterChecked_eq_ok.mpr ⟨fun id hid => isCredited_isOk hm hid, rfl⟩
      rw [if_neg (by simp), if_pos rfl, if_pos rfl, if_pos rfl, bind_eq_ok]
      simp only [filterChecked_eq_ok, isInvoked_isOk_iff hcli, true_imp_iff]
      constructor
      · rintro ⟨options, ⟨hdecoded, rfl⟩, h⟩
        obtain ⟨surfaces, hs, h⟩ := bind_eq_ok.mp h
        rw [hsurfaces] at hs
        cases hs
        obtain ⟨credited, hc, h⟩ := bind_eq_ok.mp h
        have hc' : credited = _ := Except.ok.inj (hc.symm.trans hcredited)
        subst hc'
        cases h
        exact ⟨hdecoded, rfl⟩
      · rintro ⟨hdecoded, rfl⟩
        exact ⟨_, ⟨hdecoded, rfl⟩,
          bind_eq_ok.mpr ⟨_, hsurfaces, bind_eq_ok.mpr ⟨_, hcredited, rfl⟩⟩⟩

/-- **The closed form of the credit loop.** -/
theorem creditResults_eq_ok {report : RunReport} {credit : Credit}
    (hattr : ∀ result ∈ report.results, result.isPassed = true →
      attributionProblem report (result.driver = "library") = none) :
    m.creditResults report = .ok credit ↔
      (∀ result ∈ report.results, m.Decodable result) ∧ credit = m.creditOf report := by
  have hstep := fun (s t : Credit) (result : CaseResult) (hr : result ∈ report.results) =>
    @creditResult_eq_ok m hm report result s t
      (fun hp => cliPath_of_attributed (hattr result hr hp))
  have hcredit : m.creditOf report = report.results.foldl (fun credit result =>
      credit.record result (m.passedBy result) (m.creditedBy result) (m.invokedBy report result))
      Credit.empty := by
    rw [foldl_record]
    simp [ModelData.creditOf, Credit.empty]
  rw [hcredit]
  exact foldlM_eq_ok_iff hstep Credit.empty credit

end Valid

/-! ## The credit relation

What the loop is for, without sets or dictionaries: which requirement, surface and equivalent
option a single result is evidence of. -/

/-- A library command of the result traced a call of the function `name`. -/
def CaseResult.Calls (result : CaseResult) (name : String) : Prop :=
  ∃ record ∈ result.evidence.getD [], record.interface = some "library"
    ∧ name ∈ record.apiCalls.getD []

/-- A library command of the result traced an emission of the signal `name`. -/
def CaseResult.Emits (result : CaseResult) (name : String) : Prop :=
  ∃ record ∈ result.evidence.getD [], record.interface = some "library"
    ∧ name ∈ record.signals.getD []

namespace ModelData

variable (m : ModelData)

/-- The result is evidence of the requirement. -/
def Passes (result : CaseResult) (id : String) : Prop :=
  result.isPassed = true ∧ id ∈ m.mapped result.caseKey

/-- The mapping of the case asserts the surface, directly or through a requirement. -/
def Asserts (key : CaseKey) (surface : String) : Prop :=
  surface ∈ m.asserted key ∨ ∃ id ∈ m.mapped key, surface ∈ surfacesOf m.requirements id

/-- A surface that is a function or a signal was observed by the result under its own name. -/
def Observes (result : CaseResult) (surface : String) : Prop :=
  (kindOf m.surfaces surface = some .libraryFunction →
    ∃ name, result.Calls name ∧ surface = "library.function." ++ name)
  ∧ (kindOf m.surfaces surface = some .librarySignal →
    ∃ name, result.Emits name ∧ surface = "library.signal." ++ name)

/-- The result is evidence of the surface. -/
def Credits (result : CaseResult) (surface : String) : Prop :=
  result.isPassed = true ∧ m.Asserts result.caseKey surface ∧ m.Observes result surface

/-- The result is evidence of the equivalent option. -/
def Invokes (report : RunReport) (result : CaseResult) (id : String) : Prop :=
  result.isPassed = true ∧ id ∈ m.equivalents result.caseKey ∧
    ∃ command option cli, decodeOption id = .ok (command, option) ∧ report.cliPath = .ok cli
      ∧ ∃ record ∈ result.evidence.getD [], invokedOption record cli command option = true

end ModelData

theorem mem_observed {result : CaseResult} {label surface : String}
    {trace : EvidenceRecord → Option (List String)} :
    surface ∈ result.observed label trace ↔ ∃ name, (∃ record ∈ result.evidence.getD [],
      record.interface = some "library" ∧ name ∈ (trace record).getD []) ∧
      surface = label ++ name := by
  simp only [CaseResult.observed, List.mem_flatMap, List.mem_filter, List.mem_map,
    decide_eq_true_eq]
  constructor
  · rintro ⟨record, ⟨hmem, hlib⟩, name, hname, rfl⟩
    exact ⟨name, ⟨record, hmem, hlib, hname⟩, rfl⟩
  · rintro ⟨name, ⟨record, hmem, hlib, hname⟩, rfl⟩
    exact ⟨record, ⟨hmem, hlib⟩, name, hname, rfl⟩

section Valid

variable {m : ModelData} {report : RunReport} {result : CaseResult} {id : String}

theorem mem_passedBy : id ∈ m.passedBy result ↔ m.Passes result id := by
  unfold ModelData.passedBy ModelData.Passes
  cases result.isPassed <;> simp

theorem mem_assertedBy {key : CaseKey} : id ∈ m.assertedBy key ↔ m.Asserts key id := by
  rw [ModelData.assertedBy, List.mem_dedup, List.mem_append, List.mem_flatMap]
  rfl

theorem isCredited_iff (hm : m.Valid) {key : CaseKey} (h : m.Asserts key id) :
    m.isCredited result id = .ok true ↔ m.Observes result id := by
  obtain ⟨kind, hkind⟩ := assertedBy_known hm (mem_assertedBy.mpr h)
  have hbool : m.isCredited result id
      = .ok (!(kind = .libraryFunction && id ∉ result.observedFunctions)
          && !(kind = .librarySignal && id ∉ result.observedSignals)) := by
    rw [ModelData.isCredited, ModelData.surfaceKind, hkind]
    rfl
  have hfunctions : id ∈ result.observedFunctions
      ↔ ∃ name, result.Calls name ∧ id = "library.function." ++ name := mem_observed
  have hsignals : id ∈ result.observedSignals
      ↔ ∃ name, result.Emits name ∧ id = "library.signal." ++ name := mem_observed
  rw [hbool, ModelData.Observes, hkind, ← hfunctions, ← hsignals]
  cases kind <;> simp

theorem mem_creditedBy (hm : m.Valid) : id ∈ m.creditedBy result ↔ m.Credits result id := by
  unfold ModelData.creditedBy ModelData.Credits
  cases hpassed : result.isPassed with
  | false => simp
  | true =>
      rw [if_pos rfl, mem_sorted, List.mem_filter, mem_assertedBy, isTrue_eq_true_iff]
      constructor
      · rintro ⟨hasserts, hcredited⟩
        exact ⟨rfl, hasserts, (isCredited_iff hm hasserts).mp hcredited⟩
      · rintro ⟨-, hasserts, hobserves⟩
        exact ⟨hasserts, (isCredited_iff hm hasserts).mpr hobserves⟩

theorem isInvoked_iff : isInvoked report result id = .ok true ↔
    ∃ command option, decodeOption id = .ok (command, option) ∧
      anyInvoked report command option (result.evidence.getD []) = .ok true := by
  unfold isInvoked
  rw [bind_eq_ok]
  constructor
  · rintro ⟨⟨command, option⟩, hdecode, h⟩
    exact ⟨command, option, hdecode, h⟩
  · rintro ⟨command, option, hdecode, h⟩
    exact ⟨(command, option), hdecode, h⟩

theorem anyInvoked_iff {command option : String} {records : List EvidenceRecord} :
    anyInvoked report command option records = .ok true ↔ ∃ cli, report.cliPath = .ok cli ∧
      ∃ record ∈ records, invokedOption record cli command option = true := by
  cases hcli : report.cliPath with
  | ok cli =>
      rw [anyInvoked_eq_ok hcli, Except.ok.injEq, List.any_eq_true]
      simp
  | error e =>
      cases records with
      | nil => simp [anyInvoked]
      | cons record records => simp [anyInvoked, hcli, bind, Except.bind]

theorem mem_invokedBy : id ∈ m.invokedBy report result ↔ m.Invokes report result id := by
  unfold ModelData.invokedBy ModelData.Invokes
  cases hpassed : result.isPassed with
  | false => simp
  | true =>
      rw [if_pos rfl, List.mem_filter, isTrue_eq_true_iff, isInvoked_iff]
      simp only [anyInvoked_iff, true_and]
      constructor
      · rintro ⟨hid, command, option, hdecode, cli, hcli, hrecord⟩
        exact ⟨hid, command, option, cli, hdecode, hcli, hrecord⟩
      · rintro ⟨hid, command, option, cli, hdecode, hcli, hrecord⟩
        exact ⟨hid, command, option, hdecode, cli, hcli, hrecord⟩

theorem passedBy_nodup (hm : m.Valid) (result : CaseResult) : (m.passedBy result).Nodup := by
  unfold ModelData.passedBy
  split
  · exact (hm.tables.mapped result.caseKey).1
  · exact List.nodup_nil

theorem creditedBy_nodup (m : ModelData) (result : CaseResult) : (m.creditedBy result).Nodup := by
  unfold ModelData.creditedBy
  split
  · exact (sorted_perm _).nodup_iff.mpr ((List.nodup_dedup _).filter _)
  · exact List.nodup_nil

theorem invokedBy_nodup (hm : m.Valid) (report : RunReport) (result : CaseResult) :
    (m.invokedBy report result).Nodup := by
  unfold ModelData.invokedBy
  split
  · exact (hm.tables.equivalent result.caseKey).1.filter _
  · exact List.nodup_nil

end Valid

end FlatpakBlackbox
