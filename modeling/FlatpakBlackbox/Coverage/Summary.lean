import FlatpakBlackbox.Coverage.Credit
import FlatpakBlackbox.Coverage.Metric

set_option autoImplicit false

/-! # The coverage summary

`CoverageModel.summarize` of `coverage_report.py`: verify the report, run the credit loop when it
is current, and count. `Outcome` lists the three ways it can end, and `summarize_eq_ok` gives the
summary in closed form: every field is an expression in the model and the credit of the outcome.
The accounting results of the later modules start from it.
-/

namespace FlatpakBlackbox

open PyLib PyException

/-- `CoverageMetrics`. -/
structure CoverageMetrics where
  behaviors : Dict String CoverageMetric
  surfaces : Dict Kind CoverageMetric
  profiles : Dict String (Dict String CoverageMetric)
  categories : Dict String (Dict String CoverageMetric)

/-- `CliOptionAccounting`. -/
structure CliOptionAccounting where
  equivalenceChecks : CoverageMetric
  accounted : CoverageMetric
  equivalenceEvidence : Dict String (List CaseKey)

/-- `CoverageSummary`. The percentage of all possible behavior is never claimed. -/
structure CoverageSummary where
  schema : Nat := 1
  definition : Definition
  verification : Verification
  metrics : CoverageMetrics
  caseStatuses : Dict String Nat
  evidence : Dict String (List CaseKey)
  interfaceEvidence : Dict String (List CaseKey)
  cliOptionAccounting : CliOptionAccounting
  requirementCapabilities : Dict String (List String)
  allPossibleBehaviorPercent : Option ℚ := none
  recordedExecution : Option (List (String × Value))
  surfacesWithoutCataloguedRequirements : List String
  unimplementedRequirements : List String
  unverifiedRequirements : Option (List String)
  limitations : List String

namespace ModelData

variable (m : ModelData)

/-! ## What the model implements -/

/-- `implemented`: the requirements of all mappings. -/
def implemented : Finset String := m.mapping.values.flatten.toFinset

/-- `reached`: the surfaces of the implemented requirements and the asserted ones. -/
def reached : Except PyException (Finset String) := do
  let surfaces ← m.mapping.values.flatten.dedup.mapM m.requirementSurfaces
  return surfaces.flatten.toFinset ∪ m.surfaceAssertions.values.flatten.toFinset

/-- `equivalent`: the equivalent options of all mappings. -/
def equivalent : Finset String := m.equivalentOptions.values.flatten.toFinset

/-- `sorted({item["category"] ...})` of an interface. -/
def categories (interface : String) : List String :=
  sorted (((m.requirements.values.filter fun r => r.interface = interface).map
    Requirement.category).dedup)

/-- `sorted(set(self.requirements) - done)`. -/
def requirementsWithout (done : Finset String) : List String :=
  sorted (m.requirements.keys.filter fun id => id ∉ done)

/-! ## Metrics -/

variable (reach : Finset String) (credit : Option Credit)

/-- A metric over the requirements that satisfy `p`. -/
def requirementMetric (p : Requirement → Bool) : CoverageMetric :=
  metric (m.requirements.keysWhere p) m.implemented (credit.map Credit.passed)

/-- A metric over the surfaces of a kind. -/
def surfaceMetric (kind : Kind) : CoverageMetric :=
  metric (m.surfaces.keysWhere fun s => s.kind = kind) reach (credit.map Credit.passedSurfaces)

/-- `metrics`. -/
def metrics : CoverageMetrics where
  behaviors := Dict.tabulate interfaces fun interface =>
    m.requirementMetric credit fun r => r.interface = interface
  surfaces := Dict.tabulate kinds (m.surfaceMetric reach credit)
  profiles := Dict.tabulate interfaces fun interface => Dict.tabulate profiles fun profile =>
    m.requirementMetric credit fun r => r.interface = interface && r.profile = profile
  categories := Dict.tabulate interfaces fun interface =>
    Dict.tabulate (m.categories interface) fun category =>
      m.requirementMetric credit fun r => r.interface = interface && r.category = category

/-- `cli_option_accounting`. -/
def optionAccounting : CliOptionAccounting :=
  let options := m.surfaces.keysWhere fun s => s.kind = .cliOption
  { equivalenceChecks := metric options m.equivalent (credit.map Credit.passedEquivalent)
    accounted := metric options (reach ∪ m.equivalent)
      (credit.map fun c => c.passedSurfaces ∪ c.passedEquivalent)
    equivalenceEvidence := (credit.map Credit.equivalentEvidence).getD Dict.empty }

/-- The summary of a verified or unverified report. -/
def summary (verification : Verification) (report : Option RunReport) : CoverageSummary where
  definition := m.definition
  verification := verification
  metrics := m.metrics reach credit
  caseStatuses := (credit.map Credit.statuses).getD Dict.empty
  evidence := (credit.map Credit.evidence).getD Dict.empty
  interfaceEvidence := (credit.map Credit.interfaceEvidence).getD Dict.empty
  cliOptionAccounting := m.optionAccounting reach credit
  requirementCapabilities := m.requirements.mapValues Requirement.requiredCapabilities
  recordedExecution := report.map RunReport.recorded
  surfacesWithoutCataloguedRequirements := sorted (m.surfaces.keys.filter fun id =>
    id ∉ m.requirements.values.flatMap Requirement.surfaces)
  unimplementedRequirements := m.requirementsWithout m.implemented
  unverifiedRequirements := credit.map fun c => m.requirementsWithout c.passed
  limitations := m.limitations

end ModelData

section Summarize

variable {Bytes : Type}

/-- `summarize` after `parse_report`. -/
def ModelData.summarizeReport (m : ModelData) (rt : Runtime Bytes) (tree : FileTree Bytes)
    (report : RunReport) : Except PyException CoverageSummary := do
  let verification ← m.verification rt tree report
  let credit ← if verification.status = .current then do
      let credit ← m.creditResults report
      pure (some credit)
    else pure none
  let reach ← m.reached
  return m.summary reach credit verification (some report)

/-- `parse_report(report) if report is not None else None`. -/
def readReport [UnicodeDatabase] : Option Value → Except PyException (Option RunReport)
  | none => .ok none
  | some value => do
      let parsed ← parseReport value "report"
      return some (RunReport.ofValue parsed)

/-- `CoverageModel.summarize(report)`. The files of `tree` are those of the suite at the time of
the call. -/
def ModelData.summarize [UnicodeDatabase] (m : ModelData) (rt : Runtime Bytes)
    (tree : FileTree Bytes) (value : Option Value) : Except PyException CoverageSummary := do
  match ← readReport value with
  | some report => m.summarizeReport rt tree report
  | none => do
      let reach ← m.reached
      return m.summary reach none ⟨.notRun, "No execution report supplied."⟩ none

end Summarize

/-! ## The closed form -/

section ClosedForm

variable {m : ModelData} (hm : m.Valid)

/-- `reached` without the lookups. -/
def ModelData.reachedSurfaces (m : ModelData) : Finset String :=
  (m.mapping.values.flatten.flatMap (surfacesOf m.requirements)).toFinset
    ∪ m.surfaceAssertions.values.flatten.toFinset

theorem mem_flatten_values {d : Dict CaseKey (List String)} {x : String} :
    x ∈ d.values.flatten ↔ ∃ key, x ∈ d.getD key [] := by
  simp only [List.mem_flatten, Dict.mem_values_iff]
  constructor
  · rintro ⟨l, ⟨key, hget⟩, hx⟩
    exact ⟨key, by rw [Dict.getD, hget]; exact hx⟩
  · rintro ⟨key, hx⟩
    cases hget : d.get? key with
    | none => rw [Dict.getD, hget] at hx; cases hx
    | some l => rw [Dict.getD, hget] at hx; exact ⟨l, ⟨key, hget⟩, hx⟩

theorem mem_implemented {id : String} : id ∈ m.implemented ↔ ∃ key, id ∈ m.mapped key := by
  rw [ModelData.implemented, List.mem_toFinset, mem_flatten_values]
  rfl

theorem mem_equivalent {id : String} : id ∈ m.equivalent ↔ ∃ key, id ∈ m.equivalents key := by
  rw [ModelData.equivalent, List.mem_toFinset, mem_flatten_values]
  rfl

theorem mem_reachedSurfaces {surface : String} :
    surface ∈ m.reachedSurfaces ↔ ∃ key, m.Asserts key surface := by
  simp only [ModelData.reachedSurfaces, Finset.mem_union, List.mem_toFinset, List.mem_flatMap,
    mem_flatten_values]
  constructor
  · rintro (⟨id, ⟨key, hid⟩, hsurface⟩ | ⟨key, hsurface⟩)
    · exact ⟨key, Or.inr ⟨id, hid, hsurface⟩⟩
    · exact ⟨key, Or.inl hsurface⟩
  · rintro ⟨key, hsurface | ⟨id, hid, hsurface⟩⟩
    · exact Or.inr ⟨key, hsurface⟩
    · exact Or.inl ⟨id, ⟨key, hid⟩, hsurface⟩

include hm

/-- Every requirement a mapping names is looked up successfully. -/
theorem reached_eq : m.reached = .ok m.reachedSurfaces := by
  have hmapM : m.mapping.values.flatten.dedup.mapM m.requirementSurfaces
      = .ok (m.mapping.values.flatten.dedup.map (surfacesOf m.requirements)) := by
    rw [mapM_eq_ok, List.forall₂_map_right_iff, List.forall₂_same]
    intro id hid
    obtain ⟨key, hkey⟩ := mem_flatten_values.mp (List.mem_dedup.mp hid)
    obtain ⟨r, hr, _⟩ := mapped_known hm hkey
    rw [ModelData.requirementSurfaces, surfacesOf, hr]
    rfl
  have hset : (m.mapping.values.flatten.dedup.map (surfacesOf m.requirements)).flatten.toFinset
      = (m.mapping.values.flatten.flatMap (surfacesOf m.requirements)).toFinset := by
    ext surface
    simp only [List.mem_toFinset, List.mem_flatten, List.mem_map, List.mem_flatMap, List.mem_dedup]
    constructor
    · rintro ⟨_, ⟨id, hid, rfl⟩, hsurface⟩
      exact ⟨id, hid, hsurface⟩
    · rintro ⟨id, hid, hsurface⟩
      exact ⟨_, ⟨id, hid, rfl⟩, hsurface⟩
  rw [ModelData.reached, hmapM]
  show Except.ok (_ ∪ _) = _
  rw [hset]
  rfl

variable {Bytes : Type} {rt : Runtime Bytes} {tree : FileTree Bytes} {report : RunReport}

omit hm in
/-- The report was recorded for the definitions the suite still has. -/
theorem verification_current_iff {v : Verification} (h : m.verification rt tree report = .ok v) :
    v.status = .current ↔ (∃ recorded, report.coverageDefinition = some recorded
        ∧ m.isStale rt tree recorded = .ok false)
      ∧ report.complete = some true ∧ m.Verified report := by
  unfold ModelData.verification at h
  cases hrecorded : report.coverageDefinition with
  | none =>
      rw [hrecorded] at h
      cases h
      exact ⟨fun h => (by cases h), fun h => (by obtain ⟨⟨_, h, _⟩, _⟩ := h; cases h)⟩
  | some recorded =>
      rw [hrecorded] at h
      obtain ⟨stale, hstale, h⟩ := bind_eq_ok.mp h
      have hother : ∀ other, m.isStale rt tree other = .ok false → some recorded = some other →
          stale = false := by
        intro other hother heq
        cases heq
        rw [hother] at hstale
        exact (Except.ok.inj hstale).symm
      cases stale with
      | true =>
          cases h
          refine ⟨fun h => (by cases h), ?_⟩
          rintro ⟨⟨other, heq, hfresh⟩, _⟩
          cases hother other hfresh heq
      | false =>
          by_cases hcomplete : report.complete = some true
          · simp only [Bool.false_eq_true, if_false, hcomplete, ne_eq, not_true_eq_false] at h
            cases h
            rw [verifyResults_current_iff]
            exact ⟨fun h => ⟨⟨recorded, rfl, hstale⟩, hcomplete, h⟩, fun h => h.2.2⟩
          · simp only [Bool.false_eq_true, if_false, ne_eq, hcomplete, not_false_eq_true,
              if_true] at h
            cases h
            exact ⟨fun h => (by cases h), fun h => absurd h.2.1 hcomplete⟩

omit hm in
/-- The verification returns while the files of the suite can be read. -/
theorem verification_isOk
    (hfiles : ∃ d, snapshot rt tree m.cases m.definition.referenceCommit = .ok d) :
    ∃ v, m.verification rt tree report = .ok v := by
  obtain ⟨d, hd⟩ := hfiles
  have hstale : ∀ recorded, ∃ stale, m.isStale rt tree recorded = .ok stale := by
    intro recorded
    unfold ModelData.isStale
    rw [hd]
    split
    · exact ⟨_, rfl⟩
    · exact ⟨_, rfl⟩
  unfold ModelData.verification
  cases hrecorded : report.coverageDefinition with
  | none => exact ⟨_, rfl⟩
  | some recorded =>
      obtain ⟨stale, hs⟩ := hstale recorded
      simp only [hs]
      cases stale with
      | true => exact ⟨_, rfl⟩
      | false =>
          show ∃ v, (if report.complete ≠ some true then Except.ok _ else Except.ok _) = Except.ok v
          split
          · exact ⟨_, rfl⟩
          · exact ⟨_, rfl⟩

omit hm in
/-- A report is verified as current when its definition is fresh and its results are evidence. -/
theorem exists_current_iff : (∃ v, m.verification rt tree report = .ok v ∧ v.status = .current) ↔
    (∃ recorded, report.coverageDefinition = some recorded
        ∧ m.isStale rt tree recorded = .ok false)
      ∧ report.complete = some true ∧ m.Verified report := by
  constructor
  · rintro ⟨v, hv, hcurrent⟩
    exact (verification_current_iff hv).mp hcurrent
  · intro h
    obtain ⟨v, hv⟩ : ∃ v, m.verification rt tree report = .ok v := by
      obtain ⟨⟨recorded, hrecorded, hfresh⟩, hcomplete, _⟩ := h
      unfold ModelData.verification
      rw [hrecorded]
      dsimp only
      rw [hfresh, hcomplete]
      exact ⟨_, rfl⟩
    exact ⟨v, hv, (verification_current_iff hv).mpr h⟩

/-- How `summarize` ends on a report: the verification and the credit it counts with. -/
inductive ModelData.Outcome (m : ModelData) (rt : Runtime Bytes) (tree : FileTree Bytes) :
    Option RunReport → Verification → Option Credit → Prop where
  | noReport : Outcome m rt tree none ⟨.notRun, "No execution report supplied."⟩ none
  | uncredited {report : RunReport} {v : Verification}
      (h : m.verification rt tree report = .ok v) (hother : v.status ≠ .current) :
      Outcome m rt tree (some report) v none
  | current {report : RunReport} {v : Verification}
      (h : m.verification rt tree report = .ok v) (hcurrent : v.status = .current)
      (hdecodable : ∀ result ∈ report.results, m.Decodable result) :
      Outcome m rt tree (some report) v (some (m.creditOf report))

/-- A report that is not current gets a summary without credit; a current one gets the credit of
its results, unless an id cannot be decoded. -/
theorem summarizeReport_eq_ok {s : CoverageSummary} :
    m.summarizeReport rt tree report = .ok s ↔ ∃ v credit,
      m.Outcome rt tree (some report) v credit
        ∧ s = m.summary m.reachedSurfaces credit v (some report) := by
  unfold ModelData.summarizeReport
  rw [bind_eq_ok]
  refine exists_congr fun v => ?_
  rw [reached_eq hm]
  by_cases hcurrent : v.status = .current
  · rw [if_pos hcurrent]
    constructor
    · rintro ⟨hv, h⟩
      obtain ⟨credit, hcredit, h⟩ := bind_eq_ok.mp h
      have hverified := ((verification_current_iff hv).mp hcurrent).2.2
      obtain ⟨hdecodable, rfl⟩ := (creditResults_eq_ok hm hverified.attributed).mp hcredit
      cases h
      exact ⟨_, .current hv hcurrent hdecodable, rfl⟩
    · rintro ⟨credit, hend, rfl⟩
      cases hend with
      | uncredited _ hother => exact absurd hcurrent hother
      | current hv _ hdecodable =>
          have hverified := ((verification_current_iff hv).mp hcurrent).2.2
          have hloop := (creditResults_eq_ok hm hverified.attributed).mpr ⟨hdecodable, rfl⟩
          exact ⟨hv, bind_eq_ok.mpr ⟨_, hloop, rfl⟩⟩
  · rw [if_neg hcurrent]
    constructor
    · rintro ⟨hv, h⟩
      cases h
      exact ⟨none, .uncredited hv hcurrent, rfl⟩
    · rintro ⟨credit, hend, rfl⟩
      cases hend with
      | uncredited hv _ => exact ⟨hv, rfl⟩
      | current _ h _ => exact absurd h hcurrent

/-- **The closed form of `summarize`.** -/
theorem summarize_eq_ok [UnicodeDatabase] {value : Option Value} {s : CoverageSummary} :
    m.summarize rt tree value = .ok s ↔ ∃ report?, readReport value = .ok report? ∧
      ∃ v credit, m.Outcome rt tree report? v credit
        ∧ s = m.summary m.reachedSurfaces credit v report? := by
  unfold ModelData.summarize
  rw [bind_eq_ok]
  refine exists_congr fun report? => and_congr_right fun _ => ?_
  cases report? with
  | some report => exact summarizeReport_eq_ok hm
  | none =>
      rw [reached_eq hm]
      constructor
      · intro h
        cases h
        exact ⟨_, _, .noReport, rfl⟩
      · rintro ⟨v, credit, hend, rfl⟩
        cases hend
        rfl

end ClosedForm

end FlatpakBlackbox
