import FlatpakBlackbox.Web.History

set_option autoImplicit false

/-! # Run comparison

`compareRuns` of `runComparison.ts`, with the accessors of `performance.ts` it reads. Rows are the
cases of either run; seconds are exact rational numbers. The result of this module is an account:
the added seconds of the rows are the difference of the case times of two complete runs, up to the
cases that one of them did not time.
-/

namespace FlatpakBlackbox

open PyLib

/-! ## Case timings -/

/-- `TimingSeries`. -/
inductive TimingSeries where
  | durationSeconds
  | setupSeconds
  | executionSeconds
  | cleanupSeconds
  deriving DecidableEq, Repr

/-- `timingNames`. -/
def timingNames : List TimingSeries :=
  [.durationSeconds, .setupSeconds, .executionSeconds, .cleanupSeconds]

/-- `hasCaseTiming(item)`. -/
def hasCaseTiming (item : CaseTiming) : Bool :=
  item.status ∉ [.notSelected, .unsupported, .pending]
    && (item.durationSeconds.isSome || item.timings.isSome)

/-- `verifiedPerformance(entry)`. -/
def verifiedPerformance (entry : Snapshot) : Option Performance :=
  if entry.complete ∧ entry.verification = .current then entry.performance else none

/-- The seconds of a phase. -/
def PhaseTimings.phase (timings : PhaseTimings) : TimingSeries → Option Seconds
  | .durationSeconds => none
  | .setupSeconds => some timings.setupSeconds
  | .executionSeconds => some timings.executionSeconds
  | .cleanupSeconds => some timings.cleanupSeconds

/-- `caseSeconds(item, phase)`. -/
def caseSeconds (item : Option CaseTiming) (phase : TimingSeries) : Option ℚ :=
  match item with
  | none => none
  | some item =>
      if hasCaseTiming item then
        (match phase with
          | .durationSeconds => item.durationSeconds
          | phase => item.timings.bind fun t => t.phase phase).map Subtype.val
      else none

/-- `delta(before, after)`. -/
def delta : Option ℚ → Option ℚ → Option ℚ
  | some before, some after => some (after - before)
  | _, _ => none

/-- `inventoryComplete(entry)`. -/
def inventoryComplete (entry : Snapshot) : Bool :=
  match verifiedPerformance entry with
  | none => false
  | some performance =>
      match performance.casesComplete with
      | some complete => complete
      | none => countsMatch performance.cases performance.caseStatuses

/-- What `runAccounting` returns. -/
structure RunAccounting where
  total : Option ℚ
  cases : Option ℚ
  outside : Option ℚ
  deriving DecidableEq

/-- `runAccounting(entry)`. -/
def runAccounting (entry : Snapshot) : RunAccounting :=
  match verifiedPerformance entry with
  | none => ⟨none, none, none⟩
  | some performance =>
      let total : Option ℚ := performance.durationSeconds.map Subtype.val
      let cases := performance.cases.foldl
        (fun sum item => sum + (caseSeconds (some item) .durationSeconds).getD 0) 0
      let remaining := total.map fun t => t - cases
      -- A negative remainder is inconsistent data, not negative shared setup time.
      let outside := remaining.bind fun r => if r < -(1 / 1000000) then none else some (max 0 r)
      ⟨total, some cases, outside⟩

/-! ## `compareRuns` -/

/-- `ComparisonKind`. -/
inductive ComparisonKind where
  | recorded
  | comparable
  | addedCase
  | removedCase
  | notRecordedBefore
  | notRecordedNow
  | noEarlierTiming
  | noCurrentTiming
  | noTiming
  deriving DecidableEq, Repr

/-- `CaseComparison`. -/
structure CaseComparison where
  key : CaseKey
  label : String
  before : Option CaseTiming
  after : Option CaseTiming
  beforeSeconds : Option ℚ
  afterSeconds : Option ℚ
  addedSeconds : Option ℚ
  percent : Option ℚ
  phases : List (TimingSeries × Option ℚ)
  kind : ComparisonKind

/-- `caseLabel(item)`. -/
def caseLabel (item : CaseTiming) : String :=
  s!"{item.behaviorId} / {item.driver.text} / {item.profile.text}"

/-- The kind of a row and its added seconds, in a comparison with a verified reference. -/
def compareKind (current reference : Snapshot) (b a : Option CaseTiming) :
    ComparisonKind × Option ℚ :=
  let beforeSeconds := caseSeconds b .durationSeconds
  let afterSeconds := caseSeconds a .durationSeconds
  let addedSeconds := delta beforeSeconds afterSeconds
  match b, a with
  | none, _ =>
      -- This is a contribution from a confirmed new case, not a measured regression.
      if inventoryComplete reference then (.addedCase, afterSeconds)
      else (.notRecordedBefore, addedSeconds)
  | some _, none =>
      if inventoryComplete current then (.removedCase, beforeSeconds.map fun s => -s)
      else (.notRecordedNow, addedSeconds)
  | some _, some _ =>
      match beforeSeconds, afterSeconds with
      | none, none => (.noTiming, addedSeconds)
      | none, some _ => (.noEarlierTiming, addedSeconds)
      | some _, none => (.noCurrentTiming, addedSeconds)
      | some _, some _ => (.comparable, addedSeconds)

/-- The percentage of a row. -/
def comparePercent : ComparisonKind → Option ℚ → Option ℚ → Option ℚ
  | .comparable, some before, some after =>
      if before > 0 then some ((after - before) * 100 / before)
      else if after = 0 then some 0
      else none
  | _, _, _ => none

/-- One row. `verified` says that there is a reference with verified performance. -/
def compareRow (current : Snapshot) (verified : Option Snapshot) (key : CaseKey)
    (b a : Option CaseTiming) : CaseComparison :=
  let beforeSeconds := caseSeconds b .durationSeconds
  let afterSeconds := caseSeconds a .durationSeconds
  let (kind, addedSeconds) := match verified with
    | some reference => compareKind current reference b a
    | none => (.recorded, delta beforeSeconds afterSeconds)
  { key
    label := ((a.or b).map caseLabel).getD ""
    before := b
    after := a
    beforeSeconds
    afterSeconds
    addedSeconds
    percent := comparePercent kind beforeSeconds afterSeconds
    phases := timingNames.map fun name => (name, delta (caseSeconds b name) (caseSeconds a name))
    kind }

/-- `new Map(cases.map((item) => [caseKey(item), item]))`. -/
def casesByKey (cases : List CaseTiming) : Dict CaseKey CaseTiming :=
  Dict.ofList (cases.map fun item => (item.caseKey, item))

/-- `compareRuns(current, reference)`; `none` where it throws. -/
def compareRuns (current : Snapshot) (reference : Option Snapshot) :
    Option (List CaseComparison) :=
  if reference.any fun r => r.targetKey ≠ current.targetKey then none
  else
    match verifiedPerformance current with
    | none => some []
    | some performance =>
        let previous := reference.bind verifiedPerformance
        let after := casesByKey performance.cases
        let before := casesByKey ((previous.map Performance.cases).getD [])
        let keys := after.keys ++ before.keys.filter fun key => key ∉ after.keys
        some (keys.map fun key =>
          compareRow current (if previous.isSome then reference else none) key
            (before.get? key) (after.get? key))

/-! ## The account of a comparison -/

/-- The seconds of a row count the difference of its two timings, except where one is missing. -/
def CaseComparison.Accounted (row : CaseComparison) : Prop :=
  row.addedSeconds.getD 0 = row.afterSeconds.getD 0 - row.beforeSeconds.getD 0
    - (if row.kind = .noEarlierTiming then row.afterSeconds.getD 0 else 0)
    + (if row.kind = .noCurrentTiming then row.beforeSeconds.getD 0 else 0)

section Account

variable {current reference : Snapshot}

theorem compareRow_accounted (hcurrent : inventoryComplete current = true)
    (hreference : inventoryComplete reference = true) (key : CaseKey) (b a : Option CaseTiming) :
    (compareRow current (some reference) key b a).Accounted := by
  have hnone : caseSeconds none .durationSeconds = none := rfl
  unfold CaseComparison.Accounted compareRow compareKind
  cases b with
  | none => simp [hreference, hnone]
  | some b =>
      cases a with
      | none => cases caseSeconds (some b) .durationSeconds <;> simp [hcurrent, hnone]
      | some a =>
          cases caseSeconds (some b) .durationSeconds <;>
            cases caseSeconds (some a) .durationSeconds <;> simp [delta]

theorem sum_accounted {rows : List CaseComparison} (h : ∀ row ∈ rows, row.Accounted) :
    (rows.map fun row => row.addedSeconds.getD 0).sum
      = (rows.map fun row => row.afterSeconds.getD 0).sum
        - (rows.map fun row => row.beforeSeconds.getD 0).sum
        - ((rows.filter fun row => row.kind = .noEarlierTiming).map
            fun row => row.afterSeconds.getD 0).sum
        + ((rows.filter fun row => row.kind = .noCurrentTiming).map
            fun row => row.beforeSeconds.getD 0).sum := by
  induction rows with
  | nil => simp
  | cons row rows ih =>
      have hrow : row.Accounted := h row (List.mem_cons_self ..)
      have hrows := ih fun r hr => h r (List.mem_cons_of_mem _ hr)
      unfold CaseComparison.Accounted at hrow
      by_cases hearlier : row.kind = .noEarlierTiming
      · simp [hearlier] at hrow ⊢
        linarith
      · by_cases hcurrent : row.kind = .noCurrentTiming
        · simp [hcurrent] at hrow ⊢
          linarith
        · simp [hearlier, hcurrent] at hrow ⊢
          linarith

theorem runAccounting_cases {entry : Snapshot} {performance : Performance}
    (h : verifiedPerformance entry = some performance) :
    (runAccounting entry).cases = some (performance.cases.map fun item =>
      (caseSeconds (some item) .durationSeconds).getD 0).sum := by
  have hfold : ∀ (cases : List CaseTiming) (sum : ℚ),
      cases.foldl (fun sum item => sum + (caseSeconds (some item) .durationSeconds).getD 0) sum
        = sum + (cases.map fun item => (caseSeconds (some item) .durationSeconds).getD 0).sum := by
    intro cases
    induction cases with
    | nil => simp
    | cons item cases ih =>
        intro sum
        rw [List.foldl_cons, ih, List.map_cons, List.sum_cons, add_assoc]
  unfold runAccounting
  rw [h]
  simp only [hfold, zero_add]

theorem values_casesByKey (performance : Performance) :
    (casesByKey performance.cases).values = performance.cases := by
  have hnodup : ((performance.cases.map fun item => (item.caseKey, item)).map Prod.fst).Nodup := by
    rw [List.map_map]
    exact performance.unique
  unfold casesByKey
  rw [Dict.ofList_of_nodup hnodup]
  show (List.map _ _).map Prod.snd = _
  rw [List.map_map]
  exact List.map_id' performance.cases

theorem exists_verifiedPerformance {entry : Snapshot} (h : inventoryComplete entry = true) :
    ∃ performance, verifiedPerformance entry = some performance := by
  unfold inventoryComplete at h
  cases hverified : verifiedPerformance entry with
  | none =>
      rw [hverified] at h
      cases h
  | some performance => exact ⟨performance, rfl⟩

/-- **A comparison accounts for all the time.** For two runs of one target with verified performance
and complete inventories, the added seconds of the rows sum to the difference of the case times of
the runs, less the seconds of the cases without an earlier timing, plus those of the cases without
a current one. -/
theorem compareRuns_accounts (htarget : reference.targetKey = current.targetKey)
    (hcurrent : inventoryComplete current = true)
    (hreference : inventoryComplete reference = true) :
    ∃ rows now before, compareRuns current (some reference) = some rows
      ∧ (runAccounting current).cases = some now ∧ (runAccounting reference).cases = some before
      ∧ (rows.map fun row => row.addedSeconds.getD 0).sum = now - before
        - ((rows.filter fun row => row.kind = .noEarlierTiming).map
            fun row => row.afterSeconds.getD 0).sum
        + ((rows.filter fun row => row.kind = .noCurrentTiming).map
            fun row => row.beforeSeconds.getD 0).sum := by
  obtain ⟨performance, hperformance⟩ := exists_verifiedPerformance hcurrent
  obtain ⟨previous, hprevious⟩ := exists_verifiedPerformance hreference
  let after := casesByKey performance.cases
  let before := casesByKey previous.cases
  let keys := after.keys ++ before.keys.filter fun key => key ∉ after.keys
  have hrun : compareRuns current (some reference) = some (keys.map fun key =>
      compareRow current (some reference) key (before.get? key) (after.get? key)) := by
    unfold compareRuns
    rw [if_neg (by simpa using htarget), hperformance]
    simp only [Option.bind_some, hprevious, Option.isSome_some, if_true, Option.map_some,
      Option.getD_some]
    rfl
  -- Each case has one row, whichever of the runs has it.
  have hnodup : keys.Nodup := by
    refine List.nodup_append.mpr ⟨after.keys_nodup, before.keys_nodup.filter _, ?_⟩
    intro k hk k' hk' heq
    have hnot : k' ∉ after.keys := by simpa using (List.mem_filter.mp hk').2
    exact hnot (heq ▸ hk)
  have hafter : ∀ k ∈ after.keys, k ∈ keys := fun k hk => List.mem_append_left _ hk
  have hbefore : ∀ k ∈ before.keys, k ∈ keys := by
    intro k hk
    by_cases hmem : k ∈ after.keys
    · exact hafter k hmem
    · exact List.mem_append_right _ (List.mem_filter.mpr ⟨hk, by simpa using hmem⟩)
  have hsum : ∀ (d : Dict CaseKey CaseTiming), (∀ k ∈ d.keys, k ∈ keys) →
      (keys.map fun k => (caseSeconds (d.get? k) .durationSeconds).getD 0).sum
        = (d.values.map fun item => (caseSeconds (some item) .durationSeconds).getD 0).sum :=
    fun d hd => d.sum_map_get? hnodup hd
      (fun item => (caseSeconds item .durationSeconds).getD 0) rfl
  refine ⟨_, _, _, hrun, runAccounting_cases hperformance, runAccounting_cases hprevious, ?_⟩
  rw [sum_accounted, List.map_map, List.map_map]
  · congr 3
    · rw [← values_casesByKey performance]
      exact hsum after hafter
    · rw [← values_casesByKey previous]
      exact hsum before hbefore
  · intro row hrow
    obtain ⟨key, -, rfl⟩ := List.mem_map.mp hrow
    exact compareRow_accounted hcurrent hreference key _ _

/-- A passed case of the command line. -/
def CaseTiming.passedCase (behaviorId : String) (seconds : Option Seconds) : CaseTiming :=
  ⟨behaviorId, .cli, .user, .passed, none, seconds, none⟩

/-- Two timed cases. -/
def currentRun : Snapshot :=
  { Snapshot.ofCommit "a" .startOf2025 with
    performance := some {
      durationSeconds := none
      caseStatuses := Dict.empty.set "passed" 2
      cases := [.passedCase "install" (some ⟨3, by norm_num⟩),
        .passedCase "update" (some ⟨2, by norm_num⟩)]
      casesComplete := some true
      unique := by decide
      counted := fun _ => by decide } }

/-- One of the cases before, without a timing, and another one that was removed. -/
def referenceRun : Snapshot :=
  { Snapshot.ofCommit "a" .endOf2024 with
    performance := some {
      durationSeconds := none
      caseStatuses := Dict.empty.set "passed" 2
      cases := [.passedCase "install" none, .passedCase "remove" (some ⟨1, by norm_num⟩)]
      casesComplete := none
      unique := by decide
      counted := by decide } }

theorem compareRuns_accounts_small :
    ∃ rows now before, compareRuns currentRun (some referenceRun) = some rows
      ∧ (runAccounting currentRun).cases = some now
      ∧ (runAccounting referenceRun).cases = some before
      ∧ (rows.map fun row => row.addedSeconds.getD 0).sum = now - before
        - ((rows.filter fun row => row.kind = .noEarlierTiming).map
            fun row => row.afterSeconds.getD 0).sum
        + ((rows.filter fun row => row.kind = .noCurrentTiming).map
            fun row => row.beforeSeconds.getD 0).sum :=
  compareRuns_accounts (by decide) (by decide) (by decide)

end Account

end FlatpakBlackbox
