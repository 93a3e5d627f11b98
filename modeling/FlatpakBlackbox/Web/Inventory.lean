import FlatpakBlackbox.Web.Comparison

set_option autoImplicit false

/-! # Missing cases in a comparison

A case that one run lists and the other does not was added or removed only if the other run lists
all its cases. A run without a flag lists all its cases if the counts of their statuses are the
recorded ones. The loop that compares the counts looks them up in a plain object, which has more
names than the counted ones: a recorded count of zero under an inherited name is never found equal.
-/

namespace FlatpakBlackbox

open PyLib

/-! ## Inventories -/

/-- The keys of the listed cases. -/
def Performance.keys (performance : Performance) : List CaseKey :=
  performance.cases.map CaseTiming.caseKey

/-- For every status, the listed cases with it are as many as recorded. -/
def Performance.CountsEqual (performance : Performance) : Prop :=
  ∀ status : String, performance.cases.countP (fun item => item.status.text = status) =
    performance.caseStatuses.getD status 0

/-- The run lists all its cases: by its flag, or else by its counts. -/
def Performance.CompleteInventory (performance : Performance) : Prop :=
  match performance.casesComplete with
  | some complete => complete = true
  | none => performance.CountsEqual

/-- The counts tell that the run lists all its cases, but one of them is recorded under a name that
every object inherits. -/
def Performance.Obscured (performance : Performance) : Prop :=
  performance.casesComplete = none ∧ performance.CountsEqual ∧
    ∃ name ∈ performance.caseStatuses.keys, name ∈ objectPrototype

theorem text_not_mem_objectPrototype (status : CaseStatus) : status.text ∉ objectPrototype := by
  cases status <;> decide

section Counts

variable {cases : List CaseTiming} {recorded : Dict String Nat}

theorem getD_statusCounts (cases : List CaseTiming) (status : String) :
    (statusCounts cases).getD status 0 = cases.countP fun item => item.status.text = status := by
  unfold statusCounts
  rw [Dict.getD_foldl_increment]
  exact Nat.zero_add _

theorem mem_keys_statusCounts {status : String} :
    status ∈ (statusCounts cases).keys ↔ ∃ item ∈ cases, item.status.text = status := by
  unfold statusCounts
  rw [Dict.mem_keys_foldl_increment]
  exact or_iff_right List.not_mem_nil

/-- Outside the inherited names, a lookup is a count. -/
theorem countOf_of_not_mem {counts : Dict String Nat} {status : String}
    (h : status ∉ objectPrototype) :
    countOf counts status = some (counts.getD status 0) := by
  unfold countOf Dict.getD
  cases counts.get? status with
  | some n => rfl
  | none => exact if_neg h

/-- An inherited name counts for nothing, unless it is recorded. -/
theorem countOf_of_mem {counts : Dict String Nat} {status : String} (h : status ∈ objectPrototype)
    (hkey : status ∉ counts.keys) : countOf counts status = none := by
  unfold countOf
  rw [(counts.get?_eq_none_iff status).mpr hkey]
  exact if_pos h

theorem countOf_recorded {status : String} (h : status ∈ recorded.keys) :
    countOf recorded status = some (recorded.getD status 0) := by
  obtain ⟨n, hn⟩ := (recorded.mem_keys_iff status).mp h
  unfold countOf Dict.getD
  rw [hn]
  rfl

/-- **What the loop decides**: the counts are equal, and none is recorded under an inherited
name. -/
theorem countsMatch_iff : countsMatch cases recorded = true ↔
    (∀ status : String, cases.countP (fun item => item.status.text = status) =
    recorded.getD status 0) ∧
      ∀ name ∈ recorded.keys, name ∉ objectPrototype := by
  have hstatus : ∀ status, status ∈ (statusCounts cases).keys → status ∉ objectPrototype := by
    intro status hstatus
    obtain ⟨item, -, rfl⟩ := mem_keys_statusCounts.mp hstatus
    exact text_not_mem_objectPrototype item.status
  have hkeys : countsMatch cases recorded = true ↔ ∀ status,
      status ∈ (statusCounts cases).keys ∨ status ∈ recorded.keys →
        countOf (statusCounts cases) status = countOf recorded status := by
    simp [countsMatch, or_imp, forall_and]
  rw [hkeys]
  constructor
  · intro h
    have hnames : ∀ name ∈ recorded.keys, name ∉ objectPrototype := by
      intro name hname hinherited
      have heq := h name (.inr hname)
      rw [countOf_recorded hname, countOf_of_mem hinherited fun hkey =>
        hstatus name hkey hinherited] at heq
      cases heq
    refine ⟨fun status => ?_, hnames⟩
    rw [← getD_statusCounts]
    by_cases hkey : status ∈ (statusCounts cases).keys ∨ status ∈ recorded.keys
    · have hnot : status ∉ objectPrototype := hkey.elim (hstatus status) (hnames status)
      have heq := h status hkey
      rw [countOf_of_not_mem hnot, countOf_of_not_mem hnot] at heq
      exact Option.some.inj heq
    · obtain ⟨hcounted, hrecorded⟩ := not_or.mp hkey
      unfold Dict.getD
      rw [(Dict.get?_eq_none_iff _ _).mpr hcounted, (Dict.get?_eq_none_iff _ _).mpr hrecorded]
  · rintro ⟨hcounts, hnames⟩ status hkey
    have hnot : status ∉ objectPrototype := hkey.elim (hstatus status) (hnames status)
    rw [countOf_of_not_mem hnot, countOf_of_not_mem hnot, getD_statusCounts, hcounts]

end Counts

/-- The code finds a run complete that is, except where its counts are obscured. -/
theorem inventoryComplete_iff {entry : Snapshot} {performance : Performance}
    (h : verifiedPerformance entry = some performance) :
    inventoryComplete entry = true ↔ performance.CompleteInventory ∧ ¬ performance.Obscured := by
  unfold inventoryComplete Performance.CompleteInventory Performance.Obscured
    Performance.CountsEqual
  rw [h]
  cases hflag : performance.casesComplete with
  | some complete => simp [hflag]
  | none =>
      dsimp only
      rw [hflag, countsMatch_iff]
      simp only [true_and, not_and, not_exists]
      exact and_congr_right fun hcounts => ⟨fun hnames _ => hnames, fun hnames => hnames hcounts⟩

/-! ## Rows -/

theorem keys_casesByKey (performance : Performance) :
    (casesByKey performance.cases).keys = performance.keys := by
  have hnodup : ((performance.cases.map fun item => (item.caseKey, item)).map Prod.fst).Nodup := by
    rw [List.map_map]
    exact performance.unique
  unfold casesByKey
  rw [Dict.ofList_of_nodup hnodup]
  show (List.map _ _).map Prod.fst = _
  rw [List.map_map]
  rfl

theorem caseSeconds_nonneg {item : Option CaseTiming} {phase : TimingSeries} {q : ℚ}
    (h : caseSeconds item phase = some q) : 0 ≤ q := by
  unfold caseSeconds at h
  cases item with
  | none => cases h
  | some item =>
      dsimp only at h
      split at h
      · obtain ⟨seconds, -, rfl⟩ := Option.map_eq_some_iff.mp h
        exact seconds.2
      · cases h

section Row

variable (current : Snapshot) (reference : Snapshot) (key : CaseKey) (b a : Option CaseTiming)

theorem kind_added : (compareRow current (some reference) key b a).kind = .addedCase ↔
    b = none ∧ inventoryComplete reference = true := by
  unfold compareRow compareKind
  cases b with
  | none => cases hcomplete : inventoryComplete reference <;> simp [hcomplete]
  | some b =>
      cases a with
      | none => cases inventoryComplete current <;> simp
      | some a =>
          cases caseSeconds (some b) .durationSeconds <;>
            cases caseSeconds (some a) .durationSeconds <;> simp

theorem kind_removed : (compareRow current (some reference) key b a).kind = .removedCase ↔
    b ≠ none ∧ a = none ∧ inventoryComplete current = true := by
  unfold compareRow compareKind
  cases b with
  | none => cases hcomplete : inventoryComplete reference <;> simp [hcomplete]
  | some b =>
      cases a with
      | none => cases inventoryComplete current <;> simp
      | some a =>
          cases caseSeconds (some b) .durationSeconds <;>
            cases caseSeconds (some a) .durationSeconds <;> simp

/-- A case that an incomplete run does not list adds nothing. -/
theorem added_of_missing (h : b = none ∧ inventoryComplete reference = false ∨
      b ≠ none ∧ a = none ∧ inventoryComplete current = false) :
    (compareRow current (some reference) key b a).addedSeconds = none := by
  unfold compareRow compareKind
  rcases h with ⟨rfl, hreference⟩ | ⟨hb, rfl, hcurrent⟩
  · simp [hreference, caseSeconds, delta]
  · obtain ⟨b, rfl⟩ := Option.ne_none_iff_exists'.mp hb
    have hdelta : delta (caseSeconds (some b) .durationSeconds) none = none := by
      cases caseSeconds (some b) .durationSeconds <;> rfl
    simp [hcurrent, show caseSeconds none .durationSeconds = none from rfl, hdelta]

end Row

/-- What a percentage tells: both times are known, and it divides by a positive one. -/
theorem comparePercent_eq_some {kind : ComparisonKind} {before after : Option ℚ} {p : ℚ}
    (h : comparePercent kind before after = some p) : kind = .comparable ∧ ∃ x y,
      before = some x ∧ after = some y ∧
        (0 < x ∧ p = (y - x) * 100 / x ∨ x ≤ 0 ∧ y = 0 ∧ p = 0) := by
  unfold comparePercent at h
  split at h
  · next x y =>
      refine ⟨rfl, x, y, rfl, rfl, ?_⟩
      split at h
      · next hpositive => exact .inl ⟨hpositive, (Option.some.inj h).symm⟩
      · next hpositive =>
          split at h
          · next hzero => exact .inr ⟨not_lt.mp hpositive, hzero, (Option.some.inj h).symm⟩
          · cases h
  · cases h

/-! ## Comparisons -/

/-- What the rows of two runs may tell. -/
structure NothingInvented (performance previous : Performance) (rows : List CaseComparison) :
    Prop where
  once : (rows.map CaseComparison.key).Nodup
  keys : ∀ key, key ∈ rows.map CaseComparison.key ↔ key ∈ performance.keys ∨ key ∈ previous.keys
  added : ∀ row ∈ rows, row.kind = .addedCase ↔ row.key ∉ previous.keys ∧ previous.CompleteInventory
  removed : ∀ row ∈ rows, row.kind = .removedCase ↔
    row.key ∉ performance.keys ∧ performance.CompleteInventory
  unknown : ∀ row ∈ rows, (row.key ∉ previous.keys ∧ ¬ previous.CompleteInventory ∨
    row.key ∉ performance.keys ∧ ¬ performance.CompleteInventory) → row.addedSeconds = none
  percent : ∀ row ∈ rows, ∀ p, row.percent = some p → row.kind = .comparable ∧ ∃ before after,
    row.beforeSeconds = some before ∧ row.afterSeconds = some after ∧
      (0 < before ∧ p = (after - before) * 100 / before ∨ before = 0 ∧ after = 0 ∧ p = 0)

section Pair

variable {current reference : Snapshot} {performance previous : Performance}

/-- The row of a key in the comparison of two verified runs. -/
def rowOf (current reference : Snapshot) (performance previous : Performance) (key : CaseKey) :
    CaseComparison :=
  compareRow current (some reference) key ((casesByKey previous.cases).get? key)
    ((casesByKey performance.cases).get? key)

/-- The keys of the rows. -/
def rowKeys (performance previous : Performance) : List CaseKey :=
  performance.keys ++ previous.keys.filter fun key => key ∉ performance.keys

theorem compareRuns_verified (htarget : reference.targetKey = current.targetKey)
    (hcurrent : verifiedPerformance current = some performance)
    (hreference : verifiedPerformance reference = some previous) :
    compareRuns current (some reference) =
      some ((rowKeys performance previous).map (rowOf current reference performance previous)) := by
  unfold compareRuns rowKeys rowOf
  rw [if_neg (by simpa using htarget), hcurrent, ← keys_casesByKey performance,
    ← keys_casesByKey previous]
  simp only [Option.bind_some, hreference, Option.isSome_some, if_true, Option.map_some,
    Option.getD_some]

theorem key_rowOf (key : CaseKey) : (rowOf current reference performance previous key).key = key :=
  rfl

theorem mem_rowKeys {key : CaseKey} :
    key ∈ rowKeys performance previous ↔ key ∈ performance.keys ∨ key ∈ previous.keys := by
  unfold rowKeys
  rw [List.mem_append, List.mem_filter, decide_eq_true_eq]
  tauto

theorem nodup_rowKeys : (rowKeys performance previous).Nodup := by
  refine List.nodup_append.mpr ⟨performance.unique, previous.unique.filter _, ?_⟩
  intro k hk k' hk' heq
  have hnot : k' ∉ performance.keys := by simpa using (List.mem_filter.mp hk').2
  exact hnot (heq ▸ hk)

theorem get?_casesByKey {performance : Performance} {key : CaseKey} :
    (casesByKey performance.cases).get? key = none ↔ key ∉ performance.keys := by
  rw [Dict.get?_eq_none_iff, keys_casesByKey]

/-- **When the rows invent nothing.** They do as long as no run with obscured counts lacks a case of
the other one. -/
theorem nothingInvented_iff (hcurrent : verifiedPerformance current = some performance)
    (hreference : verifiedPerformance reference = some previous) :
    NothingInvented performance previous
        ((rowKeys performance previous).map (rowOf current reference performance previous)) ↔
      (previous.Obscured → ∀ key ∈ performance.keys, key ∈ previous.keys) ∧
        (performance.Obscured → ∀ key ∈ previous.keys, key ∈ performance.keys) := by
  have hadded : ∀ key, (rowOf current reference performance previous key).kind = .addedCase ↔
      key ∉ previous.keys ∧ previous.CompleteInventory ∧ ¬ previous.Obscured := by
    intro key
    rw [rowOf, kind_added, get?_casesByKey, inventoryComplete_iff hreference]
  have hremoved : ∀ key, (rowOf current reference performance previous key).kind = .removedCase ↔
      key ∈ previous.keys ∧ key ∉ performance.keys ∧
        performance.CompleteInventory ∧ ¬ performance.Obscured := by
    intro key
    rw [rowOf, kind_removed, ne_eq, get?_casesByKey, get?_casesByKey, not_not,
      inventoryComplete_iff hcurrent]
  -- An obscured run lists all its cases, though the code does not see it.
  have hcomplete : ∀ {performance : Performance}, performance.Obscured →
    performance.CompleteInventory := by
    rintro performance ⟨hflag, hcounts, -⟩
    unfold Performance.CompleteInventory
    rw [hflag]
    exact hcounts
  have hrow : ∀ {P : CaseComparison → Prop},
      (∀ row ∈ (rowKeys performance previous).map (rowOf current reference performance previous),
        P row) ↔
        ∀ key, key ∈ performance.keys ∨ key ∈ previous.keys →
          P (rowOf current reference performance previous key) := by
    intro P
    rw [List.forall_mem_map]
    exact forall_congr' fun key => imp_congr_left mem_rowKeys
  constructor
  · intro h
    constructor
    · intro hobscured key hkey
      by_contra hmissing
      have hkind := (hrow.mp h.added key (.inl hkey)).mpr ⟨hmissing, hcomplete hobscured⟩
      exact ((hadded key).mp hkind).2.2 hobscured
    · intro hobscured key hkey
      by_contra hmissing
      have hkind := (hrow.mp h.removed key (.inr hkey)).mpr ⟨hmissing, hcomplete hobscured⟩
      exact ((hremoved key).mp hkind).2.2.2 hobscured
  · rintro ⟨hprevious, hperformance⟩
    have hkeys : ((rowKeys performance previous).map
        (rowOf current reference performance previous)).map CaseComparison.key =
          rowKeys performance previous := by
      rw [List.map_map]
      exact List.map_id' _
    refine ⟨?_, fun key => by rw [hkeys, mem_rowKeys], ?_, ?_, ?_, ?_⟩
    · rw [hkeys]
      exact nodup_rowKeys
    · refine hrow.mpr fun key hkey => ?_
      rw [hadded key, key_rowOf]
      refine and_congr_right fun hmissing => and_iff_left fun hobscured => ?_
      exact hmissing (hprevious hobscured key (hkey.resolve_right hmissing))
    · refine hrow.mpr fun key hkey => ?_
      rw [hremoved key, key_rowOf]
      constructor
      · exact fun h => ⟨h.2.1, h.2.2.1⟩
      · rintro ⟨hmissing, hinventory⟩
        have hother := hkey.resolve_left hmissing
        exact ⟨hother, hmissing, hinventory,
          fun hobscured => hmissing (hperformance hobscured key hother)⟩
    -- Where a run does not list all its cases, a case it lacks is neither added nor removed.
    · refine hrow.mpr fun key hkey hunknown => added_of_missing _ _ _ _ _ ?_
      have hfalse : ∀ {entry : Snapshot} {performance : Performance},
          verifiedPerformance entry = some performance → ¬ performance.CompleteInventory →
            inventoryComplete entry = false := by
        intro entry performance hverified hnot
        exact Bool.eq_false_iff.mpr fun htrue => hnot ((inventoryComplete_iff hverified).mp htrue).1
      rcases hunknown with ⟨hmissing, hnot⟩ | ⟨hmissing, hnot⟩
      · exact .inl ⟨get?_casesByKey.mpr hmissing, hfalse hreference hnot⟩
      · refine .inr ⟨fun hnone => ?_, get?_casesByKey.mpr hmissing, hfalse hcurrent hnot⟩
        exact get?_casesByKey.mp hnone (hkey.resolve_left hmissing)
    · refine hrow.mpr fun key _ p hp => ?_
      obtain ⟨hkind, x, y, hx, hy, hcases⟩ := comparePercent_eq_some hp
      refine ⟨hkind, x, y, hx, hy, hcases.imp id fun h => ⟨?_, h.2⟩⟩
      exact le_antisymm h.1 (caseSeconds_nonneg hx)

end Pair

/-- **Run comparison invents nothing, unless a count hides under an inherited name.** For two
verified runs of one target the rows are as they should be exactly if no run with obscured counts
lacks a case of the other one. Without a verified reference every row is merely recorded. -/
theorem compareRuns_inventsNothing_iff (current : Snapshot) :
    (∀ (reference : Snapshot) (performance previous : Performance),
      reference.targetKey = current.targetKey → verifiedPerformance current = some performance →
      verifiedPerformance reference = some previous →
      ∃ rows, compareRuns current (some reference) = some rows ∧
        (NothingInvented performance previous rows ↔
          (previous.Obscured → ∀ key ∈ performance.keys, key ∈ previous.keys) ∧
            (performance.Obscured → ∀ key ∈ previous.keys, key ∈ performance.keys))) ∧
      ∀ (reference : Option Snapshot),
        (∀ r ∈ reference, r.targetKey = current.targetKey) →
        reference.bind verifiedPerformance = none →
        ∃ rows, compareRuns current reference = some rows ∧ ∀ row ∈ rows,
          row.kind = .recorded ∧ row.addedSeconds = none ∧ row.percent = none := by
  constructor
  · intro reference performance previous htarget hcurrent hreference
    exact ⟨_, compareRuns_verified htarget hcurrent hreference,
      nothingInvented_iff hcurrent hreference⟩
  · intro reference htarget hreference
    have hthrow : ¬ (reference.any fun r => r.targetKey ≠ current.targetKey) = true := by
      cases reference with
      | none => simp
      | some reference => simpa using htarget reference rfl
    unfold compareRuns
    rw [if_neg hthrow, hreference]
    cases verifiedPerformance current with
    | none => exact ⟨[], rfl, fun _ h => absurd h List.not_mem_nil⟩
    | some performance =>
        refine ⟨_, rfl, fun row hrow => ?_⟩
        obtain ⟨key, -, rfl⟩ := List.mem_map.mp hrow
        exact ⟨rfl, rfl, rfl⟩

/-- A verified run of one commit with these cases and counts. -/
def Snapshot.withCases (cases : List CaseTiming) (caseStatuses : Dict String Nat)
    (unique : (cases.map CaseTiming.caseKey).Nodup) : Snapshot :=
  { Snapshot.ofCommit "a" .endOf2024 with
    performance := some {
      durationSeconds := none
      caseStatuses
      cases
      casesComplete := none
      unique
      counted := by simp } }

/-- One case, and a recorded count of zero under a name that objects inherit. -/
def obscuredRun : Snapshot :=
  .withCases [.passedCase "install" none] ((Dict.empty.set "passed" 1).set "constructor" 0) (by
    decide)

/-- One more case. -/
def laterRun : Snapshot :=
  .withCases [.passedCase "install" none, .passedCase "update" none] (Dict.empty.set "passed" 2)
    (by decide)

/-- The added case counts as not recorded before, though the earlier run lists all its cases. -/
theorem compareRuns_obscured : ∃ performance previous rows,
    obscuredRun.targetKey = laterRun.targetKey ∧ verifiedPerformance laterRun = some performance ∧
    verifiedPerformance obscuredRun = some previous ∧
    compareRuns laterRun (some obscuredRun) = some rows ∧ previous.CompleteInventory ∧
    (∃ row ∈ rows, row.key ∉ previous.keys ∧ row.kind = .notRecordedBefore) ∧
    ¬ NothingInvented performance previous rows := by
  have hcounts : ∀ status : String, [CaseTiming.passedCase "install" none].countP
      (fun item => item.status.text = status) =
        ((Dict.empty.set "passed" 1).set "constructor" 0).getD status 0 := by
    intro status
    by_cases hpassed : status = "passed"
    · subst hpassed
      decide
    · by_cases hinherited : status = "constructor"
      · subst hinherited
        decide
      · have hstatus : ¬ (CaseTiming.passedCase "install" none).status.text = status :=
          fun heq => hpassed heq.symm
        rw [List.countP_cons_of_neg (by simpa using hstatus), List.countP_nil, Dict.getD,
          Dict.get?_set, Dict.get?_set, if_neg (Ne.symm hinherited), if_neg (Ne.symm hpassed)]
        rfl
  refine ⟨_, _, _, by decide, rfl, rfl, rfl, hcounts, ?_, ?_⟩
  · exact ⟨_, List.mem_cons_of_mem _ (List.mem_singleton_self _), by decide, by decide⟩
  · intro h
    have hrow := (h.added _ (List.mem_cons_of_mem _ (List.mem_singleton_self _))).mpr
      ⟨by decide, hcounts⟩
    revert hrow
    decide

theorem compareRuns_inventsNothing_iff_small : ∃ rows,
    compareRuns currentRun (some referenceRun) = some rows ∧ ∀ row ∈ rows, row.kind = .addedCase →
      row.key ∉ [CaseTiming.passedCase "install" none, .passedCase "remove" none].map
      CaseTiming.caseKey := by
  obtain ⟨rows, hrows, hiff⟩ := (compareRuns_inventsNothing_iff currentRun).1 referenceRun _ _
    (by decide) rfl rfl
  have hgood := hiff.mpr ⟨fun h => absurd h.2.2 (by decide), fun h => absurd h.1 (by decide)⟩
  exact ⟨rows, hrows, fun row hrow hkind => ((hgood.added row hrow).mp hkind).1⟩

end FlatpakBlackbox
