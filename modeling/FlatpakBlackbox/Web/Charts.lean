import FlatpakBlackbox.Web.Comparison

set_option autoImplicit false

/-! # Chart rows

`dailyEntries`, `chartRows` of `history.ts` and `outcomeRows`, `timingRows` of `performance.ts`. The
entries are sorted by instant, and a row without an entry stands behind an entry whose next entry is
more than one UTC day later, so that no line of a chart bridges the days between.
-/

namespace FlatpakBlackbox

open PyLib

/-! ## Days -/

/-- `Date.parse` of a date without a time; `none` is `NaN`. -/
def parseDate (date : String) : Option Int :=
  (readDate date.toList).bind fun (day, rest) =>
    if rest = [] then some (millisecondsPerDay * day) else none

/-- `{ day, date, entry }`; a day that is `NaN` is `none`. -/
structure DailyRow where
  day : Option Int
  date : String
  entry : Option Snapshot

/-- The row without an entry that `dailyEntries` puts behind the last row, if a day is missing. -/
def missingDay (previous : Option DailyRow) (day : Option Int) : List DailyRow :=
  match previous.bind DailyRow.day, day with
  | some before, some day => if day - before > 1 then [⟨some (before + 1), "", none⟩] else []
  | _, _ => []

/-- One turn of the loop of `dailyEntries`. -/
def addEntry (rows : List DailyRow) (entry : Snapshot) : List DailyRow :=
  let date := entry.timestamp.utcDay
  let day := (parseDate date).map fun milliseconds => milliseconds / millisecondsPerDay
  rows ++ missingDay rows.getLast? day ++ [⟨day, date, some entry⟩]

/-- `[...entries].sort((a, b) => Date.parse(a.timestamp) - Date.parse(b.timestamp))`. -/
def sortedEntries (entries : List Snapshot) : List Snapshot :=
  entries.insertionSort fun a b => a.timestamp.instant ≤ b.timestamp.instant

/-- `dailyEntries(entries)`. -/
def dailyEntries (entries : List Snapshot) : List DailyRow :=
  (sortedEntries entries).foldl addEntry []

/-! ## Credit -/

/-- `Series`. -/
inductive Series where
  | cli
  | library
  | cliCommand
  | cliOption
  | libraryFunction
  | librarySignal
  deriving DecidableEq, Repr

def Series.text : Series → String
  | .cli => "cli"
  | .library => "library"
  | .cliCommand => "cli-command"
  | .cliOption => "cli-option"
  | .libraryFunction => "library-function"
  | .librarySignal => "library-signal"

/-- `series[name].label`. -/
def Series.label : Series → String
  | .cli => "CLI behavior"
  | .library => "Library behavior"
  | .cliCommand => "CLI commands"
  | .cliOption => "CLI options"
  | .libraryFunction => "Library functions"
  | .librarySignal => "Library signals"

/-- What `credit` returns. -/
structure MetricCredit where
  passed : Nat
  total : Nat
  percent : ℚ
  deriving DecidableEq

/-- `credit(entry, name)`. -/
def metricCredit (entry : Snapshot) (name : Series) : Option MetricCredit :=
  if entry.complete = true ∧ entry.verification = .current then
    match entry.metrics.get? name.text with
    | none => none
    | some metric =>
        match metric.passed with
        | none => none
        | some passed =>
            if metric.total = 0 then none
            else some ⟨passed, metric.total, passed * 100 / metric.total⟩
  else none

/-- A row of `chartRows`. -/
structure ChartRow where
  day : Option Int
  date : String
  percent : Option ℚ
  passed : Option Nat
  total : Option Nat
  label : String

/-- `chartRows(entries, name)`. -/
def chartRows (entries : List Snapshot) (name : Series) : List ChartRow :=
  (dailyEntries entries).map fun row =>
    let value := row.entry.bind fun entry => metricCredit entry name
    ⟨row.day, row.date, value.map MetricCredit.percent, value.map MetricCredit.passed,
      value.map MetricCredit.total, name.label⟩

/-! ## Outcomes and timings -/

/-- `outcomeNames`. -/
def outcomeNames : List CaseStatus :=
  [.passed, .failed, .setupError, .unmetPrerequisite, .unsupported, .notSelected, .pending]

/-- `outcomeSeries[status].label`. -/
def CaseStatus.label : CaseStatus → String
  | .passed => "Passed"
  | .failed => "Failed"
  | .setupError => "Setup error"
  | .unmetPrerequisite => "Unmet prerequisite"
  | .unsupported => "Unsupported"
  | .notSelected => "Not selected"
  | .pending => "Pending"

/-- `timingSeries[name].label`. -/
def TimingSeries.label : TimingSeries → String
  | .durationSeconds => "Total"
  | .setupSeconds => "Setup"
  | .executionSeconds => "Execution"
  | .cleanupSeconds => "Cleanup"

/-- A row of `outcomeRows`. -/
structure OutcomeRow where
  day : Option Int
  date : String
  status : CaseStatus
  count : Option Nat
  label : String

/-- `outcomeRows(entries)`. -/
def outcomeRows (entries : List Snapshot) : List OutcomeRow :=
  (dailyEntries entries).flatMap fun row =>
    outcomeNames.map fun status =>
      let count := row.entry.bind fun entry =>
        (verifiedPerformance entry).bind fun performance =>
          performance.caseStatuses.get? status.text
      ⟨row.day, row.date, status, count, status.label⟩

/-- The number that a property name is an array index for. -/
def arrayIndex? (name : String) : Option Nat :=
  name.toNat?.bind fun n => if toString n = name ∧ n < 2 ^ 32 - 1 then some n else none

/-- `Object.entries(object)`: the array indices come first, by their numbers. -/
def objectEntries {α : Type} (object : Dict String α) : List (String × α) :=
  let indices := object.entries.filter fun entry => (arrayIndex? entry.1).isSome
  let names := object.entries.filter fun entry => (arrayIndex? entry.1).isNone
  (indices.insertionSort fun a b => (arrayIndex? a.1).getD 0 ≤ (arrayIndex? b.1).getD 0) ++ names

/-- `runOutcomes(entry)`. -/
def runOutcomes (entry : Snapshot) : String :=
  match verifiedPerformance entry with
  | some performance =>
      let recorded := (objectEntries performance.caseStatuses).filter fun (_, count) => count > 0
      ", ".intercalate (recorded.map fun (status, count) => s!"{count} {status}")
  | none => "No timing"

/-- `caseTiming(entry, key)`. -/
def timedCase (entry : Snapshot) (key : CaseKey) : Option CaseTiming :=
  (verifiedPerformance entry).bind fun performance =>
    performance.cases.find? fun item => item.caseKey = key && hasCaseTiming item

/-- A row of `timingRows`. -/
structure TimingRow where
  day : Option Int
  date : String
  seconds : Option ℚ
  label : String
  outcome : String

/-- `timingRows(entries, name, key)`. -/
def timingRows (entries : List Snapshot) (name : TimingSeries) (key : Option CaseKey) :
    List TimingRow :=
  (dailyEntries entries).map fun row =>
    let item := row.entry.bind fun entry => key.bind (timedCase entry)
    let performance := row.entry.bind verifiedPerformance
    let seconds : Option Seconds := match key with
      | none => performance.bind Performance.durationSeconds
      | some _ =>
          match name with
          | .durationSeconds => item.bind CaseTiming.durationSeconds
          | name => item.bind fun item => item.timings.bind fun timings => timings.phase name
    let outcome := match row.entry, key with
      | some entry, none => runOutcomes entry
      | some _, some _ => (item.map fun item => item.status.text).getD "No timing"
      | none, _ => "No timing"
    let label := match key with
      | none => "Test run"
      | some _ => name.label
    ⟨row.day, row.date, seconds.map Subtype.val, label, outcome⟩

/-! ## The rows in one piece -/

/-- The row of an entry, with its own UTC day. -/
def entryRow (entry : Snapshot) : DailyRow :=
  ⟨some entry.timestamp.day, entry.timestamp.utcDay, some entry⟩

/-- What stands between two consecutive entries. -/
def gapRows (entry next : Snapshot) : List DailyRow :=
  if next.timestamp.day - entry.timestamp.day > 1 then [⟨some (entry.timestamp.day + 1), "", none⟩]
  else []

/-- The rows behind an entry. -/
def rowsAfter : Snapshot → List Snapshot → List DailyRow
  | _, [] => []
  | entry, next :: rest => gapRows entry next ++ entryRow next :: rowsAfter next rest

def gappedRows : List Snapshot → List DailyRow
  | [] => []
  | entry :: rest => entryRow entry :: rowsAfter entry rest

theorem parseDate_utcDay {t : Timestamp} (h : t.FourDigitYear) :
    parseDate t.utcDay = some (millisecondsPerDay * t.day) := by
  have htext : (dateText t.day).take 10 = dateText t.day :=
    List.take_of_length_le (dateText_length_eq h).le
  have hread := readDate_dateText h []
  rw [List.append_nil] at hread
  rw [parseDate, t.utcDay_eq, htext, String.toList_ofList, hread]
  rfl

/-- The row that is pushed for an entry is its own. -/
theorem addEntry_eq {entry : Snapshot} (h : entry.timestamp.FourDigitYear) (rows : List DailyRow) :
    addEntry rows entry =
      rows ++ missingDay rows.getLast? (some entry.timestamp.day) ++ [entryRow entry] := by
  have hday : (millisecondsPerDay * entry.timestamp.day) / millisecondsPerDay =
    entry.timestamp.day :=
    Int.mul_ediv_cancel_left _ (by decide)
  simp only [addEntry, parseDate_utcDay h, Option.map_some, hday]
  rfl

/-- The loop behind the row of an entry. -/
theorem foldl_addEntry {rest : List Snapshot} (h : ∀ entry ∈ rest, entry.timestamp.FourDigitYear)
    (front : List DailyRow) (entry : Snapshot) :
    rest.foldl addEntry (front ++ [entryRow entry]) = front ++ entryRow entry :: rowsAfter
    entry rest := by
  induction rest generalizing front entry with
  | nil => rfl
  | cons next rest ih =>
      obtain ⟨hnext, hrest⟩ := List.forall_mem_cons.mp h
      have hstep : addEntry (front ++ [entryRow entry]) next =
          (front ++ entryRow entry :: gapRows entry next) ++ [entryRow next] := by
        rw [addEntry_eq hnext, List.getLast?_append]
        simp only [List.getLast?_singleton, Option.some_or, List.append_assoc, List.cons_append,
          List.nil_append]
        rfl
      rw [List.foldl_cons, hstep, ih hrest, rowsAfter]
      simp only [List.append_assoc, List.cons_append]

theorem mem_sortedEntries {entries : List Snapshot} {entry : Snapshot} :
    entry ∈ sortedEntries entries ↔ entry ∈ entries := List.mem_insertionSort _

theorem dailyEntries_eq {entries : List Snapshot}
    (h : ∀ entry ∈ entries, entry.timestamp.FourDigitYear) :
    dailyEntries entries = gappedRows (sortedEntries entries) := by
  have hsorted : ∀ entry ∈ sortedEntries entries, entry.timestamp.FourDigitYear :=
    fun entry hentry => h entry (mem_sortedEntries.mp hentry)
  unfold dailyEntries
  cases hlist : sortedEntries entries with
  | nil => rfl
  | cons entry rest =>
      rw [hlist] at hsorted
      obtain ⟨hentry, hrest⟩ := List.forall_mem_cons.mp hsorted
      have hfirst : addEntry [] entry = [] ++ [entryRow entry] := addEntry_eq hentry []
      rw [List.foldl_cons, hfirst, foldl_addEntry hrest]
      rfl

/-! ## Days and gaps -/

/-- One row lies on an earlier day than another. -/
def DailyRow.Before (row later : DailyRow) : Prop :=
  ∃ day day', row.day = some day ∧ later.day = some day' ∧ day < day'

/-- The days of the entries increase strictly. -/
def Ascending (entries : List Snapshot) : Prop :=
  entries.Pairwise fun a b => a.timestamp.day < b.timestamp.day

theorem pairwise_sortedEntries (entries : List Snapshot) :
    (sortedEntries entries).Pairwise fun a b => a.timestamp.instant ≤ b.timestamp.instant := by
  have htotal : Std.Total fun a b : Snapshot => a.timestamp.instant ≤ b.timestamp.instant :=
    ⟨fun a b => le_total _ _⟩
  have htrans : IsTrans Snapshot fun a b => a.timestamp.instant ≤ b.timestamp.instant :=
    ⟨fun a b c => le_trans⟩
  exact List.pairwise_insertionSort _ entries

theorem ascending_sortedEntries {entries : List Snapshot}
    (hdays : (entries.map fun entry => entry.timestamp.day).Nodup) :
    Ascending (sortedEntries entries) := by
  have hperm : (sortedEntries entries).Perm entries := List.perm_insertionSort _ entries
  have hne : (sortedEntries entries).Pairwise fun a b => a.timestamp.day ≠ b.timestamp.day :=
    List.pairwise_map.mp ((hperm.map _).nodup_iff.mpr hdays)
  refine ((pairwise_sortedEntries entries).and hne).imp fun h => lt_of_le_of_ne ?_ h.2
  exact Int.ediv_le_ediv (by decide) h.1

/-- All rows behind an entry lie on later days, one after the other. -/
theorem pairwise_gappedRows {entry : Snapshot} {rest : List Snapshot}
    (h : Ascending (entry :: rest)) :
    (gappedRows (entry :: rest)).Pairwise DailyRow.Before := by
  -- The days of the rows behind an entry are bounded from below by its own.
  have hafter : ∀ (rest : List Snapshot) (entry : Snapshot), Ascending (entry :: rest) →
      (∀ row ∈ rowsAfter entry rest, ∃ day, row.day = some day ∧ entry.timestamp.day < day) ∧
        (rowsAfter entry rest).Pairwise DailyRow.Before := by
    intro rest
    induction rest with
    | nil => exact fun entry _ => ⟨fun row hrow => absurd hrow List.not_mem_nil, .nil⟩
    | cons next rest ih =>
        intro entry h
        obtain ⟨hfirst, hrest⟩ := List.pairwise_cons.mp h
        have hnext := hfirst next (List.mem_cons_self ..)
        obtain ⟨hlater, hpairwise⟩ := ih next hrest
        have hbehind : (entryRow next :: rowsAfter next rest).Pairwise DailyRow.Before := by
          refine List.pairwise_cons.mpr ⟨fun row hrow => ?_, hpairwise⟩
          obtain ⟨day, hday, hlt⟩ := hlater row hrow
          exact ⟨_, day, rfl, hday, hlt⟩
        have hnotBefore : ∀ row ∈ entryRow next :: rowsAfter next rest,
            ∃ day, row.day = some day ∧ next.timestamp.day ≤ day := by
          intro row hrow
          rcases List.mem_cons.mp hrow with rfl | hrow
          · exact ⟨_, rfl, le_refl _⟩
          · obtain ⟨day, hday, hlt⟩ := hlater row hrow
            exact ⟨day, hday, hlt.le⟩
        rw [rowsAfter, gapRows]
        split
        · next hgap =>
            constructor
            · intro row hrow
              rcases List.mem_cons.mp hrow with rfl | hrow
              · exact ⟨_, rfl, by omega⟩
              · obtain ⟨day, hday, hle⟩ := hnotBefore row hrow
                exact ⟨day, hday, by omega⟩
            · refine List.pairwise_cons.mpr ⟨fun row hrow => ?_, hbehind⟩
              obtain ⟨day, hday, hle⟩ := hnotBefore row hrow
              exact ⟨_, day, rfl, hday, by omega⟩
        · refine ⟨fun row hrow => ?_, hbehind⟩
          obtain ⟨day, hday, hle⟩ := hnotBefore row hrow
          exact ⟨day, hday, by omega⟩
  obtain ⟨hlater, hpairwise⟩ := hafter rest entry h
  refine List.pairwise_cons.mpr ⟨fun row hrow => ?_, hpairwise⟩
  obtain ⟨day, hday, hlt⟩ := hlater row hrow
  exact ⟨_, day, rfl, hday, hlt⟩

theorem filterMap_entryRow (entry : Snapshot) (rows : List DailyRow) :
    (entryRow entry :: rows).filterMap DailyRow.entry = entry :: rows.filterMap DailyRow.entry :=
  rfl

theorem filterMap_gapRows (entry next : Snapshot) :
    (gapRows entry next).filterMap DailyRow.entry = [] := by
  unfold gapRows
  split <;> rfl

theorem entry_of_mem_gapRows {entry next : Snapshot} {row : DailyRow}
    (h : row ∈ gapRows entry next) :
    row.entry = none := by
  unfold gapRows at h
  split at h
  · rw [List.mem_singleton.mp h]
  · exact absurd h List.not_mem_nil

theorem filterMap_rowsAfter (entry : Snapshot) (rest : List Snapshot) :
    (rowsAfter entry rest).filterMap DailyRow.entry = rest := by
  induction rest generalizing entry with
  | nil => rfl
  | cons next rest ih =>
      rw [rowsAfter, List.filterMap_append, filterMap_gapRows, List.nil_append,
        filterMap_entryRow, ih]

/-- The rows with an entry are the entries. -/
theorem filterMap_gappedRows (entries : List Snapshot) :
    (gappedRows entries).filterMap DailyRow.entry = entries := by
  cases entries with
  | nil => rfl
  | cons entry rest => rw [gappedRows, filterMap_entryRow, filterMap_rowsAfter]

/-- A row stands for an entry, or for the gap between two consecutive ones. -/
theorem mem_gappedRows {entries : List Snapshot} {row : DailyRow} (h : row ∈ gappedRows entries) :
    (∃ entry, row = entryRow entry) ∨
      ∃ before entry next after, entries = before ++ entry :: next :: after ∧
      row ∈ gapRows entry next := by
  have hafter : ∀ (rest : List Snapshot) (entry : Snapshot), row ∈ rowsAfter entry rest →
      (∃ entry, row = entryRow entry) ∨ ∃ before entry' next after,
        entry :: rest = before ++ entry' :: next :: after ∧ row ∈ gapRows entry' next := by
    intro rest
    induction rest with
    | nil => exact fun entry hrow => absurd hrow List.not_mem_nil
    | cons next rest ih =>
        intro entry hrow
        rw [rowsAfter] at hrow
        rcases List.mem_append.mp hrow with hgap | hrow
        · exact .inr ⟨[], entry, next, rest, rfl, hgap⟩
        rcases List.mem_cons.mp hrow with rfl | hrow
        · exact .inl ⟨next, rfl⟩
        rcases ih next hrow with hentry | ⟨before, entry', next', after, heq, hgap⟩
        · exact .inl hentry
        · exact .inr ⟨entry :: before, entry', next', after, by rw [heq]; rfl, hgap⟩
  cases entries with
  | nil => exact absurd h List.not_mem_nil
  | cons entry rest =>
      rcases List.mem_cons.mp h with rfl | h
      · exact .inl ⟨entry, rfl⟩
      · exact hafter rest entry h

/-- Between two consecutive entries stands their gap, and nothing else. -/
theorem gappedRows_split (before : List Snapshot) (entry next : Snapshot) (after : List Snapshot) :
    ∃ front back, gappedRows (before ++ entry :: next :: after) =
        front ++ entryRow entry :: (gapRows entry next ++ entryRow next :: back) ∧
      front.filterMap DailyRow.entry = before ∧ back.filterMap DailyRow.entry = after := by
  cases before with
  | nil => exact ⟨[], rowsAfter next after, rfl, rfl, filterMap_rowsAfter next after⟩
  | cons first before =>
      have hafter : ∀ (before : List Snapshot) (first : Snapshot), ∃ front,
          rowsAfter first (before ++ entry :: next :: after) =
            front ++ entryRow entry :: (gapRows entry next ++ entryRow next :: rowsAfter next after)
              ∧
          front.filterMap DailyRow.entry = before := by
        intro before
        induction before with
        | nil => exact fun first => ⟨gapRows first entry, rfl, filterMap_gapRows first entry⟩
        | cons second before ih =>
            intro first
            obtain ⟨front, hfront, hentries⟩ := ih second
            refine ⟨gapRows first second ++ entryRow second :: front, ?_, ?_⟩
            · rw [List.cons_append, rowsAfter, hfront, List.append_assoc]
              rfl
            · rw [List.filterMap_append, filterMap_gapRows, List.nil_append,
                filterMap_entryRow, hentries]
      obtain ⟨front, hfront, hentries⟩ := hafter before first
      refine ⟨entryRow first :: front, rowsAfter next after, ?_, ?_, filterMap_rowsAfter next after⟩
      · rw [List.cons_append, gappedRows, hfront]
        rfl
      · rw [filterMap_entryRow, hentries]

/-! ## What the charts show -/

/-- A row without an entry gives no chart a value. -/
theorem charts_null {entries : List Snapshot}
    (hdays : (dailyEntries entries).Pairwise DailyRow.Before)
    {row : DailyRow} (hrow : row ∈ dailyEntries entries) (hnull : row.entry = none) :
    (∀ name, ∀ r ∈ chartRows entries name, r.day = row.day →
      r.percent = none ∧ r.passed = none ∧ r.total = none) ∧
    (∀ name key, ∀ r ∈ timingRows entries name key, r.day = row.day → r.seconds = none) ∧
    ∀ r ∈ outcomeRows entries, r.day = row.day → r.count = none := by
  have hsame : ∀ other ∈ dailyEntries entries, other.day = row.day → other.entry = none := by
    have hsymm : Std.Symm fun a b : DailyRow => a.day ≠ b.day := ⟨fun a b h => h.symm⟩
    have hne : (dailyEntries entries).Pairwise fun a b => a.day ≠ b.day := by
      refine hdays.imp ?_
      rintro a b ⟨day, day', ha, hb, hlt⟩ heq
      rw [ha, hb] at heq
      exact absurd (Option.some.inj heq) (ne_of_lt hlt)
    intro other hother hday
    by_cases heq : other = row
    · rw [heq, hnull]
    · exact absurd hday (hne.forall hother hrow heq)
  refine ⟨fun name r hr hday => ?_, fun name key r hr hday => ?_, fun r hr hday => ?_⟩
  · obtain ⟨other, hother, rfl⟩ := List.mem_map.mp hr
    have hentry := hsame other hother hday
    simp [hentry]
  · obtain ⟨other, hother, rfl⟩ := List.mem_map.mp hr
    have hentry := hsame other hother hday
    cases key with
    | none => simp [hentry]
    | some key => cases name <;> simp [hentry]
  · obtain ⟨other, hother, hr⟩ := List.mem_flatMap.mp hr
    obtain ⟨status, -, rfl⟩ := List.mem_map.mp hr
    have hentry := hsame other hother hday
    simp [hentry]

/-- Every chart has a row for every row. -/
theorem charts_days (entries : List Snapshot) :
    (∀ name, (chartRows entries name).map ChartRow.day = (dailyEntries entries).map DailyRow.day) ∧
    (∀ name key, (timingRows entries name key).map TimingRow.day =
      (dailyEntries entries).map DailyRow.day) ∧
    ∀ row ∈ dailyEntries entries, ∀ status ∈ outcomeNames, ∃ r ∈ outcomeRows entries,
      r.day = row.day ∧ r.status = status := by
  refine ⟨fun name => ?_, fun name key => ?_, fun row hrow status hstatus => ?_⟩
  · rw [chartRows, List.map_map]
    rfl
  · unfold timingRows
    rw [List.map_map]
    rfl
  · exact ⟨_, List.mem_flatMap.mpr ⟨row, hrow, List.mem_map.mpr ⟨status, hstatus, rfl⟩⟩, rfl, rfl⟩

/-- **Charts show every gap, and each one once.** The rows of snapshots of different UTC days
increase strictly by day. Those with an entry are the snapshots by instant, each with its own day.
Between two consecutive ones stands one row without an entry, on the day after the earlier, if they
are more than one day apart, and none otherwise. Every chart has a row for every row, and no value
on one without an entry. -/
theorem dailyEntries_gaps {entries : List Snapshot}
    (hyears : ∀ entry ∈ entries, entry.timestamp.FourDigitYear)
    (hdays : (entries.map fun entry => entry.timestamp.day).Nodup) :
    (dailyEntries entries).Pairwise DailyRow.Before ∧
    (∃ sorted : List Snapshot, sorted.Perm entries ∧
      (sorted.Pairwise fun a b => a.timestamp.instant ≤ b.timestamp.instant) ∧
      (dailyEntries entries).filterMap DailyRow.entry = sorted ∧
      (∀ row ∈ dailyEntries entries, ∀ entry, row.entry = some entry →
        row.day = some entry.timestamp.day ∧ row.date = entry.timestamp.utcDay) ∧
      (∀ before entry next after, sorted = before ++ entry :: next :: after →
        ∃ front back, dailyEntries entries =
            front ++ entryRow entry :: (gapRows entry next ++ entryRow next :: back) ∧
          front.filterMap DailyRow.entry = before ∧ back.filterMap DailyRow.entry = after) ∧
      ∀ row ∈ dailyEntries entries, row.entry = none → ∃ before entry next after,
        sorted = before ++ entry :: next :: after ∧ row ∈ gapRows entry next) ∧
    ((∀ name, (chartRows entries name).map ChartRow.day = (dailyEntries entries).map DailyRow.day) ∧
      (∀ name key, (timingRows entries name key).map TimingRow.day =
        (dailyEntries entries).map DailyRow.day) ∧
      ∀ row ∈ dailyEntries entries, ∀ status ∈ outcomeNames, ∃ r ∈ outcomeRows entries,
        r.day = row.day ∧ r.status = status) ∧
    ∀ row ∈ dailyEntries entries, row.entry = none →
      (∀ name, ∀ r ∈ chartRows entries name, r.day = row.day →
        r.percent = none ∧ r.passed = none ∧ r.total = none) ∧
      (∀ name key, ∀ r ∈ timingRows entries name key, r.day = row.day → r.seconds = none) ∧
      ∀ r ∈ outcomeRows entries, r.day = row.day → r.count = none := by
  have heq := dailyEntries_eq hyears
  have hascending := ascending_sortedEntries hdays
  -- The rows are those of the sorted entries with their gaps, so their days ascend.
  have hpairwise : (dailyEntries entries).Pairwise DailyRow.Before := by
    rw [heq]
    cases hsorted : sortedEntries entries with
    | nil => exact .nil
    | cons entry rest =>
        rw [hsorted] at hascending
        exact pairwise_gappedRows hascending
  refine ⟨hpairwise, ⟨sortedEntries entries, List.perm_insertionSort _ entries, ?_, ?_, ?_, ?_, ?_⟩,
    charts_days entries, fun row hrow hnull => charts_null hpairwise hrow hnull⟩
  · exact pairwise_sortedEntries entries
  · rw [heq, filterMap_gappedRows]
  · intro row hrow entry hentry
    rw [heq] at hrow
    rcases mem_gappedRows hrow with ⟨other, rfl⟩ | ⟨_, _, _, _, _, hgap⟩
    · obtain rfl := Option.some.inj hentry
      exact ⟨rfl, rfl⟩
    · rw [entry_of_mem_gapRows hgap] at hentry
      cases hentry
  · intro before entry next after hsorted
    rw [heq, hsorted]
    exact gappedRows_split before entry next after
  · intro row hrow hnull
    rw [heq] at hrow
    rcases mem_gappedRows hrow with ⟨entry, rfl⟩ | hgap
    · cases hnull
    · exact hgap

/-- Two days with a day between them, the later one first. -/
def distantDays : List Snapshot :=
  [{ Snapshot.ofCommit "a" .startOf2025 with
      timestamp := ⟨"2025-01-02T00:00Z", 1735776000000, by decide +kernel⟩ },
    .ofCommit "a" .endOf2024]

theorem dailyEntries_gaps_small : (dailyEntries distantDays).Pairwise DailyRow.Before :=
  (@dailyEntries_gaps distantDays (by decide +kernel) (by decide +kernel)).1

end FlatpakBlackbox
