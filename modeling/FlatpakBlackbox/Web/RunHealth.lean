import FlatpakBlackbox.Web.Charts

set_option autoImplicit false

/-! # The evidence calendar

`evidenceDays` of `RunHealth.tsx`: the last thirty UTC days up to the latest one with a snapshot, or
fewer if the snapshots do not go back that far. The dates are sorted as texts, which is their order
as days as long as the years have four digits.
-/

namespace FlatpakBlackbox

open PyLib

/-! ## Days with evidence -/

inductive EvidenceState where
  | missing
  | verified
  | unverified
  deriving DecidableEq, Repr

/-- `{ date, entry, state, label }`. -/
structure EvidenceDay where
  date : String
  entry : Option Snapshot
  state : EvidenceState
  label : String

/-- `state` of a day. -/
def evidenceState : Option Snapshot → EvidenceState
  | none => .missing
  | some entry => if entry.complete = true ∧
      entry.verification = .current then .verified else .unverified

/-- `label` of a day. -/
def evidenceLabel : Option Snapshot → String
  | none => "No coverage snapshot"
  | some entry =>
      if evidenceState (some entry) = .verified then "Verified evidence"
      else if entry.verification = .notRun then "No test report"
      else if entry.complete = false then "Incomplete results"
      else s!"{entry.verification.text} evidence"

/-- `new Map(entries.map((entry) => [utcDay(entry.timestamp), entry]))`. -/
def byDay (entries : List Snapshot) : Dict String Snapshot :=
  Dict.ofList (entries.map fun entry => (entry.timestamp.utcDay, entry))

/-- The day of an instant. -/
def evidenceDay (days : Dict String Snapshot) (instant : Int) : EvidenceDay :=
  let date := String.ofList ((toISOString instant).toList.take 10)
  let entry := days.get? date
  ⟨date, entry, evidenceState entry, evidenceLabel entry⟩

/-- What `Array.from` makes of a length. -/
def toLength (length : ℚ) : Nat := ⌊length⌋.toNat

/-- `evidenceDays(entries)`; a date that does not parse makes the length `NaN`. -/
def evidenceDays (entries : List Snapshot) : List EvidenceDay :=
  let days := byDay entries
  let dates := days.keys.insertionSort fun a b => a ≤ b
  match dates.getLast?.bind parseDate, dates.head?.bind parseDate with
  | some last, some earliest =>
      let first := max earliest (last - 29 * millisecondsPerDay)
      let length := toLength (((last - first : Int) : ℚ) / millisecondsPerDay + 1)
      (List.range length).map fun (index : Nat) =>
        evidenceDay days (first + index * millisecondsPerDay)
  | _, _ => []

/-! ## Dates in order -/

theorem append_lt_append {a b rest rest' : List Char} (hlength : a.length = b.length) (h : a < b) :
    a ++ rest < b ++ rest' := by
  induction a generalizing b with
  | nil =>
      obtain rfl := List.eq_nil_of_length_eq_zero hlength.symm
      exact absurd h (lt_irrefl _)
  | cons c a ih =>
      cases b with
      | nil => cases hlength
      | cons d b =>
          rw [List.cons_append, List.cons_append, List.cons_lt_cons_iff]
          rcases List.cons_lt_cons_iff.mp h with hlt | ⟨rfl, hlt⟩
          · exact .inl hlt
          · exact .inr ⟨rfl, ih (Nat.succ.inj hlength) hlt⟩

/-- Numbers of one width are ordered as their texts. -/
theorem digits_lt_digits {width n n' : Nat} (h : n < n') (hn' : n' < 10 ^ width) :
    digits width n < digits width n' := by
  induction width generalizing n n' with
  | zero =>
      rw [Nat.pow_zero] at hn'
      omega
  | succ width ih =>
      rw [Nat.pow_succ] at hn'
      have hlength : (digits width (n / 10)).length = (digits width (n' / 10)).length := by
        rw [digits_length, digits_length]
      rw [digits, digits]
      by_cases hdiv : n / 10 < n' / 10
      · exact append_lt_append hlength (ih hdiv (by omega))
      · have heq : n / 10 = n' / 10 := by omega
        have hmod : n % 10 < n' % 10 := by omega
        rw [heq]
        refine List.append_left_lt ?_
        have hchar : ∀ a < 10, ∀ b < 10, a < b →
            [Char.ofNat ('0'.toNat + a)] < [Char.ofNat ('0'.toNat + b)] := by decide
        exact hchar _ (by omega) _ (by omega) hmod

theorem dayFromYear_mono {year year' : Int} (h : year ≤ year') :
    dayFromYear year ≤ dayFromYear year' := by
  unfold dayFromYear
  omega

theorem yearFromDay_mono {day day' : Int} (h : day ≤ day') :
    yearFromDay day ≤ yearFromDay day' := by
  by_contra hlt
  have hlower := (yearFromDay_spec day).1
  have hupper := (yearFromDay_spec day').2
  have hyears := dayFromYear_mono (show yearFromDay day' + 1 ≤ yearFromDay day by omega)
  omega

/-- Days between days of four-digit years. -/
theorem fourDigitYear_between {day middle day' : Int} (h : FourDigitYear day)
    (h' : FourDigitYear day')
    (hle : day ≤ middle) (hle' : middle ≤ day') : FourDigitYear middle :=
  ⟨h.1.trans (yearFromDay_mono hle), (yearFromDay_mono hle').trans h'.2⟩

/-- Later days of a year have a later month, or the same one and a later day of the month. -/
theorem monthDay_lt {lengths : List Nat} (start : Nat) {rest rest' : Nat} (h : rest < rest')
    (hsum : rest' < lengths.sum) :
    (monthDay lengths start rest).1 < (monthDay lengths start rest').1 ∨
      (monthDay lengths start rest).1 = (monthDay lengths start rest').1 ∧
        (monthDay lengths start rest).2 < (monthDay lengths start rest').2 := by
  induction lengths generalizing start rest rest' with
  | nil => exact absurd hsum (by simp)
  | cons length lengths ih =>
      rw [List.sum_cons] at hsum
      rw [monthDay, monthDay]
      by_cases hrest' : rest' < length
      · rw [if_pos hrest', if_pos (by omega)]
        exact .inr ⟨rfl, by simpa using h⟩
      · rw [if_neg hrest']
        by_cases hrest : rest < length
        · rw [if_pos hrest]
          obtain ⟨i, day, heq, -⟩ :=
            monthDay_spec (start + 1) (show rest' - length < lengths.sum by omega)
          rw [heq]
          exact .inl (by simp; omega)
        · rw [if_neg hrest]
          exact ih (start + 1) (by omega) (by omega)

/-- A date in parts: year, month and day of the month have their widths. -/
theorem dateText_parts {day : Int} (h : FourDigitYear day) : ∃ month dayOfMonth,
    monthDay (monthLengths (yearFromDay day)) 1 (day - dayFromYear (yearFromDay day)).toNat =
      (month, dayOfMonth) ∧
    dateText day = digits 4 (yearFromDay day).toNat ++
      ('-' :: (digits 2 month ++ ('-' :: digits 2 dayOfMonth))) ∧
    month < 10 ^ 2 ∧ dayOfMonth < 10 ^ 2 ∧
    (day - dayFromYear (yearFromDay day)).toNat < (monthLengths (yearFromDay day)).sum := by
  obtain ⟨hlow, hhigh⟩ := yearFromDay_spec day
  rw [dayFromYear_succ] at hhigh
  have hrest : (day - dayFromYear (yearFromDay day)).toNat
      < (monthLengths (yearFromDay day)).sum := by omega
  obtain ⟨i, d, heq, hi, -, hle, -⟩ := monthDay_spec 1 hrest
  have hyearText : yearText (yearFromDay day) = digits 4 (yearFromDay day).toNat := if_pos h
  have hbound : ∀ j < 12, (monthLengths (yearFromDay day)).getD j 0 ≤ 31 := by
    unfold monthLengths
    cases isLeapYear (yearFromDay day) <;> decide
  refine ⟨1 + i, d, heq, ?_, ?_, ?_, hrest⟩
  · unfold dateText
    dsimp only
    rw [heq, hyearText, List.append_assoc, List.cons_append]
  · have hi12 : i < 12 := hi
    omega
  · exact lt_of_le_of_lt (hle.trans (hbound i hi)) (by decide)

/-- **Dates are ordered as their texts.** -/
theorem dateText_lt {day day' : Int} (h : FourDigitYear day) (h' : FourDigitYear day')
    (hlt : day < day') : dateText day < dateText day' := by
  obtain ⟨month, dayOfMonth, hmonth, htext, -, hd, -⟩ := dateText_parts h
  obtain ⟨month', dayOfMonth', hmonth', htext', hm', hd', hrest'⟩ := dateText_parts h'
  have hlength : ∀ a b width : Nat, (digits width a).length = (digits width b).length := by
    intro a b width
    rw [digits_length, digits_length]
  rw [htext, htext']
  rcases lt_or_eq_of_le (yearFromDay_mono hlt.le) with hyear | hyear
  · have hnat : (yearFromDay day).toNat < (yearFromDay day').toNat := by
      have := h.1
      omega
    have hwidth : (yearFromDay day').toNat < 10 ^ 4 := by
      have := h'.2
      omega
    exact append_lt_append (hlength _ _ _) (digits_lt_digits hnat hwidth)
  · rw [hyear] at hmonth ⊢
    have hlow := (yearFromDay_spec day).1
    rw [hyear] at hlow
    have hdays : (day - dayFromYear (yearFromDay day')).toNat <
        (day' - dayFromYear (yearFromDay day')).toNat := by omega
    have hparts := monthDay_lt 1 hdays hrest'
    rw [hmonth, hmonth'] at hparts
    refine List.append_left_lt (List.cons_lt_cons_iff.mpr (.inr ⟨rfl, ?_⟩))
    rcases hparts with hmonths | ⟨hmonths, hdayOfMonth⟩
    · exact append_lt_append (hlength _ _ _) (digits_lt_digits hmonths hm')
    · obtain rfl : month = month' := hmonths
      refine List.append_left_lt (List.cons_lt_cons_iff.mpr (.inr ⟨rfl, ?_⟩))
      exact digits_lt_digits hdayOfMonth hd'

/-- The text of a day. -/
def dayText (day : Int) : String := .ofList (dateText day)

theorem utcDay_eq_dayText {t : Timestamp} (h : t.FourDigitYear) : t.utcDay = dayText t.day := by
  rw [t.utcDay_eq, List.take_of_length_le (dateText_length_eq h).le, dayText]

theorem dayText_lt {day day' : Int} (h : FourDigitYear day) (h' : FourDigitYear day')
    (hlt : day < day') : dayText day < dayText day' := by
  rw [String.lt_iff_toList_lt, dayText, dayText, String.toList_ofList, String.toList_ofList]
  exact dateText_lt h h' hlt

theorem le_of_dayText_le {day day' : Int} (h : FourDigitYear day) (h' : FourDigitYear day')
    (hle : dayText day ≤ dayText day') : day ≤ day' := by
  by_contra hlt
  exact absurd (dayText_lt h' h (not_le.mp hlt)) (not_lt.mpr hle)

/-! ## The map by days -/

section ByDay

variable {entries : List Snapshot} {date : String}

theorem get?_byDay_none : (byDay entries).get? date = none ↔
    ∀ entry ∈ entries, entry.timestamp.utcDay ≠ date := by
  rw [byDay, Dict.get?_ofList, List.lookup_eq_none_iff]
  constructor
  · intro h entry hentry heq
    have hpair : (entry.timestamp.utcDay, entry) ∈
        (entries.map fun entry => (entry.timestamp.utcDay, entry)).reverse :=
      List.mem_reverse.mpr (List.mem_map.mpr ⟨entry, hentry, rfl⟩)
    exact bne_iff_ne.mp (h _ hpair) heq.symm
  · intro h pair hpair
    obtain ⟨entry, hentry, rfl⟩ := List.mem_map.mp (List.mem_reverse.mp hpair)
    exact bne_iff_ne.mpr (h entry hentry).symm

/-- The last entry of a day is the one that is found. -/
theorem get?_byDay_last {before after : List Snapshot} {entry : Snapshot}
    (hentry : entry.timestamp.utcDay = date) (hafter : ∀ later ∈ after,
    later.timestamp.utcDay ≠ date) :
    (byDay (before ++ entry :: after)).get? date = some entry := by
  have hnone : ((after.map fun entry => (entry.timestamp.utcDay, entry)).reverse).lookup
    date = none := by
    rw [← Dict.get?_ofList, ← byDay]
    exact get?_byDay_none.mpr hafter
  rw [byDay, Dict.get?_ofList, List.map_append, List.map_cons, List.reverse_append,
    List.reverse_cons,
    List.append_assoc, List.lookup_append, hnone, Option.none_or, List.singleton_append,
    List.lookup_cons]
  simp [hentry]

theorem mem_keys_byDay : date ∈ (byDay entries).keys ↔
    ∃ entry ∈ entries, entry.timestamp.utcDay = date := by
  rw [← not_iff_not, ← Dict.get?_eq_none_iff, get?_byDay_none]
  push Not
  rfl

/-- The first and the last date, in the order of texts. -/
theorem exists_bounds {keys : List String} (hne : keys ≠ []) : ∃ low high,
    (keys.insertionSort fun a b => a ≤ b).head? = some low ∧
    (keys.insertionSort fun a b => a ≤ b).getLast? = some high ∧ low ∈ keys ∧ high ∈ keys ∧
    ∀ key ∈ keys, low ≤ key ∧ key ≤ high := by
  have hsorted : (keys.insertionSort fun a b => a ≤ b).Pairwise fun a b => a ≤ b :=
    List.pairwise_insertionSort _ keys
  have hmem : ∀ key, key ∈ keys.insertionSort (fun a b => a ≤ b) ↔ key ∈ keys :=
    fun key => List.mem_insertionSort _
  have hsome : keys.insertionSort (fun a b => a ≤ b) ≠ [] := by
    intro hnil
    obtain ⟨key, hkey⟩ := List.exists_mem_of_ne_nil keys hne
    rw [← hmem, hnil] at hkey
    exact absurd hkey List.not_mem_nil
  generalize keys.insertionSort (fun a b => a ≤ b) = sorted at *
  refine ⟨sorted.head hsome, sorted.getLast hsome, List.head?_eq_some_head hsome,
    List.getLast?_eq_some_getLast hsome, (hmem _).mp (List.head_mem hsome),
    (hmem _).mp (List.getLast_mem hsome), fun key hkey => ?_⟩
  have hkey' := (hmem key).mpr hkey
  constructor
  · exact hsorted.rel_head hkey'
  · exact hsorted.rel_getLast hkey'

end ByDay

/-! ## The calendar -/

theorem dayOfInstant_mul (day : Int) : dayOfInstant (millisecondsPerDay * day) = day :=
  Int.mul_ediv_cancel_left _ (by decide)

theorem evidenceDay_eq {day : Int} (h : FourDigitYear day) (days : Dict String Snapshot) :
    evidenceDay days (millisecondsPerDay * day) =
      ⟨dayText day, days.get? (dayText day), evidenceState (days.get? (dayText day)),
        evidenceLabel (days.get? (dayText day))⟩ := by
  have hdate : String.ofList ((toISOString (millisecondsPerDay * day)).toList.take 10) =
    dayText day := by
    rw [toISOString, dayOfInstant_mul, String.toList_ofList,
      List.take_append_of_le_length (dateText_length _),
      List.take_of_length_le (dateText_length_eq h).le, dayText]
  unfold evidenceDay
  rw [hdate]

/-- The length comes out as a whole number of days. -/
theorem toLength_days (first last : Int) :
    toLength (((millisecondsPerDay * last - millisecondsPerDay * first : Int) : ℚ) /
    millisecondsPerDay + 1)
      = (last - first + 1).toNat := by
  have hvalue : ((millisecondsPerDay * last - millisecondsPerDay * first : Int) : ℚ) /
    millisecondsPerDay + 1
      = ((last - first + 1 : Int) : ℚ) := by
    have hne : (millisecondsPerDay : ℚ) ≠ 0 := by norm_num [millisecondsPerDay]
    push_cast
    field_simp
  rw [hvalue, toLength, Int.floor_intCast]

/-- The calendar of the days from `first` to `last`. -/
theorem evidenceDays_eq {entries : List Snapshot} (hne : entries ≠ [])
    (hyears : ∀ entry ∈ entries, entry.timestamp.FourDigitYear) : ∃ earliest ∈ entries,
    ∃ latest ∈ entries,
      (∀ entry ∈ entries, earliest.timestamp.day ≤ entry.timestamp.day ∧
        entry.timestamp.day ≤ latest.timestamp.day) ∧
      let first := max earliest.timestamp.day (latest.timestamp.day - 29)
      evidenceDays entries =
        (List.range (latest.timestamp.day - first + 1).toNat).map fun (index : Nat) =>
          evidenceDay (byDay entries) (millisecondsPerDay * (first + index)) := by
  have hkeys : (byDay entries).keys ≠ [] := by
    obtain ⟨entry, hentry⟩ := List.exists_mem_of_ne_nil entries hne
    exact List.ne_nil_of_mem (mem_keys_byDay.mpr ⟨entry, hentry, rfl⟩)
  obtain ⟨low, high, hhead, hlast, hlow, hhigh, hbounds⟩ := exists_bounds hkeys
  obtain ⟨earliest, hearliest, rfl⟩ := mem_keys_byDay.mp hlow
  obtain ⟨latest, hlatest, rfl⟩ := mem_keys_byDay.mp hhigh
  refine ⟨earliest, hearliest, latest, hlatest, fun entry hentry => ?_, ?_⟩
  · have hbetween := hbounds _ (mem_keys_byDay.mpr ⟨entry, hentry, rfl⟩)
    rw [utcDay_eq_dayText (hyears _ hearliest), utcDay_eq_dayText (hyears _ hlatest),
      utcDay_eq_dayText (hyears _ hentry)] at hbetween
    exact ⟨le_of_dayText_le (hyears _ hearliest) (hyears _ hentry) hbetween.1,
      le_of_dayText_le (hyears _ hentry) (hyears _ hlatest) hbetween.2⟩
  · have hfirst : max (millisecondsPerDay * earliest.timestamp.day)
        (millisecondsPerDay * latest.timestamp.day - 29 * millisecondsPerDay) =
          millisecondsPerDay * max earliest.timestamp.day (latest.timestamp.day - 29) := by
      unfold millisecondsPerDay
      omega
    unfold evidenceDays
    dsimp only
    rw [hhead, hlast, Option.bind_some, Option.bind_some, parseDate_utcDay (hyears _ hearliest),
      parseDate_utcDay (hyears _ hlatest)]
    dsimp only
    rw [hfirst, toLength_days]
    refine List.map_congr_left fun index _ => ?_
    rw [mul_add, mul_comm (index : Int)]

/-- **The evidence calendar is contiguous and faithful.** It ends on the latest day with a snapshot
and has the days back to the earliest one, thirty at most. A day with snapshots shows the last one
of the list, as verified if it is complete and current; the other days are missing. -/
theorem evidenceDays_calendar {entries : List Snapshot} (hne : entries ≠ [])
    (hyears : ∀ entry ∈ entries, entry.timestamp.FourDigitYear) : ∃ earliest ∈ entries,
    ∃ latest ∈ entries,
      (∀ entry ∈ entries, earliest.timestamp.day ≤ entry.timestamp.day ∧
        entry.timestamp.day ≤ latest.timestamp.day) ∧
      ((evidenceDays entries).length : Int) =
        min 30 (latest.timestamp.day - earliest.timestamp.day + 1) ∧
      ∀ (index : Nat) (row : EvidenceDay) (day : Int), (evidenceDays entries)[index]? = some row →
        day = latest.timestamp.day + 1 - (evidenceDays entries).length + index →
        row.date = dayText day ∧
        (∀ before entry after, entries = before ++ entry :: after → entry.timestamp.day = day →
          (∀ later ∈ after, later.timestamp.day ≠ day) → row.entry = some entry ∧
            row.state ≠ .missing ∧
            (row.state = .verified ↔ entry.complete = true ∧ entry.verification = .current)) ∧
        ((∀ entry ∈ entries, entry.timestamp.day ≠ day) → row.entry = none ∧
        row.state = .missing) := by
  obtain ⟨earliest, hearliest, latest, hlatest, hbounds, heq⟩ := evidenceDays_eq hne hyears
  have hspan := (hbounds latest hlatest).1
  have hlength : ((evidenceDays entries).length : Int) =
      min 30 (latest.timestamp.day - earliest.timestamp.day + 1) := by
    rw [heq, List.length_map, List.length_range]
    omega
  refine ⟨earliest, hearliest, latest, hlatest, hbounds, hlength, fun index row day hrow hday => ?_⟩
  have hindex : index < (evidenceDays entries).length := by
    by_contra hout
    rw [List.getElem?_eq_none (not_lt.mp hout)] at hrow
    cases hrow
  have hinstant : max earliest.timestamp.day (latest.timestamp.day - 29) + index = day := by omega
  have hyear : FourDigitYear day :=
    fourDigitYear_between (hyears _ hearliest) (hyears _ hlatest) (by omega) (by omega)
  -- With four digits a year, the text of a day determines the day.
  have hday_iff : ∀ entry ∈ entries, entry.timestamp.utcDay = dayText day ↔
    entry.timestamp.day = day := by
    intro entry hentry
    rw [utcDay_eq_dayText (hyears entry hentry)]
    constructor
    · intro htext
      exact le_antisymm (le_of_dayText_le (hyears entry hentry) hyear htext.le)
        (le_of_dayText_le hyear (hyears entry hentry) htext.ge)
    · exact fun h => h ▸ rfl
  have hvalue : row = evidenceDay (byDay entries) (millisecondsPerDay * day) := by
    rw [heq, List.getElem?_map, List.getElem?_range (by
      rw [heq, List.length_map, List.length_range] at hindex
      exact hindex), Option.map_some] at hrow
    rw [← hinstant]
    exact (Option.some.inj hrow).symm
  rw [hvalue, evidenceDay_eq hyear]
  refine ⟨rfl, ?_, ?_⟩
  · intro before entry after hsplit hentry hafter
    have hmem : entry ∈ entries := by
      rw [hsplit]
      exact List.mem_append_right _ (List.mem_cons_self ..)
    -- `new Map` keeps the last entry of a day.
    have hfound : (byDay entries).get? (dayText day) = some entry := by
      rw [hsplit]
      refine get?_byDay_last ((hday_iff entry hmem).mpr hentry) fun later hlater htext => ?_
      refine hafter later hlater ((hday_iff later ?_).mp htext)
      rw [hsplit]
      exact List.mem_append_right _ (List.mem_cons_of_mem _ hlater)
    rw [hfound]
    refine ⟨rfl, ?_, ?_⟩
    · unfold evidenceState
      dsimp only
      split
      · decide
      · decide
    · unfold evidenceState
      dsimp only
      split
      · next hgood => exact iff_of_true rfl hgood
      · next hbad => exact iff_of_false (by decide) hbad
  · intro hnone
    have hmissing : (byDay entries).get? (dayText day) = none :=
      get?_byDay_none.mpr fun entry hentry htext =>
        hnone entry hentry ((hday_iff entry hentry).mp htext)
    rw [hmissing]
    exact ⟨rfl, rfl⟩

theorem evidenceDays_calendar_small : ∃ earliest ∈ distantDays, ∃ latest ∈ distantDays,
    ((evidenceDays distantDays).length : Int) =
    min 30 (latest.timestamp.day - earliest.timestamp.day + 1) := by
  obtain ⟨earliest, hearliest, latest, hlatest, -, hlength, -⟩ :=
    @evidenceDays_calendar distantDays (by decide +kernel) (by decide +kernel)
  exact ⟨earliest, hearliest, latest, hlatest, hlength⟩

end FlatpakBlackbox
