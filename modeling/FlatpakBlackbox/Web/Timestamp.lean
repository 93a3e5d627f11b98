import Mathlib.Tactic

set_option autoImplicit false

/-! # Timestamps

The timestamps of the web application: what `timestampSchema` accepts (an ISO 8601 date and time
with `Z` or an offset, seconds optional, any precision), the instant `Date.parse` reads from it in
milliseconds since the epoch, and the text `toISOString` writes for an instant. Years and days are
those of the proleptic Gregorian calendar; a UTC day is the number of days since the epoch.
-/

namespace FlatpakBlackbox

/-! ## Digits -/

/-- The value of an ASCII digit. -/
def digit? (c : Char) : Option Nat :=
  if '0'.toNat ≤ c.toNat ∧ c.toNat ≤ '9'.toNat then some (c.toNat - '0'.toNat) else none

/-- The lowest `width` decimal digits of `n`, padded with zeros. -/
def digits : Nat → Nat → List Char
  | 0, _ => []
  | width + 1, n => digits width (n / 10) ++ [Char.ofNat ('0'.toNat + n % 10)]

/-- Read exactly `width` digits. -/
def readDigits : Nat → List Char → Nat → Option (Nat × List Char)
  | 0, cs, value => some (value, cs)
  | _ + 1, [], _ => none
  | width + 1, c :: cs, value =>
      match digit? c with
      | some d => readDigits width cs (10 * value + d)
      | none => none

/-- Read one character. -/
def readChar (c : Char) : List Char → Option (List Char)
  | c' :: cs => if c' = c then some cs else none
  | [] => none

theorem digits_length (width n : Nat) : (digits width n).length = width := by
  induction width generalizing n with
  | zero => rfl
  | succ width ih => simp [digits, ih]

/-! ## Calendar -/

def isLeapYear (year : Int) : Bool :=
  decide (year % 4 = 0 ∧ (year % 100 ≠ 0 ∨ year % 400 = 0))

/-- The lengths of the months of a year. -/
def monthLengths (year : Int) : List Nat :=
  [31, if isLeapYear year then 29 else 28, 31, 30, 31, 30, 31, 31, 30, 31, 30, 31]

/-- The day on which a year begins. -/
def dayFromYear (year : Int) : Int :=
  365 * (year - 1970) + (year - 1969) / 4 - (year - 1901) / 100 + (year - 1601) / 400

/-- The year a day lies in: an estimate from the mean length of a year, corrected by one. -/
def yearFromDay (day : Int) : Int :=
  let guess := 1970 + day * 400 / 146097
  if day < dayFromYear guess then guess - 1
  else if dayFromYear (guess + 1) ≤ day then guess + 1
  else guess

/-- The month, from 1, and the day of the month, from 1, of a day of the year from 0. -/
def monthDay : List Nat → Nat → Nat → Nat × Nat
  | [], month, rest => (month, rest + 1)
  | length :: lengths, month, rest =>
      if rest < length then (month, rest + 1) else monthDay lengths (month + 1) (rest - length)

/-- The day of a date. -/
def dayOfDate (year : Int) (month day : Nat) : Int :=
  dayFromYear year + ((monthLengths year).take (month - 1)).sum + day - 1

/-! ## Reading -/

/-- `YYYY-MM-DD`, an existing day. -/
def readDate (cs : List Char) : Option (Int × List Char) := do
  let (year, cs) ← readDigits 4 cs 0
  let cs ← readChar '-' cs
  let (month, cs) ← readDigits 2 cs 0
  let cs ← readChar '-' cs
  let (day, cs) ← readDigits 2 cs 0
  if 1 ≤ month ∧ month ≤ 12 ∧ 1 ≤ day ∧ day ≤ (monthLengths year).getD (month - 1) 0 then
    some (dayOfDate year month day, cs)
  else none

/-- The digits of a fraction: the milliseconds of the first three, and what follows them all. -/
def readFraction : List Char → Nat → Nat → Nat × List Char
  | [], scale, value => (value * scale, [])
  | c :: cs, scale, value =>
      match digit? c with
      | some d => if scale = 1 then readFraction cs 1 value
          else readFraction cs (scale / 10) (10 * value + d)
      | none => (value * scale, c :: cs)

/-- `.` and at least one digit, if there is one. -/
def readMilliseconds (cs : List Char) : Option (Nat × List Char) :=
  match readChar '.' cs with
  | none => some (0, cs)
  | some cs =>
      match cs.head?.bind digit? with
      | some _ => some (readFraction cs 1000 0)
      | none => none

/-- `:SS` with an optional fraction, if there is one, in milliseconds. -/
def readSeconds (cs : List Char) : Option (Nat × List Char) :=
  match readChar ':' cs with
  | none => some (0, cs)
  | some cs => do
      let (seconds, cs) ← readDigits 2 cs 0
      let (milliseconds, cs) ← readMilliseconds cs
      if seconds < 60 then some (1000 * seconds + milliseconds, cs) else none

/-- `HH:MM` in minutes. -/
def readMinutes (cs : List Char) : Option (Nat × List Char) := do
  let (hours, cs) ← readDigits 2 cs 0
  let cs ← readChar ':' cs
  let (minutes, cs) ← readDigits 2 cs 0
  if hours < 24 ∧ minutes < 60 then some (60 * hours + minutes, cs) else none

/-- `Z` or `±HH:MM`, in minutes. -/
def readOffset : List Char → Option (Int × List Char)
  | 'Z' :: cs => some (0, cs)
  | '+' :: cs => (readMinutes cs).map fun (minutes, cs) => ((minutes : Int), cs)
  | '-' :: cs => (readMinutes cs).map fun (minutes, cs) => (-(minutes : Int), cs)
  | _ => none

def millisecondsPerDay : Int := 86400000

/-- The instant of a text `timestampSchema` accepts, as `Date.parse` reads it. -/
def parseTimestamp (text : String) : Option Int := do
  let (day, cs) ← readDate text.toList
  let cs ← readChar 'T' cs
  let (minutes, cs) ← readMinutes cs
  let (milliseconds, cs) ← readSeconds cs
  let (offset, cs) ← readOffset cs
  if cs = [] then
    some (millisecondsPerDay * day + 60000 * (minutes - offset) + milliseconds)
  else none

/-! ## Writing -/

/-- The year of `toISOString`: four digits, or a sign and six. -/
def yearText (year : Int) : List Char :=
  if 0 ≤ year ∧ year ≤ 9999 then digits 4 year.toNat
  else (if year < 0 then '-' else '+') :: digits 6 year.natAbs

/-- The date of `toISOString`. -/
def dateText (day : Int) : List Char :=
  let year := yearFromDay day
  let (month, dayOfMonth) := monthDay (monthLengths year) 1 (day - dayFromYear year).toNat
  yearText year ++ '-' :: digits 2 month ++ '-' :: digits 2 dayOfMonth

/-- The time of `toISOString`, from the milliseconds since midnight. -/
def timeText (milliseconds : Nat) : List Char :=
  digits 2 (milliseconds / 3600000) ++ ':' :: digits 2 (milliseconds / 60000 % 60)
    ++ ':' :: digits 2 (milliseconds / 1000 % 60) ++ '.' :: digits 3 (milliseconds % 1000) ++ ['Z']

/-- The UTC day of an instant. -/
def dayOfInstant (instant : Int) : Int := instant / millisecondsPerDay

/-- `new Date(instant).toISOString()`. -/
def toISOString (instant : Int) : String :=
  .ofList (dateText (dayOfInstant instant) ++ 'T' :: timeText (instant % millisecondsPerDay).toNat)

theorem dateText_length (day : Int) : 10 ≤ (dateText day).length := by
  have hyear : ∀ year, 4 ≤ (yearText year).length := by
    intro year
    unfold yearText
    split
    · rw [digits_length]
    · rw [List.length_cons, digits_length]
      omega
  unfold dateText
  have := hyear (yearFromDay day)
  simp only [List.length_append, List.length_cons, digits_length]
  omega

/-! ## Reading what was written -/

theorem digit?_digit (n : Nat) : digit? (Char.ofNat ('0'.toNat + n % 10)) = some (n % 10) := by
  have h : n % 10 < 10 := Nat.mod_lt n (by decide)
  generalize n % 10 = d at h
  revert d
  decide

theorem readDigits_add (a b : Nat) (cs : List Char) (value : Nat) :
    readDigits (a + b) cs value
      = (readDigits a cs value).bind fun p => readDigits b p.2 p.1 := by
  induction a generalizing cs value with
  | zero => rw [Nat.zero_add]; rfl
  | succ a ih =>
      rw [Nat.add_right_comm]
      cases cs with
      | nil => rfl
      | cons c cs =>
          simp only [readDigits]
          cases digit? c with
          | none => rfl
          | some d => exact ih cs _

/-- A number is read back from its digits. -/
theorem readDigits_digits {width n : Nat} (h : n < 10 ^ width) (rest : List Char) (value : Nat) :
    readDigits width (digits width n ++ rest) value = some (value * 10 ^ width + n, rest) := by
  induction width generalizing n rest with
  | zero =>
      have : n = 0 := by simpa using h
      simp [digits, readDigits, this]
  | succ width ih =>
      have hdiv : n / 10 < 10 ^ width := by
        rw [Nat.div_lt_iff_lt_mul (by decide)]
        rwa [Nat.pow_succ] at h
      rw [digits, List.append_assoc, readDigits_add, ih hdiv]
      simp only [Option.bind_some, List.singleton_append, readDigits, digit?_digit]
      congr 2
      rw [Nat.pow_succ]
      ring_nf
      omega

theorem readChar_self (c : Char) (cs : List Char) : readChar c (c :: cs) = some cs := if_pos rfl

theorem dayFromYear_succ (year : Int) :
    dayFromYear (year + 1) = dayFromYear year + (monthLengths year).sum := by
  have hsum : ((monthLengths year).sum : Int) = 365 + if isLeapYear year then 1 else 0 := by
    unfold monthLengths
    cases isLeapYear year <;> rfl
  rw [hsum]
  by_cases h : isLeapYear year = true
  · rw [if_pos h]
    have hleap := of_decide_eq_true h
    unfold dayFromYear
    omega
  · rw [if_neg h]
    have hleap : ¬ (year % 4 = 0 ∧ (year % 100 ≠ 0 ∨ year % 400 = 0)) := fun hl =>
      h (decide_eq_true hl)
    unfold dayFromYear
    omega

/-- A day lies in its year. -/
theorem yearFromDay_spec (day : Int) :
    dayFromYear (yearFromDay day) ≤ day ∧ day < dayFromYear (yearFromDay day + 1) := by
  -- the estimate is off by at most one year in either direction
  have hguess : ∀ guess, guess = 1970 + day * 400 / 146097 →
      dayFromYear (guess - 1) ≤ day ∧ day < dayFromYear (guess + 2) := by
    intro guess hguess
    unfold dayFromYear
    omega
  obtain ⟨hlow, hhigh⟩ := hguess _ rfl
  unfold yearFromDay
  dsimp only
  split
  · next h => exact ⟨hlow, by rwa [Int.sub_add_cancel]⟩
  · next h =>
      split
      · next h' => exact ⟨h', by rwa [Int.add_assoc]⟩
      · next h' => exact ⟨by omega, by omega⟩

/-- The month and day of the month of a day of the year. -/
theorem monthDay_spec {lengths : List Nat} (start : Nat) {rest : Nat} (h : rest < lengths.sum) :
    ∃ i day, monthDay lengths start rest = (start + i, day) ∧ i < lengths.length
      ∧ 1 ≤ day ∧ day ≤ lengths.getD i 0 ∧ (lengths.take i).sum + day = rest + 1 := by
  induction lengths generalizing start rest with
  | nil => exact absurd h (by simp)
  | cons length lengths ih =>
      rw [monthDay]
      by_cases hlt : rest < length
      · rw [if_pos hlt]
        exact ⟨0, rest + 1, rfl, by simp, by omega, by simpa using hlt, by simp⟩
      · rw [if_neg hlt]
        rw [List.sum_cons] at h
        obtain ⟨i, day, heq, hi, hpos, hle, hsum⟩ :=
          ih (start + 1) (by omega : rest - length < lengths.sum)
        refine ⟨i + 1, day, ?_, by simpa using hi, hpos, by simpa using hle, ?_⟩
        · rw [heq, Nat.add_assoc, Nat.add_comm 1 i]
        · rw [List.take_succ_cons, List.sum_cons]
          omega

/-- The days of the years that `toISOString` writes with four digits. -/
def FourDigitYear (day : Int) : Prop := 0 ≤ yearFromDay day ∧ yearFromDay day ≤ 9999

instance (day : Int) : Decidable (FourDigitYear day) := inferInstanceAs (Decidable (_ ∧ _))

/-- The date of a day is read back as that day. -/
theorem readDate_dateText {day : Int} (h : FourDigitYear day) (rest : List Char) :
    readDate (dateText day ++ rest) = some (day, rest) := by
  obtain ⟨hlow, hhigh⟩ := yearFromDay_spec day
  rw [dayFromYear_succ] at hhigh
  have hyear : ((yearFromDay day).toNat : Int) = yearFromDay day := Int.toNat_of_nonneg h.1
  have hrest : (day - dayFromYear (yearFromDay day)).toNat
      < (monthLengths (yearFromDay day)).sum := by omega
  obtain ⟨i, d, heq, hi, hpos, hle, hsum⟩ := monthDay_spec 1 hrest
  have hi12 : i < 12 := hi
  have hd : d < 100 := by
    have hbound : ∀ j < 12, (monthLengths (yearFromDay day)).getD j 0 ≤ 31 := by
      unfold monthLengths
      cases isLeapYear (yearFromDay day) <;> decide
    exact lt_of_le_of_lt (hle.trans (hbound i hi12)) (by decide)
  have hyearText : yearText (yearFromDay day) = digits 4 (yearFromDay day).toNat := if_pos h
  have htext : dateText day
      = digits 4 (yearFromDay day).toNat ++ '-' :: digits 2 (1 + i) ++ '-' :: digits 2 d := by
    unfold dateText
    dsimp only
    rw [heq, hyearText]
  rw [htext]
  unfold readDate
  have h4 : (yearFromDay day).toNat < 10 ^ 4 := by have := h.2; omega
  simp only [List.append_assoc, List.cons_append]
  rw [readDigits_digits h4]
  simp only [Option.bind_eq_bind, Option.bind_some, readChar_self]
  rw [readDigits_digits (by omega : 1 + i < 10 ^ 2)]
  simp only [Option.bind_some, readChar_self]
  rw [readDigits_digits (by omega : d < 10 ^ 2)]
  simp only [Option.bind_some, Nat.zero_mul, Nat.zero_add, hyear, Nat.add_sub_cancel_left]
  rw [if_pos ⟨by omega, by omega, hpos, hle⟩]
  have hday : dayOfDate (yearFromDay day) (1 + i) d = day := by
    unfold dayOfDate
    rw [Nat.add_sub_cancel_left]
    omega
  rw [hday]

/-- Days of four-digit years have different texts. -/
theorem dateText_injective {day day' : Int} (h : FourDigitYear day) (h' : FourDigitYear day')
    (heq : dateText day = dateText day') : day = day' := by
  have hread := readDate_dateText h []
  rw [heq, readDate_dateText h' []] at hread
  exact (congrArg Prod.fst (Option.some.inj hread)).symm

theorem dateText_length_eq {day : Int} (h : FourDigitYear day) : (dateText day).length = 10 := by
  have hyear : yearText (yearFromDay day) = digits 4 (yearFromDay day).toNat := if_pos h
  unfold dateText
  simp only [hyear, List.length_append, List.length_cons, digits_length]

/-! ## Timestamps -/

/-- A text that `timestampSchema` accepts, with its instant. -/
structure Timestamp where
  text : String
  instant : Int
  parsed : parseTimestamp text = some instant

namespace Timestamp

def ofText? (text : String) : Option Timestamp :=
  match h : parseTimestamp text with
  | some instant => some ⟨text, instant, h⟩
  | none => none

/-- The UTC day of a timestamp. -/
def day (t : Timestamp) : Int := dayOfInstant t.instant

/-- `utcDay(timestamp)`. -/
def utcDay (t : Timestamp) : String := .ofList ((toISOString t.instant).toList.take 10)

theorem ofText?_text (t : Timestamp) : ofText? t.text = some t := by
  unfold ofText?
  split
  · next instant h =>
      have heq := h.symm.trans t.parsed
      cases t
      cases heq
      rfl
  · next h => exact absurd (h.symm.trans t.parsed) (by simp)

/-- The text of a UTC day is cut from its date. -/
theorem utcDay_eq (t : Timestamp) : t.utcDay = .ofList ((dateText t.day).take 10) := by
  unfold utcDay toISOString
  rw [String.toList_ofList, List.take_append_of_le_length (dateText_length _)]
  rfl

theorem utcDay_length (t : Timestamp) : t.utcDay.toList.length = 10 := by
  rw [utcDay_eq, String.toList_ofList, List.length_take]
  exact min_eq_left (dateText_length t.day)

/-- The year of the UTC day has four digits. -/
def FourDigitYear (t : Timestamp) : Prop := FlatpakBlackbox.FourDigitYear t.day

instance (t : Timestamp) : Decidable t.FourDigitYear :=
  inferInstanceAs (Decidable (FlatpakBlackbox.FourDigitYear t.day))

theorem utcDay_eq_iff {t t' : Timestamp} (h : t.FourDigitYear) (h' : t'.FourDigitYear) :
    t.utcDay = t'.utcDay ↔ t.day = t'.day := by
  have htake : ∀ t : Timestamp, t.FourDigitYear → (dateText t.day).take 10 = dateText t.day :=
    fun t ht => List.take_of_length_le (dateText_length_eq ht).le
  rw [utcDay_eq, utcDay_eq, htake t h, htake t' h']
  constructor
  · intro heq
    exact dateText_injective h h' (String.ofList_injective heq)
  · intro heq
    rw [heq]

end Timestamp

end FlatpakBlackbox
