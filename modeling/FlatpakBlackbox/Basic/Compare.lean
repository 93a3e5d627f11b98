import FlatpakBlackbox.Basic.Sort
import Mathlib.Tactic

set_option autoImplicit false

/-! # Comparison functions

A sort is given a function that compares two elements by the sign of a number. Its result is
determined when the function is consistent: swapping the elements swaps the sign, and the elements
that do not come after one another are ordered transitively. Levels of consistent comparisons, the
next one asked where the one before says zero, are consistent again.
-/

namespace PyLib

variable {α : Type}

/-- The signs of a comparison are those of a total preorder. -/
structure Consistent (compare : α → α → ℚ) : Prop where
  swap : ∀ a b, compare a b < 0 ↔ 0 < compare b a
  trans : ∀ a b c, compare a b ≤ 0 → compare b c ≤ 0 → compare a c ≤ 0

/-- Ask the second comparison where the first one says zero. -/
def orElse (first second : α → α → ℚ) (a b : α) : ℚ :=
  if first a b = 0 then second a b else first a b

/-- The larger key first. -/
def descending (key : α → ℚ) (a b : α) : ℚ := key b - key a

theorem consistent_descending (key : α → ℚ) : Consistent (descending key) where
  swap a b := by
    unfold descending
    constructor
    · intro h
      linarith
    · intro h
      linarith
  trans a b c hab hbc := by
    unfold descending at *
    linarith

namespace Consistent

variable {compare first second : α → α → ℚ}

/-- An element ties with itself. -/
theorem self (h : Consistent compare) (a : α) : compare a a = 0 := by
  rcases lt_trichotomy (compare a a) 0 with hlt | heq | hgt
  · have hgt := (h.swap a a).mp hlt
    linarith
  · exact heq
  · have hlt := (h.swap a a).mpr hgt
    linarith

theorem eq_zero (h : Consistent compare) {a b : α} : compare a b = 0 ↔ compare b a = 0 := by
  have hzero : ∀ {a b : α}, compare a b = 0 → compare b a = 0 := by
    intro a b hab
    apply le_antisymm
    · by_contra hgt
      have hlt := (h.swap a b).mpr (not_le.mp hgt)
      linarith
    · by_contra hlt
      have hgt := (h.swap b a).mp (not_le.mp hlt)
      linarith
  exact ⟨hzero, hzero⟩

theorem total (h : Consistent compare) (a b : α) : compare a b ≤ 0 ∨ compare b a ≤ 0 := by
  rcases le_or_gt (compare a b) 0 with hle | hgt
  · exact .inl hle
  · exact .inr (le_of_lt ((h.swap b a).mpr hgt))

theorem sign_swap (h : Consistent compare) (a b : α) :
    SignType.sign (compare a b) = -SignType.sign (compare b a) := by
  rcases lt_trichotomy (compare a b) 0 with hlt | heq | hgt
  · rw [sign_neg hlt, sign_pos ((h.swap a b).mp hlt)]
  · rw [heq, h.eq_zero.mp heq, sign_zero]
    rfl
  · rw [sign_pos hgt, sign_neg ((h.swap b a).mpr hgt)]
    rfl

/-- Before, and then not after, is before. -/
theorem trans_lt (h : Consistent compare) {a b c : α} (hab : compare a b < 0)
    (hbc : compare b c ≤ 0) :
    compare a c < 0 := by
  refine lt_of_le_of_ne (h.trans a b c hab.le hbc) fun hzero => ?_
  have hca : compare c a ≤ 0 := (h.eq_zero.mp hzero).le
  have hba := h.trans b c a hbc hca
  have hgt := (h.swap a b).mp hab
  linarith

theorem lt_trans (h : Consistent compare) {a b c : α} (hab : compare a b ≤ 0)
    (hbc : compare b c < 0) :
    compare a c < 0 := by
  refine lt_of_le_of_ne (h.trans a b c hab hbc.le) fun hzero => ?_
  have hca : compare c a ≤ 0 := (h.eq_zero.mp hzero).le
  have hcb := h.trans c a b hca hab
  have hgt := (h.swap b c).mp hbc
  linarith

/-- **Levels of consistent comparisons are consistent.** -/
theorem orElse (hfirst : Consistent first) (hsecond : Consistent second) :
    Consistent (orElse first second) where
  swap a b := by
    unfold PyLib.orElse
    by_cases hzero : first a b = 0
    · rw [if_pos hzero, if_pos (hfirst.eq_zero.mp hzero)]
      exact hsecond.swap a b
    · rw [if_neg hzero, if_neg (fun h => hzero (hfirst.eq_zero.mp h))]
      exact hfirst.swap a b
  trans a b c hab hbc := by
    -- The first level decides as soon as it separates one of the two pairs.
    have hlevel : ∀ {a b : α}, PyLib.orElse first second a b ≤ 0 →
        first a b < 0 ∨ first a b = 0 ∧ second a b ≤ 0 := by
      intro a b hle
      unfold PyLib.orElse at hle
      split at hle
      · next hzero => exact .inr ⟨hzero, hle⟩
      · next hzero => exact .inl (lt_of_le_of_ne hle hzero)
    have hdecided : first a c < 0 → PyLib.orElse first second a c ≤ 0 := by
      intro hlt
      rw [PyLib.orElse, if_neg (ne_of_lt hlt)]
      exact hlt.le
    rcases hlevel hab with hab | ⟨hab, hab'⟩
    · rcases hlevel hbc with hbc | ⟨hbc, -⟩
      · exact hdecided (hfirst.trans_lt hab hbc.le)
      · exact hdecided (hfirst.trans_lt hab hbc.le)
    · rcases hlevel hbc with hbc | ⟨hbc, hbc'⟩
      · exact hdecided (hfirst.lt_trans hab.le hbc)
      · have hac : first a c = 0 := by
          apply le_antisymm
          · exact hfirst.trans a b c hab.le hbc.le
          · have hca := hfirst.trans c b a (hfirst.eq_zero.mp hbc).le (hfirst.eq_zero.mp hab).le
            by_contra hlt
            have hgt := (hfirst.swap a c).mp (not_le.mp hlt)
            linarith
        rw [PyLib.orElse, if_pos hac]
        exact hsecond.trans a b c hab' hbc'

/-- Sorting by a consistent comparison. -/
theorem pairwise_insertionSort (h : Consistent compare) (l : List α) :
    (l.insertionSort fun a b => compare a b ≤ 0).Pairwise fun a b => compare a b ≤ 0 := by
  have htotal : Std.Total fun a b => compare a b ≤ 0 := ⟨h.total⟩
  have htrans : IsTrans α fun a b => compare a b ≤ 0 := ⟨h.trans⟩
  exact List.pairwise_insertionSort _ l

/-- Elements of which no two tie are sorted alike from every order. -/
theorem insertionSort_eq_of_perm (h : Consistent compare) {l l' : List α} (hperm : l.Perm l')
    (hties : ∀ a ∈ l, ∀ b ∈ l, compare a b = 0 → a = b) :
    (l.insertionSort fun a b => compare a b ≤ 0) = l'.insertionSort fun a b => compare a b ≤ 0 := by
  have htotal : Std.Total fun a b => compare a b ≤ 0 := ⟨h.total⟩
  have htrans : IsTrans α fun a b => compare a b ≤ 0 := ⟨h.trans⟩
  refine PyLib.insertionSort_eq_of_perm _ hperm fun a ha b hb hab hba => hties a ha b hb ?_
  apply le_antisymm hab
  by_contra hlt
  have hgt := (h.swap a b).mp (not_le.mp hlt)
  linarith

end Consistent

end PyLib
