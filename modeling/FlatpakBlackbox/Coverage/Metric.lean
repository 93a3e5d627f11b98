import FlatpakBlackbox.Basic.Dict
import Mathlib.Data.Int.Log

set_option autoImplicit false

/-! # Metrics

`percentage` and `metric` of `coverage_report.py`. A metric counts, inside a universe, what is
implemented and what passed. Percentages are binary floating point numbers: the quotient is
rounded to a double, then to two decimals, then to a double again; a double is the rational
number it denotes.
-/

namespace FlatpakBlackbox

/-- Round to an integer, ties to even. -/
def roundHalfEven (q : ℚ) : ℤ :=
  let rest := q - ⌊q⌋
  if rest < 1 / 2 ∨ (rest = 1 / 2 ∧ ⌊q⌋ % 2 = 0) then ⌊q⌋ else ⌊q⌋ + 1

/-- The double nearest to a rational in the normal range (53 significant bits). -/
def toDouble (q : ℚ) : ℚ :=
  if q = 0 then 0
  else
    let ulp := (2 : ℚ) ^ (Int.log 2 |q| - 52)
    roundHalfEven (q / ulp) * ulp

/-- `percentage(count, total)`: `round(count * 100 / total, 2)`. -/
def percentage (count total : Nat) : Option ℚ :=
  if total = 0 then none
  else some (toDouble (roundHalfEven (toDouble (count * 100 / total) * 100) / 100))

/-- `CoverageMetric`. -/
structure CoverageMetric where
  total : Nat
  implemented : Nat
  implementedPercent : Option ℚ
  passed : Option Nat
  passedPercent : Option ℚ
  deriving DecidableEq

/-- `metric(universe, implemented, passed)`. -/
def metric (all implemented : Finset String) (passed : Option (Finset String)) : CoverageMetric :=
  let total := all.card
  let implementedCount := (all ∩ implemented).card
  let passedCount := passed.map fun s => (all ∩ s).card
  { total, implemented := implementedCount
    implementedPercent := percentage implementedCount total
    passed := passedCount, passedPercent := passedCount.bind fun n => percentage n total }

example : percentage 1 3 = some (toDouble (3333 / 100)) := by decide +kernel

section

variable {all implemented : Finset String} {passed : Option (Finset String)}

theorem metric_implemented_le_total : (metric all implemented passed).implemented
    ≤ (metric all implemented passed).total :=
  Finset.card_le_card Finset.inter_subset_left

theorem metric_passed_eq_none_iff : (metric all implemented passed).passed = none
    ↔ passed = none := by
  simp [metric]

/-- What passed is implemented, so it is counted among the implemented. -/
theorem metric_passed_le_implemented (h : ∀ s ∈ passed, s ⊆ implemented) {n : Nat}
    (hn : (metric all implemented passed).passed = some n) :
    n ≤ (metric all implemented passed).implemented := by
  obtain ⟨s, hs, rfl⟩ := Option.map_eq_some_iff.mp hn
  exact Finset.card_le_card (Finset.inter_subset_inter_left (h s hs))

/-- Fewer passes count for less. -/
theorem metric_passed_mono {s t : Finset String} (h : s ⊆ t) :
    (all ∩ s).card ≤ (all ∩ t).card :=
  Finset.card_le_card (Finset.inter_subset_inter_left h)

/-- The union of two sets counts at least each and at most their sum. -/
theorem card_inter_union_bounds (s t : Finset String) :
    (all ∩ s).card ≤ (all ∩ (s ∪ t)).card ∧ (all ∩ t).card ≤ (all ∩ (s ∪ t)).card
      ∧ (all ∩ (s ∪ t)).card ≤ (all ∩ s).card + (all ∩ t).card := by
  refine ⟨metric_passed_mono Finset.subset_union_left,
    metric_passed_mono Finset.subset_union_right, ?_⟩
  rw [Finset.inter_union_distrib_left]
  exact Finset.card_union_le _ _

end

/-! ## Percentages lie between 0 and 100 -/

end FlatpakBlackbox
