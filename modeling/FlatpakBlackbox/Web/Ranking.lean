import FlatpakBlackbox.Basic.Compare
import FlatpakBlackbox.Web.Comparison

set_option autoImplicit false

/-! # Case ranking

`rankCases` of `runComparison.ts`. The comparison of two rows has four levels: a row without a value
comes after one with a value, then the larger value comes first, then the longer current duration,
where none counts as less than zero, then the label. Each level is consistent, so the comparison is.
-/

namespace FlatpakBlackbox

open PyLib

/-! ## The comparison -/

/-- `CaseSort`. -/
inductive CaseSort where
  | change
  | duration
  deriving DecidableEq, Repr

/-- What the rows are sorted by. -/
def sortValue : CaseSort → CaseComparison → Option ℚ
  | .change, row => row.addedSeconds
  | .duration, row => row.afterSeconds

/-- The function that `rankCases(rows, sort)` gives to `sort`. -/
def compareCases (collation : Collation) (sort : CaseSort) (a b : CaseComparison) : ℚ :=
  let x := sortValue sort a
  let y := sortValue sort b
  if x = none ∧ y ≠ none then 1
  else if y = none ∧ x ≠ none then -1
  else
    let difference := y.getD 0 - x.getD 0
    let later := b.afterSeconds.getD (-1) - a.afterSeconds.getD (-1)
    if difference = 0 then
      if later = 0 then collation.localeCompare a.label b.label else later
    else difference

/-- `rankCases(rows, sort)`. -/
def rankCases (collation : Collation) (rows : List CaseComparison) (sort : CaseSort) :
    List CaseComparison :=
  rows.insertionSort fun a b => compareCases collation sort a b ≤ 0

/-! ## Levels -/

/-- The rows with a value first. -/
def valueRank (sort : CaseSort) (row : CaseComparison) : ℚ :=
  if sortValue sort row = none then 0 else 1

/-- The labels, by their collation. -/
def compareLabels (collation : Collation) (a b : CaseComparison) : ℚ :=
  collation.localeCompare a.label b.label

/-- The levels of the comparison. -/
def compareLevels (collation : Collation) (sort : CaseSort) : CaseComparison → CaseComparison → ℚ :=
  orElse (descending (valueRank sort))
    (orElse (descending fun row => (sortValue sort row).getD 0)
      (orElse (descending fun row => row.afterSeconds.getD (-1)) (compareLabels collation)))

theorem compareCases_eq (collation : Collation) (sort : CaseSort) :
    compareCases collation sort = compareLevels collation sort := by
  funext a b
  unfold compareCases compareLevels
  cases hx : sortValue sort a with
  | none =>
      cases hy : sortValue sort b with
      | none =>
          simp [orElse, descending, valueRank, compareLabels, hx, hy]
          rfl
      | some y => simp [orElse, descending, valueRank, hx, hy]
  | some x =>
      cases hy : sortValue sort b with
      | none => simp [orElse, descending, valueRank, hx, hy]
      | some y =>
          simp [orElse, descending, valueRank, compareLabels, hx, hy]
          rfl

theorem consistent_compareLabels (collation : Collation) :
    Consistent (compareLabels collation) where
  swap a b := by
    unfold compareLabels
    rw [Int.cast_lt_zero, Int.cast_pos, ← not_le, ← not_le, ← collation.swap b.label a.label]
  trans a b c hab hbc := by
    unfold compareLabels at *
    rw [Int.cast_nonpos] at *
    exact collation.trans _ _ _ hab hbc

/-- **The comparison is consistent.** -/
theorem consistent_compareCases (collation : Collation) (sort : CaseSort) :
    Consistent (compareCases collation sort) := by
  rw [compareCases_eq]
  exact (consistent_descending _).orElse ((consistent_descending _).orElse
    ((consistent_descending _).orElse (consistent_compareLabels collation)))

/-! ## The ranking -/

/-- A row stands before another: its value is not smaller, and a row without a value has none
behind it that has one. -/
def RankedBefore (sort : CaseSort) (a b : CaseComparison) : Prop :=
  match sortValue sort a, sortValue sort b with
  | some x, some y => y ≤ x
  | none, some _ => False
  | _, none => True

theorem rankedBefore_of_compare {collation : Collation} {sort : CaseSort} {a b : CaseComparison}
    (h : compareCases collation sort a b ≤ 0) : RankedBefore sort a b := by
  unfold compareCases at h
  unfold RankedBefore
  cases hx : sortValue sort a with
  | none =>
      cases hy : sortValue sort b with
      | none => trivial
      | some y =>
          simp [hx, hy] at h
          linarith
  | some x =>
      cases hy : sortValue sort b with
      | none => trivial
      | some y =>
          simp only [hx, hy, Option.getD_some, reduceCtorEq, false_and, if_false] at h
          show y ≤ x
          split at h
          · linarith
          · linarith

/-- Rows that tie have labels that tie. -/
theorem label_of_compare {collation : Collation} {sort : CaseSort} {a b : CaseComparison}
    (h : compareCases collation sort a b = 0) : collation.localeCompare a.label b.label = 0 := by
  have hlast : ∀ {first second : CaseComparison → CaseComparison → ℚ},
      orElse first second a b = 0 → second a b = 0 := by
    intro first second hzero
    unfold orElse at hzero
    split at hzero
    · exact hzero
    · next hne => exact absurd hzero hne
  rw [compareCases_eq] at h
  have hlabels : compareLabels collation a b = 0 := hlast (hlast (hlast h))
  exact Int.cast_eq_zero.mp hlabels

/-- **Case ranking is a well-defined sort.** For both ways of sorting, the comparison of rows is a
total preorder whose sign swaps with the rows. The ranking has the rows of the list, those with a
value first and by decreasing value. Where the collation orders the labels of the rows totally and
no two rows share a label, the order of the list does not matter. -/
theorem rankCases_wellDefined (collation : Collation) (sort : CaseSort)
    (rows : List CaseComparison) :
    ((∀ a, compareCases collation sort a a = 0) ∧
      (∀ a b, compareCases collation sort a b ≤ 0 ∨ compareCases collation sort b a ≤ 0) ∧
      (∀ a b c, compareCases collation sort a b ≤ 0 → compareCases collation sort b c ≤ 0 →
        compareCases collation sort a c ≤ 0) ∧
      ∀ a b, SignType.sign (compareCases collation sort a b) =
        -SignType.sign (compareCases collation sort b a)) ∧
      (rankCases collation rows sort).Perm rows ∧
      (rankCases collation rows sort).Pairwise (RankedBefore sort) ∧
      ((rows.map CaseComparison.label).Nodup →
        (∀ a ∈ rows, ∀ b ∈ rows, collation.localeCompare a.label b.label = 0 → a.label = b.label) →
        ∀ rows' : List CaseComparison, rows'.Perm rows →
          rankCases collation rows' sort = rankCases collation rows sort) := by
  have hconsistent := consistent_compareCases collation sort
  refine ⟨⟨hconsistent.self, hconsistent.total, hconsistent.trans, hconsistent.sign_swap⟩,
    List.perm_insertionSort _ rows, ?_, fun hnodup hlabels rows' hperm => ?_⟩
  · exact (hconsistent.pairwise_insertionSort rows).imp rankedBefore_of_compare
  · refine (hconsistent.insertionSort_eq_of_perm hperm.symm fun a ha b hb hzero => ?_).symm
    have hlabel := hlabels a ha b hb (label_of_compare hzero)
    exact List.inj_on_of_nodup_map hnodup ha hb hlabel

/-- The rows of a small comparison, with an added, a removed and an untimed case. -/
def smallRows : List CaseComparison := (compareRuns currentRun (some referenceRun)).getD []

theorem rankCases_wellDefined_small : ∀ rows' : List CaseComparison, rows'.Perm smallRows →
    rankCases .canonical rows' .change = rankCases .canonical smallRows .change :=
  (rankCases_wellDefined .canonical .change smallRows).2.2.2 (by decide +kernel) (by decide +kernel)

end FlatpakBlackbox
