import Mathlib.Data.List.Sort

set_option autoImplicit false

/-! # Stable sorting

Sorting a list by a total preorder in which different elements may tie. Ties keep the order of the
list, so sorting a list in two rounds, or sorting a list one part of which is sorted already, gives
the same list as sorting it once.
-/

namespace PyLib

variable {α : Type} (r : α → α → Prop) [DecidableRel r] [Std.Total r] [IsTrans α r]

/-- Two elements that do not tie can be inserted in either order. -/
theorem orderedInsert_comm {x y : α} (h : ¬ r x y) (l : List α) :
    (l.orderedInsert r x).orderedInsert r y = (l.orderedInsert r y).orderedInsert r x := by
  have hyx : r y x := (Std.Total.total (r := r) x y).resolve_left h
  induction l with
  | nil => simp [hyx, h]
  | cons z l ih =>
      by_cases hxz : r x z
      · have hyz : r y z := IsTrans.trans y x z hyx hxz
        simp [hxz, hyx, hyz, h]
      · by_cases hyz : r y z
        · simp [hxz, hyz, h]
        · simp [hxz, hyz, ih]

/-- Inserting the elements of a list, last first. -/
theorem foldr_orderedInsert_orderedInsert (x : α) (l c : List α) :
    (l.orderedInsert r x).foldr (List.orderedInsert r) c
      = (l.foldr (List.orderedInsert r) c).orderedInsert r x := by
  induction l with
  | nil => rfl
  | cons y l ih =>
      by_cases h : r x y
      · rw [List.orderedInsert_cons_of_le r l h]
        rfl
      · rw [List.orderedInsert_of_not_le r l h, List.foldr_cons, ih, orderedInsert_comm r h]
        rfl

/-- Sorting a first part beforehand changes nothing. -/
theorem insertionSort_insertionSort_append (l c : List α) :
    (l.insertionSort r ++ c).insertionSort r = (l ++ c).insertionSort r := by
  unfold List.insertionSort
  rw [List.foldr_append, List.foldr_append]
  induction l with
  | nil => rfl
  | cons x l ih => rw [List.foldr_cons, foldr_orderedInsert_orderedInsert, ih, List.foldr_cons]

theorem insertionSort_insertionSort (l : List α) :
    (l.insertionSort r).insertionSort r = l.insertionSort r := by
  have h := insertionSort_insertionSort_append r l []
  rwa [List.append_nil, List.append_nil] at h

/-- Lists with the same elements, none of which tie, sort to the same list. -/
theorem insertionSort_eq_of_perm {l l' : List α} (hperm : l.Perm l')
    (hties : ∀ a ∈ l, ∀ b ∈ l, r a b → r b a → a = b) :
    l.insertionSort r = l'.insertionSort r := by
  refine List.Perm.eq_of_pairwise (fun a b ha hb => ?_) (List.pairwise_insertionSort r l)
    (List.pairwise_insertionSort r l') ?_
  · exact hties a ((List.mem_insertionSort r).mp ha) b
      (hperm.mem_iff.mpr ((List.mem_insertionSort r).mp hb))
  · have hl := List.perm_insertionSort r l
    have hl' := List.perm_insertionSort r l'
    exact (hl.trans hperm).trans hl'.symm

end PyLib
