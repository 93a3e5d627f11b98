import FlatpakBlackbox.Basic.Dict

set_option autoImplicit false

/-! # Mutating the values of a dictionary

Where the values of a Python dictionary are mutable objects, a loop over them changes the values
and never the keys.
-/

namespace PyLib

namespace Dict

variable {κ ν : Type} [DecidableEq κ]

/-- Mutate the value under `k`, if there is one. -/
def update (d : Dict κ ν) (k : κ) (f : ν → ν) : Dict κ ν where
  entries := d.entries.map fun e => if e.1 = k then (e.1, f e.2) else e
  nodup := by
    have hkeys : (Prod.fst ∘ fun e : κ × ν => if e.1 = k then (e.1, f e.2) else e) = Prod.fst := by
      funext e
      rw [Function.comp_apply, apply_ite Prod.fst, ite_self]
    rw [List.map_map, hkeys]
    exact d.nodup

@[simp] theorem keys_update (d : Dict κ ν) (k : κ) (f : ν → ν) : (d.update k f).keys = d.keys := by
  unfold keys update
  rw [List.map_map]
  refine List.map_congr_left fun e _ => ?_
  rw [Function.comp_apply, apply_ite Prod.fst, ite_self]

theorem mem_entries_update {d : Dict κ ν} {k : κ} {f : ν → ν} {e : κ × ν} :
    e ∈ (d.update k f).entries ↔
      ∃ e' ∈ d.entries, (if e'.1 = k then (e'.1, f e'.2) else e') = e := List.mem_map

theorem get?_update (d : Dict κ ν) (k k' : κ) (f : ν → ν) :
    (d.update k f).get? k' = if k = k' then (d.get? k').map f else d.get? k' := by
  cases hget : d.get? k' with
  | none =>
      have hnot := (d.get?_eq_none_iff k').mp hget
      rw [Option.map_none, ite_self, get?_eq_none_iff, keys_update]
      exact hnot
  | some v =>
      have hmem := mem_entries_of_get? hget
      by_cases hk : k = k'
      · rw [if_pos hk]
        exact get?_of_mem_entries (mem_entries_update.mpr ⟨(k', v), hmem, if_pos hk.symm⟩)
      · rw [if_neg hk]
        exact get?_of_mem_entries (mem_entries_update.mpr ⟨(k', v), hmem, if_neg (Ne.symm hk)⟩)

theorem get?_update_self {d : Dict κ ν} {k : κ} {v : ν} (f : ν → ν) (h : d.get? k = some v) :
    (d.update k f).get? k = some (f v) := by
  rw [get?_update, if_pos rfl, h, Option.map_some]

theorem get?_update_ne (d : Dict κ ν) {k k' : κ} (f : ν → ν) (h : k ≠ k') :
    (d.update k f).get? k' = d.get? k' := by
  rw [get?_update, if_neg h]

/-- A value of the mutated dictionary is the mutated one, or stands under another key. -/
theorem eq_or_of_get?_update {d : Dict κ ν} {k k' : κ} {f : ν → ν} {v w : ν}
    (h : d.get? k = some v) (h' : (d.update k f).get? k' = some w) :
    (k' = k ∧ w = f v) ∨ (k' ≠ k ∧ d.get? k' = some w) := by
  by_cases hk : k = k'
  · subst hk
    rw [get?_update_self f h] at h'
    exact Or.inl ⟨rfl, (Option.some.inj h').symm⟩
  · rw [get?_update_ne d f hk] at h'
    exact Or.inr ⟨Ne.symm hk, h'⟩

/-- What a mutation does to a sum over the values. -/
theorem sum_values_update {M : Type} [AddCommGroup M] {d : Dict κ ν} {k : κ} {v : ν} (f : ν → ν)
    (g : ν → M) (h : d.get? k = some v) :
    ((d.update k f).values.map g).sum = (d.values.map g).sum + (g (f v) - g v) := by
  have hmem := mem_entries_of_get? h
  have hnodup := d.nodup
  unfold values update
  dsimp only
  generalize d.entries = entries at hmem hnodup
  induction entries with
  | nil => cases hmem
  | cons e entries ih =>
      obtain ⟨hnot, hnodup⟩ := List.nodup_cons.mp hnodup
      rcases List.mem_cons.mp hmem with rfl | hmem
      · have hrest : (entries.map fun e => if e.1 = k then (e.1, f e.2) else e) = entries := by
          conv_rhs => rw [← List.map_id entries]
          refine List.map_congr_left fun e he => ?_
          have hne : e.1 ≠ k := by
            intro heq
            exact hnot (List.mem_map.mpr ⟨e, he, heq⟩)
          rw [if_neg hne, id]
        simp only [List.map_cons, hrest, if_true, List.sum_cons]
        abel
      · have hne : e.1 ≠ k := by
          intro heq
          exact hnot (List.mem_map.mpr ⟨(k, v), hmem, heq.symm⟩)
        have hih := ih hmem hnodup
        simp only [List.map_cons, List.sum_cons, if_neg hne] at hih ⊢
        rw [hih]
        abel

/-! ## Along a list -/

/-- A value is replaced in place, as far as the relation sees it. -/
theorem forall₂_setEntries {γ : Type} {R : κ × ν → γ → Prop} {k : κ} {v : ν} {es : List (κ × ν)}
    {l : List γ} (h : List.Forall₂ R es l) (hmem : k ∈ es.map Prod.fst)
    (hnodup : (es.map Prod.fst).Nodup) (hnew : ∀ old c, (k, old) ∈ es → R (k, old) c → R (k, v) c) :
    List.Forall₂ R (setEntries k v es) l := by
  induction h with
  | nil => cases hmem
  | @cons e c es l hfirst hrest ih =>
      obtain ⟨hfresh, hnodup⟩ := List.nodup_cons.mp hnodup
      by_cases hk : e.1 = k
      · subst hk
        rw [setEntries, if_pos rfl]
        exact .cons (hnew e.2 c List.mem_cons_self hfirst) hrest
      · rw [setEntries, if_neg hk]
        refine .cons hfirst (ih ?_ hnodup fun old c hold =>
          hnew old c (List.mem_cons_of_mem _ hold))
        exact (List.mem_cons.mp hmem).resolve_left (Ne.symm hk)

/-- The values in the order of the keys. -/
theorem filterMap_get?_keys (d : Dict κ ν) : d.keys.filterMap d.get? = d.values := by
  have hentries : ∀ entries : List (κ × ν), (∀ entry ∈ entries, entry ∈ d.entries) →
      (entries.map Prod.fst).filterMap d.get? = entries.map Prod.snd := by
    intro entries hentries
    induction entries with
    | nil => rfl
    | cons entry entries ih =>
        obtain ⟨hentry, hrest⟩ := List.forall_mem_cons.mp hentries
        rw [List.map_cons, List.filterMap_cons_some (get?_of_mem_entries hentry), ih hrest]
        rfl
  exact hentries d.entries fun _ hentry => hentry

end Dict

end PyLib
