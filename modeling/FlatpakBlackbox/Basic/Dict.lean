import Mathlib.Data.List.Nodup
import Mathlib.Data.List.Perm.Basic
import Mathlib.Data.Finset.Basic
import Mathlib.Tactic

set_option autoImplicit false

/-! # Insertion-ordered dictionaries

A `Dict κ ν` is a Python dictionary: a list of entries with pairwise distinct keys, in
insertion order. The distinctness is a field of the structure, so every function returning a
`Dict` proves it once and no later proof has to. Two dictionaries are equal in the sense of
Python's `==` when `Dict.get?` agrees on every key (`Dict.Same`); the order of the entries is
visible only to iteration.

The second half is about *grouping*: building a dictionary of lists by
`d.setdefault(k, []).append(x)` in a loop. `getD_group` is its closed form (the list under `k`
holds the elements that name `k`, in loop order), and every fact about such a loop follows
from it without another induction.
-/

namespace PyLib

/-- A dictionary with insertion order and unique keys. -/
structure Dict (κ ν : Type) where
  entries : List (κ × ν)
  nodup : (entries.map Prod.fst).Nodup
  deriving DecidableEq

namespace Dict

variable {κ ν : Type}

/-- The keys, in insertion order. -/
def keys (d : Dict κ ν) : List κ := d.entries.map Prod.fst

/-- The values, in insertion order. -/
def values (d : Dict κ ν) : List ν := d.entries.map Prod.snd

/-- The dictionary `{}`. -/
def empty : Dict κ ν := ⟨[], by simp⟩

theorem ext_entries {d e : Dict κ ν} (h : d.entries = e.entries) : d = e := by
  cases d
  cases e
  cases h
  rfl

theorem keys_nodup (d : Dict κ ν) : d.keys.Nodup := d.nodup

@[simp] theorem keys_empty : (empty : Dict κ ν).keys = [] := rfl

variable [DecidableEq κ]

/-- `d.get(k)`. -/
def get? (d : Dict κ ν) (k : κ) : Option ν := (d.entries.find? (fun e => e.1 = k)).map Prod.snd

/-- `d.get(k, default)`. -/
def getD (d : Dict κ ν) (k : κ) (default : ν) : ν := (d.get? k).getD default

/-- Equality of dictionaries, Python's `==`: the same value under every key. -/
def Same (d e : Dict κ ν) : Prop := ∀ k, d.get? k = e.get? k

@[simp] theorem get?_empty (k : κ) : (empty : Dict κ ν).get? k = none := rfl

@[simp] theorem getD_empty (k : κ) (v : ν) : (empty : Dict κ ν).getD k v = v := rfl

theorem mem_entries_of_get? {d : Dict κ ν} {k : κ} {v : ν} (h : d.get? k = some v) :
    (k, v) ∈ d.entries := by
  obtain ⟨⟨k', v'⟩, hfind, hv⟩ := Option.map_eq_some_iff.mp h
  have hk : k' = k := by simpa using List.find?_some hfind
  have hmem := List.mem_of_find?_eq_some hfind
  simp only at hv
  rw [← hk, ← hv]
  exact hmem

theorem get?_eq_none_iff (d : Dict κ ν) (k : κ) : d.get? k = none ↔ k ∉ d.keys := by
  simp only [get?, Option.map_eq_none_iff, List.find?_eq_none, keys, List.mem_map]
  constructor
  · rintro h ⟨e, he, rfl⟩
    exact h e he (by simp)
  · intro h e he hk
    exact h ⟨e, he, by simpa using hk⟩

theorem mem_keys_iff (d : Dict κ ν) (k : κ) : k ∈ d.keys ↔ ∃ v, d.get? k = some v := by
  rw [← not_iff_not, ← get?_eq_none_iff, Option.eq_none_iff_forall_ne_some]
  simp

theorem get?_of_mem_entries {d : Dict κ ν} {k : κ} {v : ν} (h : (k, v) ∈ d.entries) :
    d.get? k = some v := by
  obtain ⟨w, hw⟩ := (d.mem_keys_iff k).mp (List.mem_map_of_mem (f := Prod.fst) h)
  have hw' := mem_entries_of_get? hw
  rw [hw, (List.inj_on_of_nodup_map d.nodup hw' h rfl : (k, w) = (k, v)) |> Prod.mk.inj |>.2]

theorem get?_eq_some_iff {d : Dict κ ν} {k : κ} {v : ν} :
    d.get? k = some v ↔ (k, v) ∈ d.entries :=
  ⟨mem_entries_of_get?, get?_of_mem_entries⟩

theorem mem_values_iff {d : Dict κ ν} {v : ν} : v ∈ d.values ↔ ∃ k, d.get? k = some v := by
  simp only [values, List.mem_map, get?_eq_some_iff]
  constructor
  · rintro ⟨⟨k, w⟩, he, rfl⟩
    exact ⟨k, he⟩
  · rintro ⟨k, hk⟩
    exact ⟨(k, v), hk, rfl⟩

theorem get?_eq_of_mem_keys {d : Dict κ ν} {k : κ} (h : k ∈ d.keys) (default : ν) :
    d.get? k = some (d.getD k default) := by
  obtain ⟨v, hv⟩ := (d.mem_keys_iff k).mp h
  rw [getD, hv]
  rfl

/-- Dictionaries with the same keys and the same `get` are equal. -/
theorem same_of_getD {d e : Dict κ ν} (default : ν) (hkeys : ∀ k, k ∈ d.keys ↔ k ∈ e.keys)
    (hget : ∀ k, d.getD k default = e.getD k default) : d.Same e := by
  intro k
  by_cases hk : k ∈ d.keys
  · rw [get?_eq_of_mem_keys hk default, get?_eq_of_mem_keys ((hkeys k).mp hk) default, hget k]
  · have hk' : k ∉ e.keys := fun h => hk ((hkeys k).mpr h)
    rw [(get?_eq_none_iff d k).mpr hk, (get?_eq_none_iff e k).mpr hk']

/-- The same keys, with related values. -/
def Rel {μ : Type} (R : ν → μ → Prop) (d : Dict κ ν) (e : Dict κ μ) : Prop :=
  ∀ k, Option.Rel R (d.get? k) (e.get? k)

/-- `{k for k, v in d.items() if p(v)}`. -/
def keysWhere (d : Dict κ ν) (p : ν → Bool) : Finset κ :=
  ((d.entries.filter fun e => p e.2).map Prod.fst).toFinset

theorem mem_keysWhere {d : Dict κ ν} {p : ν → Bool} {k : κ} :
    k ∈ d.keysWhere p ↔ ∃ v, d.get? k = some v ∧ p v = true := by
  simp only [keysWhere, List.mem_toFinset, List.mem_map, List.mem_filter, get?_eq_some_iff]
  constructor
  · rintro ⟨⟨k, v⟩, ⟨hmem, hp⟩, rfl⟩
    exact ⟨v, hmem, hp⟩
  · rintro ⟨v, hmem, hp⟩
    exact ⟨(k, v), ⟨hmem, hp⟩, rfl⟩

/-- Sorting the keys that satisfy `p` into the fibers of `f`: no key is lost or counted twice. -/
theorem sum_card_fibers {β : Type} [DecidableEq β] (d : Dict κ ν) (p : ν → Bool) (f : ν → β)
    {bs : List β} (hbs : bs.Nodup) (hcover : ∀ k v, d.get? k = some v → p v = true → f v ∈ bs)
    (s : Finset κ) :
    (bs.map fun b => (d.keysWhere (fun v => p v && f v = b) ∩ s).card).sum
      = (d.keysWhere p ∩ s).card := by
  have hmaps : ∀ k ∈ d.keysWhere p ∩ s, (d.get? k).map f ∈ (bs.map some).toFinset := by
    intro k hk
    obtain ⟨v, hv, hp⟩ := mem_keysWhere.mp (Finset.mem_inter.mp hk).1
    rw [hv, List.mem_toFinset]
    exact List.mem_map_of_mem (hcover k v hv hp)
  have hfiber : ∀ b, d.keysWhere (fun v => p v && f v = b) ∩ s
      = (d.keysWhere p ∩ s).filter fun k => (d.get? k).map f = some b := by
    intro b
    ext k
    simp only [Finset.mem_inter, Finset.mem_filter, mem_keysWhere, Bool.and_eq_true,
      decide_eq_true_eq, Option.map_eq_some_iff]
    constructor
    · rintro ⟨⟨v, hv, hp, hb⟩, hs⟩
      exact ⟨⟨⟨v, hv, hp⟩, hs⟩, v, hv, hb⟩
    · rintro ⟨⟨⟨v, hv, hp⟩, hs⟩, w, hw, hb⟩
      rw [hv] at hw
      cases hw
      exact ⟨⟨v, hv, hp, hb⟩, hs⟩
  calc (bs.map fun b => (d.keysWhere (fun v => p v && f v = b) ∩ s).card).sum
      = ((bs.map some).map fun b =>
          ((d.keysWhere p ∩ s).filter fun k => (d.get? k).map f = b).card).sum := by
        rw [List.map_map]
        exact congrArg List.sum (List.map_congr_left fun b _ => by rw [hfiber b]; rfl)
    _ = ∑ b ∈ (bs.map some).toFinset,
          ((d.keysWhere p ∩ s).filter fun k => (d.get? k).map f = b).card :=
        (List.sum_toFinset _ (hbs.map (Option.some_injective _))).symm
    _ = (d.keysWhere p ∩ s).card := (Finset.card_eq_sum_card_fiberwise hmaps).symm

/-- `{k: f(v) for k, v in d.items()}`. -/
def mapValues {μ : Type} (d : Dict κ ν) (f : ν → μ) : Dict κ μ where
  entries := d.entries.map fun e => (e.1, f e.2)
  nodup := by
    have hkeys : (Prod.fst ∘ fun e : κ × ν => (e.1, f e.2)) = Prod.fst := rfl
    rw [List.map_map, hkeys]
    exact d.nodup

/-! ## Writing -/

/-- The entries after `d[k] = v`: the value is replaced in place, a new key goes to the end. -/
def setEntries (k : κ) (v : ν) : List (κ × ν) → List (κ × ν)
  | [] => [(k, v)]
  | e :: es => if e.1 = k then (k, v) :: es else e :: setEntries k v es

theorem map_fst_setEntries (k : κ) (v : ν) (es : List (κ × ν)) :
    (setEntries k v es).map Prod.fst
      = if k ∈ es.map Prod.fst then es.map Prod.fst else es.map Prod.fst ++ [k] := by
  induction es with
  | nil => simp [setEntries]
  | cons e es ih =>
      by_cases hk : e.1 = k
      · simp [setEntries, hk]
      · simp only [setEntries, if_neg hk, List.map_cons, ih, List.mem_cons]
        by_cases hmem : k ∈ es.map Prod.fst
        · rw [if_pos hmem, if_pos (Or.inr hmem)]
        · rw [if_neg hmem, if_neg (by rintro (h | h); exacts [hk h.symm, hmem h])]
          rfl

theorem setEntries_of_not_mem {k : κ} (v : ν) {es : List (κ × ν)} (h : k ∉ es.map Prod.fst) :
    setEntries k v es = es ++ [(k, v)] := by
  induction es with
  | nil => rfl
  | cons e es ih =>
      rw [List.map_cons, List.mem_cons, not_or] at h
      rw [setEntries, if_neg (Ne.symm h.1), ih h.2, List.cons_append]

/-- `d[k] = v`. -/
def set (d : Dict κ ν) (k : κ) (v : ν) : Dict κ ν where
  entries := setEntries k v d.entries
  nodup := by
    rw [map_fst_setEntries]
    by_cases h : k ∈ d.entries.map Prod.fst
    · rw [if_pos h]; exact d.nodup
    · rw [if_neg h]
      refine List.nodup_append.mpr ⟨d.nodup, List.nodup_singleton k, fun a ha b hb hab => ?_⟩
      rw [List.mem_singleton.mp hb] at hab
      exact h (hab ▸ ha)

theorem find?_setEntries (k k' : κ) (v : ν) (es : List (κ × ν)) :
    ((setEntries k v es).find? (fun e => e.1 = k')).map Prod.snd
      = if k = k' then some v else (es.find? (fun e => e.1 = k')).map Prod.snd := by
  induction es with
  | nil => by_cases h : k = k' <;> simp [setEntries, h]
  | cons e es ih =>
      by_cases hk : e.1 = k
      · by_cases h : k = k'
        · simp [setEntries, hk, h]
        · simp [setEntries, hk, h]
      · rw [setEntries, if_neg hk]
        by_cases he : e.1 = k'
        · have h : ¬ k = k' := fun h' => hk (he.trans h'.symm)
          simp [he, h]
        · simpa [he] using ih

theorem get?_set (d : Dict κ ν) (k k' : κ) (v : ν) :
    (d.set k v).get? k' = if k = k' then some v else d.get? k' :=
  find?_setEntries k k' v d.entries

@[simp] theorem get?_set_eq (d : Dict κ ν) (k : κ) (v : ν) : (d.set k v).get? k = some v := by
  rw [get?_set, if_pos rfl]

theorem get?_set_ne (d : Dict κ ν) {k k' : κ} (v : ν) (h : k ≠ k') :
    (d.set k v).get? k' = d.get? k' := by
  rw [get?_set, if_neg h]

theorem getD_set (d : Dict κ ν) (k k' : κ) (v default : ν) :
    (d.set k v).getD k' default = if k = k' then v else d.getD k' default := by
  rw [getD, get?_set]
  by_cases h : k = k'
  · rw [if_pos h, if_pos h]; rfl
  · rw [if_neg h, if_neg h]; rfl

theorem get?_mapValues {μ : Type} (d : Dict κ ν) (f : ν → μ) (k : κ) :
    (d.mapValues f).get? k = (d.get? k).map f := by
  unfold get? mapValues
  rw [List.find?_map, Option.map_map, Option.map_map]
  rfl

theorem mapValues_set {μ : Type} (d : Dict κ ν) (f : ν → μ) (k : κ) (v : ν) :
    (d.mapValues f).set k (f v) = (d.set k v).mapValues f := by
  have hlist : ∀ es : List (κ × ν), setEntries k (f v) (es.map fun e => (e.1, f e.2))
      = (setEntries k v es).map fun e => (e.1, f e.2) := by
    intro es
    induction es with
    | nil => rfl
    | cons e es ih =>
        rw [List.map_cons, setEntries, setEntries, ih]
        split <;> rfl
  exact ext_entries (hlist d.entries)

theorem set_set (d : Dict κ ν) (k : κ) (v w : ν) : (d.set k v).set k w = d.set k w := by
  have hlist : ∀ es : List (κ × ν), setEntries k w (setEntries k v es) = setEntries k w es := by
    intro es
    induction es with
    | nil => simp [setEntries]
    | cons e es ih =>
        by_cases h : e.1 = k
        · simp [setEntries, h]
        · simp [setEntries, h, ih]
  exact ext_entries (hlist d.entries)

/-- `{k: f(k) for k in ks}`. -/
def tabulate (ks : List κ) (f : κ → ν) : Dict κ ν where
  entries := ks.dedup.map fun k => (k, f k)
  nodup := by
    have hkeys : (Prod.fst ∘ fun k => (k, f k)) = id := rfl
    rw [List.map_map, hkeys, List.map_id]
    exact ks.nodup_dedup

theorem get?_tabulate (ks : List κ) (f : κ → ν) (k : κ) :
    (tabulate ks f).get? k = if k ∈ ks then some (f k) else none := by
  by_cases h : k ∈ ks
  · rw [if_pos h, get?_eq_some_iff]
    exact List.mem_map_of_mem (f := fun k => (k, f k)) (List.mem_dedup.mpr h)
  · rw [if_neg h, get?_eq_none_iff]
    intro hk
    obtain ⟨e, he, rfl⟩ := List.mem_map.mp hk
    obtain ⟨k', hk', rfl⟩ := List.mem_map.mp he
    exact h (List.mem_dedup.mp hk')

theorem values_tabulate {ks : List κ} (h : ks.Nodup) (f : κ → ν) :
    (tabulate ks f).values = ks.map f := by
  simp only [values, tabulate, h.dedup, List.map_map]
  rfl

theorem rel_tabulate {μ : Type} {R : ν → μ → Prop} {ks : List κ} {f : κ → ν} {g : κ → μ}
    (h : ∀ k ∈ ks, R (f k) (g k)) : (tabulate ks f).Rel R (tabulate ks g) := by
  intro k
  rw [get?_tabulate, get?_tabulate]
  by_cases hk : k ∈ ks
  · rw [if_pos hk, if_pos hk]
    exact .some (h k hk)
  · rw [if_neg hk, if_neg hk]
    exact .none

theorem mem_keys_set (d : Dict κ ν) (k k' : κ) (v : ν) :
    k' ∈ (d.set k v).keys ↔ k' ∈ d.keys ∨ k' = k := by
  rw [mem_keys_iff, mem_keys_iff, get?_set]
  by_cases h : k = k'
  · simp [h]
  · simp [h, Ne.symm h]

/-- `{k: v for k, v in l}`: the last value of a repeated key stays. -/
def ofList (l : List (κ × ν)) : Dict κ ν := l.foldl (fun d e => d.set e.1 e.2) empty

/-- The entries of a dictionary give the dictionary back. -/
theorem ofList_entries (d : Dict κ ν) : ofList d.entries = d := by
  have hfold : ∀ (es : List (κ × ν)) (e : Dict κ ν), ((e.entries ++ es).map Prod.fst).Nodup →
      (es.foldl (fun d e => d.set e.1 e.2) e).entries = e.entries ++ es := by
    intro es
    induction es with
    | nil => simp
    | cons entry es ih =>
        intro e hnodup
        have hset : (e.set entry.1 entry.2).entries = e.entries ++ [entry] := by
          have hnew : entry.1 ∉ e.entries.map Prod.fst := by
            rw [List.map_append, List.map_cons, List.nodup_append] at hnodup
            exact fun hmem => hnodup.2.2 _ hmem _ (List.mem_cons_self ..) rfl
          exact setEntries_of_not_mem entry.2 hnew
        rw [List.foldl_cons, ih, hset, List.append_assoc, List.singleton_append]
        rwa [hset, List.append_assoc, List.singleton_append]
  have hentries : (ofList d.entries).entries = d.entries := hfold d.entries empty d.nodup
  exact ext_entries hentries

theorem ofList_of_nodup {l : List (κ × ν)} (h : (l.map Prod.fst).Nodup) : ofList l = ⟨l, h⟩ :=
  ofList_entries ⟨l, h⟩

theorem ofList_concat (l : List (κ × ν)) (e : κ × ν) :
    ofList (l ++ [e]) = (ofList l).set e.1 e.2 := by
  rw [ofList, List.foldl_append]
  rfl

/-- The last entry of a key counts. -/
theorem get?_ofList (l : List (κ × ν)) (k : κ) : (ofList l).get? k = l.reverse.lookup k := by
  induction l using List.reverseRecOn with
  | nil => rfl
  | append_singleton l e ih =>
      obtain ⟨k', v⟩ := e
      rw [ofList_concat, get?_set, ih, List.reverse_append, List.reverse_singleton,
        List.singleton_append, List.lookup_cons]
      by_cases hk : k = k'
      · subst hk
        simp
      · simp [beq_false_of_ne hk, Ne.symm hk]

/-- `{...d, ...e}`: the entries of the second replace those of the first. -/
def merge (d e : Dict κ ν) : Dict κ ν := e.entries.foldl (fun d entry => d.set entry.1 entry.2) d

theorem get?_merge (d e : Dict κ ν) (k : κ) : (d.merge e).get? k = (e.get? k).or (d.get? k) := by
  have hfold : ∀ (es : List (κ × ν)) (d : Dict κ ν), (es.map Prod.fst).Nodup →
      (es.foldl (fun d entry => d.set entry.1 entry.2) d).get? k
        = ((es.find? fun entry => entry.1 = k).map Prod.snd).or (d.get? k) := by
    intro es
    induction es with
    | nil => simp
    | cons entry es ih =>
        intro d hnodup
        obtain ⟨hnew, hrest⟩ := List.nodup_cons.mp hnodup
        rw [List.foldl_cons, ih _ hrest, get?_set]
        by_cases hk : entry.1 = k
        · have hnone : es.find? (fun entry => entry.1 = k) = none := by
            rw [List.find?_eq_none]
            intro other hother heq
            have heq : other.1 = k := by simpa using heq
            exact hnew (hk.trans heq.symm ▸ List.mem_map_of_mem hother)
          rw [hnone, if_pos hk, List.find?_cons_of_pos (by simpa using hk)]
          rfl
        · rw [if_neg hk, List.find?_cons_of_neg (by simpa using hk)]
  exact hfold e.entries d e.nodup

/-- A sum over keys of what is found under them, nothing counting zero. -/
theorem sum_map_get? {M : Type} [AddCommMonoid M] (d : Dict κ ν) {ks : List κ} (hks : ks.Nodup)
    (hsub : ∀ k ∈ d.keys, k ∈ ks) (g : Option ν → M) (hnone : g none = 0) :
    (ks.map fun k => g (d.get? k)).sum = (d.values.map fun v => g (some v)).sum := by
  have hperm : (ks.filter fun k => k ∈ d.keys).Perm d.keys := by
    refine (List.perm_ext_iff_of_nodup (hks.filter _) d.keys_nodup).mpr fun k => ?_
    simpa using hsub k
  have hrest : ((ks.filter fun k => !decide (k ∈ d.keys)).map fun k => g (d.get? k)).sum = 0 := by
    refine List.sum_eq_zero fun x hx => ?_
    obtain ⟨k, hk, rfl⟩ := List.mem_map.mp hx
    have hnot : k ∉ d.keys := by simpa using (List.mem_filter.mp hk).2
    rw [(d.get?_eq_none_iff k).mpr hnot, hnone]
  have hvalues : (d.keys.map fun k => g (d.get? k)) = d.values.map fun v => g (some v) := by
    unfold keys values
    rw [List.map_map, List.map_map]
    refine List.map_congr_left fun e he => ?_
    show g (d.get? e.1) = g (some e.2)
    rw [get?_of_mem_entries he]
  have hsplit := (List.filter_append_perm (fun k => decide (k ∈ d.keys)) ks).map
    fun k => g (d.get? k)
  rw [← hsplit.sum_eq, List.map_append, List.sum_append, hrest, add_zero, (hperm.map _).sum_eq,
    hvalues]

/-- `counter[k] += 1`. -/
def increment (d : Dict κ Nat) (k : κ) : Dict κ Nat := d.set k (d.getD k 0 + 1)

theorem getD_foldl_increment {β : Type} (f : β → κ) (k : κ) (l : List β) (d : Dict κ Nat) :
    (l.foldl (fun d b => d.increment (f b)) d).getD k 0
      = d.getD k 0 + l.countP (fun b => f b = k) := by
  induction l generalizing d with
  | nil => simp
  | cons b l ih =>
      have hstep : (d.increment (f b)).getD k 0 = d.getD k 0 + if f b = k then 1 else 0 := by
        simp only [increment, getD, get?_set]
        by_cases h : f b = k
        · simp [h]
        · simp [h]
      simp only [List.foldl_cons, ih, hstep, List.countP_cons, decide_eq_true_eq]
      omega

theorem mem_keys_foldl_increment {β : Type} (f : β → κ) (k : κ) (l : List β) (d : Dict κ Nat) :
    k ∈ (l.foldl (fun d b => d.increment (f b)) d).keys ↔ k ∈ d.keys ∨ ∃ b ∈ l, f b = k := by
  induction l generalizing d with
  | nil => simp
  | cons b l ih =>
      rw [List.foldl_cons, ih, increment, mem_keys_set, or_assoc, eq_comm (a := k)]
      simp only [List.mem_cons, exists_eq_or_imp]

/-- Counting does not depend on the order. -/
theorem same_foldl_increment {β : Type} (f : β → κ) {l l' : List β} (h : l.Perm l') :
    (l.foldl (fun d b => d.increment (f b)) empty).Same
      (l'.foldl (fun d b => d.increment (f b)) empty) := by
  refine same_of_getD 0 (fun k => ?_) fun k => ?_
  · rw [mem_keys_foldl_increment, mem_keys_foldl_increment]
    exact or_congr_right (exists_congr fun b => and_congr_left fun _ => h.mem_iff)
  · rw [getD_foldl_increment, getD_foldl_increment, h.countP_eq]

/-! ## Grouping

`d.push k x` is `d.setdefault(k, []).append(x)`, and `d.pushAll ks x` does it for each key of
`ks`. -/

section Grouping

variable {α β : Type}

/-- `d.setdefault(k, []).append(x)`. -/
def push (d : Dict κ (List α)) (k : κ) (x : α) : Dict κ (List α) := d.set k (d.getD k [] ++ [x])

/-- Append `x` to the list of every key of `ks`. -/
def pushAll (d : Dict κ (List α)) (ks : List κ) (x : α) : Dict κ (List α) :=
  ks.foldl (fun d k => d.push k x) d

/-- Group the elements of `l`: `b` is recorded as `g b` under each key of `f b`. -/
def group (f : β → List κ) (g : β → α) (l : List β) (d : Dict κ (List α)) : Dict κ (List α) :=
  l.foldl (fun d b => d.pushAll (f b) (g b)) d

theorem getD_push (d : Dict κ (List α)) (k k' : κ) (x : α) :
    (d.push k x).getD k' [] = d.getD k' [] ++ if k = k' then [x] else [] := by
  by_cases h : k = k'
  · subst h; simp [push, getD]
  · simp [push, getD, get?_set_ne, h]

theorem mem_keys_push (d : Dict κ (List α)) (k k' : κ) (x : α) :
    k' ∈ (d.push k x).keys ↔ k' ∈ d.keys ∨ k' = k := mem_keys_set _ _ _ _

theorem getD_pushAll (d : Dict κ (List α)) {ks : List κ} (hks : ks.Nodup) (k : κ) (x : α) :
    (d.pushAll ks x).getD k [] = d.getD k [] ++ if k ∈ ks then [x] else [] := by
  induction ks generalizing d with
  | nil => simp [pushAll]
  | cons k₀ ks ih =>
      obtain ⟨hk₀, hks⟩ := List.nodup_cons.mp hks
      have hrec := ih (d.push k₀ x) hks
      simp only [pushAll, List.foldl_cons] at hrec ⊢
      rw [hrec, getD_push]
      by_cases h : k₀ = k
      · subst h; simp [hk₀]
      · simp [h, Ne.symm h]

theorem mem_keys_pushAll (d : Dict κ (List α)) (ks : List κ) (k : κ) (x : α) :
    k ∈ (d.pushAll ks x).keys ↔ k ∈ d.keys ∨ k ∈ ks := by
  induction ks generalizing d with
  | nil => simp [pushAll]
  | cons k₀ ks ih =>
      have hrec := ih (d.push k₀ x)
      simp only [pushAll, List.foldl_cons] at hrec ⊢
      rw [hrec, mem_keys_push, List.mem_cons, or_assoc]

/-- **The closed form of a grouping loop**: under `k` stand the elements naming `k`, in
order. -/
theorem getD_group (f : β → List κ) (g : β → α) {l : List β} (hf : ∀ b ∈ l, (f b).Nodup)
    (d : Dict κ (List α)) (k : κ) :
    (group f g l d).getD k [] = d.getD k [] ++ (l.filter (fun b => k ∈ f b)).map g := by
  induction l generalizing d with
  | nil => simp [group]
  | cons b l ih =>
      have hb : (f b).Nodup := hf b (List.mem_cons_self ..)
      have hrec := ih (fun b' hb' => hf b' (List.mem_cons_of_mem _ hb')) (d.pushAll (f b) (g b))
      simp only [group, List.foldl_cons] at hrec ⊢
      rw [hrec, getD_pushAll d hb]
      by_cases h : k ∈ f b
      · simp [h]
      · simp [h]

theorem mem_keys_group (f : β → List κ) (g : β → α) (l : List β) (d : Dict κ (List α)) (k : κ) :
    k ∈ (group f g l d).keys ↔ k ∈ d.keys ∨ ∃ b ∈ l, k ∈ f b := by
  induction l generalizing d with
  | nil => simp [group]
  | cons b l ih =>
      have hrec := ih (d.pushAll (f b) (g b))
      simp only [group, List.foldl_cons] at hrec ⊢
      rw [hrec, mem_keys_pushAll]
      simp only [List.mem_cons, exists_eq_or_imp, or_assoc]

/-- Elements that name fewer keys leave a sublist under every key. -/
theorem getD_group_sublist {f f' : β → List κ} {g : β → α} {l l' : List β}
    (hf : ∀ b ∈ l, (f b).Nodup) (hf' : ∀ b ∈ l', (f' b).Nodup)
    (h : List.Forall₂ (fun b b' => g b' = g b ∧ f' b' ⊆ f b) l l') (k : κ) :
    ((group f' g l' empty).getD k []).Sublist ((group f g l empty).getD k []) := by
  rw [getD_group f g hf, getD_group f' g hf', getD_empty, List.nil_append, List.nil_append]
  clear hf hf'
  induction h with
  | nil => exact List.Sublist.refl _
  | @cons b b' l l' hb _ ih =>
      obtain ⟨hg, hsub⟩ := hb
      by_cases hk : k ∈ f' b'
      · rw [List.filter_cons_of_pos (by simpa using hk),
          List.filter_cons_of_pos (by simpa using hsub hk), List.map_cons, List.map_cons, hg]
        exact ih.cons_cons _
      · rw [List.filter_cons_of_neg (by simpa using hk)]
        refine ih.trans (List.Sublist.map g ?_)
        exact (List.sublist_cons_self b l).filter _

/-- The same keys, and under each key the same elements in some order. -/
structure SamePerm (d e : Dict κ (List α)) : Prop where
  keys : ∀ k, k ∈ d.keys ↔ k ∈ e.keys
  lists : ∀ k, (d.getD k []).Perm (e.getD k [])

theorem SamePerm.refl (d : Dict κ (List α)) : d.SamePerm d :=
  ⟨fun _ => Iff.rfl, fun _ => List.Perm.refl _⟩

/-- Grouping in another order permutes the lists. -/
theorem getD_group_perm {f : β → List κ} (g : β → α) {l l' : List β} (hf : ∀ b, (f b).Nodup)
    (h : l.Perm l') (k : κ) :
    ((group f g l empty).getD k []).Perm ((group f g l' empty).getD k []) := by
  rw [getD_group f g fun b _ => hf b, getD_group f g fun b _ => hf b]
  exact ((h.filter _).map g).append_left _

end Grouping

end Dict

end PyLib
