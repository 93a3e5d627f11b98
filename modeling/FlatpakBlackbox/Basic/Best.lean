import FlatpakBlackbox.Basic.Dict
import FlatpakBlackbox.Basic.Sort
import Mathlib.Tactic

set_option autoImplicit false

/-! # The best item of each key

A loop that keeps one item per key in a dictionary: an item replaces the kept one when it ranks at
least as high, so the last of the highest stays (`lastHighest_of_get?_best`). The kept items are
listed in the order of their keys, by a stable sort in which different keys may tie. Listing is a
left fold over the items that arrive: `bestByKey_append_singleton`.
-/

namespace PyLib

namespace Dict

variable {κ ν : Type} [DecidableEq κ]

theorem get?_eq_of_perm {d e : Dict κ ν} (h : d.entries.Perm e.entries) (k : κ) :
    d.get? k = e.get? k := by
  refine Option.ext fun v => ?_
  rw [get?_eq_some_iff, get?_eq_some_iff, h.mem_iff]

theorem entries_perm_of_same {d e : Dict κ ν} (h : d.Same e) : d.entries.Perm e.entries := by
  have hd : d.entries.Nodup := d.nodup.of_map
  have he : e.entries.Nodup := e.nodup.of_map
  refine (List.perm_ext_iff_of_nodup hd he).mpr fun entry => ?_
  rw [← get?_eq_some_iff (d := d), ← get?_eq_some_iff (d := e), h]

/-- Writing an existing key replaces its value in place. -/
theorem entries_set_of_mem {d : Dict κ ν} {k : κ} (v : ν) (h : k ∈ d.keys) :
    (d.set k v).entries = d.entries.map fun e => if e.1 = k then (k, v) else e := by
  have hlist : ∀ es : List (κ × ν), (es.map Prod.fst).Nodup → k ∈ es.map Prod.fst →
      setEntries k v es = es.map fun e => if e.1 = k then (k, v) else e := by
    intro es hnodup hmem
    induction es with
    | nil => cases hmem
    | cons e es ih =>
        obtain ⟨hnot, hrest⟩ := List.nodup_cons.mp hnodup
        by_cases hk : e.1 = k
        · have hid : (es.map fun e => if e.1 = k then (k, v) else e) = es := by
            refine (List.map_congr_left fun e' he' => ?_).trans (List.map_id es)
            have hne : e'.1 ≠ k := fun heq =>
              hnot (hk ▸ heq ▸ List.mem_map_of_mem (f := Prod.fst) he')
            exact if_neg hne
          rw [setEntries, if_pos hk, List.map_cons, if_pos hk, hid]
        · have hmem' : k ∈ es.map Prod.fst :=
            (List.mem_cons.mp hmem).resolve_left (Ne.symm hk)
          rw [setEntries, if_neg hk, List.map_cons, if_neg hk, ih hrest hmem']
  exact hlist d.entries d.nodup h

end Dict

variable {α κ β : Type} [LinearOrder β] (key : α → κ) (rank : α → β)

/-- The highest item with its key, the last one of those that tie. -/
def LastHighest (items : List α) (k : κ) (t : α) : Prop :=
  ∃ before after, items = before ++ t :: after ∧ key t = k
    ∧ (∀ s ∈ before, key s = k → rank s ≤ rank t) ∧ ∀ s ∈ after, key s = k → rank s < rank t

section LastHighest

variable {key rank} {items : List α} {k : κ} {t : α}

theorem LastHighest.mem (h : LastHighest key rank items k t) : t ∈ items ∧ key t = k := by
  obtain ⟨before, after, rfl, hk, -, -⟩ := h
  exact ⟨by simp, hk⟩

theorem LastHighest.le (h : LastHighest key rank items k t) :
    ∀ s ∈ items, key s = k → rank s ≤ rank t := by
  obtain ⟨before, after, rfl, -, hbefore, hafter⟩ := h
  intro s hs hk
  rcases List.mem_append.mp hs with hs | hs
  · exact hbefore s hs hk
  · rcases List.mem_cons.mp hs with rfl | hs
    · exact le_rfl
    · exact (hafter s hs hk).le

theorem LastHighest.append_of_lt {x : α} (h : LastHighest key rank items k t)
    (hx : key x = k → rank x < rank t) : LastHighest key rank (items ++ [x]) k t := by
  obtain ⟨before, after, rfl, hk, hbefore, hafter⟩ := h
  refine ⟨before, after ++ [x], by simp, hk, hbefore, fun s hs => ?_⟩
  rcases List.mem_append.mp hs with hs | hs
  · exact hafter s hs
  · rw [List.mem_singleton.mp hs]
    exact hx

end LastHighest

variable [DecidableEq κ]

/-- Keep the item, unless a higher one is kept for its key. -/
def keep (kept : Dict κ α) (item : α) : Dict κ α :=
  match kept.get? (key item) with
  | some previous => if rank previous ≤ rank item then kept.set (key item) item else kept
  | none => kept.set (key item) item

/-- The items that are kept in the end. -/
def best (items : List α) : Dict κ α := items.foldl (keep key rank) Dict.empty

section Spec

variable {key rank}

theorem best_append_singleton (items : List α) (x : α) :
    best key rank (items ++ [x]) = keep key rank (best key rank items) x := by
  unfold best
  rw [List.foldl_append]
  rfl

theorem get?_keep_ne {kept : Dict κ α} {x : α} {k : κ} (h : key x ≠ k) :
    (keep key rank kept x).get? k = kept.get? k := by
  unfold keep
  split
  · split
    · exact Dict.get?_set_ne _ _ h
    · rfl
  · exact Dict.get?_set_ne _ _ h

theorem get?_best_eq_none_iff {items : List α} {k : κ} :
    (best key rank items).get? k = none ↔ ∀ s ∈ items, key s ≠ k := by
  induction items using List.reverseRecOn with
  | nil => simp [best]
  | append_singleton items x ih =>
      rw [best_append_singleton]
      by_cases hk : key x = k
      · have hsome : (keep key rank (best key rank items) x).get? k ≠ none := by
          rw [← hk]
          unfold keep
          split
          · next previous hprevious =>
              split
              · rw [Dict.get?_set_eq]; exact Option.some_ne_none x
              · rw [hprevious]; exact Option.some_ne_none previous
          · rw [Dict.get?_set_eq]; exact Option.some_ne_none x
        refine ⟨fun h => absurd h hsome, fun h => absurd hk (h x (by simp))⟩
      · rw [get?_keep_ne hk, ih]
        simp [or_imp, forall_and, hk]

/-- What is kept for a key is the last of its highest items. -/
theorem lastHighest_of_get?_best {items : List α} {k : κ} {t : α}
    (h : (best key rank items).get? k = some t) : LastHighest key rank items k t := by
  induction items using List.reverseRecOn generalizing t with
  | nil => cases h
  | append_singleton items x ih =>
      rw [best_append_singleton] at h
      by_cases hk : key x = k
      · subst hk
        unfold keep at h
        split at h
        · next previous hprevious =>
            split at h
            · next hle =>
                rw [Dict.get?_set_eq] at h
                cases h
                refine ⟨items, [], rfl, rfl, fun s hs hkey => ?_, by simp⟩
                exact ((ih hprevious).le s hs hkey).trans hle
            · next hlt =>
                have hsame : previous = t := Option.some.inj (hprevious.symm.trans h)
                exact (ih h).append_of_lt fun _ => hsame ▸ not_le.mp hlt
        · next hnone =>
            rw [Dict.get?_set_eq] at h
            cases h
            refine ⟨items, [], rfl, rfl, fun s hs hkey => ?_, by simp⟩
            exact absurd hkey (get?_best_eq_none_iff.mp hnone s hs)
      · rw [get?_keep_ne hk] at h
        exact (ih h).append_of_lt fun hkey => absurd hkey hk

/-- Without ties the order of the items does not matter. -/
theorem best_same_of_perm {items items' : List α} (hperm : items.Perm items')
    (hties : items.Pairwise fun s t => key s = key t → rank s ≠ rank t) :
    (best key rank items).Same (best key rank items') := by
  intro k
  cases hget : (best key rank items).get? k with
  | none =>
      rw [get?_best_eq_none_iff] at hget
      exact (get?_best_eq_none_iff.mpr fun s hs => hget s (hperm.mem_iff.mpr hs)).symm
  | some t =>
      have ht := lastHighest_of_get?_best hget
      cases hget' : (best key rank items').get? k with
      | none =>
          rw [get?_best_eq_none_iff] at hget'
          exact absurd ht.mem.2 (hget' t (hperm.mem_iff.mp ht.mem.1))
      | some t' =>
          have ht' := lastHighest_of_get?_best hget'
          have hmem' : t' ∈ items := hperm.mem_iff.mpr ht'.mem.1
          have hle := ht.le t' hmem' ht'.mem.2
          have hge := ht'.le t (hperm.mem_iff.mp ht.mem.1) ht.mem.2
          by_contra hne
          have hdistinct : t ≠ t' := fun heq => hne (congrArg some heq)
          have hsymm : Std.Symm fun s t => key s = key t → rank s ≠ rank t :=
            ⟨fun s t h heq => (h heq.symm).symm⟩
          exact hties.forall ht.mem.1 hmem' hdistinct (ht.mem.2.trans ht'.mem.2.symm)
            (le_antisymm hge hle)

end Spec

section Map

variable {key rank} {f : α → α} (hkey : ∀ x, key (f x) = key x) (hrank : ∀ x, rank (f x) = rank x)

include hkey hrank in
/-- A function that changes neither keys nor ranks can be applied before or after. -/
theorem best_map (items : List α) :
    best key rank (items.map f) = (best key rank items).mapValues f := by
  induction items using List.reverseRecOn with
  | nil => rfl
  | append_singleton items x ih =>
      rw [List.map_append, List.map_singleton, best_append_singleton, best_append_singleton, ih]
      unfold keep
      rw [hkey, hrank, Dict.get?_mapValues]
      cases (best key rank items).get? (key x) with
      | none => exact Dict.mapValues_set _ f _ x
      | some previous =>
          simp only [Option.map_some, hrank]
          split
          · exact Dict.mapValues_set _ f _ x
          · rfl

/-- Adding an item twice in a row is adding it once. -/
theorem keep_keep (d : Dict κ α) (x : α) :
    keep key rank (keep key rank d x) x = keep key rank d x := by
  have hset : keep key rank (d.set (key x) x) x = d.set (key x) x := by
    unfold keep
    rw [Dict.get?_set_eq]
    simp only [le_refl, if_true, Dict.set_set]
  cases hget : d.get? (key x) with
  | none =>
      have hkeep : keep key rank d x = d.set (key x) x := by unfold keep; rw [hget]
      rw [hkeep, hset]
  | some previous =>
      by_cases hle : rank previous ≤ rank x
      · have hkeep : keep key rank d x = d.set (key x) x := by
          unfold keep
          rw [hget]
          exact if_pos hle
        rw [hkeep, hset]
      · have hkeep : keep key rank d x = d := by
          unfold keep
          rw [hget]
          exact if_neg hle
        rw [hkeep, hkeep]

end Map

/-! ## Listing the kept items -/

variable (r : κ → κ → Prop) [DecidableRel r]

/-- The entries of a dictionary in the order of their keys. -/
def sortedEntries (kept : Dict κ α) : List (κ × α) :=
  kept.entries.insertionSort fun a b => r a.1 b.1

/-- The best items in the order of their keys. -/
def bestByKey (items : List α) : List α := (sortedEntries r (best key rank items)).map Prod.snd

section Listing

variable {key rank}

theorem key_of_mem_best {items : List α} {entry : κ × α}
    (h : entry ∈ (best key rank items).entries) : key entry.2 = entry.1 :=
  (lastHighest_of_get?_best (Dict.get?_of_mem_entries h)).mem.2

theorem mem_bestByKey_iff {items : List α} {t : α} :
    t ∈ bestByKey key rank r items ↔ (best key rank items).get? (key t) = some t := by
  unfold bestByKey sortedEntries
  rw [Dict.get?_eq_some_iff, List.mem_map]
  constructor
  · rintro ⟨entry, hentry, rfl⟩
    rw [List.mem_insertionSort] at hentry
    rw [key_of_mem_best hentry]
    exact hentry
  · intro h
    exact ⟨(key t, t), (List.mem_insertionSort _).mpr h, rfl⟩

/-- Items with different keys are all kept, in their order. -/
theorem entries_best_map_snd {entries : List (κ × α)} (hnodup : (entries.map Prod.fst).Nodup)
    (hkey : ∀ entry ∈ entries, key entry.2 = entry.1) :
    (best key rank (entries.map Prod.snd)).entries = entries := by
  induction entries using List.reverseRecOn with
  | nil => rfl
  | append_singleton entries x ih =>
      rw [List.map_append, List.map_singleton, List.nodup_append] at hnodup
      have hih := ih hnodup.1 fun entry hentry => hkey entry (List.mem_append_left _ hentry)
      have hx : key x.2 = x.1 := hkey x (by simp)
      have hnot : x.1 ∉ entries.map Prod.fst := fun hmem =>
        hnodup.2.2 _ hmem _ (List.mem_singleton_self _) rfl
      have hnone : (best key rank (entries.map Prod.snd)).get? x.1 = none := by
        rw [Dict.get?_eq_none_iff, Dict.keys, hih]
        exact hnot
      rw [List.map_append, List.map_singleton, best_append_singleton, keep, hx, hnone]
      show Dict.setEntries x.1 x.2 _ = _
      rw [hih, Dict.setEntries_of_not_mem x.2 hnot]

/-- The dictionary of the listed items holds them in the order of the list. -/
theorem entries_best_bestByKey (items : List α) :
    (best key rank (bestByKey key rank r items)).entries
      = sortedEntries r (best key rank items) := by
  have hperm : (sortedEntries r (best key rank items)).Perm (best key rank items).entries :=
    List.perm_insertionSort _ _
  refine entries_best_map_snd ?_ fun entry hentry => key_of_mem_best (hperm.mem_iff.mp hentry)
  exact (hperm.map Prod.fst).nodup_iff.mpr (best key rank items).nodup

theorem bestByKey_map {f : α → α} (hkey : ∀ x, key (f x) = key x)
    (hrank : ∀ x, rank (f x) = rank x) (items : List α) :
    bestByKey key rank r (items.map f) = (bestByKey key rank r items).map f := by
  unfold bestByKey sortedEntries
  rw [best_map hkey hrank]
  have hsort := List.map_insertionSort (fun a b : κ × α => r a.1 b.1)
    (fun a b : κ × α => r a.1 b.1) (fun entry : κ × α => (entry.1, f entry.2))
    (best key rank items).entries fun _ _ _ _ => Iff.rfl
  show (List.insertionSort _ (List.map _ _)).map Prod.snd = _
  rw [← hsort, List.map_map, List.map_map]
  rfl

theorem bestByKey_append_twice (items : List α) (x : α) :
    bestByKey key rank r (items ++ [x] ++ [x]) = bestByKey key rank r (items ++ [x]) := by
  unfold bestByKey
  rw [best_append_singleton, best_append_singleton, keep_keep]

variable [Std.Total r] [IsTrans κ r]

instance totalByKey : Std.Total fun a b : κ × α => r a.1 b.1 :=
  ⟨fun a b => Std.Total.total (r := r) a.1 b.1⟩

instance transByKey : IsTrans (κ × α) fun a b => r a.1 b.1 :=
  ⟨fun a b c => IsTrans.trans (r := r) a.1 b.1 c.1⟩

/-- Writing to a dictionary and to its sorted copy gives the same sorted entries. -/
theorem sortedEntries_set {d e : Dict κ α} (h : d.entries = sortedEntries r e) (k : κ) (v : α) :
    sortedEntries r (d.set k v) = sortedEntries r (e.set k v) := by
  have hkeys : k ∈ d.keys ↔ k ∈ e.keys := by
    unfold Dict.keys
    rw [h]
    exact (List.Perm.map _ (List.perm_insertionSort _ _)).mem_iff
  unfold sortedEntries at h ⊢
  by_cases hk : k ∈ e.keys
  · rw [Dict.entries_set_of_mem v (hkeys.mpr hk), Dict.entries_set_of_mem v hk, h]
    have hfst : ∀ entry : κ × α, (if entry.1 = k then (k, v) else entry).1 = entry.1 := by
      intro entry
      split
      · next heq => exact heq.symm
      · rfl
    have hmap : ∀ l : List (κ × α),
        (l.map fun entry => if entry.1 = k then (k, v) else entry).insertionSort
            (fun a b => r a.1 b.1)
          = (l.insertionSort fun a b => r a.1 b.1).map
            fun entry => if entry.1 = k then (k, v) else entry := by
      intro l
      refine (List.map_insertionSort _ _ _ l fun a _ b _ => ?_).symm
      rw [hfst, hfst]
    rw [hmap, hmap, insertionSort_insertionSort (fun a b : κ × α => r a.1 b.1)]
  · have hd : (d.set k v).entries = d.entries ++ [(k, v)] :=
      Dict.setEntries_of_not_mem v fun hmem => hk (hkeys.mp hmem)
    have he : (e.set k v).entries = e.entries ++ [(k, v)] := Dict.setEntries_of_not_mem v hk
    rw [hd, he, h]
    exact insertionSort_insertionSort_append (fun a b : κ × α => r a.1 b.1) _ _

theorem sortedEntries_keep {d e : Dict κ α} (h : d.entries = sortedEntries r e) (x : α) :
    sortedEntries r (keep key rank d x) = sortedEntries r (keep key rank e x) := by
  have hget : d.get? (key x) = e.get? (key x) := by
    refine Dict.get?_eq_of_perm ?_ _
    rw [h]
    exact List.perm_insertionSort _ _
  have hself : sortedEntries r d = sortedEntries r e := by
    show (d.entries.insertionSort fun a b => r a.1 b.1) = _
    rw [h]
    exact insertionSort_insertionSort (fun a b : κ × α => r a.1 b.1) e.entries
  unfold keep
  rw [hget]
  cases e.get? (key x) with
  | none => exact sortedEntries_set r h _ _
  | some previous =>
      dsimp only
      split
      · exact sortedEntries_set r h _ _
      · exact hself

/-- Listing is a left fold: an item can be added to the list of the earlier ones. -/
theorem bestByKey_append_singleton (items : List α) (x : α) :
    bestByKey key rank r (bestByKey key rank r items ++ [x])
      = bestByKey key rank r (items ++ [x]) := by
  unfold bestByKey
  rw [best_append_singleton, best_append_singleton]
  exact congrArg (List.map Prod.snd) (sortedEntries_keep r (entries_best_bestByKey r items) x)

theorem bestByKey_bestByKey (items : List α) :
    bestByKey key rank r (bestByKey key rank r items) = bestByKey key rank r items := by
  show (sortedEntries r (best key rank (bestByKey key rank r items))).map Prod.snd = _
  unfold sortedEntries
  rw [entries_best_bestByKey]
  exact congrArg (List.map Prod.snd) (insertionSort_insertionSort (fun a b : κ × α => r a.1 b.1) _)

/-- Adding the items one at a time. -/
theorem foldl_bestByKey (items : List α) :
    items.foldl (fun listed x => bestByKey key rank r (listed ++ [x])) []
      = bestByKey key rank r items := by
  induction items using List.reverseRecOn with
  | nil => rfl
  | append_singleton items x ih =>
      rw [List.foldl_append, List.foldl_cons, List.foldl_nil, ih, bestByKey_append_singleton]

/-- The listed items have different keys, in order. -/
theorem bestByKey_pairwise (items : List α) :
    (bestByKey key rank r items).Pairwise fun s t => key s ≠ key t ∧ r (key s) (key t) := by
  have hperm : (sortedEntries r (best key rank items)).Perm (best key rank items).entries :=
    List.perm_insertionSort _ _
  have hkeys : (sortedEntries r (best key rank items)).Pairwise fun a b => a.1 ≠ b.1 :=
    List.pairwise_map.mp ((hperm.map Prod.fst).nodup_iff.mpr (best key rank items).nodup)
  have hsorted := List.pairwise_insertionSort (fun a b : κ × α => r a.1 b.1)
    (best key rank items).entries
  refine List.pairwise_map.mpr ((hkeys.and hsorted).imp_of_mem fun {a b} ha hb h => ?_)
  rw [key_of_mem_best (hperm.mem_iff.mp ha), key_of_mem_best (hperm.mem_iff.mp hb)]
  exact h

/-- Exactly one item of each key is listed. -/
theorem exists_filter_bestByKey {items : List α} {x : α} (hx : x ∈ items) :
    ∃ t, (bestByKey key rank r items).filter (fun t => key t = key x) = [t]
      ∧ LastHighest key rank items (key x) t := by
  have hsome : (best key rank items).get? (key x) ≠ none := fun h =>
    get?_best_eq_none_iff.mp h x hx rfl
  obtain ⟨t, ht⟩ := Option.ne_none_iff_exists'.mp hsome
  have hlast := lastHighest_of_get?_best ht
  have hmem : t ∈ bestByKey key rank r items := by
    rw [mem_bestByKey_iff, hlast.mem.2]
    exact ht
  refine ⟨t, ?_, hlast⟩
  obtain ⟨before, after, heq⟩ := List.append_of_mem hmem
  have hpairwise : (bestByKey key rank r items).Pairwise _ := bestByKey_pairwise r items
  rw [heq, List.pairwise_append, List.pairwise_cons] at hpairwise
  obtain ⟨-, ⟨hafter, -⟩, hbefore⟩ := hpairwise
  have hkey : key t = key x := hlast.mem.2
  have hnone : ∀ l : List α, (∀ s ∈ l, key s ≠ key t) → l.filter (fun s => key s = key x) = [] := by
    intro l hl
    rw [List.filter_eq_nil_iff]
    intro s hs
    simpa [← hkey] using hl s hs
  rw [heq, List.filter_append, List.filter_cons, if_pos (by simpa using hkey),
    hnone before fun s hs => (hbefore s hs t (List.mem_cons_self ..)).1,
    hnone after fun s hs => (hafter s hs).1.symm, List.nil_append]

/-- Without ties, neither between items of one key nor between different keys, the order of the
items does not matter. -/
theorem bestByKey_eq_of_perm {items items' : List α} (hperm : items.Perm items')
    (hties : items.Pairwise fun s t => key s = key t → rank s ≠ rank t)
    (hkeys : ∀ s ∈ items, ∀ t ∈ items, r (key s) (key t) → r (key t) (key s) → key s = key t) :
    bestByKey key rank r items = bestByKey key rank r items' := by
  have hentries := Dict.entries_perm_of_same (best_same_of_perm hperm hties)
  refine congrArg (List.map Prod.snd) (insertionSort_eq_of_perm _ hentries ?_)
  intro a ha b hb hab hba
  have hitem : ∀ entry ∈ (best key rank items).entries, entry.2 ∈ items := fun entry hentry =>
    (lastHighest_of_get?_best (Dict.get?_of_mem_entries hentry)).mem.1
  have hfst : a.1 = b.1 := by
    rw [← key_of_mem_best ha, ← key_of_mem_best hb] at hab hba ⊢
    exact hkeys _ (hitem a ha) _ (hitem b hb) hab hba
  have hget := Dict.get?_of_mem_entries ha
  rw [hfst, Dict.get?_of_mem_entries hb] at hget
  exact Prod.ext hfst (Option.some.inj hget).symm

end Listing

end PyLib
