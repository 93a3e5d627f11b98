import FlatpakBlackbox.Basic.Checked
import FlatpakBlackbox.Basic.Dict

set_option autoImplicit false

/-! # Checked loops over reordered lists

A loop that raises may accept its items in any order: reordering the list neither makes it raise
nor changes the result, where two of its steps can be swapped. States are compared up to an
equivalence, since a dictionary remembers the order of its keys.
-/

namespace PyLib

variable {ε α β σ : Type}

theorem mapM_perm {f : α → Except ε β} {l l' : List α} (h : l.Perm l') {ys : List β}
    (hl : l.mapM f = .ok ys) : ∃ ys', l'.mapM f = .ok ys' ∧ ys.Perm ys' := by
  induction h generalizing ys with
  | nil => exact ⟨ys, hl, List.Perm.refl _⟩
  | cons x _ ih =>
      rw [List.mapM_cons] at hl
      obtain ⟨y, hy, hl⟩ := bind_eq_ok.mp hl
      obtain ⟨rest, hrest, hl⟩ := bind_eq_ok.mp hl
      cases hl
      obtain ⟨rest', hrest', hperm⟩ := ih hrest
      refine ⟨y :: rest', ?_, hperm.cons y⟩
      rw [List.mapM_cons]
      exact bind_eq_ok.mpr ⟨y, hy, bind_eq_ok.mpr ⟨rest', hrest', rfl⟩⟩
  | swap x x' l =>
      rw [List.mapM_cons, List.mapM_cons] at hl
      obtain ⟨y', hy', hl⟩ := bind_eq_ok.mp hl
      obtain ⟨rest, hrest, hl⟩ := bind_eq_ok.mp hl
      obtain ⟨y, hy, hrest⟩ := bind_eq_ok.mp hrest
      obtain ⟨ys', hys', hrest⟩ := bind_eq_ok.mp hrest
      cases hrest
      cases hl
      refine ⟨y :: y' :: ys', ?_, List.Perm.swap y y' ys'⟩
      rw [List.mapM_cons, List.mapM_cons]
      exact bind_eq_ok.mpr ⟨y, hy, bind_eq_ok.mpr ⟨_, bind_eq_ok.mpr
        ⟨y', hy', bind_eq_ok.mpr ⟨ys', hys', rfl⟩⟩, rfl⟩⟩
  | trans _ _ ih ih' =>
      obtain ⟨ys', hys', hperm⟩ := ih hl
      obtain ⟨ys'', hys'', hperm'⟩ := ih' hys'
      exact ⟨ys'', hys'', hperm.trans hperm'⟩

theorem mapM_append_eq_ok {f : α → Except ε β} {l l' : List α} {ys : List β} :
    (l ++ l').mapM f = .ok ys ↔
      ∃ zs zs', l.mapM f = .ok zs ∧ l'.mapM f = .ok zs' ∧ ys = zs ++ zs' := by
  rw [List.mapM_append]
  simp only [bind_eq_ok]
  constructor
  · rintro ⟨zs, hzs, zs', hzs', h⟩
    exact ⟨zs, zs', hzs, hzs', (Except.ok.inj h).symm⟩
  · rintro ⟨zs, zs', hzs, hzs', rfl⟩
    exact ⟨zs, hzs, zs', hzs', rfl⟩

/-- A loop accepts what a loop accepts whose steps it repeats. -/
theorem foldlM_mono {f g : σ → α → Except ε σ} (h : ∀ {s t a}, f s a = .ok t → g s a = .ok t)
    {l : List α} {s t : σ} (hl : l.foldlM f s = .ok t) : l.foldlM g s = .ok t := by
  induction l generalizing s with
  | nil => exact hl
  | cons a l ih =>
      rw [List.foldlM_cons] at hl ⊢
      obtain ⟨u, hu, hl⟩ := bind_eq_ok.mp hl
      exact bind_eq_ok.mpr ⟨u, h hu, ih hl⟩

/-- The steps of a loop respect an equivalence of states, and two of them can be swapped. -/
structure Commutes (R : σ → σ → Prop) (f : σ → α → Except ε σ) : Prop where
  refl : ∀ s, R s s
  trans : ∀ {s t u}, R s t → R t u → R s u
  congr : ∀ {s s' t} (a : α), R s s' → f s a = .ok t → ∃ t', f s' a = .ok t' ∧ R t t'
  swap : ∀ {s t u} (a b : α), f s a = .ok t → f t b = .ok u →
    ∃ t' u', f s b = .ok t' ∧ f t' a = .ok u' ∧ R u u'

section

variable {R : σ → σ → Prop} {f : σ → α → Except ε σ} (hf : Commutes R f)

include hf

theorem Commutes.foldlM_congr {l : List α} {s s' t : σ} (hs : R s s')
    (h : l.foldlM f s = .ok t) : ∃ t', l.foldlM f s' = .ok t' ∧ R t t' := by
  induction l generalizing s s' with
  | nil =>
      rw [List.foldlM_nil] at h
      cases h
      exact ⟨s', rfl, hs⟩
  | cons a l ih =>
      rw [List.foldlM_cons] at h
      obtain ⟨u, hu, h⟩ := bind_eq_ok.mp h
      obtain ⟨u', hu', hsame⟩ := hf.congr a hs hu
      obtain ⟨t', ht', hend⟩ := ih hsame h
      refine ⟨t', ?_, hend⟩
      rw [List.foldlM_cons]
      exact bind_eq_ok.mpr ⟨u', hu', ht'⟩

/-- **A loop whose steps commute does not depend on the order of the list.** -/
theorem Commutes.foldlM_perm {l l' : List α} (hperm : l.Perm l') {s t : σ}
    (h : l.foldlM f s = .ok t) : ∃ t', l'.foldlM f s = .ok t' ∧ R t t' := by
  induction hperm generalizing s t with
  | nil => exact ⟨t, h, hf.refl t⟩
  | cons a _ ih =>
      rw [List.foldlM_cons] at h
      obtain ⟨u, hu, h⟩ := bind_eq_ok.mp h
      obtain ⟨t', ht', hsame⟩ := ih h
      refine ⟨t', ?_, hsame⟩
      rw [List.foldlM_cons]
      exact bind_eq_ok.mpr ⟨u, hu, ht'⟩
  | swap a b l =>
      rw [List.foldlM_cons] at h
      obtain ⟨u, hu, h⟩ := bind_eq_ok.mp h
      rw [List.foldlM_cons] at h
      obtain ⟨v, hv, h⟩ := bind_eq_ok.mp h
      obtain ⟨u', v', hu', hv', hsame⟩ := hf.swap b a hu hv
      obtain ⟨t', ht', hend⟩ := hf.foldlM_congr hsame h
      refine ⟨t', ?_, hend⟩
      rw [List.foldlM_cons]
      refine bind_eq_ok.mpr ⟨u', hu', ?_⟩
      rw [List.foldlM_cons]
      exact bind_eq_ok.mpr ⟨v', hv', ht'⟩
  | trans _ _ ih ih' =>
      obtain ⟨t', ht', hsame⟩ := ih h
      obtain ⟨t'', ht'', hsame'⟩ := ih' ht'
      exact ⟨t'', ht'', hf.trans hsame hsame'⟩

end

/-! ## Dictionaries up to order -/

namespace Dict

variable {κ ν : Type} [DecidableEq κ] {d e : Dict κ ν}

theorem Same.symm (h : d.Same e) : e.Same d := fun k => (h k).symm

theorem Same.trans {c : Dict κ ν} (h : d.Same e) (h' : e.Same c) : d.Same c :=
  fun k => (h k).trans (h' k)

theorem Same.mem_keys_iff (h : d.Same e) (k : κ) : k ∈ d.keys ↔ k ∈ e.keys := by
  rw [Dict.mem_keys_iff, Dict.mem_keys_iff, h k]

theorem Same.getD_eq (h : d.Same e) (k : κ) (default : ν) :
    d.getD k default = e.getD k default := by
  rw [getD, getD, h k]

theorem Same.set (h : d.Same e) (k : κ) (v : ν) : (d.set k v).Same (e.set k v) := fun k' => by
  rw [get?_set, get?_set, h k']

/-- Two entries with different keys can be set in either order. -/
theorem set_comm {k k' : κ} (v v' : ν) (hne : k ≠ k') :
    ((d.set k v).set k' v').Same ((d.set k' v').set k v) := fun other => by
  simp only [get?_set]
  by_cases hk : k = other
  · subst hk
    rw [if_neg (Ne.symm hne), if_pos rfl, if_pos rfl]
  · rw [if_neg hk, if_neg hk]

end Dict

end PyLib
