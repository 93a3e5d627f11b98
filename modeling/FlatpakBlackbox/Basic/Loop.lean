import FlatpakBlackbox.Basic.Fuel

set_option autoImplicit false

/-! # Loops step by step

A loop that has returned is a run of steps that did. What the loop has made is composed of what its
steps make (`Runs.compose`), a fact that steps establish and never take back holds exactly if one of
them has established it (`Runs.iff_exists`), and where a step reads its item as something else, the
run is a run over what was read (`Runs.simulate`).
-/

namespace PyLib

/-- The steps of a loop over a list, one behind the other. -/
inductive Runs {σ α : Type} (step : σ → α → σ → Prop) : σ → List α → σ → Prop where
  | nil (s : σ) : Runs step s [] s
  | cons {s t s' : σ} {a : α} {l : List α} (hfirst : step s a t) (hrest : Runs step t l s') :
      Runs step s (a :: l) s'

section

variable {σ α ε : Type} {l : List α} {s s' : σ}

/-- An accepted loop runs through its accepted steps. -/
theorem runs_of_foldlM {f : σ → α → Except ε σ} (h : l.foldlM f s = .ok s') :
    Runs (fun s a s' => f s a = .ok s') s l s' := by
  induction l generalizing s with
  | nil =>
      obtain rfl : s = s' := Except.ok.inj h
      exact .nil s
  | cons a l ih =>
      obtain ⟨t, hfirst, hrest⟩ := bind_eq_ok.mp h
      exact .cons hfirst (ih hrest)

/-- A loop that returns runs through steps that do. -/
theorem Fueled.runs_of_returns {step : σ → α → Fueled ε σ} (h : (l.foldlM step s).Returns s') :
    Runs (fun s a s' => (step s a).Returns s') s l s' := by
  induction l generalizing s with
  | nil =>
      obtain rfl := returns_pure.mp h
      exact .nil s
  | cons a l ih =>
      obtain ⟨t, hfirst, hrest⟩ := returns_bind.mp h
      exact .cons hfirst (ih hrest)

end

namespace Runs

variable {σ α β ι : Type} {step : σ → α → σ → Prop} {s s' : σ} {l : List α}

/-- The steps are about the items of the list. -/
theorem attach (h : Runs step s l s') : Runs (fun s x s' => x ∈ l ∧ step s x s') s l s' := by
  -- The induction is on a part `m` of the list.
  have hall : ∀ {m : List α} {s s' : σ}, Runs step s m s' → (∀ x ∈ m, x ∈ l) →
      Runs (fun s x s' => x ∈ l ∧ step s x s') s m s' := by
    intro m s s' h
    induction h with
    | nil s => exact fun _ => .nil s
    | cons hfirst _ ih =>
        intro hm
        obtain ⟨hx, hrest⟩ := List.forall_mem_cons.mp hm
        exact .cons ⟨hx, hfirst⟩ (ih hrest)
  exact hall h fun _ hx => hx

/-- Each step reads its item, and does what is to be done with it. -/
theorem simulate {R : α → β → Prop} {T : σ → β → σ → Prop}
    (hstep : ∀ s x s', step s x s' → ∃ y, R x y ∧ T s y s') (h : Runs step s l s') :
    ∃ ys, List.Forall₂ R l ys ∧ Runs T s ys s' := by
  induction h with
  | nil s => exact ⟨[], .nil, .nil s⟩
  | cons hfirst _ ih =>
      obtain ⟨y, hy, hact⟩ := hstep _ _ _ hfirst
      obtain ⟨ys, hys, hrest⟩ := ih
      exact ⟨y :: ys, .cons hy hys, .cons hact hrest⟩

/-- What a run makes is what its steps make, one behind the other. -/
theorem compose {T : σ → List ι → σ → Prop} {f : α → List ι} (hnil : ∀ s, T s [] s)
    (happend : ∀ s t u a b, T s a t → T t b u → T s (a ++ b) u)
    (hstep : ∀ s x s', step s x s' → T s (f x) s') (h : Runs step s l s') :
    T s (l.flatMap f) s' := by
  induction h with
  | nil s => exact hnil s
  | cons hfirst _ ih => exact happend _ _ _ _ _ (hstep _ _ _ hfirst) ih

/-- What every step keeps. -/
theorem invariant {p : σ → Prop} (hstep : ∀ s x s', step s x s' → p s → p s')
    (h : Runs step s l s') (hs : p s) : p s' := by
  induction h with
  | nil _ => exact hs
  | cons hfirst _ ih => exact ih (hstep _ _ _ hfirst hs)

/-- What a step establishes, and no step takes back. -/
theorem iff_exists {p : σ → Prop} {q : α → Prop}
    (hstep : ∀ s x s', step s x s' → (p s' ↔ p s ∨ q x)) (h : Runs step s l s') :
    p s' ↔ p s ∨ ∃ x ∈ l, q x := by
  induction h with
  | nil s =>
      constructor
      · exact Or.inl
      · rintro (hs | ⟨_, hx, -⟩)
        · exact hs
        · cases hx
  | cons hfirst _ ih =>
      rw [ih, hstep _ _ _ hfirst, or_assoc, List.exists_mem_cons_iff]

/-- What a step establishes for its item, and no step takes back. -/
theorem established {c : α → σ → Prop} (hkeep : ∀ s x s', step s x s' → ∀ y, c y s → c y s')
    (hstep : ∀ s x s', step s x s' → c x s') (h : Runs step s l s') : ∀ x ∈ l, c x s' := by
  induction h with
  | nil s => exact fun x hx => absurd hx List.not_mem_nil
  | cons hfirst hrest ih =>
      -- The first step establishes it, and the others keep it.
      refine List.forall_mem_cons.mpr ⟨?_, ih⟩
      exact hrest.invariant (fun s x s' hx => hkeep s x s' hx _) (hstep _ _ _ hfirst)

end Runs

end PyLib
