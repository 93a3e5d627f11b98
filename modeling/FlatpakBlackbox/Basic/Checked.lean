import Mathlib.Tactic

set_option autoImplicit false

/-! # Checked loops

Validation code is a loop that raises at the first element it cannot accept. In `Except` such
a loop is `List.forM` or `List.mapM`; the lemmas here read what an accepting run has
established off the loop as a statement about all elements, so that no later proof unfolds the
loop. `withProof` hands the equation of an accepted check to the code after it, which is how a
constructor builds a structure whose fields are proofs.
-/

namespace PyLib

variable {ε α β γ : Type}

theorem bind_eq_ok {x : Except ε α} {f : α → Except ε β} {b : β} :
    (x >>= f) = .ok b ↔ ∃ a, x = .ok a ∧ f a = .ok b := by
  cases x with
  | error e =>
      constructor
      · intro h; cases h
      · rintro ⟨a, h, -⟩; cases h
  | ok a =>
      constructor
      · intro h; exact ⟨a, rfl, h⟩
      · rintro ⟨a', h, hf⟩; cases h; exact hf

theorem bind_eq_error {x : Except ε α} {f : α → Except ε β} {e : ε} :
    (x >>= f) = .error e ↔ x = .error e ∨ ∃ a, x = .ok a ∧ f a = .error e := by
  cases x with
  | error e' =>
      constructor
      · intro h; cases h; exact Or.inl rfl
      · rintro (h | ⟨a, h, -⟩)
        · cases h; rfl
        · cases h
  | ok a =>
      constructor
      · intro h; exact Or.inr ⟨a, rfl, h⟩
      · rintro (h | ⟨a', h, hf⟩)
        · cases h
        · cases h; exact hf

/-- What follows a conditional step runs after both of its branches. -/
theorem ite_bind_eq_ok {c : Prop} [Decidable c] {x y : Except ε α} {f : α → Except ε β} {b : β} :
    (if c then x >>= f else y >>= f) = .ok b ↔
      ∃ a, (if c then x else y) = .ok a ∧ f a = .ok b := by
  by_cases h : c
  · rw [if_pos h, if_pos h, bind_eq_ok]
  · rw [if_neg h, if_neg h, bind_eq_ok]

/-- The result of a run that can be computed. -/
theorem eq_ok_of_toOption {x : Except ε α} {a : α} (h : x.toOption = some a) : x = .ok a := by
  cases x with
  | error e => cases h
  | ok b => rw [Option.some.inj h]

theorem exists_of_isOk {x : Except ε α} (h : x.isOk = true) : ∃ a, x = .ok a := by
  cases x with
  | error e => cases h
  | ok a => exact ⟨a, rfl⟩

theorem map_eq_ok {f : α → β} {x : Except ε α} {b : β} :
    x.map f = .ok b ↔ ∃ a, x = .ok a ∧ f a = b := by
  cases x with
  | error e =>
      constructor
      · intro h
        cases h
      · rintro ⟨_, h, -⟩
        cases h
  | ok a =>
      constructor
      · intro h
        exact ⟨a, rfl, Except.ok.inj h⟩
      · rintro ⟨_, h, rfl⟩
        rw [← Except.ok.inj h]
        rfl

/-- `if c: raise e`. -/
def raiseIf (c : Prop) [Decidable c] (e : ε) : Except ε Unit := if c then .error e else .ok ()

theorem raiseIf_eq_ok {c : Prop} [Decidable c] {e : ε} {u : Unit} :
    raiseIf c e = .ok u ↔ ¬ c := by
  by_cases h : c <;> simp [raiseIf, h]

theorem raiseIf_eq_error {c : Prop} [Decidable c] {e e' : ε} :
    raiseIf c e = .error e' ↔ c ∧ e = e' := by
  by_cases h : c <;> simp [raiseIf, h]

theorem raiseIf_of_not {c : Prop} [Decidable c] {e : ε} (h : ¬ c) : raiseIf c e = .ok () :=
  if_neg h

theorem forM_eq_ok {f : α → Except ε Unit} {l : List α} {u : Unit} :
    l.forM f = .ok u ↔ ∀ x ∈ l, f x = .ok u := by
  induction l with
  | nil => simp [pure, Except.pure]
  | cons x l ih =>
      show (f x >>= fun _ => l.forM f) = _ ↔ _
      rw [bind_eq_ok]
      constructor
      · rintro ⟨⟨⟩, hx, hl⟩ y hy
        rcases List.mem_cons.mp hy with rfl | hy
        · exact hx
        · exact ih.mp hl y hy
      · intro h
        exact ⟨(), h x (List.mem_cons_self ..), ih.mpr fun y hy => h y (List.mem_cons_of_mem _ hy)⟩

/-- A check of every item with its position, where the position decides nothing. -/
theorem forM_zipIdx_eq_ok {f : α × Nat → Except ε Unit} {P : α → Prop}
    (h : ∀ x i, f (x, i) = .ok () ↔ P x) {l : List α} :
    l.zipIdx.forM f = .ok () ↔ ∀ x ∈ l, P x := by
  rw [forM_eq_ok]
  constructor
  · intro hall x hx
    obtain ⟨i, hi⟩ := List.getElem?_of_mem hx
    exact (h x i).mp (hall (x, i) (List.mem_zipIdx_iff_getElem?.mpr hi))
  · rintro hall ⟨x, i⟩ hx
    exact (h x i).mpr (hall x (List.fst_mem_of_mem_zipIdx hx))

theorem mapM_eq_ok {f : α → Except ε β} {l : List α} {ys : List β} :
    l.mapM f = .ok ys ↔ List.Forall₂ (fun x y => f x = .ok y) l ys := by
  induction l generalizing ys with
  | nil =>
      rw [List.mapM_nil, List.forall₂_nil_left_iff]
      exact ⟨fun h => by cases h; rfl, fun h => by rw [h]; rfl⟩
  | cons x l ih =>
      rw [List.mapM_cons, bind_eq_ok, List.forall₂_cons_left_iff]
      constructor
      · rintro ⟨y, hy, h⟩
        obtain ⟨ys', hys', h⟩ := bind_eq_ok.mp h
        cases h
        exact ⟨y, ys', hy, ih.mp hys', rfl⟩
      · rintro ⟨y, ys', hy, hys', rfl⟩
        exact ⟨y, hy, bind_eq_ok.mpr ⟨ys', ih.mpr hys', rfl⟩⟩

/-- A loop that can accept each item accepts the list. -/
theorem mapM_isOk {f : α → Except ε β} {l : List α} (h : ∀ x ∈ l, ∃ y, f x = .ok y) :
    ∃ ys, l.mapM f = .ok ys := by
  induction l with
  | nil => exact ⟨[], rfl⟩
  | cons x l ih =>
      obtain ⟨hx, hl⟩ := List.forall_mem_cons.mp h
      obtain ⟨y, hy⟩ := hx
      obtain ⟨ys, hys⟩ := ih hl
      rw [List.mapM_cons]
      exact ⟨y :: ys, bind_eq_ok.mpr ⟨y, hy, bind_eq_ok.mpr ⟨ys, hys, rfl⟩⟩⟩

theorem mapM_map_eq_ok {f : α → Except ε β} {l : List α} {ys : List β} {g : β → γ} {k : α → γ}
    (h : l.mapM f = .ok ys) (hg : ∀ x ∈ l, ∀ y, f x = .ok y → g y = k x) :
    ys.map g = l.map k := by
  have h' := mapM_eq_ok.mp h
  clear h
  induction h' with
  | nil => rfl
  | cons hxy _ ih =>
      rw [List.map_cons, List.map_cons, hg _ (List.mem_cons_self ..) _ hxy,
        ih fun x hx => hg x (List.mem_cons_of_mem _ hx)]

theorem exists_of_forall₂ {R : α → β → Prop} {l : List α} {l' : List β}
    (h : List.Forall₂ R l l') {x : α} (hx : x ∈ l) : ∃ y ∈ l', R x y := by
  induction h with
  | nil => cases hx
  | cons hxy _ ih =>
      rcases List.mem_cons.mp hx with rfl | hx
      · exact ⟨_, List.mem_cons_self .., hxy⟩
      · obtain ⟨y, hy, hR⟩ := ih hx
        exact ⟨y, List.mem_cons_of_mem _ hy, hR⟩

theorem exists_mem_of_mapM {f : α → Except ε β} {l : List α} {ys : List β}
    (h : l.mapM f = .ok ys) {x : α} (hx : x ∈ l) : ∃ y ∈ ys, f x = .ok y :=
  exists_of_forall₂ (mapM_eq_ok.mp h) hx

theorem mapM_isOk_iff {f : α → Except ε β} {l : List α} :
    (∃ ys, l.mapM f = .ok ys) ↔ ∀ x ∈ l, ∃ y, f x = .ok y := by
  constructor
  · rintro ⟨ys, h⟩ x hx
    obtain ⟨y, _, hy⟩ := exists_mem_of_mapM h hx
    exact ⟨y, hy⟩
  · exact mapM_isOk

theorem exists_of_mem_mapM {f : α → Except ε β} {l : List α} {ys : List β}
    (h : l.mapM f = .ok ys) {y : β} (hy : y ∈ ys) : ∃ x ∈ l, f x = .ok y :=
  exists_of_forall₂ (mapM_eq_ok.mp h).flip hy

/-- What every accepted step of a loop preserves holds after the loop. -/
theorem foldlM_invariant {σ : Type} {P : σ → Prop} {f : σ → α → Except ε σ} {l : List α}
    {s s' : σ} (hs : P s) (hstep : ∀ t a t', a ∈ l → P t → f t a = .ok t' → P t')
    (h : l.foldlM f s = .ok s') : P s' := by
  induction l generalizing s with
  | nil =>
      rw [List.foldlM_nil] at h
      cases h
      exact hs
  | cons a l ih =>
      rw [List.foldlM_cons] at h
      obtain ⟨t, hat, hrest⟩ := bind_eq_ok.mp h
      exact ih (hstep s a t (List.mem_cons_self ..) hs hat)
        (fun t b t' hb => hstep t b t' (List.mem_cons_of_mem _ hb)) hrest

/-- A loop whose step accepts exactly the elements with `ok`, and then computes `g`. -/
theorem foldlM_eq_ok_iff {σ : Type} {f : σ → α → Except ε σ} {g : σ → α → σ} {ok : α → Prop}
    {l : List α} (hstep : ∀ s t, ∀ a ∈ l, f s a = .ok t ↔ ok a ∧ t = g s a) (s t : σ) :
    l.foldlM f s = .ok t ↔ (∀ a ∈ l, ok a) ∧ t = l.foldl g s := by
  induction l generalizing s with
  | nil =>
      rw [List.foldlM_nil]
      exact ⟨fun h => (by cases h; simp), fun h => (by rw [h.2]; rfl)⟩
  | cons a l ih =>
      have ih' := ih fun s t b hb => hstep s t b (List.mem_cons_of_mem _ hb)
      rw [List.foldlM_cons, bind_eq_ok, List.foldl_cons, List.forall_mem_cons]
      constructor
      · rintro ⟨s', hs', hrest⟩
        obtain ⟨ha, rfl⟩ := (hstep s s' a (List.mem_cons_self ..)).mp hs'
        obtain ⟨hl, ht⟩ := (ih' _).mp hrest
        exact ⟨⟨ha, hl⟩, ht⟩
      · rintro ⟨⟨ha, hl⟩, ht⟩
        exact ⟨g s a, (hstep s _ a (List.mem_cons_self ..)).mpr ⟨ha, rfl⟩, (ih' _).mpr ⟨hl, ht⟩⟩

/-- `[a for a in l if f(a)]`, where `f` may raise. -/
def filterChecked (f : α → Except ε Bool) : List α → Except ε (List α)
  | [] => .ok []
  | a :: l => do
      let keep ← f a
      let rest ← filterChecked f l
      return if keep then a :: rest else rest

/-- Whether a check returned `True`. -/
def isTrue : Except ε Bool → Bool
  | .ok b => b
  | .error _ => false

theorem isTrue_eq_true_iff {x : Except ε Bool} : isTrue x = true ↔ x = .ok true := by
  cases x with
  | error e => simp [isTrue]
  | ok b => simp [isTrue]

theorem filterChecked_eq_ok {f : α → Except ε Bool} {l l' : List α} :
    filterChecked f l = .ok l' ↔
      (∀ a ∈ l, ∃ b, f a = .ok b) ∧ l' = l.filter fun a => isTrue (f a) := by
  induction l generalizing l' with
  | nil =>
      simp only [filterChecked, List.filter_nil, Except.ok.injEq]
      exact ⟨fun h => ⟨fun a ha => (by cases ha), h.symm⟩, fun h => h.2.symm⟩
  | cons a l ih =>
      show (f a >>= fun keep => filterChecked f l >>= fun rest => _) = _ ↔ _
      rw [bind_eq_ok, List.forall_mem_cons]
      constructor
      · rintro ⟨keep, ha, h⟩
        obtain ⟨rest, hrest, h⟩ := bind_eq_ok.mp h
        obtain ⟨hl, rfl⟩ := ih.mp hrest
        cases h
        refine ⟨⟨⟨keep, ha⟩, hl⟩, ?_⟩
        rw [List.filter_cons, ha]
        rfl
      · rintro ⟨⟨⟨keep, ha⟩, hl⟩, rfl⟩
        refine ⟨keep, ha, bind_eq_ok.mpr ⟨_, ih.mpr ⟨hl, rfl⟩, ?_⟩⟩
        rw [List.filter_cons, ha]
        rfl

/-- The value of an accepted check together with the equation that it was accepted. -/
def withProof : (x : Except ε α) → Except ε {a : α // x = .ok a}
  | .error e => .error e
  | .ok a => .ok ⟨a, rfl⟩

theorem withProof_eq_ok {x : Except ε α} {a : {a : α // x = .ok a}} :
    withProof x = .ok a ↔ x = .ok a.1 := by
  obtain ⟨a, rfl⟩ := a
  simp [withProof]

/-! ## Failures -/

/-- A run that fails with an error of a kind, if it fails. -/
def FailsWith (P : ε → Prop) (x : Except ε α) : Prop := ∀ e, x = .error e → P e

namespace FailsWith

variable {P : ε → Prop}

theorem ok (a : α) : FailsWith P (.ok a) := fun _ h => (nomatch h)

theorem error {e : ε} (h : P e) : FailsWith P (.error e : Except ε α) :=
  fun _ heq => Except.error.inj heq ▸ h

theorem bind {x : Except ε α} {f : α → Except ε β} (hx : FailsWith P x)
    (hf : ∀ a, FailsWith P (f a)) : FailsWith P (x >>= f) := by
  intro e h
  rcases bind_eq_error.mp h with h | ⟨a, _, h⟩
  · exact hx e h
  · exact hf a e h

theorem raiseIf {c : Prop} [Decidable c] {e : ε} (h : P e) : FailsWith P (raiseIf c e) := by
  unfold PyLib.raiseIf
  split
  · exact error h
  · exact ok ()

theorem forM {l : List α} {f : α → Except ε Unit} (h : ∀ x ∈ l, FailsWith P (f x)) :
    FailsWith P (l.forM f) := by
  induction l with
  | nil => exact ok ()
  | cons x l ih =>
      obtain ⟨hx, hl⟩ := List.forall_mem_cons.mp h
      exact hx.bind fun _ => ih hl

theorem mapM {l : List α} {f : α → Except ε β} (h : ∀ x ∈ l, FailsWith P (f x)) :
    FailsWith P (l.mapM f) := by
  induction l with
  | nil =>
      rw [List.mapM_nil]
      exact ok []
  | cons x l ih =>
      obtain ⟨hx, hl⟩ := List.forall_mem_cons.mp h
      rw [List.mapM_cons]
      exact hx.bind fun _ => (ih hl).bind fun _ => ok _

end FailsWith

end PyLib
