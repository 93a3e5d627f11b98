import FlatpakBlackbox.Basic.Checked

set_option autoImplicit false

/-! # Statements with state and exceptions

A Python statement reads and writes a state and then returns or raises: `Py ε σ α`. The state
survives an exception, which is what `try`, `except` and `finally` are about. `wp` is a weakest
precondition with a postcondition for either ending, with one rule per construct.
-/

namespace PyLib

/-- A statement over states `σ` that returns an `α` or raises an `ε`. -/
def Py (ε σ α : Type) : Type := σ → Except ε α × σ

namespace Py

variable {ε σ τ α β : Type}

protected def pure (a : α) : Py ε σ α := fun s => (.ok a, s)

protected def bind (p : Py ε σ α) (f : α → Py ε σ β) : Py ε σ β := fun s =>
  match p s with
  | (.ok a, s') => f a s'
  | (.error e, s') => (.error e, s')

instance : Monad (Py ε σ) where
  pure := Py.pure
  bind := Py.bind

/-- `raise e`. -/
def raise (e : ε) : Py ε σ α := fun s => (.error e, s)

/-- A call that returns or raises as the world decides, and leaves the state alone. -/
def ofExcept (x : Except ε α) : Py ε σ α := fun s => (x, s)

/-- Read a part of the state. -/
def read (f : σ → α) : Py ε σ α := fun s => (.ok (f s), s)

/-- Assign to a part of the state. -/
def modify (f : σ → σ) : Py ε σ Unit := fun s => (.ok (), f s)

/-- A statement over a part of the state. -/
def zoom (part : σ → τ) (update : σ → τ → σ) (p : Py ε τ α) : Py ε σ α := fun s =>
  match p (part s) with
  | (outcome, t) => (outcome, update s t)

/-- `try: p` and `except` with a handler for the exceptions that `handles` selects. -/
def tryExcept (p : Py ε σ α) (handles : ε → Bool) (handler : ε → Py ε σ α) : Py ε σ α := fun s =>
  match p s with
  | (.ok a, s') => (.ok a, s')
  | (.error e, s') => if handles e then handler e s' else (.error e, s')

/-- `try: p` and `finally: q`. An exception of `q` replaces the ending of `p`. -/
def tryFinally (p : Py ε σ α) (q : Py ε σ Unit) : Py ε σ α := fun s =>
  match p s with
  | (outcome, s') =>
      match q s' with
      | (.ok _, s'') => (outcome, s'')
      | (.error e, s'') => (.error e, s'')

/-- `try: p; yield` and `finally: q`, up to the `yield`: `q` runs if `p` raises. -/
def onRaise (p : Py ε σ α) (q : Py ε σ Unit) : Py ε σ α := fun s =>
  match p s with
  | (.ok a, s') => (.ok a, s')
  | (.error e, s') =>
      match q s' with
      | (.ok _, s'') => (.error e, s'')
      | (.error e', s'') => (.error e', s'')

/-- `for x in l: f(x)`. -/
def forEach (l : List β) (f : β → Py ε σ Unit) : Py ε σ Unit :=
  match l with
  | [] => pure ()
  | x :: l => do
      f x
      forEach l f

theorem pure_apply (a : α) (s : σ) : (pure a : Py ε σ α) s = (.ok a, s) := rfl

theorem bind_apply (p : Py ε σ α) (f : α → Py ε σ β) (s : σ) :
    (p >>= f) s = match p s with
      | (.ok a, s') => f a s'
      | (.error e, s') => (.error e, s') := rfl

/-! ## Weakest preconditions -/

/-- Whatever `p` does from `s`: `Q` holds where it returns, and `R` where it raises. -/
def wp (p : Py ε σ α) (Q : α → σ → Prop) (R : ε → σ → Prop) (s : σ) : Prop :=
  match p s with
  | (.ok a, s') => Q a s'
  | (.error e, s') => R e s'

section Wp

variable {p : Py ε σ α} {Q Q' : α → σ → Prop} {R R' : ε → σ → Prop} {s : σ}

/-- Running a statement that returns. -/
theorem wp_of_ok {a : α} {s' : σ} (h : p s = (.ok a, s')) : wp p Q R s ↔ Q a s' := by
  unfold wp
  rw [h]

/-- What a run that returned establishes. -/
theorem of_wp {a : α} {s' : σ} (h : wp p Q R s) (hrun : p s = (.ok a, s')) : Q a s' :=
  (wp_of_ok hrun).mp h

/-- What a run establishes however it ends. -/
theorem of_wp_either {P : σ → Prop} (h : wp p (fun _ => P) (fun _ => P) s) : P (p s).2 := by
  unfold wp at h
  split at h
  · next heq => rw [heq]; exact h
  · next heq => rw [heq]; exact h

/-- What a run that raised establishes. -/
theorem of_wp_error {e : ε} {s' : σ} (h : wp p Q R s) (hrun : p s = (.error e, s')) : R e s' := by
  unfold wp at h
  rw [hrun] at h
  exact h

theorem wp_mono (h : wp p Q R s) (hQ : ∀ a s', Q a s' → Q' a s') (hR : ∀ e s', R e s' → R' e s') :
    wp p Q' R' s := by
  unfold wp at h ⊢
  split at h
  · exact hQ _ _ h
  · exact hR _ _ h

theorem wp_and (h : wp p Q R s) (h' : wp p Q' R' s) :
    wp p (fun a s' => Q a s' ∧ Q' a s') (fun e s' => R e s' ∧ R' e s') s := by
  unfold wp at h h' ⊢
  split at h
  · next heq => rw [heq] at h'; exact ⟨h, h'⟩
  · next heq => rw [heq] at h'; exact ⟨h, h'⟩

@[simp] theorem wp_pure {a : α} : wp (pure a) Q R s ↔ Q a s := Iff.rfl

@[simp] theorem wp_raise {e : ε} : wp (raise e) Q R s ↔ R e s := Iff.rfl

@[simp] theorem wp_read {f : σ → α} : wp (read f) Q R s ↔ Q (f s) s := Iff.rfl

@[simp] theorem wp_modify {f : σ → σ} {Q : Unit → σ → Prop} :
    wp (modify f) Q R s ↔ Q () (f s) := Iff.rfl

@[simp] theorem wp_ofExcept {x : Except ε α} : wp (ofExcept x) Q R s ↔
    (∀ a, x = .ok a → Q a s) ∧ ∀ e, x = .error e → R e s := by
  unfold wp ofExcept
  cases x <;> simp

@[simp] theorem wp_zoom {part : σ → τ} {update : σ → τ → σ} {p : Py ε τ α} :
    wp (zoom part update p) Q R s ↔
      wp p (fun a t => Q a (update s t)) (fun e t => R e (update s t)) (part s) := by
  unfold wp zoom
  cases hp : p (part s) with
  | mk outcome t => cases outcome <;> rfl

@[simp] theorem wp_bind {f : α → Py ε σ β} {Q : β → σ → Prop} :
    wp (p >>= f) Q R s ↔ wp p (fun a => wp (f a) Q R) R s := by
  show wp (Py.bind p f) Q R s ↔ _
  unfold wp Py.bind
  cases hp : p s with
  | mk outcome s' => cases outcome <;> rfl

@[simp] theorem wp_ite {c : Prop} [Decidable c] {q : Py ε σ α} :
    wp (if c then p else q) Q R s ↔ (c → wp p Q R s) ∧ (¬ c → wp q Q R s) := by
  by_cases h : c <;> simp [h]

@[simp] theorem wp_tryExcept {handles : ε → Bool} {handler : ε → Py ε σ α} :
    wp (tryExcept p handles handler) Q R s ↔
      wp p Q (fun e s' => (handles e = true → wp (handler e) Q R s')
        ∧ (handles e = false → R e s')) s := by
  unfold wp tryExcept
  cases hp : p s with
  | mk outcome s' =>
      cases outcome with
      | ok a => rfl
      | error e =>
          dsimp only
          cases handles e <;> simp

@[simp] theorem wp_tryFinally {q : Py ε σ Unit} :
    wp (tryFinally p q) Q R s ↔
      wp p (fun a => wp q (fun _ => Q a) R) (fun e => wp q (fun _ => R e) R) s := by
  unfold wp tryFinally
  cases hp : p s with
  | mk outcome s' =>
      cases hq : q s' with
      | mk last s'' =>
          cases outcome <;> cases last <;> simp only [hq]

@[simp] theorem wp_onRaise {q : Py ε σ Unit} :
    wp (onRaise p q) Q R s ↔ wp p Q (fun e => wp q (fun _ => R e) R) s := by
  unfold wp onRaise
  cases hp : p s with
  | mk outcome s' =>
      cases outcome with
      | ok a => rfl
      | error e =>
          cases hq : q s' with
          | mk last s'' => cases last <;> simp only [hq]

/-- The rule of sequence. -/
theorem wp_seq {f : α → Py ε σ β} {Q : β → σ → Prop} (P : α → σ → Prop) (hp : wp p P R s)
    (hf : ∀ a s', P a s' → wp (f a) Q R s') : wp (p >>= f) Q R s :=
  wp_bind.mpr (wp_mono hp hf fun _ _ h => h)

/-- The rule of loops: an invariant of the elements that are left. -/
theorem wp_forEach {l : List β} {f : β → Py ε σ Unit} {R : ε → σ → Prop} (I : List β → σ → Prop)
    (hstep : ∀ x rest s, I (x :: rest) s → wp (f x) (fun _ => I rest) R s) (h : I l s) :
    wp (forEach l f) (fun _ => I []) R s := by
  induction l generalizing s with
  | nil => exact h
  | cons x l ih => exact wp_bind.mpr (wp_mono (hstep x l s h) (fun _ _ h => ih h) fun _ _ h => h)

/-- A loop that keeps an invariant at each of its elements. -/
theorem wp_forEach_mem {l : List β} {f : β → Py ε σ Unit} {I : σ → Prop}
    (hstep : ∀ x ∈ l, ∀ s, I s → wp (f x) (fun _ => I) R s) (h : I s) :
    wp (forEach l f) (fun _ => I) R s := by
  induction l generalizing s with
  | nil => exact h
  | cons x l ih =>
      obtain ⟨hx, hl⟩ := List.forall_mem_cons.mp hstep
      exact wp_bind.mpr (wp_mono (hx s h) (fun _ _ h => ih hl h) fun _ _ h => h)

end Wp

end Py

end PyLib
