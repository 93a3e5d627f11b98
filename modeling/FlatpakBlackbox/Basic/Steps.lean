import FlatpakBlackbox.Basic.Checked
import Mathlib.Tactic

set_option autoImplicit false

/-! # Programs that can be stopped

A program changes a state in steps and then returns or raises; `Steps ε P σ α` also records every
state it passes through, each under the point of the program where it stands. A crash or an
interruption leaves one of these states behind. `wp` is a weakest precondition with two
postconditions: one for every point at which the program can be stopped, one for its end.
-/

namespace PyLib

/-- The points passed with their states, the outcome, and the last state. -/
def Steps (ε P σ α : Type) : Type := σ → List (P × σ) × Except ε α × σ

namespace Steps

variable {ε P σ α β : Type}

/-- The points at which the program can be stopped. -/
def trace (p : Steps ε P σ α) (s : σ) : List (P × σ) := (p s).1

def outcome (p : Steps ε P σ α) (s : σ) : Except ε α := (p s).2.1

def final (p : Steps ε P σ α) (s : σ) : σ := (p s).2.2

protected def pure (a : α) : Steps ε P σ α := fun s => ([], .ok a, s)

protected def bind (p : Steps ε P σ α) (f : α → Steps ε P σ β) : Steps ε P σ β := fun s =>
  match p.outcome s with
  | .ok a =>
      (p.trace s ++ (f a).trace (p.final s), (f a).outcome (p.final s), (f a).final (p.final s))
  | .error e => (p.trace s, .error e, p.final s)

instance : Monad (Steps ε P σ) where
  pure := Steps.pure
  bind := Steps.bind

/-- `raise e`. -/
def raise (e : ε) : Steps ε P σ α := fun s => ([], .error e, s)

/-- A check that changes nothing. -/
def ofExcept (x : Except ε α) : Steps ε P σ α := fun s => ([], x, s)

/-- Look at the state. -/
def read (f : σ → α) : Steps ε P σ α := fun s => ([], .ok (f s), s)

/-- One atomic change, after which the program stands at `point`. -/
def step (point : P) (f : σ → σ) : Steps ε P σ Unit := fun s => ([(point, f s)], .ok (), f s)

/-- A change that grows with a list, item by item, such as writing a text to a file. -/
def gradually {γ : Type} (point : List γ → P) (f : List γ → σ → σ) (items : List γ) :
    Steps ε P σ Unit := fun s =>
  (items.inits.map fun done => (point done, f done s), .ok (), f items s)

/-- `for x in l: f(x)`. -/
def forEach (l : List β) (f : β → Steps ε P σ Unit) : Steps ε P σ Unit :=
  match l with
  | [] => pure ()
  | x :: l => do
      f x
      forEach l f

/-- `try: p` and `finally: q`. -/
def tryFinally (p : Steps ε P σ α) (q : Steps ε P σ Unit) : Steps ε P σ α := fun s =>
  (p.trace s ++ q.trace (p.final s),
    match q.outcome (p.final s) with
    | .ok _ => p.outcome s
    | .error e => .error e,
    q.final (p.final s))

/-! ## Weakest preconditions -/

/-- Every point passed satisfies `S`, and the program ends as `Q` says. -/
def wp (p : Steps ε P σ α) (S : P → σ → Prop) (Q : Except ε α → σ → Prop) (s : σ) : Prop :=
  (∀ x ∈ p.trace s, S x.1 x.2) ∧ Q (p.outcome s) (p.final s)

variable {S : P → σ → Prop} {Q : Except ε α → σ → Prop} {s : σ}

theorem wp_mono {p : Steps ε P σ α} {S' : P → σ → Prop} {Q' : Except ε α → σ → Prop}
    (h : wp p S Q s) (hS : ∀ x s', S x s' → S' x s') (hQ : ∀ r s', Q r s' → Q' r s') :
    wp p S' Q' s :=
  ⟨fun x hx => hS _ _ (h.1 x hx), hQ _ _ h.2⟩

theorem wp_pure {a : α} (h : Q (.ok a) s) : wp (pure a : Steps ε P σ α) S Q s :=
  ⟨fun _ hx => absurd hx List.not_mem_nil, h⟩

theorem wp_raise {e : ε} (h : Q (.error e) s) : wp (raise e : Steps ε P σ α) S Q s :=
  ⟨fun _ hx => absurd hx List.not_mem_nil, h⟩

theorem wp_ofExcept {x : Except ε α} (h : Q x s) : wp (ofExcept x : Steps ε P σ α) S Q s :=
  ⟨fun _ hx => absurd hx List.not_mem_nil, h⟩

theorem wp_read {f : σ → α} (h : Q (.ok (f s)) s) : wp (read f : Steps ε P σ α) S Q s :=
  ⟨fun _ hx => absurd hx List.not_mem_nil, h⟩

theorem wp_step {point : P} {f : σ → σ} {Q : Except ε Unit → σ → Prop} (hS : S point (f s))
    (hQ : Q (.ok ()) (f s)) : wp (step point f : Steps ε P σ Unit) S Q s := by
  refine ⟨fun x hx => ?_, hQ⟩
  rw [List.mem_singleton.mp hx]
  exact hS

theorem wp_gradually {γ : Type} {point : List γ → P} {f : List γ → σ → σ} {items : List γ}
    {Q : Except ε Unit → σ → Prop} (hS : ∀ done, done <+: items → S (point done) (f done s))
    (hQ : Q (.ok ()) (f items s)) : wp (gradually point f items : Steps ε P σ Unit) S Q s := by
  refine ⟨fun x hx => ?_, hQ⟩
  obtain ⟨done, hdone, rfl⟩ := List.mem_map.mp hx
  exact hS done ((List.mem_inits _ _).mp hdone)

theorem wp_bind {p : Steps ε P σ α} {f : α → Steps ε P σ β} {Q : Except ε β → σ → Prop}
    (h : wp p S (fun r s' => match r with
      | .ok a => wp (f a) S Q s'
      | .error e => Q (.error e) s') s) : wp (p >>= f) S Q s := by
  show wp (Steps.bind p f) S Q s
  obtain ⟨htrace, hend⟩ := h
  unfold wp trace outcome final Steps.bind
  cases hp : p.outcome s with
  | error e =>
      rw [hp] at hend
      exact ⟨htrace, hend⟩
  | ok a =>
      rw [hp] at hend
      refine ⟨fun x hx => ?_, hend.2⟩
      rcases List.mem_append.mp hx with hx | hx
      · exact htrace x hx
      · exact hend.1 x hx

theorem wp_tryFinally {p : Steps ε P σ α} {q : Steps ε P σ Unit}
    (h : wp p S (fun r s' => wp q S (fun r' => match r' with
      | .ok _ => Q r
      | .error e => Q (.error e)) s') s) : wp (tryFinally p q) S Q s := by
  obtain ⟨htrace, hlast, hend⟩ := h
  refine ⟨fun x hx => ?_, ?_⟩
  · rcases List.mem_append.mp hx with hx | hx
    · exact htrace x hx
    · exact hlast x hx
  · show Q (match q.outcome (p.final s) with
      | .ok _ => p.outcome s
      | .error e => .error e) (q.final (p.final s))
    cases hq : q.outcome (p.final s) with
    | ok _ =>
        rw [hq] at hend
        exact hend
    | error e =>
        rw [hq] at hend
        exact hend

/-- The rule of loops: an invariant of the elements that are left. -/
theorem wp_forEach {l : List β} {f : β → Steps ε P σ Unit} {Q : Except ε Unit → σ → Prop}
    (I : List β → σ → Prop) (hstep : ∀ x rest s, I (x :: rest) s →
    wp (f x) S (fun r s' => match r with
      | .ok _ => I rest s'
      | .error e => Q (.error e) s') s)
    (hend : ∀ s, I [] s → Q (.ok ()) s) (h : I l s) : wp (forEach l f) S Q s := by
  induction l generalizing s with
  | nil => exact wp_pure (hend s h)
  | cons x l ih =>
      refine wp_bind (wp_mono (hstep x l s h) (fun _ _ hx => hx) fun r s' hr => ?_)
      cases r with
      | ok _ => exact ih hr
      | error e => exact hr

/-- The postcondition of a program that may raise: `R` where it returns. -/
def Returning (R : σ → Prop) (r : Except ε Unit) (s : σ) : Prop := r = .ok () → R s

/-- Where the program raises nothing is promised. -/
theorem Returning.error {R : σ → Prop} {e : ε} : Returning R (.error e) s := by
  intro h
  cases h

/-- One statement after another, with what holds in between. -/
theorem wp_seq {p q : Steps ε P σ Unit} {R R' : σ → Prop} (hp : wp p S (Returning R) s)
    (hq : ∀ s', R s' → wp q S (Returning R') s') :
    wp (p >>= fun _ => q) S (Returning R') s := by
  refine wp_bind (wp_mono hp (fun _ _ hx => hx) fun r s' hr => ?_)
  cases r with
  | ok _ => exact hq s' (hr rfl)
  | error e => exact .error

/-! ## How a program ends -/

/-- The program ends so. -/
def Ends (p : Steps ε P σ α) (s : σ) (r : Except ε α) (s' : σ) : Prop :=
  p.outcome s = r ∧ p.final s = s'

/-- The points of a program and its known end. -/
theorem wp_ends {p : Steps ε P σ Unit} {s' : σ} (h : wp p S (fun _ _ => True) s)
    (hend : Ends p s (.ok ()) s') : wp p S (Returning (· = s')) s :=
  ⟨h.1, fun _ => hend.2⟩

theorem Ends.pure (a : α) : Ends (pure a : Steps ε P σ α) s (.ok a) s := ⟨rfl, rfl⟩

theorem Ends.read (f : σ → α) : Ends (read f : Steps ε P σ α) s (.ok (f s)) s := ⟨rfl, rfl⟩

theorem Ends.ofExcept {x : Except ε α} {a : α} (h : x = .ok a) :
    Ends (ofExcept x : Steps ε P σ α) s (.ok a) s := ⟨h, rfl⟩

theorem Ends.step (point : P) (f : σ → σ) :
    Ends (step point f : Steps ε P σ Unit) s (.ok ()) (f s) := ⟨rfl, rfl⟩

theorem Ends.bind {p : Steps ε P σ α} {f : α → Steps ε P σ β} {a : α} {s' s'' : σ}
    {r : Except ε β} (hp : Ends p s (.ok a) s') (hf : Ends (f a) s' r s'') :
    Ends (p >>= f) s r s'' := by
  obtain ⟨hp, rfl⟩ := hp
  show outcome (Steps.bind p f) s = r ∧ final (Steps.bind p f) s = s''
  unfold outcome final Steps.bind
  rw [hp]
  exact hf

theorem outcome_bind (p : Steps ε P σ α) (f : α → Steps ε P σ β) (s : σ) :
    outcome (p >>= f) s = match p.outcome s with
      | .ok a => (f a).outcome (p.final s)
      | .error e => .error e := by
  show (Steps.bind p f s).2.1 = _
  unfold Steps.bind
  cases p.outcome s <;> rfl

theorem outcome_bind_eq_ok {p : Steps ε P σ α} {f : α → Steps ε P σ β} {b : β} :
    outcome (p >>= f) s = .ok b ↔
      ∃ a, p.outcome s = .ok a ∧ (f a).outcome (p.final s) = .ok b := by
  rw [outcome_bind]
  cases p.outcome s with
  | error e => exact ⟨fun h => (nomatch h), fun ⟨_, ha, _⟩ => (nomatch ha)⟩
  | ok a => exact ⟨fun h => ⟨a, rfl, h⟩, fun ⟨a', ha', h⟩ => Except.ok.inj ha' ▸ h⟩

/-- A loop that checks each item and then makes one change. -/
theorem forEach_checked {γ : Type} {f : β → Except ε γ} {point : γ → P} {change : γ → σ → σ}
    {l : List β} {items : List γ} (h : l.mapM f = .ok items) (s : σ) :
    Ends (forEach l fun x => do
      let item ← ofExcept (f x)
      step (point item) (change item)) s (.ok ())
      (items.foldl (fun s item => change item s) s) := by
  induction l generalizing items s with
  | nil =>
      rw [List.mapM_nil] at h
      cases h
      exact Ends.pure ()
  | cons x l ih =>
      rw [List.mapM_cons] at h
      obtain ⟨item, hitem, h⟩ := bind_eq_ok.mp h
      obtain ⟨rest, hrest, h⟩ := bind_eq_ok.mp h
      cases h
      exact Ends.bind (Ends.bind ⟨hitem, rfl⟩ (Ends.step _ _)) (ih hrest _)

/-- Such a loop returns only where every item passes. -/
theorem mapM_of_forEach_checked {γ : Type} {f : β → Except ε γ} {point : γ → P}
    {change : γ → σ → σ} {l : List β} {s : σ}
    (h : outcome (forEach l fun x => do
      let item ← ofExcept (f x)
      step (point item) (change item)) s = .ok ()) : ∃ items, l.mapM f = .ok items := by
  induction l generalizing s with
  | nil => exact ⟨[], List.mapM_nil⟩
  | cons x l ih =>
      obtain ⟨_, hx, hl⟩ := outcome_bind_eq_ok.mp h
      obtain ⟨item, hitem, _⟩ := outcome_bind_eq_ok.mp hx
      obtain ⟨rest, hrest⟩ := ih hl
      refine ⟨item :: rest, ?_⟩
      rw [List.mapM_cons]
      exact bind_eq_ok.mpr ⟨item, hitem, bind_eq_ok.mpr ⟨rest, hrest, rfl⟩⟩

end Steps

end PyLib
