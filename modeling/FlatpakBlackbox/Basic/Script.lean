import Mathlib.Tactic

set_option autoImplicit false

/-! # Scripts

A script talks to the outside world, whose answers are arbitrary, and looks things up in data that
it was given. Every lookup that some run makes is a node of the script, so that what a script
demands of its data can be stated and proved: `Meets P Q` says that every lookup satisfies `P` and
every result satisfies `Q`, with one rule for each construct.
-/

namespace PyLib

/-- A script over questions `κ`, answers `τ` and data of type `ν`. -/
inductive Script (ε κ τ ν α : Type) where
  | ret (a : α)
  | raise (e : ε)
  /-- Ask the outside world. -/
  | ask (question : κ) (next : τ → Script ε κ τ ν α)
  /-- Look up what stands under a name. A lookup that finds nothing ends the script. -/
  | look (name : List String) (found : Option ν) (next : ν → Script ε κ τ ν α)

namespace Script

variable {ε κ τ ν α β σ : Type}

protected def bind : Script ε κ τ ν α → (α → Script ε κ τ ν β) → Script ε κ τ ν β
  | ret a, f => f a
  | raise e, _ => raise e
  | ask question next, f => ask question fun answer => (next answer).bind f
  | look name found next, f => look name found fun value => (next value).bind f

instance : Monad (Script ε κ τ ν) where
  pure := ret
  bind := Script.bind

theorem bind_ret (p : Script ε κ τ ν α) : p.bind ret = p := by
  induction p with
  | ret a => rfl
  | raise e => rfl
  | ask question next ih => exact congrArg (ask question) (funext ih)
  | look name found next ih => exact congrArg (look name found) (funext ih)

theorem bind_bind {γ : Type} (p : Script ε κ τ ν α) (f : α → Script ε κ τ ν β)
    (g : β → Script ε κ τ ν γ) : (p.bind f).bind g = p.bind fun a => (f a).bind g := by
  induction p with
  | ret a => rfl
  | raise e => rfl
  | ask question next ih => exact congrArg (ask question) (funext ih)
  | look name found next ih => exact congrArg (look name found) (funext ih)

instance : LawfulMonad (Script ε κ τ ν) :=
  LawfulMonad.mk' _ (fun p => bind_ret p) (fun _ _ => rfl) bind_bind

/-! ## The lookups of the runs -/

/-- Some run of the script looks the name up, with this outcome. -/
inductive Reads : Script ε κ τ ν α → List String → Option ν → Prop where
  | here {name : List String} {found : Option ν} {next : ν → Script ε κ τ ν α} :
      Reads (look name found next) name found
  | after {name name' : List String} {value : ν} {found' : Option ν}
      {next : ν → Script ε κ τ ν α} (h : Reads (next value) name' found') :
      Reads (look name (some value) next) name' found'
  | answered {question : κ} {next : τ → Script ε κ τ ν α} {name' : List String}
      {found' : Option ν} (answer : τ) (h : Reads (next answer) name' found') :
      Reads (ask question next) name' found'

/-! ## What every run meets -/

/-- Every lookup satisfies `P`, and every result satisfies `Q`. -/
def Meets (P : List String → Option ν → Prop) (Q : α → Prop) : Script ε κ τ ν α → Prop
  | ret a => Q a
  | raise _ => True
  | ask _ next => ∀ answer, (next answer).Meets P Q
  | look name found next => P name found ∧ ∀ value, found = some value → (next value).Meets P Q

section

variable {P : List String → Option ν → Prop} {Q Q' : α → Prop} {p : Script ε κ τ ν α}

theorem Meets.reads (h : p.Meets P Q) {name : List String} {found : Option ν}
    (hreads : p.Reads name found) : P name found := by
  induction hreads with
  | here => exact h.1
  | after _ ih => exact ih (h.2 _ rfl)
  | answered answer _ ih => exact ih (h answer)

theorem Meets.mono (h : p.Meets P Q) (hQ : ∀ a, Q a → Q' a) : p.Meets P Q' := by
  induction p with
  | ret a => exact hQ a h
  | raise e => trivial
  | ask question next ih => exact fun answer => ih answer (h answer)
  | look name found next ih => exact ⟨h.1, fun value hvalue => ih value (h.2 value hvalue)⟩

theorem Meets.bind {f : α → Script ε κ τ ν β} {R : β → Prop} (hp : p.Meets P Q)
    (hf : ∀ a, Q a → (f a).Meets P R) : (p >>= f).Meets P R := by
  induction p with
  | ret a => exact hf a hp
  | raise e => trivial
  | ask question next ih => exact fun answer => ih answer (hp answer)
  | look name found next ih => exact ⟨hp.1, fun value hvalue => ih value (hp.2 value hvalue)⟩

/-- The rule for `bind` loses nothing. -/
theorem Meets.of_bind {f : α → Script ε κ τ ν β} {R : β → Prop} (h : (p >>= f).Meets P R) :
    p.Meets P fun a => (f a).Meets P R := by
  induction p with
  | ret a => exact h
  | raise e => trivial
  | ask question next ih => exact fun answer => ih answer (h answer)
  | look name found next ih => exact ⟨h.1, fun value hvalue => ih value (h.2 value hvalue)⟩

theorem Meets.of_reads (h : ∀ name found, p.Reads name found → P name found) :
    p.Meets P fun _ => True := by
  induction p with
  | ret a => trivial
  | raise e => trivial
  | ask question next ih =>
      exact fun answer => ih answer fun name found hreads => h name found (.answered answer hreads)
  | look name found next ih =>
      refine ⟨h name found .here, fun value hvalue => ih value fun name' found' hreads => ?_⟩
      subst hvalue
      exact h name' found' (.after hreads)

theorem Meets.pure {a : α} (h : Q a) : (pure a : Script ε κ τ ν α).Meets P Q := h

theorem Meets.ite {c : Prop} [Decidable c] {q : Script ε κ τ ν α} (hp : c → p.Meets P Q)
    (hq : ¬ c → q.Meets P Q) : (if c then p else q).Meets P Q := by
  by_cases h : c
  · rw [if_pos h]
    exact hp h
  · rw [if_neg h]
    exact hq h

theorem Meets.mapM {f : β → Script ε κ τ ν α} {l : List β} (h : ∀ x ∈ l, (f x).Meets P Q) :
    (l.mapM f).Meets P fun results => ∀ a ∈ results, Q a := by
  induction l with
  | nil =>
      rw [List.mapM_nil]
      exact Meets.pure (by simp)
  | cons x l ih =>
      obtain ⟨hx, hl⟩ := List.forall_mem_cons.mp h
      rw [List.mapM_cons]
      exact hx.bind fun a ha => (ih hl).bind fun results hresults =>
        Meets.pure (List.forall_mem_cons.mpr ⟨ha, hresults⟩)

theorem Meets.forM {f : β → Script ε κ τ ν PUnit} {l : List β}
    (h : ∀ x ∈ l, (f x).Meets P fun _ => True) : (l.forM f).Meets P fun _ => True := by
  induction l with
  | nil => exact Meets.pure trivial
  | cons x l ih =>
      obtain ⟨hx, hl⟩ := List.forall_mem_cons.mp h
      exact hx.bind fun _ _ => ih hl

end

/-! ## The results of the runs -/

/-- Some run of the script returns this. -/
inductive Yields : Script ε κ τ ν α → α → Prop where
  | ret {a : α} : Yields (ret a) a
  | answered {question : κ} {next : τ → Script ε κ τ ν α} {a : α} (answer : τ)
      (h : Yields (next answer) a) : Yields (ask question next) a
  | found {name : List String} {value : ν} {next : ν → Script ε κ τ ν α} {a : α}
      (h : Yields (next value) a) : Yields (look name (some value) next) a

theorem Yields.bind {p : Script ε κ τ ν α} {f : α → Script ε κ τ ν β} {a : α} {b : β}
    (hp : Yields p a) (hf : Yields (f a) b) : Yields (p >>= f) b := by
  induction hp with
  | ret => exact hf
  | answered answer _ ih => exact .answered answer (ih hf)
  | found _ ih => exact .found (ih hf)

theorem Yields.mapM {f : β → Script ε κ τ ν α} {g : β → α} {l : List β}
    (h : ∀ x ∈ l, Yields (f x) (g x)) : Yields (l.mapM f) (l.map g) := by
  induction l with
  | nil =>
      rw [List.mapM_nil]
      exact .ret
  | cons x l ih =>
      obtain ⟨hx, hl⟩ := List.forall_mem_cons.mp h
      rw [List.mapM_cons]
      exact hx.bind ((ih hl).bind .ret)

/-- What every result satisfies, the result of this run satisfies. -/
theorem Meets.yields {P : List String → Option ν → Prop} {Q : α → Prop} {p : Script ε κ τ ν α}
    {a : α} (h : p.Meets P Q) (hyields : Yields p a) : Q a := by
  induction hyields with
  | ret => exact h
  | answered answer _ ih => exact ih (h answer)
  | found _ ih => exact ih (h.2 _ rfl)

/-- A script that goes on after a run goes on to meet its lookups. -/
theorem Meets.after {P : List String → Option ν → Prop} {Q : β → Prop} {p : Script ε κ τ ν α}
    {f : α → Script ε κ τ ν β} {a : α} (h : (p >>= f).Meets P Q) (hyields : Yields p a) :
    (f a).Meets P Q :=
  h.of_bind.yields hyields

/-! ## Scripts with a state of their own -/

/-- From every state, every lookup satisfies `P` and every result satisfies `Q`. -/
def MeetsFrom (P : List String → Option ν → Prop) (Q : α → Prop)
    (p : StateT σ (Script ε κ τ ν) α) : Prop :=
  ∀ s, (p s).Meets P fun result => Q result.1

section

variable {P : List String → Option ν → Prop} {Q : α → Prop} {p : StateT σ (Script ε κ τ ν) α}

theorem MeetsFrom.bind {f : α → StateT σ (Script ε κ τ ν) β} {R : β → Prop} (hp : MeetsFrom P Q p)
    (hf : ∀ a, Q a → MeetsFrom P R (f a)) : MeetsFrom P R (p >>= f) :=
  fun s => (hp s).bind fun result hresult => hf result.1 hresult result.2

theorem MeetsFrom.pure {a : α} (h : Q a) : MeetsFrom P Q (pure a : StateT σ (Script ε κ τ ν) α) :=
  fun _ => h

theorem MeetsFrom.lift {p : Script ε κ τ ν α} (h : p.Meets P Q) :
    MeetsFrom P Q (liftM p : StateT σ (Script ε κ τ ν) α) :=
  fun _ => h.bind fun _ ha => ha

theorem MeetsFrom.ite {c : Prop} [Decidable c] {q : StateT σ (Script ε κ τ ν) α}
    (hp : c → MeetsFrom P Q p) (hq : ¬ c → MeetsFrom P Q q) :
    MeetsFrom P Q (if c then p else q) := by
  by_cases h : c
  · rw [if_pos h]
    exact hp h
  · rw [if_neg h]
    exact hq h

theorem MeetsFrom.forM {f : β → StateT σ (Script ε κ τ ν) PUnit} {l : List β}
    (h : ∀ x ∈ l, MeetsFrom P (fun _ => True) (f x)) : MeetsFrom P (fun _ => True) (l.forM f) := by
  induction l with
  | nil => exact MeetsFrom.pure trivial
  | cons x l ih =>
      obtain ⟨hx, hl⟩ := List.forall_mem_cons.mp h
      exact hx.bind fun _ _ => ih hl

end

end Script

end PyLib
