import FlatpakBlackbox.Basic.Checked

set_option autoImplicit false

/-! # Recursion with fuel

A recursion that is not bounded by the structure of its input is given fuel; its result is a value,
an error, or nothing when the fuel does not suffice. `Below` compares two computations of which the
second may succeed where the first does not: it has more fuel, or fewer reasons to raise. Where
errors are kept too, the first computation, once it ends, has the result of the second. The last
section is about the usual reason why such a recursion ends: it passes its callers on.
-/

namespace PyLib

/-- A computation that returns, raises, or exhausts its fuel. -/
def Fueled (ε α : Type) : Type := Option (Except ε α)

namespace Fueled

variable {ε α β σ : Type}

/-- The fuel does not suffice. -/
def exhausted : Fueled ε α := none

def ofExcept (x : Except ε α) : Fueled ε α := some x

protected def bind (x : Fueled ε α) (f : α → Fueled ε β) : Fueled ε β :=
  match x with
  | some (.ok a) => f a
  | some (.error e) => some (.error e)
  | none => none

instance : Monad (Fueled ε) where
  pure a := some (.ok a)
  bind := Fueled.bind

instance : LawfulMonad (Fueled ε) := LawfulMonad.mk' _
  (fun x => by match x with | some (.ok _) => rfl | some (.error _) => rfl | none => rfl)
  (fun _ _ => rfl)
  (fun x _ _ => by match x with | some (.ok _) => rfl | some (.error _) => rfl | none => rfl)

/-- What the computation returns, if it does. -/
def value? : Fueled ε α → Option α
  | some (.ok a) => some a
  | _ => none

/-- The computation ends with this result. -/
def EndsWith (x : Fueled ε α) (r : Except ε α) : Prop := x = some r

/-- The computation returns. -/
def Returns (x : Fueled ε α) (a : α) : Prop := x.EndsWith (.ok a)

/-- The computation ends. -/
def Ends (x : Fueled ε α) : Prop := ∃ r, x.EndsWith r

variable {x y : Fueled ε α} {f g : α → Fueled ε β}

theorem returns_bind {b : β} : (x >>= f).Returns b ↔ ∃ a, x.Returns a ∧ (f a).Returns b := by
  constructor
  · intro h
    match x, h with
    | some (.ok a), h => exact ⟨a, rfl, h⟩
  · rintro ⟨a, ha, hb⟩
    obtain rfl := ha
    exact hb

theorem raises_bind {e : ε} : (x >>= f).EndsWith (.error e) ↔
    x.EndsWith (.error e) ∨ ∃ a, x.Returns a ∧ (f a).EndsWith (.error e) := by
  constructor
  · intro h
    match x, h with
    | some (.ok a), h => exact .inr ⟨a, rfl, h⟩
    | some (.error e'), h =>
        obtain rfl := Except.error.inj (Option.some.inj h)
        exact .inl rfl
  · rintro (he | ⟨a, ha, hb⟩)
    · obtain rfl := he
      rfl
    · obtain rfl := ha
      exact hb

theorem value?_eq_some {a : α} : x.value? = some a ↔ x.Returns a := by
  constructor
  · intro h
    match x, h with
    | some (.ok _), h =>
        obtain rfl := Option.some.inj h
        rfl
  · rintro rfl
    rfl

/-- A computation returns one value at most. -/
theorem Returns.unique {a b : α} (ha : x.Returns a) (hb : x.Returns b) : a = b :=
  Option.some.inj ((value?_eq_some.mpr ha).symm.trans (value?_eq_some.mpr hb))

theorem returns_ofExcept {x : Except ε α} {a : α} : (ofExcept x).Returns a ↔ x = .ok a :=
  Option.some_inj

theorem returns_pure {a b : α} : (pure a : Fueled ε α).Returns b ↔ a = b := by
  constructor
  · exact fun h => Except.ok.inj (Option.some.inj h)
  · rintro rfl
    rfl

theorem not_endsWith_exhausted {r : Except ε α} : ¬ (exhausted : Fueled ε α).EndsWith r :=
  fun h => nomatch h

/-! ## Ending -/

theorem ends_ofExcept (x : Except ε α) : (ofExcept x).Ends := ⟨x, rfl⟩

theorem ends_pure (a : α) : (pure a : Fueled ε α).Ends := ⟨.ok a, rfl⟩

theorem Ends.bind (hx : x.Ends) (hf : ∀ a, x.Returns a → (f a).Ends) : (x >>= f).Ends := by
  obtain ⟨r, hr⟩ := hx
  cases r with
  | ok a =>
      obtain ⟨r, hr'⟩ := hf a hr
      obtain rfl := hr
      exact ⟨r, hr'⟩
  | error e =>
      obtain rfl := hr
      exact ⟨.error e, rfl⟩

theorem Ends.foldlM {step : σ → α → Fueled ε σ} {l : List α} {s : σ}
    (h : ∀ s, ∀ a ∈ l, (step s a).Ends) : (l.foldlM step s).Ends := by
  induction l generalizing s with
  | nil => exact ends_pure s
  | cons a l ih =>
      refine (h s a List.mem_cons_self).bind fun next _ => ih fun s a ha => ?_
      exact h s a (List.mem_cons_of_mem _ ha)

/-- What each step of a loop that returns has done. -/
theorem returns_foldlM {step : σ → α → Fueled ε σ} {l : List α} {s s' : σ}
    (h : (l.foldlM step s).Returns s') : ∀ a ∈ l, ∃ s s', (step s a).Returns s' := by
  induction l generalizing s with
  | nil => exact fun a ha => absurd ha List.not_mem_nil
  | cons a l ih =>
      obtain ⟨next, hnext, hrest⟩ := returns_bind.mp h
      intro b hb
      rcases List.mem_cons.mp hb with rfl | hb
      · exact ⟨s, next, hnext⟩
      · exact ih hrest b hb

/-! ## More fuel, fewer errors -/

/-- What the first computation returns, and raises if errors are kept, the second does too. -/
structure Below (errors : Prop) (x y : Fueled ε α) : Prop where
  returns : ∀ a, x.Returns a → y.Returns a
  raises : errors → ∀ e, x.EndsWith (.error e) → y.EndsWith (.error e)

namespace Below

variable {errors : Prop}

theorem refl (errors : Prop) (x : Fueled ε α) : Below errors x x := ⟨fun _ => id, fun _ _ => id⟩

theorem of_exhausted : Below errors exhausted x where
  returns _ h := absurd h not_endsWith_exhausted
  raises _ _ h := absurd h not_endsWith_exhausted

theorem bind (hx : Below errors x y) (hf : ∀ a, x.Returns a → Below errors (f a) (g a)) :
    Below errors (x >>= f) (y >>= g) where
  returns b h := by
    obtain ⟨a, ha, hb⟩ := returns_bind.mp h
    exact returns_bind.mpr ⟨a, hx.returns a ha, (hf a ha).returns b hb⟩
  raises herrors e h := by
    rcases raises_bind.mp h with he | ⟨a, ha, he⟩
    · exact raises_bind.mpr (.inl (hx.raises herrors e he))
    · exact raises_bind.mpr (.inr ⟨a, hx.returns a ha, (hf a ha).raises herrors e he⟩)

theorem foldlM {step step' : σ → α → Fueled ε σ} {l : List α} {s : σ}
    (h : ∀ s, ∀ a ∈ l, Below errors (step s a) (step' s a)) :
    Below errors (l.foldlM step s) (l.foldlM step' s) := by
  induction l generalizing s with
  | nil => exact refl errors _
  | cons a l ih =>
      refine (h s a List.mem_cons_self).bind fun next _ => ih fun s a ha => ?_
      exact h s a (List.mem_cons_of_mem _ ha)

/-- A result that was reached is the result with errors kept. -/
theorem endsWith (h : Below True x y) {r : Except ε α} (hr : x.EndsWith r) : y.EndsWith r := by
  cases r with
  | ok a => exact h.returns a hr
  | error e => exact h.raises trivial e hr

end Below

end Fueled

/-! ## A chain of ancestors -/

/-- A recursion along a relation that passes its callers on, and refuses an argument that is among
them, does not get through a cycle. -/
theorem no_cycle_of_ancestors {α : Type} {R : α → α → Prop} {Done : α → List α → Prop}
    (hdone : ∀ a ancestors, Done a ancestors →
      a ∉ ancestors ∧ ∀ b, R a b → Done b (ancestors ++ [a]))
    {a : α} {ancestors : List α} (h : Done a ancestors) :
    ¬ ∃ c, Relation.ReflTransGen R a c ∧ Relation.TransGen R c c := by
  -- The callers stay among the ancestors.
  have hwalk : ∀ {a b : α} {ancestors : List α}, Relation.ReflTransGen R a b → Done a ancestors →
      ∃ more, Done b more ∧ ∀ x ∈ ancestors, x ∈ more := by
    intro a b ancestors hab
    induction hab using Relation.ReflTransGen.head_induction_on generalizing ancestors with
    | refl => exact fun h => ⟨ancestors, h, fun x hx => hx⟩
    | head hedge _ ih =>
        intro h
        obtain ⟨more, hmore, hkept⟩ := ih ((hdone _ _ h).2 _ hedge)
        exact ⟨more, hmore, fun x hx => hkept x (List.mem_append_left _ hx)⟩
  rintro ⟨c, hac, hcycle⟩
  obtain ⟨first, hfirst, -⟩ := hwalk hac h
  obtain ⟨next, hedge, hback⟩ := Relation.TransGen.head'_iff.mp hcycle
  obtain ⟨second, hsecond, hkept⟩ := hwalk hback ((hdone _ _ hfirst).2 _ hedge)
  exact (hdone _ _ hsecond).1 (hkept c (List.mem_append_right _ List.mem_cons_self))

end PyLib
