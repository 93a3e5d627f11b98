import FlatpakBlackbox.Basic.Checked

set_option autoImplicit false

/-! # Runs that accept the same

Two runs of validation code `Agree` when they accept with the same result; where one raises, so
does the other, with whatever error. It is a congruence for everything validation code is built
from, so that two programs which differ in their messages only are compared by following their
text. Where only runs that accept are of interest, the weaker `Coincide` is enough: two accepting
runs end with the same result.
-/

namespace PyLib

variable {ε α β σ : Type}

/-- Both return the same, or both raise. -/
def Agree (x y : Except ε α) : Prop := ∀ a, x = .ok a ↔ y = .ok a

namespace Agree

variable {x y z : Except ε α}

theorem refl (x : Except ε α) : Agree x x := fun _ => Iff.rfl

theorem eq_ok (h : Agree x y) {a : α} (hx : x = .ok a) : y = .ok a := (h a).mp hx

/-- A family of runs in which acceptance passes from each to each. -/
theorem of_forall {ι : Type} {f : ι → Except ε α} (h : ∀ {i} j {a}, f i = .ok a → f j = .ok a)
    (i j : ι) : Agree (f i) (f j) := fun _ => ⟨h j, h i⟩

theorem error (e e' : ε) : Agree (.error e : Except ε α) (.error e') :=
  fun _ => ⟨fun h => (nomatch h), fun h => (nomatch h)⟩

theorem raiseIf {c c' : Prop} [Decidable c] [Decidable c'] (h : c ↔ c') (e e' : ε) :
    Agree (PyLib.raiseIf c e) (PyLib.raiseIf c' e') := fun _ => by
  rw [raiseIf_eq_ok, raiseIf_eq_ok, h]

/-- One step after another; the second steps are compared at accepted results only. -/
theorem bind {f g : α → Except ε β} (h : Agree x y) (hfg : ∀ a, x = .ok a → Agree (f a) (g a)) :
    Agree (x >>= f) (y >>= g) := by
  intro b
  rw [bind_eq_ok, bind_eq_ok]
  constructor
  · rintro ⟨a, hx, hf⟩
    exact ⟨a, (h a).mp hx, (hfg a hx b).mp hf⟩
  · rintro ⟨a, hy, hg⟩
    have hx := (h a).mpr hy
    exact ⟨a, hx, (hfg a hx b).mpr hg⟩

theorem mapM {f g : α → Except ε β} {l : List α} (h : ∀ a ∈ l, Agree (f a) (g a)) :
    Agree (l.mapM f) (l.mapM g) := by
  induction l with
  | nil => exact refl _
  | cons a l ih =>
      rw [List.mapM_cons, List.mapM_cons]
      refine bind (h a (List.mem_cons_self ..)) fun b _ => ?_
      exact bind (ih fun a' ha' => h a' (List.mem_cons_of_mem _ ha')) fun _ _ => refl _

/-- A loop over items with their positions, where the position decides nothing. -/
theorem mapM_zipIdx {f : α × Nat → Except ε β} {g : α → Except ε β} {l : List α}
    (h : ∀ a ∈ l, ∀ i, Agree (f (a, i)) (g a)) (n : Nat) :
    Agree ((l.zipIdx n).mapM f) (l.mapM g) := by
  induction l generalizing n with
  | nil => exact refl _
  | cons a l ih =>
      rw [List.zipIdx_cons, List.mapM_cons, List.mapM_cons]
      refine bind (h a (List.mem_cons_self ..) n) fun b _ => ?_
      exact bind (ih (fun a' ha' => h a' (List.mem_cons_of_mem _ ha')) (n + 1))
        fun _ _ => refl _

theorem forM {f g : α → Except ε Unit} {l : List α} (h : ∀ a ∈ l, Agree (f a) (g a)) :
    Agree (l.forM f) (l.forM g) := by
  intro u
  rw [forM_eq_ok, forM_eq_ok]
  exact forall₂_congr fun a ha => h a ha u

/-- A loop whose states are related and end in the same result. -/
theorem foldlM {f g : σ → α → Except ε σ} {l : List α} (h : ∀ s, ∀ a ∈ l, Agree (f s a) (g s a))
    (s : σ) : Agree (l.foldlM f s) (l.foldlM g s) := by
  induction l generalizing s with
  | nil => exact refl _
  | cons a l ih =>
      rw [List.foldlM_cons, List.foldlM_cons]
      refine bind (h s a (List.mem_cons_self ..)) fun s' _ => ?_
      exact ih (fun s b hb => h s b (List.mem_cons_of_mem _ hb)) s'

end Agree

/-- Where both accept, the results are the same. -/
def Coincide (x y : Except ε α) : Prop := ∀ a b, x = .ok a → y = .ok b → a = b

namespace Coincide

variable {x y : Except ε α}

theorem of_agree (h : Agree x y) : Coincide x y := fun a _ hx hy =>
  Except.ok.inj (((h a).mp hx).symm.trans hy)

theorem bind {f g : α → Except ε β} (h : Coincide x y) (hfg : ∀ a, x = .ok a → y = .ok a →
    Coincide (f a) (g a)) : Coincide (x >>= f) (y >>= g) := by
  intro b b' hb hb'
  obtain ⟨a, hx, hf⟩ := bind_eq_ok.mp hb
  obtain ⟨a', hy, hg⟩ := bind_eq_ok.mp hb'
  obtain rfl := h a a' hx hy
  exact hfg a hx hy b b' hf hg

theorem mapM {f g : α → Except ε β} {l : List α} (h : ∀ a ∈ l, Coincide (f a) (g a)) :
    Coincide (l.mapM f) (l.mapM g) := by
  induction l with
  | nil => exact of_agree (Agree.refl _)
  | cons a l ih =>
      rw [List.mapM_cons, List.mapM_cons]
      refine bind (h a (List.mem_cons_self ..)) fun b _ _ => ?_
      refine bind (ih fun a' ha' => h a' (List.mem_cons_of_mem _ ha')) fun _ _ _ => ?_
      exact of_agree (Agree.refl _)

theorem foldlM {f g : σ → α → Except ε σ} {l : List α}
    (h : ∀ s, ∀ a ∈ l, Coincide (f s a) (g s a)) (s : σ) :
    Coincide (l.foldlM f s) (l.foldlM g s) := by
  induction l generalizing s with
  | nil => exact of_agree (Agree.refl _)
  | cons a l ih =>
      rw [List.foldlM_cons, List.foldlM_cons]
      refine bind (h s a (List.mem_cons_self ..)) fun s' _ _ => ?_
      exact ih (fun s b hb => h s b (List.mem_cons_of_mem _ hb)) s'

end Coincide

end PyLib
