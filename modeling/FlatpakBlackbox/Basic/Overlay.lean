import Mathlib.Data.List.Infix
import Mathlib.Tactic

set_option autoImplicit false

/-! # Overlays on a tree

A list of overlays is laid over a tree in order, each at the subtree below its destination, so
that a node is provided by the last overlay whose destination is at or above it (`provider`). A
group of overlays keeps showing the subtrees it covers if and only if no later overlay lies at,
above or below one of them (`showsAmong_iff`).
-/

namespace PyLib

variable {α μ : Type}

/-- Neither node lies at or below the other. -/
def Apart (a b : List α) : Prop := ¬ a <+: b ∧ ¬ b <+: a

instance [DecidableEq α] (a b : List α) : Decidable (Apart a b) :=
  inferInstanceAs (Decidable (_ ∧ _))

theorem Apart.mono {a b c : List α} (h : Apart a b) (hb : b <+: c) : ¬ a <+: c := by
  intro ha
  rcases List.prefix_or_prefix_of_prefix ha hb with h' | h'
  · exact h.1 h'
  · exact h.2 h'

variable [DecidableEq α]

/-- The overlay that provides a node. -/
def provider (dest : μ → List α) (overlays : List μ) (node : List α) : Option μ :=
  overlays.findRev? fun m => (dest m).isPrefixOf node

variable {dest : μ → List α} {overlays before group after : List μ} {node : List α} {m : μ}

theorem provider_append (l l' : List μ) (node : List α) :
    provider dest (l ++ l') node = (provider dest l' node).or (provider dest l node) := by
  simp only [provider, List.findRev?_eq_find?_reverse, List.reverse_append, List.find?_append]

theorem provider_eq_none :
    provider dest overlays node = none ↔ ∀ m ∈ overlays, ¬ dest m <+: node := by
  simp [provider, List.findRev?_eq_find?_reverse]

theorem mem_of_provider (h : provider dest overlays node = some m) : m ∈ overlays := by
  rw [provider, List.findRev?_eq_find?_reverse] at h
  exact List.mem_reverse.mp (List.mem_of_find?_eq_some h)

theorem prefix_of_provider (h : provider dest overlays node = some m) : dest m <+: node := by
  rw [provider, List.findRev?_eq_find?_reverse] at h
  exact List.isPrefixOf_iff_prefix.mp
    (List.find?_some (p := fun m => (dest m).isPrefixOf node) h)

/-- Overlays that do not cover the node do not matter to it. -/
theorem provider_append_of_not_covered (h : ∀ m ∈ after, ¬ dest m <+: node) :
    provider dest (before ++ after) node = provider dest before node := by
  rw [provider_append, provider_eq_none.mpr h, Option.none_or]

/-- Where a later overlay covers the node, the later ones alone decide. -/
theorem provider_append_of_covered (h : ∃ m ∈ after, dest m <+: node) :
    provider dest (before ++ after) node = provider dest after node := by
  rw [provider_append]
  cases hafter : provider dest after node with
  | none =>
      obtain ⟨m, hm, hcovers⟩ := h
      exact absurd hcovers (provider_eq_none.mp hafter m hm)
  | some m => rfl

/-- Every node of the subtree is provided by an overlay of the group. -/
def ShowsAmong (dest : μ → List α) (overlays group : List μ) (region : List α) : Prop :=
  ∀ node, region <+: node → ∃ m ∈ group, provider dest overlays node = some m

/-- **What keeps a subtree visible.** A group that covers the subtree shows all of it if and only
if every overlay after the group lies apart from the subtree. -/
theorem showsAmong_iff {region : List α} (hcovers : ∃ m ∈ group, dest m <+: region)
    (hfresh : ∀ m ∈ group, m ∉ after) :
    ShowsAmong dest (before ++ group ++ after) group region ↔
      ∀ m ∈ after, Apart (dest m) region := by
  constructor
  · intro hshows m hm
    -- Below both, the overlays after the group would provide the node.
    have hnever : ∀ node, region <+: node → ¬ dest m <+: node := by
      intro node hregion hcovered
      obtain ⟨m', hm', hprovider⟩ := hshows node hregion
      rw [provider_append_of_covered ⟨m, hm, hcovered⟩] at hprovider
      exact hfresh m' hm' (mem_of_provider hprovider)
    exact ⟨hnever region (List.prefix_refl _), fun h => hnever _ h (List.prefix_refl _)⟩
  · intro happart node hregion
    obtain ⟨m, hm, hcovered⟩ := hcovers
    rw [provider_append_of_not_covered fun m' hm' => (happart m' hm').mono hregion,
      provider_append_of_covered ⟨m, hm, hcovered.trans hregion⟩]
    cases hgroup : provider dest group node with
    | none => exact absurd (hcovered.trans hregion) (provider_eq_none.mp hgroup m hm)
    | some m' => exact ⟨m', mem_of_provider hgroup, rfl⟩

end PyLib
