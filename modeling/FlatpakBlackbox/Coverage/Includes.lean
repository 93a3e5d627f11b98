import FlatpakBlackbox.Coverage.Suite

set_option autoImplicit false

/-! # The shards an index includes

An include is a relative path that `load_requirements` resolves against the directory of the
index. In normal form such a path climbs a number of times and then descends (`climb`). An
accepted include comes back into the directory; what it names below the directory depends on the
place of the suite only where it climbs above the root of the file system.
-/

namespace FlatpakBlackbox

open PyLib PyException

/-! ## Normal forms -/

/-- One component more, after `c.1` times `..` and the components `c.2`. -/
def climbStep (c : Nat × List String) (part : String) : Nat × List String :=
  if part = ".." then
    if c.2 = [] then (c.1 + 1, []) else (c.1, c.2.dropLast)
  else (c.1, c.2 ++ [part])

/-- How often a relative path climbs, and the components it then descends. -/
def climb (parts : List String) : Nat × List String := parts.foldl climbStep (0, [])

theorem resolveFrom_climb (directory : Path) (parts : List String) :
    resolveFrom directory parts =
      directory.take (directory.length - (climb parts).1) ++ (climb parts).2 := by
  have hgeneral : ∀ (parts : List String) (c : Nat × List String),
      resolveFrom (directory.take (directory.length - c.1) ++ c.2) parts =
        directory.take (directory.length - (parts.foldl climbStep c).1) ++
          (parts.foldl climbStep c).2 := by
    intro parts
    induction parts with
    | nil => exact fun c => rfl
    | cons part parts ih =>
        intro c
        rw [List.foldl_cons, ← ih]
        show resolveFrom (if part = ".." then _ else _) parts = _
        congr 1
        unfold climbStep
        by_cases hup : part = ".."
        · rw [if_pos hup, if_pos hup]
          by_cases hempty : c.2 = []
          · -- The path climbs; at the root of the file system it stays.
            rw [if_pos hempty, hempty, List.append_nil, List.append_nil, List.dropLast_eq_take,
              List.take_take, List.length_take]
            congr 1
            omega
          · rw [if_neg hempty, List.dropLast_append_of_ne_nil hempty]
        · rw [if_neg hup, if_neg hup, List.append_assoc]
  have hstart := hgeneral parts (0, [])
  rwa [Nat.sub_zero, List.take_length, List.append_nil] at hstart

/-- The last component descended is the last of the path. -/
theorem climb_getLast {parts : List String} (hup : FileTree.name parts ≠ "..")
    (hparts : parts ≠ []) : (climb parts).2.getLast? = some (FileTree.name parts) := by
  obtain ⟨front, last, rfl⟩ := List.eq_nil_or_concat' parts |>.resolve_left hparts
  have hname : FileTree.name (front ++ [last]) = last := by
    rw [FileTree.name, List.getLast?_concat]
    rfl
  rw [hname] at hup ⊢
  rw [climb, List.foldl_append, List.foldl_cons, List.foldl_nil, climbStep, if_neg hup]
  exact List.getLast?_concat ..

/-! ## Accepted includes -/

section

variable {Bytes : Type} {tree t₁ t₂ : FileTree Bytes} {path shard : Path} {text : String}

/-- The shard of an accepted include, and its name. -/
theorem includedShard_eq_ok (h : includedShard tree path text = .ok shard) :
    shard = path.dropLast ++ (climb (pathParts text)).2.drop
        (min (climb (pathParts text)).1 (tree.root.length + path.dropLast.length)) ∧
      (path.dropLast ≠ [] → endsWith (FileTree.name shard) ".json" = true) := by
  obtain ⟨_, hchecks, h⟩ := bind_eq_ok.mp h
  have haccepts := raiseIf_eq_ok.mp hchecks
  simp only [not_or, Bool.not_eq_false] at haccepts
  obtain ⟨_, ⟨hjson, _⟩, hinside, _⟩ := haccepts
  obtain rfl := Except.ok.inj h
  rw [resolveFrom_climb] at hinside ⊢
  obtain ⟨below, hbelow⟩ := List.isPrefixOf_iff_prefix.mp hinside
  rw [← hbelow, List.append_assoc, List.drop_left]
  have hdrop := congrArg (List.drop (tree.root ++ path.dropLast).length) hbelow
  rw [List.drop_left, List.drop_append, List.drop_eq_nil_of_le (by rw [List.length_take]; omega),
    List.nil_append, List.length_take] at hdrop
  refine ⟨?_, fun hdirectory => ?_⟩
  · rw [hdrop, List.length_append]
    congr 2
    omega
  · have hparts : pathParts text ≠ [] := by
      intro hnil
      rw [hnil, FileTree.name, endsWith] at hjson
      revert hjson
      decide
    have hup : FileTree.name (pathParts text) ≠ ".." := by
      intro hup
      rw [hup] at hjson
      revert hjson
      decide
    have hlast := climb_getLast hup hparts
    have hne : (climb (pathParts text)).2 ≠ [] := by
      intro hnil
      rw [hnil] at hlast
      cases hlast
    have hwhole := congrArg List.getLast? hbelow
    rw [List.getLast?_append_of_ne_nil _ hne, hlast, List.append_assoc,
      List.getLast?_append_of_ne_nil _ (List.append_ne_nil_of_left_ne_nil hdirectory _)] at hwhole
    rw [FileTree.name, hwhole]
    exact hjson

/-- An include climbs alike from both suites: they lie equally deep, or it stays in the file
system from both. -/
def ClimbsAlike (t₁ t₂ : FileTree Bytes) (text : String) : Prop :=
  t₁.root.length = t₂.root.length ∨
    ((climb (pathParts text)).1 ≤ t₁.root.length + 1 ∧
      (climb (pathParts text)).1 ≤ t₂.root.length + 1)

theorem includedShard_coincide (hdirectory : path.dropLast.length = 1)
    (h : ClimbsAlike t₁ t₂ text) {shard₁ shard₂ : Path}
    (h₁ : includedShard t₁ path text = .ok shard₁) (h₂ : includedShard t₂ path text = .ok shard₂) :
    shard₁ = shard₂ := by
  rw [(includedShard_eq_ok h₁).1, (includedShard_eq_ok h₂).1, hdirectory]
  congr 2
  rcases h with h | ⟨hleft, hright⟩
  · rw [h]
  · rw [min_eq_left hleft, min_eq_left hright]

end

end FlatpakBlackbox
