import FlatpakBlackbox.Basic.Dict
import FlatpakBlackbox.Basic.Text
import FlatpakBlackbox.Errors

set_option autoImplicit false

/-! # Trees of files

A finite directory tree, as the loaders of the suite and the generator of the catalogue read it.
There are no symbolic links: the repository has none among the files that they read.
-/

namespace FlatpakBlackbox

open PyLib PyException

/-- A path below a directory, by components. -/
abbrev Path := List String

/-- `path in paths`. -/
instance decidablePathMem (path : Path) (paths : List Path) : Decidable (path ∈ paths) :=
  inferInstance

/-- A component of a path that names a file or directory. -/
def isComponent (part : String) : Bool :=
  part ≠ "" && part ≠ "." && part ≠ ".." && !part.toList.contains '/'

/-- The contents of a directory. `root` holds the components of the resolved directory. -/
structure FileTree (Bytes : Type) where
  root : Path
  files : Dict Path Bytes
  /-- Directories besides those that the files lie in. -/
  empty : List Path := []
  wellFormed : ∀ path ∈ files.keys, path ≠ [] ∧ path.all isComponent = true

section

variable {Bytes : Type}

namespace FileTree

/-- `str(suite / path)`. -/
def text (tree : FileTree Bytes) (path : Path) : String :=
  "/" ++ "/".intercalate (tree.root ++ path)

/-- The directories below the root: those on the way to a file, and the empty ones. -/
def directories (tree : FileTree Bytes) : List Path :=
  (tree.files.keys.flatMap (fun path => path.inits.dropLast) ++
    tree.empty.flatMap List.inits).filter
    (· ≠ [])

/-- All paths of the tree, as a glob yields them. -/
def entries (tree : FileTree Bytes) : List Path := (tree.files.keys ++ tree.directories).dedup

/-- `path.read_bytes()`. -/
def read (tree : FileTree Bytes) (path : Path) : Except PyException Bytes :=
  match tree.files.get? path with
  | some bytes => .ok bytes
  | none => .error (if path = [] ∨ path ∈ tree.directories then isADirectory (tree.text path)
      else fileNotFound (tree.text path))

/-- The last component. -/
def name (path : Path) : String := path.getLast?.getD ""

/-- The paths below a directory whose name ends like this, in order. -/
def below (paths : List Path) (directory : Path) (suffix : String) : List Path :=
  (paths.filter fun path =>
    directory.isPrefixOf path && directory.length < path.length && endsWith (name path) suffix
    ).insertionSort (· ≤ ·)

/-- `sorted(directory.rglob("*" + suffix))`: directories are yielded as files are. -/
def rglob (tree : FileTree Bytes) (directory : Path) (suffix : String) : List Path :=
  below tree.entries directory suffix

/-- `directory.glob("*" + suffix)`: what lies in the directory itself. -/
def glob (tree : FileTree Bytes) (directory : Path) (suffix : String) : List Path :=
  tree.entries.filter fun path =>
    path.dropLast = directory && endsWith (name path) suffix && path ≠ []

theorem mem_entries {tree : FileTree Bytes} {path : Path} :
    path ∈ tree.entries ↔ path ∈ tree.files.keys ∨ path ∈ tree.directories := by
  unfold entries
  rw [List.mem_dedup, List.mem_append]

theorem ne_nil_of_mem_entries {tree : FileTree Bytes} {path : Path} (h : path ∈ tree.entries) :
    path ≠ [] := by
  rcases mem_entries.mp h with hfile | hdirectory
  · exact (tree.wellFormed path hfile).1
  · exact of_decide_eq_true (List.mem_filter.mp hdirectory).2

theorem mem_below {paths : List Path} {directory path : Path} {suffix : String} :
    path ∈ below paths directory suffix ↔ path ∈ paths ∧ directory.isPrefixOf path = true ∧
      directory.length < path.length ∧ endsWith (name path) suffix = true := by
  simp only [below, List.mem_insertionSort, List.mem_filter, Bool.and_eq_true, decide_eq_true_eq,
    and_assoc]

/-- Two lists with the same matching paths have them in the same order. -/
theorem below_eq {paths paths' : List Path} {directory : Path} {suffix : String}
    (hpaths : paths.Nodup) (hpaths' : paths'.Nodup) (h : ∀ path,
      path ∈ below paths directory suffix ↔ path ∈ below paths' directory suffix) :
    below paths directory suffix = below paths' directory suffix := by
  refine List.Perm.eq_of_pairwise (fun a b _ _ => le_antisymm) (List.pairwise_insertionSort _ _)
    (List.pairwise_insertionSort _ _) ((List.perm_ext_iff_of_nodup ?_ ?_).mpr h)
  · exact (List.perm_insertionSort _ _).nodup_iff.mpr (hpaths.filter _)
  · exact (List.perm_insertionSort _ _).nodup_iff.mpr (hpaths'.filter _)

end FileTree

end

/-- The components of `Path(text)`. -/
def pathParts (text : String) : List String :=
  ((text.toList.splitOn '/').map String.ofList).filter fun part => part ≠ "" && part ≠ "."

/-- `(directory / relative).resolve()` without symbolic links. -/
def resolveFrom (directory : Path) (parts : List String) : Path :=
  parts.foldl (fun path part => if part = ".." then path.dropLast else path ++ [part]) directory

end FlatpakBlackbox
