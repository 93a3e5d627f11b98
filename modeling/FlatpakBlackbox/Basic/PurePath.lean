import FlatpakBlackbox.Basic.Text

set_option autoImplicit false

/-! # Python paths

`PurePosixPath` of `pathlib`. A path is an anchor and a list of components. Exactly two leading
slashes are an anchor of their own: `//var` is not relative to `/var` although the kernel reads
both alike, so `isRelativeTo` and the prefix order of the components can differ.
-/

namespace PyLib

/-- The anchor of a path: none, `/` or `//`. -/
inductive Anchor where
  | relative
  | root
  | doubleRoot
  deriving DecidableEq, Repr

def Anchor.text : Anchor → String
  | .relative => ""
  | .root => "/"
  | .doubleRoot => "//"

/-- What can be a component: not empty, and without a slash. -/
def isPathPart (part : String) : Bool := part ≠ "" && !part.toList.contains '/'

/-- A path; its components are components. -/
structure PurePath where
  anchor : Anchor
  parts : List String
  valid : ∀ part ∈ parts, isPathPart part = true
  deriving DecidableEq

theorem not_mem_of_mem_splitOn {α : Type} [DecidableEq α] {c : α} {cs piece : List α}
    (h : piece ∈ cs.splitOn c) : c ∉ piece := by
  induction cs generalizing piece with
  | nil =>
      rw [List.splitOn_nil, List.mem_singleton] at h
      rw [h]
      exact List.not_mem_nil
  | cons x cs ih =>
      rw [List.splitOn_cons_eq_if_modifyHead] at h
      by_cases hx : x = c
      · rw [if_pos (beq_iff_eq.mpr hx)] at h
        rcases List.mem_cons.mp h with rfl | h
        · exact List.not_mem_nil
        · exact ih h
      · rw [if_neg fun h => hx (beq_iff_eq.mp h)] at h
        cases hpieces : cs.splitOn c with
        | nil => exact absurd hpieces (List.splitOn_ne_nil c cs)
        | cons first pieces =>
            rw [hpieces, List.modifyHead_cons] at h
            rcases List.mem_cons.mp h with rfl | h
            · have hfirst := ih (hpieces ▸ List.mem_cons_self ..)
              exact fun hc => (List.mem_cons.mp hc).elim (Ne.symm hx) hfirst
            · exact ih (hpieces ▸ List.mem_cons_of_mem _ h)

namespace PurePath

/-- The anchor of a text. -/
def anchorOf (cs : List Char) : Anchor :=
  match cs with
  | '/' :: '/' :: '/' :: _ => .root
  | '/' :: '/' :: _ => .doubleRoot
  | '/' :: _ => .root
  | _ => .relative

/-- The components of a text: what stands between slashes, without `.` and the empty pieces. -/
def pieces (cs : List Char) : List (List Char) :=
  (cs.splitOn '/').filter fun piece => piece ≠ [] && piece ≠ ['.']

/-- `Path(text)`. -/
def ofString (text : String) : PurePath where
  anchor := anchorOf text.toList
  parts := (pieces text.toList).map String.ofList
  valid := by
    intro part hpart
    obtain ⟨piece, hpiece, rfl⟩ := List.mem_map.mp hpart
    obtain ⟨hpiece, hne⟩ := List.mem_filter.mp hpiece
    simp only [Bool.and_eq_true, decide_eq_true_eq] at hne
    have hempty : String.ofList piece ≠ "" := fun h => hne.1 (by
      rw [← String.toList_ofList (l := piece), h]
      rfl)
    have hslash : (String.ofList piece).toList.contains '/' = false := by
      rw [String.toList_ofList]
      simpa using not_mem_of_mem_splitOn hpiece
    rw [isPathPart, hslash]
    simpa using hempty

/-- Two texts of one path have the same components. -/
theorem pieces_eq {text other : String} (h : ofString text = ofString other) :
    pieces text.toList = pieces other.toList := by
  have hparts : (pieces text.toList).map String.ofList = (pieces other.toList).map String.ofList :=
    congrArg PurePath.parts h
  have hchars := congrArg (List.map String.toList) hparts
  simpa [List.map_map, Function.comp_def] using hchars

/-- `str(path)`. -/
def text (path : PurePath) : String :=
  match path.anchor, path.parts with
  | .relative, [] => "."
  | anchor, parts => anchor.text ++ "/".intercalate parts

/-- `path.is_absolute()`. -/
def isAbsolute (path : PurePath) : Bool := path.anchor ≠ .relative

/-- `path.is_relative_to(other)`. -/
def isRelativeTo (path other : PurePath) : Bool :=
  path.anchor = other.anchor && other.parts.isPrefixOf path.parts

/-- `path.parent`. -/
def parent (path : PurePath) : PurePath :=
  ⟨path.anchor, path.parts.dropLast, fun part h => path.valid part (List.mem_of_mem_dropLast h)⟩

/-- `path / name`, for one component. -/
def child (path : PurePath) (name : String) (h : isPathPart name = true := by decide) :
    PurePath where
  anchor := path.anchor
  parts := path.parts ++ [name]
  valid := by
    intro part hpart
    rcases List.mem_append.mp hpart with hpart | hpart
    · exact path.valid part hpart
    · rw [List.mem_singleton.mp hpart]
      exact h

/-- The key of the order on paths: the text split at its slashes. -/
def orderKey (path : PurePath) : List String :=
  (path.text.toList.splitOn '/').map String.ofList

/-- `len(path.parts)`; an anchor counts. -/
def partsLength (path : PurePath) : Nat :=
  (if path.anchor = .relative then 0 else 1) + path.parts.length

theorem isRelativeTo_iff {path other : PurePath} :
    path.isRelativeTo other = true ↔
      path.anchor = other.anchor ∧ other.parts <+: path.parts := by
  rw [isRelativeTo, Bool.and_eq_true_iff, decide_eq_true_iff, List.isPrefixOf_iff_prefix]

theorem isAbsolute_iff {path : PurePath} :
    path.isAbsolute = true ↔ path.anchor = .root ∨ path.anchor = .doubleRoot := by
  unfold isAbsolute
  cases path.anchor <;> decide

/-- The text of a path anchored at two slashes begins with them. -/
theorem text_doubleRoot {path : PurePath} (h : path.anchor = .doubleRoot) :
    startsWith path.text "//" = true := by
  rw [text, h]
  exact startsWith_append ..

/-! ## A path and its text -/

/-- The path of another one from the working directory: `path.absolute()`. -/
def absolute (path cwd : PurePath) : PurePath :=
  if path.isAbsolute then path
  else ⟨cwd.anchor, cwd.parts ++ path.parts, fun part hpart =>
    (List.mem_append.mp hpart).elim (cwd.valid part) (path.valid part)⟩

/-- A path that names no directory as itself: what `Path` makes of a text. -/
def Plain (path : PurePath) : Prop := "." ∉ path.parts

theorem plain_ofString (text : String) : (ofString text).Plain := by
  intro hdot
  obtain ⟨piece, hpiece, heq⟩ := List.mem_map.mp hdot
  have hne := (List.mem_filter.mp hpiece).2
  have hpiece : piece = ['.'] := by
    rw [← String.toList_ofList (l := piece), heq]
    rfl
  rw [hpiece] at hne
  simp at hne

theorem Plain.absolute {path cwd : PurePath} (hpath : path.Plain) (hcwd : cwd.Plain) :
    (path.absolute cwd).Plain := by
  unfold PurePath.absolute
  split
  · exact hpath
  · intro hdot
    rcases List.mem_append.mp hdot with hdot | hdot
    · exact hcwd hdot
    · exact hpath hdot

theorem pieces_slash (cs : List Char) : pieces ('/' :: cs) = pieces cs := by
  rw [pieces, List.splitOn_cons_eq_if_modifyHead, if_pos (beq_self_eq_true _)]
  rfl

theorem slash_toList : "/".toList = ['/'] := rfl

theorem slash_not_mem {part : String} (h : isPathPart part = true) : '/' ∉ part.toList := by
  simpa [isPathPart] using (Bool.and_eq_true_iff.mp h).2

/-- The components do not begin with a slash. -/
theorem head_intercalate (path : PurePath) :
    ("/".intercalate path.parts).toList.head? ≠ some '/' := by
  intro hhead
  have hne : path.parts ≠ [] := by
    intro hnil
    rw [hnil] at hhead
    cases hhead
  have hsplit := splitOn_intercalate_toList slash_toList hne fun part hpart =>
    slash_not_mem (path.valid part hpart)
  obtain ⟨cs, hcs⟩ : ∃ cs, ("/".intercalate path.parts).toList = '/' :: cs :=
    ⟨_, List.eq_cons_of_mem_head? hhead⟩
  rw [hcs, List.splitOn_cons_eq_if_modifyHead, if_pos (beq_self_eq_true _)] at hsplit
  -- A leading slash would make the first component empty.
  have hempty : [] ∈ path.parts.map String.toList := hsplit ▸ List.mem_cons_self ..
  obtain ⟨part, hpart, hnil⟩ := List.mem_map.mp hempty
  have hvalid := path.valid part hpart
  rw [String.toList_eq_nil_iff.mp hnil] at hvalid
  simp [isPathPart] at hvalid

theorem pieces_intercalate {path : PurePath} (hplain : path.Plain) :
    pieces ("/".intercalate path.parts).toList = path.parts.map String.toList := by
  have hkept : ∀ piece ∈ path.parts.map String.toList, (piece ≠ [] && piece ≠ ['.']) = true := by
    intro piece hpiece
    obtain ⟨part, hpart, rfl⟩ := List.mem_map.mp hpiece
    have hempty : part.toList ≠ [] := by
      intro hnil
      have hvalid := path.valid part hpart
      rw [String.toList_eq_nil_iff.mp hnil] at hvalid
      simp [isPathPart] at hvalid
    have hdot : part.toList ≠ ['.'] := by
      intro hlist
      have heq : part = "." := String.toList_inj.mp hlist
      exact hplain (heq ▸ hpart)
    simp [hempty, hdot]
  by_cases hparts : path.parts = []
  · rw [hparts]
    rfl
  · rw [pieces, splitOn_intercalate_toList slash_toList hparts fun part hpart =>
      slash_not_mem (path.valid part hpart)]
    exact List.filter_eq_self.mpr hkept

theorem anchorOf_text {anchor : Anchor} {cs : List Char} (h : cs.head? ≠ some '/') :
    anchorOf (anchor.text.toList ++ cs) = anchor := by
  cases cs with
  | nil => cases anchor <;> rfl
  | cons c cs =>
      have hc : c ≠ '/' := fun heq => h (heq ▸ rfl)
      cases anchor with
      | relative =>
          show anchorOf (c :: cs) = .relative
          simp [anchorOf, hc]
      | root =>
          show anchorOf ('/' :: c :: cs) = .root
          simp [anchorOf, hc]
      | doubleRoot =>
          show anchorOf ('/' :: '/' :: c :: cs) = .doubleRoot
          simp [anchorOf, hc]

/-- **The text of a path is read back as the path.** -/
theorem ofString_text {path : PurePath} (hplain : path.Plain) : ofString path.text = path := by
  have hpieces := pieces_intercalate hplain
  by_cases hdot : path.anchor = .relative ∧ path.parts = []
  · obtain ⟨anchor, parts, hvalid⟩ := path
    obtain ⟨rfl, rfl⟩ := hdot
    have hself : ofString "." = ⟨.relative, [], by simp⟩ := by decide
    exact hself
  · have htext : path.text = path.anchor.text ++ "/".intercalate path.parts := by
      unfold text
      split
      · next hanchor hparts => exact absurd ⟨hanchor, hparts⟩ hdot
      · rfl
    have hhead := head_intercalate path
    have hanchor : anchorOf path.text.toList = path.anchor := by
      rw [htext, String.toList_append, anchorOf_text hhead]
    have hparts : pieces path.text.toList = path.parts.map String.toList := by
      rw [htext, String.toList_append, ← hpieces]
      cases path.anchor with
      | relative => rfl
      | root => exact pieces_slash _
      | doubleRoot => exact (pieces_slash _).trans (pieces_slash _)
    have hback : (path.parts.map String.toList).map String.ofList = path.parts := by
      simp [List.map_map, Function.comp_def]
    obtain ⟨anchor, parts, hvalid⟩ := path
    simp only [ofString, hanchor, hparts, PurePath.mk.injEq, true_and]
    exact hback

end PurePath

end PyLib
