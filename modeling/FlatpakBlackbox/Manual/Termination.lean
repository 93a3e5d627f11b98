import FlatpakBlackbox.Basic.PurePath
import FlatpakBlackbox.Manual.Runs

set_option autoImplicit false

/-! # Expansion terminates

`local_path` gives a file one name, however a reference spells it. The ancestors of a call are
therefore files of the repository, without repetitions, and the depth of the recursion is bounded by
their number. A document from which a cycle of references can be reached is never expanded.
-/

namespace FlatpakBlackbox.Manual

open PyLib PyException

/-! ## One name for each file -/

/-- A component as `Path` has it: the way up, or a name. -/
def IsPart (part : String) : Prop := part ≠ ".." → isComponent part = true

theorem isPart_of_mem_pathParts {text part : String} (h : part ∈ pathParts text) : IsPart part := by
  intro hup
  obtain ⟨hpart, hne⟩ := List.mem_filter.mp h
  obtain ⟨piece, hpiece, rfl⟩ := List.mem_map.mp hpart
  have hslash : '/' ∉ (String.ofList piece).toList := by
    rw [String.toList_ofList]
    exact not_mem_of_mem_splitOn hpiece
  have hcontains : (String.ofList piece).toList.contains '/' = false := by simpa using hslash
  unfold isComponent
  rw [hcontains]
  simp only [Bool.and_eq_true, decide_eq_true_eq] at hne
  simp [hne.1, hne.2, hup]

theorem isComponent_of_mem_resolveFrom {directory : Path} {parts : List String}
    (hdirectory : ∀ part ∈ directory, isComponent part = true) (hparts : ∀ part ∈ parts,
    IsPart part) :
    ∀ part ∈ resolveFrom directory parts, isComponent part = true := by
  induction parts generalizing directory with
  | nil => exact hdirectory
  | cons first parts ih =>
      obtain ⟨hfirst, hparts⟩ := List.forall_mem_cons.mp hparts
      unfold resolveFrom
      rw [List.foldl_cons]
      refine ih ?_ hparts
      by_cases hup : first = ".."
      · rw [if_pos hup]
        exact fun part hpart => hdirectory part (List.mem_of_mem_dropLast hpart)
      · rw [if_neg hup]
        intro part hpart
        rcases List.mem_append.mp hpart with hpart | hpart
        · exact hdirectory part hpart
        · rw [List.mem_singleton.mp hpart]
          exact hfirst hup

/-- Components are resolved. -/
theorem resolveFrom_of_components {directory : Path} {parts : List String}
    (h : ∀ part ∈ parts, isComponent part = true) :
    resolveFrom directory parts = directory ++ parts := by
  induction parts generalizing directory with
  | nil => exact (List.append_nil directory).symm
  | cons first parts ih =>
      obtain ⟨hfirst, hparts⟩ := List.forall_mem_cons.mp h
      have hup : first ≠ ".." := by
        rintro rfl
        exact absurd hfirst (by decide)
      have hrest : resolveFrom (directory ++ [first]) parts = _ := ih hparts
      rw [List.append_assoc, List.singleton_append] at hrest
      unfold resolveFrom at hrest ⊢
      rw [List.foldl_cons, if_neg hup, hrest]

/-- The name of a file names it. -/
theorem pathParts_asPosix {file : Path} (h : ∀ part ∈ file, isComponent part = true) :
    pathParts (asPosix file) = file := by
  unfold asPosix
  by_cases hfile : file = []
  · rw [if_pos hfile, hfile]
    rfl
  · rw [if_neg hfile]
    have hslash : ∀ part ∈ file, '/' ∉ part.toList := by
      intro part hpart
      have hcomponent := h part hpart
      simp only [isComponent, Bool.and_eq_true] at hcomponent
      simpa using hcomponent.2
    unfold pathParts
    rw [splitOn_intercalate_toList (by rfl) hfile hslash, List.map_map]
    have hid : String.ofList ∘ String.toList = id := funext fun part => String.ofList_toList
    rw [hid, List.map_id]
    refine List.filter_eq_self.mpr fun part hpart => ?_
    have hcomponent := h part hpart
    simp only [isComponent, Bool.and_eq_true] at hcomponent
    simp only [Bool.and_eq_true]
    exact ⟨hcomponent.1.1.1, hcomponent.1.1.2⟩

theorem isPathPart_of_isComponent {part : String} (h : isComponent part = true) :
    isPathPart part = true := by
  simp only [isComponent, Bool.and_eq_true] at h
  exact Bool.and_eq_true_iff.mpr ⟨h.1.1.1, h.2⟩

/-- The name of a file is relative. -/
theorem head_asPosix {file : Path} (h : ∀ part ∈ file, isComponent part = true) :
    (asPosix file).toList.head? ≠ some '/' := by
  unfold asPosix
  by_cases hfile : file = []
  · rw [if_pos hfile]
    decide
  · rw [if_neg hfile]
    exact PurePath.head_intercalate
      ⟨.relative, file, fun part hpart => isPathPart_of_isComponent (h part hpart)⟩

section

variable (repo : Repository)

/-- The name of a file, as `local_path` writes it. -/
def IsName (name : String) : Prop :=
  ∃ file : Path, (∀ part ∈ file, isComponent part = true) ∧ name = asPosix file

variable {repo}

theorem isComponent_of_mem_root {part : String} (h : part ∈ repo.tree.root) :
    isComponent part = true :=
  List.all_eq_true.mp repo.root_resolved part h

theorem isPart_of_mem_join {base : Path} {text part : String} (hbase : ∀ part ∈ base, IsPart part)
    (h : part ∈ join base text) : IsPart part := by
  unfold join at h
  split at h
  · exact isPart_of_mem_pathParts h
  · rcases List.mem_append.mp h with h | h
    · exact hbase part h
    · exact isPart_of_mem_pathParts h

theorem isComponent_of_relative {parts : List String} {file : Path}
    (h : repo.relative? parts = some file) (hparts : ∀ part ∈ parts, IsPart part) :
    ∀ part ∈ file, isComponent part = true := by
  unfold Repository.relative? at h
  dsimp only at h
  split at h
  · obtain rfl := Option.some.inj h
    intro part hpart
    exact isComponent_of_mem_resolveFrom (fun _ hnil => absurd hnil List.not_mem_nil) hparts part
      (List.mem_of_mem_drop hpart)
  · cases h

/-- The file that a reference means in a document. -/
def Resolves (repo : Repository) (parent href : String) (file : Path) : Prop :=
  repo.relative? (join (join repo.tree.root parent).dropLast href) = some file

theorem Resolves.components {parent href : String} {file : Path}
    (h : Resolves repo parent href file) : ∀ part ∈ file, isComponent part = true := by
  refine isComponent_of_relative h fun part hpart => isPart_of_mem_join ?_ hpart
  intro part hpart
  refine isPart_of_mem_join (fun part hpart _ => ?_) (List.mem_of_mem_dropLast hpart)
  exact isComponent_of_mem_root hpart

/-- `local_path` returns the name of the file. -/
theorem localPath_eq_ok {parent href target : String}
    (h : repo.localPath parent href = .ok target) :
    ∃ file, Resolves repo parent href file ∧ target = asPosix file := by
  obtain ⟨_, -, hrest⟩ := bind_eq_ok.mp h
  split at hrest
  · cases hrest
  · next file hfile => exact ⟨file, hfile, (Except.ok.inj hrest).symm⟩

theorem isName_of_localPath {parent href target : String}
    (h : repo.localPath parent href = .ok target) : IsName target := by
  obtain ⟨file, hfile, rfl⟩ := localPath_eq_ok h
  exact ⟨file, hfile.components, rfl⟩

/-- The names of the files. -/
def documentNames (repo : Repository) : List String := repo.tree.files.keys.map asPosix

/-- What has a name and can be read is a file. -/
theorem mem_documentNames {name : String} {text : List Char} (hname : IsName name)
    (h : repo.read name = .ok text) : name ∈ documentNames repo := by
  obtain ⟨file, hfile, rfl⟩ := hname
  have hjoin : join repo.tree.root (asPosix file) = repo.tree.root ++ file := by
    unfold join
    rw [if_neg (head_asPosix hfile), pathParts_asPosix hfile]
  have hresolve : resolveFrom [] (repo.tree.root ++ file) = repo.tree.root ++ file :=
    resolveFrom_of_components fun part hpart => (List.mem_append.mp hpart).elim
      isComponent_of_mem_root (hfile part)
  have hrelative : repo.relative? (repo.tree.root ++ file) = some file := by
    unfold Repository.relative?
    dsimp only
    rw [hresolve, if_pos (List.isPrefixOf_iff_prefix.mpr (List.prefix_append _ _)),
      List.drop_left]
  unfold Repository.read FileTree.read at h
  rw [hjoin, hrelative] at h
  dsimp only at h
  cases hget : repo.tree.files.get? file with
  | none =>
      rw [hget] at h
      cases h
  | some found =>
      exact List.mem_map.mpr ⟨file, (Dict.mem_keys_iff _ _).mpr ⟨found, hget⟩, rfl⟩

end

/-! ## The depth of the recursion -/

section

variable {repo : Repository} {path : String} {ancestors : List String}
  {load : String → Fueled PyException Element}

/-- The number of documents that are not ancestors. -/
def unread (repo : Repository) (ancestors : List String) : Nat :=
  ((documentNames repo).toFinset.filter fun name => name ∉ ancestors).card

theorem unread_le (repo : Repository) (ancestors : List String) :
    unread repo ancestors ≤ repo.tree.files.keys.length := by
  calc unread repo ancestors
      ≤ (documentNames repo).toFinset.card := Finset.card_filter_le _ _
    _ ≤ (documentNames repo).length := List.toFinset_card_le _
    _ = repo.tree.files.keys.length := List.length_map _

theorem unread_lt (hpath : path ∈ documentNames repo) (hnew : path ∉ ancestors) :
    unread repo (ancestors ++ [path]) < unread repo ancestors := by
  refine Finset.card_lt_card ((Finset.ssubset_iff_of_subset ?_).mpr ⟨path, ?_, ?_⟩)
  · intro name hname
    obtain ⟨hdocument, hname⟩ := Finset.mem_filter.mp hname
    exact Finset.mem_filter.mpr ⟨hdocument, fun h => hname (List.mem_append_left _ h)⟩
  · exact Finset.mem_filter.mpr ⟨List.mem_toFinset.mpr hpath, hnew⟩
  · exact fun h => (Finset.mem_filter.mp h).2 (List.mem_append_right _ List.mem_cons_self)

theorem declare_ends (h : ∀ target, IsName target → (load target).Ends)
    (entities : Dict String Element) (declaration : Declaration) :
    (declare repo load path entities declaration).Ends := by
  refine (Fueled.ends_ofExcept _).bind fun target htarget => ?_
  refine (h target (isName_of_localPath (Fueled.returns_ofExcept.mp htarget))).bind fun _ _ => ?_
  exact Fueled.ends_pure _

variable [UnicodeDatabase]

theorem replacement_ends (h : ∀ target, IsName target → (load target).Ends)
    (entities : Dict String Element) (child : Element) :
    (replacement repo load path entities child).Ends := by
  unfold replacement
  split
  · exact (Fueled.ends_ofExcept _).bind fun _ _ => Fueled.ends_pure _
  · split
    · exact Fueled.ends_pure _
    · refine (Fueled.ends_ofExcept _).bind fun href _ => ?_
      refine (Fueled.ends_ofExcept _).bind fun target htarget => ?_
      refine (h target (isName_of_localPath (Fueled.returns_ofExcept.mp htarget))).bind fun _ _ =>
        ?_
      exact (Fueled.ends_ofExcept _).bind fun _ _ => Fueled.ends_pure _

/-- **One call.** It ends if those that it makes do; it makes none when it is a repetition or its
document cannot be read. -/
theorem xmlFrom_ends {fuel : Nat}
    (h : path ∉ ancestors → (∃ text, repo.read path = .ok text) →
      ∀ target, IsName target → (xmlFrom repo fuel target (ancestors ++ [path])).Ends) :
    (xmlFrom repo (fuel + 1) path ancestors).Ends := by
  rw [xmlFrom]
  refine (Fueled.ends_ofExcept _).bind fun _ hnew => ?_
  refine (Fueled.ends_ofExcept _).bind fun text htext => ?_
  have hcalls := h (raiseIf_eq_ok.mp (Fueled.returns_ofExcept.mp hnew))
    ⟨text, Fueled.returns_ofExcept.mp htext⟩
  refine (Fueled.Ends.foldlM fun entities declaration _ =>
    declare_ends hcalls entities declaration).bind fun entities _ => ?_
  refine (Fueled.ends_ofExcept _).bind fun tree _ => ?_
  exact expand_ends (replacement_ends hcalls entities) tree

/-- Each call within another one reads a document that is not an ancestor. -/
theorem xmlFrom_ends_of_unread {fuel : Nat} (hname : IsName path)
    (hfuel : unread repo ancestors < fuel) : (xmlFrom repo fuel path ancestors).Ends := by
  induction fuel generalizing path ancestors with
  | zero => exact absurd hfuel (Nat.not_lt_zero _)
  | succ fuel ih =>
      refine xmlFrom_ends fun hnew hread target htarget => ih htarget ?_
      obtain ⟨text, htext⟩ := hread
      have hlt := unread_lt (mem_documentNames hname htext) hnew
      omega

/-- The outermost call, whose document may be named in any way. -/
theorem xmlFrom_ends_of_length {fuel : Nat} (hfuel : repo.tree.files.keys.length + 2 ≤ fuel) :
    (xmlFrom repo fuel path ancestors).Ends := by
  obtain ⟨fuel, rfl⟩ : ∃ n, fuel = n + 1 := ⟨fuel - 1, by omega⟩
  refine xmlFrom_ends fun _ _ target htarget => xmlFrom_ends_of_unread htarget ?_
  have hle := unread_le repo (ancestors ++ [path])
  omega

/-! ## Cycles -/

/-- The references of a document: its entities, and the includes below its root. -/
def hrefs (repo : Repository) (path : String) (text : List Char) : List String :=
  (declarations text).map Declaration.href ++
    match repo.document path text with
    | .error _ => []
    | .ok document => ((Element.iterAll document.children).filter fun element =>
        element.tag = includeTag).filterMap fun element => element.get? "href"

/-- A document refers to another one. -/
def Refers (repo : Repository) (path target : String) : Prop :=
  ∃ text, repo.read path = .ok text ∧
    ∃ href ∈ hrefs repo path text, repo.localPath path href = .ok target

/-- References lead to a document, and from it back to itself. -/
def ReachesCycle (repo : Repository) (path : String) : Prop :=
  ∃ document, Relation.ReflTransGen (Refers repo) path document ∧
    Relation.TransGen (Refers repo) document document

/-- **What a document refers to is expanded**, with the document among the ancestors. -/
theorem xmlFrom_refers {fuel : Nat} {tree : Element}
    (h : (xmlFrom repo fuel path ancestors).Returns tree) :
    path ∉ ancestors ∧ ∀ target, Refers repo path target →
      ∃ fuel tree, (xmlFrom repo fuel target (ancestors ++ [path])).Returns tree := by
  obtain ⟨hnew, calls, rfl, text, entities, document, hcall⟩ := xmlFrom_returns h
  refine ⟨hnew, ?_⟩
  rintro target ⟨read, hread, href, hhref, htarget⟩
  obtain rfl := Except.ok.inj (hread.symm.trans hcall.read)
  rcases List.mem_append.mp hhref with hhref | hhref
  · obtain ⟨declaration, hdeclaration, rfl⟩ := List.mem_map.mp hhref
    obtain ⟨_, _, hdeclared⟩ := Fueled.returns_foldlM hcall.declared declaration hdeclaration
    obtain ⟨name, hname, hrest⟩ := Fueled.returns_bind.mp hdeclared
    obtain rfl := Except.ok.inj (htarget.symm.trans (Fueled.returns_ofExcept.mp hname))
    obtain ⟨entity, hentity, -⟩ := Fueled.returns_bind.mp hrest
    exact ⟨calls, entity, hentity⟩
  · rw [hcall.parsed] at hhref
    obtain ⟨child, hchild, hhref⟩ := List.mem_filterMap.mp hhref
    obtain ⟨hchild, htag⟩ := List.mem_filter.mp hchild
    have htag := of_decide_eq_true htag
    obtain ⟨replaced, hreplaced⟩ := looked_at hcall.expanded child hchild
    obtain ⟨found, name, included, selected, hfound, hname, hincluded, -⟩ :=
      replacement_include htag hreplaced
    obtain rfl := Option.some.inj (hhref.symm.trans (includeHref_eq_ok hfound).1)
    obtain rfl := Except.ok.inj (htarget.symm.trans hname)
    exact ⟨calls, included, hincluded⟩

/-- **Expansion terminates.** With fuel for each file of the repository, and for the outermost
document and its own call, every expansion ends, and more fuel does not change its result. A
document from which a cycle can be reached is not expanded, whatever the fuel. -/
theorem xml_terminates (repo : Repository) (path : String) (ancestors : List String) :
    (∃ result, ∀ fuel, repo.tree.files.keys.length + 2 ≤ fuel →
      (xmlFrom repo fuel path ancestors).EndsWith result) ∧
    (ReachesCycle repo path → ∀ fuel tree, ¬ (xmlFrom repo fuel path ancestors).Returns tree) := by
  constructor
  · have hends : (xmlFrom repo (repo.tree.files.keys.length + 2) path ancestors).Ends :=
      xmlFrom_ends_of_length le_rfl
    obtain ⟨result, hresult⟩ := hends
    refine ⟨result, fun fuel hfuel => ?_⟩
    exact (xmlFrom_below hfuel (fun _ hname => hname) fun _ => rfl).endsWith hresult
  · rintro hcycle fuel tree hreturns
    let Done (name : String) (callers : List String) : Prop :=
      ∃ fuel tree, (xmlFrom repo fuel name callers).Returns tree
    have hdone : Done path ancestors := ⟨fuel, tree, hreturns⟩
    have hstep : ∀ name callers, Done name callers →
        name ∉ callers ∧ ∀ target, Refers repo name target → Done target (callers ++ [name]) := by
      rintro name callers ⟨fuel, tree, hreturns⟩
      exact xmlFrom_refers hreturns
    exact no_cycle_of_ancestors hstep hdone hcycle

end

/-- One document, whose entity is the document itself. -/
def cyclicRepository : Repository where
  tree := {
    root := ["manuals"]
    files := Dict.ofList [(["a.xml"], "<!ENTITY a SYSTEM \"./a.xml\">".toList)]
    wellFormed := by decide }
  root_resolved := by decide
  standard _ := .error "no element found: line 1, column 0"
  standard_root _ _ h := by cases h
  undefined _ := "undefined entity"
  findall _ _ := none
  findall_mem _ _ _ h := by cases h
  attrib _ := "{}"

theorem xml_terminates_small : @ReachesCycle asciiOnly cyclicRepository "a.xml" ∧
    ∀ fuel tree, ¬ (@xmlFrom asciiOnly cyclicRepository fuel "a.xml" []).Returns tree := by
  have hrefers : @Refers asciiOnly cyclicRepository "a.xml" "a.xml" := by
    refine ⟨_, rfl, "./a.xml", ?_, rfl⟩
    decide
  have hcycle : @ReachesCycle asciiOnly cyclicRepository "a.xml" :=
    ⟨"a.xml", .refl, .single hrefers⟩
  exact ⟨hcycle, (@xml_terminates asciiOnly cyclicRepository "a.xml" []).2 hcycle⟩

end FlatpakBlackbox.Manual
