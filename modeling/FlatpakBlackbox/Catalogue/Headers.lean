import FlatpakBlackbox.Catalogue.Target

set_option autoImplicit false

/-! # The public headers are listed

What the loop over the headers makes of a header: each export marker is read as one declaration, and
each declaration is accounted for, by a surface or by an exclusion (`Accounts`). Over all headers
the surfaces are appended in the order of the declarations, and the public types are those of
`IsPublic`.
-/

namespace FlatpakBlackbox

namespace Catalogue

open PyLib PyException

theorem surface?_eq_some {e : Export} {surface : Surface} :
    e.surface? = some surface ↔ e = .function surface := by
  cases e <;> simp [Export.surface?]

section

variable [UnicodeDatabase] {texts : Texts} {repo : Manual.Repository} {path : String}

theorem describes_of_exportOf {m : Pattern.Match} {surface : Surface}
    (h : exportOf path m = .ok (.function surface)) :
    (Interface.function surface.name).Describes surface := by
  unfold exportOf at h
  dsimp only at h
  split at h
  · cases h
  · split at h
    · cases h
    · obtain ⟨_, -, h⟩ := bind_eq_ok.mp h
      obtain ⟨_, -, h⟩ := bind_eq_ok.mp h
      split at h
      · cases h
      · cases h
        exact ⟨rfl, rfl, rfl, rfl, rfl⟩

/-! ## One declaration -/

/-- What a declaration does. -/
structure Accounts (path : String) (s : HeaderState) (e : Export) (s' : HeaderState) : Prop where
  appends : Appends s.exports.generator s'.exports.generator e.surface?.toList
  excluded : ∀ reason, e.reason? path = some reason → reason ∈ s'.exports.generator.exclusions
  publicTypes : ∀ type, type ∈ s'.exports.publicTypes ↔
    type ∈ s.exports.publicTypes ∨ e.type? = some type
  enumTypes : s'.exports.enumTypes = s.exports.enumTypes
  found : ∀ name, name ∈ s'.found ↔ name ∈ s.found ∨ e.name? = some name
  declaredMacros : s'.declaredMacros = s.declaredMacros + if e.isMacro then 1 else 0

theorem accounts_of_addExport {s s' : HeaderState} {m : Pattern.Match}
    (h : addExport path s m = .ok s') : ∃ e, exportOf path m = .ok e ∧ Accounts path s e s' := by
  obtain ⟨e, he, h⟩ := bind_eq_ok.mp h
  obtain ⟨exports, hexports, h⟩ := bind_eq_ok.mp h
  obtain rfl := Except.ok.inj h
  refine ⟨e, he, ?_⟩
  have hfound : ∀ name, name ∈ s.found ++ e.name?.toList ↔ name ∈ s.found ∨ e.name? = some name :=
    fun name => by rw [List.mem_append, Option.mem_toList]
  cases e with
  -- The cases are those of `account`: only a function has a surface.
  | macroType type function =>
      obtain rfl := Except.ok.inj hexports
      -- The type becomes public, and its function is reported.
      refine ⟨appends_exclude _ _, fun reason hreason => ?_, fun other => ?_, rfl, hfound, rfl⟩
      · obtain rfl := Option.some.inj hreason
        exact mem_exclude _ _
      · simp only [List.mem_cons, Export.type?, Option.some.injEq]
        rw [or_comm, eq_comm]
  | typeFunction name =>
      obtain rfl := Except.ok.inj hexports
      refine ⟨appends_exclude _ _, fun reason hreason => ?_, fun other => ?_, rfl, hfound, rfl⟩
      · obtain rfl := Option.some.inj hreason
        exact mem_exclude _ _
      · simp [Export.type?]
  | function surface =>
      obtain ⟨generator, hadd, hexports⟩ := bind_eq_ok.mp hexports
      obtain rfl := Except.ok.inj hexports
      refine ⟨appends_add hadd, fun reason hreason => ?_, fun other => ?_, rfl, hfound, rfl⟩
      · cases hreason
      · simp [Export.type?]

/-! ## One header -/

/-- A header with its declarations. -/
structure HeaderRead where
  path : String
  source : List Char
  exports : List Export

namespace HeaderRead

/-- The surfaces of the declarations. -/
def surfaces (y : HeaderRead) : List Surface := y.exports.filterMap Export.surface?

/-- The public types that the header makes. -/
def Makes (y : HeaderRead) (type : String) : Prop :=
  type ∈ groupsIn structPattern (headerText y.source) ∨ ∃ e ∈ y.exports, e.type? = some type

/-- **Every export marker is a declaration.** So is every macro that declares a type, and whatever
else looks like the declaration of a function. -/
structure Complete (y : HeaderRead) : Prop where
  declarations : List.Forall₂ (fun m e => exportOf y.path m = .ok e)
    (externPattern.finditer (declarationText y.source)) y.exports
  markers : y.exports.length = (markerPattern.finditer (declarationText y.source)).length
  macros : y.exports.countP Export.isMacro
    = (declarePattern.finditer (declarationText y.source)).length
  candidates : ∀ name ∈ candidatesIn y.source, ∃ e ∈ y.exports, e.name? = some name

end HeaderRead

/-- What a header does. -/
structure AccountsHeader (e : Exports) (y : HeaderRead) (e' : Exports) : Prop where
  appends : Appends e.generator e'.generator y.surfaces
  excluded : ∀ declared ∈ y.exports, ∀ reason, declared.reason? y.path = some reason →
    reason ∈ e'.generator.exclusions
  publicTypes : ∀ type, type ∈ e'.publicTypes ↔ type ∈ e.publicTypes ∨ y.Makes type
  enumTypes : ∀ enum, enum ∈ e'.enumTypes ↔ enum ∈ e.enumTypes ∨
    enum.2 = y.path ∧ enum.1 ∈ groupsIn enumPattern (headerText y.source)

theorem accountsHeader_of_addHeader {e e' : Exports} {header : String}
    (h : addHeader texts repo e header = .ok e') :
    ∃ y : HeaderRead, y.path = headerPath header ∧ repo.read y.path = .ok y.source ∧ y.Complete
      ∧ AccountsHeader e y e' := by
  obtain ⟨_, -, h⟩ := bind_eq_ok.mp h
  obtain ⟨source, hsource, h⟩ := bind_eq_ok.mp h
  obtain ⟨_, hmarkers, h⟩ := bind_eq_ok.mp h
  obtain ⟨s, hs, h⟩ := bind_eq_ok.mp h
  obtain ⟨_, hmacros, h⟩ := bind_eq_ok.mp h
  obtain ⟨_, hcandidates, h⟩ := bind_eq_ok.mp h
  obtain rfl := Except.ok.inj h
  obtain ⟨exports, hexports, hrun⟩ :=
    (runs_of_foldlM hs).simulate fun _ _ _ hstep => accounts_of_addExport hstep
  -- The counter of the loop is the number of macros, which the check compares with the text.
  have hcount := hrun.compose (ι := Export) (f := fun e => [e])
    (T := fun s added s' => s'.declaredMacros = s.declaredMacros + added.countP Export.isMacro)
    (fun _ => rfl) (fun s t u a b hs ht => by rw [ht, hs, List.countP_append, Nat.add_assoc])
    fun s e s' hstep => by rw [hstep.declaredMacros]; simp [List.countP_cons]
  rw [List.flatMap_singleton', Nat.zero_add] at hcount
  have hfound : ∀ name, name ∈ s.found ↔ ∃ e ∈ exports, e.name? = some name := by
    intro name
    rw [hrun.iff_exists (p := fun s => name ∈ s.found) fun _ _ _ hstep => hstep.found name]
    simp
  refine ⟨⟨headerPath header, source, exports⟩, rfl, hsource, ⟨hexports, ?_, ?_, ?_⟩,
    ?_, ?_, ?_, ?_⟩
  · rw [← hexports.length_eq]
    exact not_not.mp (raiseIf_eq_ok.mp hmarkers)
  · rw [← hcount]
    exact not_not.mp (raiseIf_eq_ok.mp hmacros)
  · intro name hname
    exact (hfound name).mp
      (missingFrom_eq_nil.mp (not_not.mp (raiseIf_eq_ok.mp hcandidates)) name hname)
  · have happends := hrun.compose (f := fun e => e.surface?.toList)
      (T := fun s added s' => Appends s.exports.generator s'.exports.generator added)
      (fun _ => Appends.refl _) (fun _ _ _ _ _ => Appends.trans) fun _ _ _ hstep => hstep.appends
    show Appends _ _ (exports.filterMap Export.surface?)
    rw [List.filterMap_eq_flatMap_toList]
    exact happends
  · exact hrun.established (c := fun e s => ∀ reason, e.reason? (headerPath header) = some reason →
        reason ∈ s.exports.generator.exclusions)
      (fun _ _ _ hstep _ hreasons reason hreason =>
        hstep.appends.exclusions _ (hreasons reason hreason))
      fun _ _ _ hstep => hstep.excluded
  · intro type
    rw [hrun.iff_exists (p := fun s => type ∈ s.exports.publicTypes) fun _ _ _ hstep =>
      hstep.publicTypes type, List.mem_append]
    unfold HeaderRead.Makes
    tauto
  · intro enum
    -- The declarations leave the enumerations alone, which the header added at its start.
    have hsame := hrun.invariant (p := fun s => s.exports.enumTypes =
      ((groupsIn enumPattern (headerText source)).map fun enum => (enum, headerPath header))
        ++ e.enumTypes) (fun _ _ _ hstep hs => hstep.enumTypes.trans hs) rfl
    rw [hsame, List.mem_append, List.mem_map, or_comm]
    refine or_congr_right ⟨?_, fun hmem => ⟨enum.1, hmem.2, Prod.ext rfl hmem.1.symm⟩⟩
    rintro ⟨name, hname, rfl⟩
    exact ⟨rfl, hname⟩

/-! ## All headers -/

/-- The header is read like this. -/
structure ReadsHeader (repo : Manual.Repository) (header : String) (y : HeaderRead) : Prop where
  path_eq : y.path = headerPath header
  source_eq : repo.read y.path = .ok y.source
  complete : y.Complete

/-- What the headers do. -/
structure AccountsHeaders (e : Exports) (ys : List HeaderRead) (e' : Exports) : Prop where
  appends : Appends e.generator e'.generator (ys.flatMap HeaderRead.surfaces)
  excluded : ∀ y ∈ ys, ∀ declared ∈ y.exports, ∀ reason, declared.reason? y.path = some reason →
    reason ∈ e'.generator.exclusions
  publicTypes : ∀ type, type ∈ e'.publicTypes ↔ type ∈ e.publicTypes ∨ ∃ y ∈ ys, y.Makes type
  enumTypes : ∀ enum, enum ∈ e'.enumTypes ↔ enum ∈ e.enumTypes ∨
    ∃ y ∈ ys, enum.2 = y.path ∧ enum.1 ∈ groupsIn enumPattern (headerText y.source)

/-- **The loop over the headers.** -/
theorem accountsHeaders_of_addHeaders {headers : List String} {e e' : Exports}
    (h : headers.foldlM (addHeader texts repo) e = .ok e') :
    ∃ ys, List.Forall₂ (ReadsHeader repo) headers ys ∧ AccountsHeaders e ys e' := by
  obtain ⟨ys, hys, hrun⟩ := (runs_of_foldlM h).simulate (R := ReadsHeader repo)
    (T := AccountsHeader) fun s header s' hstep => by
      obtain ⟨y, hpath, hsource, hcomplete, haccounts⟩ := accountsHeader_of_addHeader hstep
      exact ⟨y, ⟨hpath, hsource, hcomplete⟩, haccounts⟩
  refine ⟨ys, hys, ?_, ?_, fun type => ?_, fun enum => ?_⟩
  · exact hrun.compose (T := fun e added e' => Appends e.generator e'.generator added)
      (fun _ => Appends.refl _) (fun _ _ _ _ _ => Appends.trans) fun _ _ _ hstep => hstep.appends
  · refine hrun.established (c := fun y e => ∀ declared ∈ y.exports, ∀ reason,
      declared.reason? y.path = some reason → reason ∈ e.generator.exclusions) ?_
      fun _ _ _ hstep => hstep.excluded
    intro _ _ _ hstep _ hy declared hdeclared reason hreason
    exact hstep.appends.exclusions _ (hy declared hdeclared reason hreason)
  · exact hrun.iff_exists (p := fun e => type ∈ e.publicTypes) fun _ _ _ hstep =>
      hstep.publicTypes type
  · exact hrun.iff_exists (p := fun e => enum ∈ e.enumTypes) fun _ _ _ hstep =>
      hstep.enumTypes enum

end

/-! ## Enumerations -/

theorem mem_sortedPairs {pairs : List (String × String)} {pair : String × String} :
    pair ∈ sortedPairs pairs ↔ pair ∈ pairs := by
  unfold sortedPairs
  rw [(List.perm_insertionSort _ _).mem_iff, List.mem_dedup]

theorem appends_excludeAll (reason : String × String → String) (enums : List (String × String))
    (g : Generator) :
    Appends g (enums.foldl (fun g enum => g.exclude (reason enum)) g) []
      ∧ ∀ enum ∈ enums,
        reason enum ∈ (enums.foldl (fun g enum => g.exclude (reason enum)) g).exclusions := by
  induction enums generalizing g with
  | nil => exact ⟨Appends.refl g, fun enum henum => absurd henum List.not_mem_nil⟩
  | cons enum enums ih =>
      obtain ⟨happends, hmem⟩ := ih (g.exclude (reason enum))
      refine ⟨(appends_exclude g _).trans happends, List.forall_mem_cons.mpr ⟨?_, hmem⟩⟩
      exact happends.exclusions _ (mem_exclude g _)

/-- Each enumeration is excluded. -/
theorem excludeEnums_eq_ok [UnicodeDatabase] {texts : Texts} {repo : Manual.Repository}
    {g g' : Generator} {enumTypes : List (String × String)}
    (h : excludeEnums texts repo g enumTypes = .ok g') :
    Appends g g' [] ∧ ∀ enum ∈ enumTypes, enumReason texts enum ∈ g'.exclusions := by
  unfold excludeEnums at h
  split at h
  -- Without enumerations the template is not read.
  · next hnone =>
      obtain rfl := Except.ok.inj h
      rw [hnone]
      exact ⟨Appends.refl g, fun enum henum => absurd henum List.not_mem_nil⟩
  · obtain ⟨_, -, h⟩ := bind_eq_ok.mp h
    obtain ⟨_, -, h⟩ := bind_eq_ok.mp h
    obtain rfl := Except.ok.inj h
    obtain ⟨happends, hmem⟩ := appends_excludeAll (enumReason texts) (sortedPairs enumTypes) g
    exact ⟨happends, fun enum henum => hmem enum (mem_sortedPairs.mpr henum)⟩

/-! ## What the headers declare -/

section

variable [WordDatabase] {repo : Manual.Repository} {files : List String × List String}
  {ys : List HeaderRead}

theorem isHeader_iff (hfiles : mesonFiles repo = .ok files)
    (hys : List.Forall₂ (ReadsHeader repo) files.1 ys) {path : String} {source : List Char} :
    IsHeader repo path source ↔ ∃ y ∈ ys, y.path = path ∧ y.source = source := by
  constructor
  · rintro ⟨files', hfiles', header, hheader, rfl, hsource⟩
    obtain rfl := Except.ok.inj (hfiles.symm.trans hfiles')
    obtain ⟨y, hy, hreads⟩ := exists_of_forall₂ hys hheader
    refine ⟨y, hy, hreads.path_eq, ?_⟩
    rw [← hreads.path_eq, hreads.source_eq] at hsource
    exact Except.ok.inj hsource
  · rintro ⟨y, hy, rfl, rfl⟩
    obtain ⟨header, hheader, hreads⟩ := exists_of_forall₂ hys.flip hy
    exact ⟨files, hfiles, header, hheader, hreads.path_eq, hreads.source_eq⟩

/-- The declarations of the target are those that were read. -/
theorem declares_iff (hfiles : mesonFiles repo = .ok files)
    (hys : List.Forall₂ (ReadsHeader repo) files.1 ys) {path : String} {e : Export} :
    Declares repo path e ↔ ∃ y ∈ ys, y.path = path ∧ e ∈ y.exports := by
  have hcomplete : ∀ y ∈ ys, y.Complete := fun y hy => by
    obtain ⟨header, -, hreads⟩ := exists_of_forall₂ hys.flip hy
    exact hreads.complete
  constructor
  · rintro ⟨source, hheader, m, hm, he⟩
    obtain ⟨y, hy, rfl, rfl⟩ := (isHeader_iff hfiles hys).mp hheader
    obtain ⟨e', he', hexport⟩ := exists_of_forall₂ (hcomplete y hy).declarations hm
    obtain rfl := Except.ok.inj (he.symm.trans hexport)
    exact ⟨y, hy, rfl, he'⟩
  · rintro ⟨y, hy, rfl, he⟩
    obtain ⟨m, hm, hexport⟩ := exists_of_forall₂ (hcomplete y hy).declarations.flip he
    exact ⟨y.source, (isHeader_iff hfiles hys).mpr ⟨y, hy, rfl, rfl⟩, m, hm, hexport⟩

theorem isPublic_iff (hfiles : mesonFiles repo = .ok files)
    (hys : List.Forall₂ (ReadsHeader repo) files.1 ys) {type : String} :
    IsPublic repo type ↔ ∃ y ∈ ys, y.Makes type := by
  have htype : ∀ e : Export, e.type? = some type ↔ ∃ getter, e = .macroType type getter := by
    intro e
    cases e <;> simp [Export.type?]
  unfold IsPublic HeaderRead.Makes
  simp only [isHeader_iff hfiles hys, declares_iff hfiles hys, htype]
  constructor
  · rintro (⟨path, source, ⟨y, hy, rfl, rfl⟩, hmem⟩ | ⟨path, getter, y, hy, rfl, he⟩)
    · exact ⟨y, hy, Or.inl hmem⟩
    · exact ⟨y, hy, Or.inr ⟨_, he, getter, rfl⟩⟩
  · rintro ⟨y, hy, hmem | ⟨e, he, getter, rfl⟩⟩
    · exact Or.inl ⟨y.path, y.source, ⟨y, hy, rfl, rfl⟩, hmem⟩
    · exact Or.inr ⟨y.path, getter, y, hy, rfl, he⟩

end

end Catalogue

end FlatpakBlackbox
