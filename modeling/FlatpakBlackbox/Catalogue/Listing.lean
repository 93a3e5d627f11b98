import FlatpakBlackbox.Catalogue.CommandLine
import FlatpakBlackbox.Catalogue.Comments
import FlatpakBlackbox.Catalogue.Document
import FlatpakBlackbox.Catalogue.Headers
import FlatpakBlackbox.Catalogue.Signals

set_option autoImplicit false

/-! # The catalogue lists the target

A generated document lists the interfaces of the target, each once, and no others
(`generate_exact`). What was to be counted and is not in the list is among the limitations:
declarations of types, deprecated names and signals of private classes.
-/

namespace FlatpakBlackbox

namespace Catalogue

open PyLib PyException

/-- The surfaces in the order of their identifiers. -/
theorem documentSurfaces_spec {g : Generator} {interfaces : List Interface}
    (h : g.Lists interfaces) :
    ((sorted g.surfaces.keys).filterMap g.surfaces.get?).map (fun s => s.id) =
    sorted g.surfaces.keys
      ∧ ((sorted g.surfaces.keys).filterMap g.surfaces.get?).Perm g.surfaces.values := by
  constructor
  · have hid : ∀ key ∈ sorted g.surfaces.keys,
        ∃ s, g.surfaces.get? key = some s ∧ s.id = key := by
      intro key hkey
      obtain ⟨s, hs⟩ := (Dict.mem_keys_iff _ _).mp (mem_sorted.mp hkey)
      obtain ⟨i, -, hi⟩ := exists_of_forall₂ h (Dict.mem_entries_of_get? hs)
      exact ⟨s, hs, hi.2.id_eq.trans hi.1.symm⟩
    generalize sorted g.surfaces.keys = keys at hid
    induction keys with
    | nil => rfl
    | cons key keys ih =>
        obtain ⟨⟨s, hs, hkey⟩, hrest⟩ := List.forall_mem_cons.mp hid
        rw [List.filterMap_cons_some hs, List.map_cons, hkey, ih hrest]
  · rw [← Dict.filterMap_get?_keys]
    exact (sorted_perm _).filterMap _

section

variable [WordDatabase] {texts : Texts} {repo : Manual.Repository}

/-! ## The library -/

/-- What the library part has read, and what it has made of it. -/
structure LibraryRead (texts : Texts) (repo : Manual.Repository) (publicTypes : List String)
    (headers : List HeaderRead) (sources : List SourceRead) (g' : Generator) : Prop where
  files : ∃ files, mesonFiles repo = .ok files
    ∧ List.Forall₂ (ReadsHeader repo) files.1 headers
    ∧ List.Forall₂ (ReadsSource repo publicTypes) files.2 sources
  types : ∀ type, type ∈ publicTypes ↔ IsPublic repo type
  declared : ∀ y ∈ headers, ∀ e ∈ y.exports, ∀ reason, e.reason? y.path = some reason →
    reason ∈ g'.exclusions
  enumerations : ∀ y ∈ headers, ∀ enum ∈ groupsIn enumPattern (headerText y.source),
    enumReason texts (enum, y.path) ∈ g'.exclusions
  registered : ∀ y ∈ sources, ∀ found ∈ y.registrations, found.owner ∉ publicTypes →
    privateReason y.path found ∈ g'.exclusions

/-- **The library is listed.** -/
theorem library_reads {g g' : Generator} (h : library texts repo g = .ok g') :
    ∃ publicTypes headers sources, LibraryRead texts repo publicTypes headers sources g'
      ∧ Appends g g' (headers.flatMap HeaderRead.surfaces ++
        sources.flatMap fun y => y.surfaces publicTypes) := by
  obtain ⟨files, hfiles, h⟩ := bind_eq_ok.mp h
  obtain ⟨e, he, h⟩ := bind_eq_ok.mp h
  obtain ⟨middle, hmiddle, h⟩ := bind_eq_ok.mp h
  obtain ⟨headers, hheaders, haccounts⟩ := accountsHeaders_of_addHeaders he
  obtain ⟨henums, hreasons⟩ := excludeEnums_eq_ok hmiddle
  obtain ⟨sources, hsources, happends, hprivate⟩ := accountsSources_of_signals h
  refine ⟨e.publicTypes, headers, sources, ⟨⟨files, hfiles, hheaders, hsources⟩, fun type => ?_,
    fun y hy d hd reason hreason => ?_, fun y hy enum henum => ?_, hprivate⟩, ?_⟩
  -- The loop over the headers starts without public types.
  · rw [haccounts.publicTypes, isPublic_iff hfiles hheaders]
    exact or_iff_right List.not_mem_nil
  · exact happends.exclusions _
      (henums.exclusions _ (haccounts.excluded y hy d hd reason hreason))
  · exact happends.exclusions _ (hreasons _
      ((haccounts.enumTypes (enum, y.path)).mpr (Or.inr ⟨y, hy, rfl, henum⟩)))
  · have hall := (haccounts.appends.trans henums).trans happends
    rwa [List.append_nil] at hall

/-! ## The interfaces of the library -/

/-- The interface of a surface of the library. -/
def Surface.interface (s : Surface) : Interface :=
  match s.owner with
  | none => .function s.name
  | some owner => .signal owner s.name

/-- The surfaces that the library part appends. -/
def librarySurfaces (publicTypes : List String) (headers : List HeaderRead)
    (sources : List SourceRead) : List Surface :=
  headers.flatMap HeaderRead.surfaces ++ sources.flatMap fun y => y.surfaces publicTypes

variable {publicTypes : List String} {headers : List HeaderRead} {sources : List SourceRead}
  {g g' : Generator}

namespace LibraryRead

theorem mem_functions (h : LibraryRead texts repo publicTypes headers sources g') {s : Surface} :
    s ∈ headers.flatMap HeaderRead.surfaces ↔ ∃ path, Declares repo path (.function s) := by
  obtain ⟨files, hfiles, hheaders, -⟩ := h.files
  unfold HeaderRead.surfaces
  simp only [declares_iff hfiles hheaders, List.mem_flatMap, List.mem_filterMap, surface?_eq_some]
  constructor
  · rintro ⟨y, hy, e, he, rfl⟩
    exact ⟨y.path, y, hy, rfl, he⟩
  · rintro ⟨path, y, hy, -, he⟩
    exact ⟨y, hy, _, he, rfl⟩

theorem mem_signals (h : LibraryRead texts repo publicTypes headers sources g') {s : Surface} :
    (s ∈ sources.flatMap fun y => y.surfaces publicTypes) ↔ ∃ path found, Registers repo path found
      ∧ IsPublic repo found.owner ∧ s = signalSurface path found.owner found.name := by
  obtain ⟨files, hfiles, -, hsources⟩ := h.files
  unfold SourceRead.surfaces SourceRead.signals
  simp only [registers_iff hfiles hsources, ← h.types, List.mem_map, List.mem_flatMap,
    List.mem_filter, decide_eq_true_eq]
  constructor
  · rintro ⟨y, hy, found, ⟨hfound, howner⟩, rfl⟩
    exact ⟨y.path, found, ⟨y, hy, rfl, hfound⟩, howner, rfl⟩
  · rintro ⟨path, found, ⟨y, hy, rfl, hfound⟩, howner, rfl⟩
    exact ⟨y, hy, found, ⟨hfound, howner⟩, rfl⟩

/-- The surfaces of the library, and what they describe. -/
theorem mem_surfaces (h : LibraryRead texts repo publicTypes headers sources g') {s : Surface} :
    s ∈ librarySurfaces publicTypes headers sources ↔
      (∃ path, Declares repo path (.function s)) ∨ ∃ path found, Registers repo path found
        ∧ IsPublic repo found.owner ∧ s = signalSurface path found.owner found.name := by
  unfold librarySurfaces
  rw [List.mem_append, h.mem_functions, h.mem_signals]

theorem describes (h : LibraryRead texts repo publicTypes headers sources g') {s : Surface}
    (hs : s ∈ librarySurfaces publicTypes headers sources) : s.interface.Describes s := by
  rcases h.mem_surfaces.mp hs with ⟨path, source, -, m, -, hexport⟩ | ⟨path, found, -, -, rfl⟩
  · have hdescribes := describes_of_exportOf hexport
    have hinterface : s.interface = .function s.name := by
      unfold Surface.interface
      rw [hdescribes.owner_eq]
      rfl
    exact hinterface ▸ hdescribes
  · exact describes_signalSurface path found.owner found.name

theorem mem_interfaces (h : LibraryRead texts repo publicTypes headers sources g') {i : Interface} :
    i ∈ (librarySurfaces publicTypes headers sources).map Surface.interface ↔
      Belongs repo i ∧ ¬ OfCommandLine repo i := by
  have hfunction : ∀ path s, Declares repo path (.function s) →
      s.interface = .function s.name := by
    rintro path s ⟨source, -, m, -, hexport⟩
    unfold Surface.interface
    rw [(describes_of_exportOf hexport).owner_eq]
    rfl
  simp only [List.mem_map, h.mem_surfaces]
  constructor
  · rintro ⟨s, ⟨path, hs⟩ | ⟨path, found, hfound, howner, rfl⟩, rfl⟩
    · rw [hfunction path s hs]
      exact ⟨⟨path, s, hs, rfl⟩, id⟩
    · exact ⟨⟨howner, path, hfound⟩, id⟩
  · rintro ⟨hi, hnot⟩
    cases i with
    | command name => exact absurd hi hnot
    | option owner name => exact absurd hi hnot
    | function name =>
        obtain ⟨path, s, hs, rfl⟩ := hi
        exact ⟨s, Or.inl ⟨path, hs⟩, hfunction path s hs⟩
    | signal owner name =>
        obtain ⟨howner, path, hfound⟩ := hi
        exact ⟨_, Or.inr ⟨path, _, hfound, howner, rfl⟩, rfl⟩

end LibraryRead

/-! ## The document -/

/-- What a document is made of. -/
structure Generated (texts : Texts) (repo : Manual.Repository) (publicTypes : List String)
    (headers : List HeaderRead) (sources : List SourceRead) (g g' : Generator) (d : Document) :
    Prop where
  commandLine : CommandLine repo g
  library : LibraryRead texts repo publicTypes headers sources g'
  appends : Appends g g' (librarySurfaces publicTypes headers sources)
  limitations : d.limitations = policy ++ sorted g'.exclusions
  ids : d.surfaces.map (fun s => s.id) = sorted g'.surfaces.keys
  surfaces : d.surfaces.Perm g'.surfaces.values

namespace Generated

variable {d : Document} (h : Generated texts repo publicTypes headers sources g g' d)

include h

theorem lists {interfaces : List Interface} (hlists : g.Lists interfaces) : g'.Lists
    (interfaces ++ (librarySurfaces publicTypes headers sources).map Surface.interface) := by
  refine h.appends.lists ?_ hlists
  exact List.forall₂_map_right_iff.mpr (List.forall₂_same.mpr fun s hs => h.library.describes hs)

theorem mem_limitations {reason : String} (hreason : reason ∈ g'.exclusions) :
    reason ∈ d.limitations := by
  rw [h.limitations]
  exact List.mem_append_right _ (mem_sorted.mpr hreason)

/-- The surfaces of a kind of the library. -/
theorem filter_kind {kind : Kind} (hkind : kind = .libraryFunction ∨ kind = .librarySignal) :
    (d.surfaces.filter fun s => s.kind = kind.text).Perm
      ((librarySurfaces publicTypes headers sources).filter fun s => s.kind = kind.text) := by
  obtain ⟨interfaces, hinterfaces⟩ := h.commandLine.interfaces
  have hvalues : g'.surfaces.values
      = g.surfaces.values ++ librarySurfaces publicTypes headers sources := by
    unfold Dict.values
    rw [h.appends.entries, List.map_append, List.map_map]
    exact congrArg _ (List.map_id' _)
  -- No surface of the command line is of this kind.
  have hnone : (g.surfaces.values.filter fun s => s.kind = kind.text) = [] := by
    refine List.filter_eq_nil_iff.mpr fun s hs hsame => ?_
    obtain ⟨id, hid⟩ := Dict.mem_values_iff.mp hs
    obtain ⟨i, hi, -, hdescribes⟩ := exists_of_forall₂ hinterfaces.lists
      (Dict.mem_entries_of_get? hid)
    have hcommandLine := (hinterfaces.mem_iff i).mp hi
    have hkindOf := kind_of_text (hdescribes.kind_eq.symm.trans (of_decide_eq_true hsame))
    cases i with
    | command name => rcases hkind with rfl | rfl <;> cases hkindOf
    | option owner name => rcases hkind with rfl | rfl <;> cases hkindOf
    | function name => exact hcommandLine
    | signal owner name => exact hcommandLine
  have hperm := h.surfaces.filter fun s => s.kind = kind.text
  rwa [hvalues, List.filter_append, hnone, List.nil_append] at hperm

theorem filter_functions : (d.surfaces.filter fun s => s.kind = Kind.libraryFunction.text).Perm
    (headers.flatMap HeaderRead.surfaces) := by
  refine (h.filter_kind (Or.inl rfl)).trans ?_
  unfold librarySurfaces
  rw [List.filter_append, List.filter_eq_self.mpr, List.filter_eq_nil_iff.mpr, List.append_nil]
  · intro s hs
    obtain ⟨path, found, -, -, rfl⟩ := h.library.mem_signals.mp hs
    exact fun hkind => by cases @kind_of_text .librarySignal _ (of_decide_eq_true hkind)
  · intro s hs
    obtain ⟨path, source, -, m, -, hexport⟩ := h.library.mem_functions.mp hs
    exact decide_eq_true (describes_of_exportOf hexport).kind_eq

theorem filter_signals : (d.surfaces.filter fun s => s.kind = Kind.librarySignal.text).Perm
    (sources.flatMap fun y => y.surfaces publicTypes) := by
  refine (h.filter_kind (Or.inr rfl)).trans ?_
  unfold librarySurfaces
  rw [List.filter_append, List.filter_eq_nil_iff.mpr, List.filter_eq_self.mpr, List.nil_append]
  · intro s hs
    obtain ⟨path, found, -, -, rfl⟩ := h.library.mem_signals.mp hs
    rfl
  · intro s hs hkind
    obtain ⟨path, source, -, m, -, hexport⟩ := h.library.mem_functions.mp hs
    have htext := (describes_of_exportOf hexport).kind_eq.symm.trans (of_decide_eq_true hkind)
    cases kind_of_text htext

/-- The surfaces describe the interfaces of the target. -/
theorem describes : ∃ interfaces : List Interface,
    List.Forall₂ (fun s (i : Interface) => i.Describes s) d.surfaces interfaces
      ∧ interfaces.Nodup ∧ ∀ i, i ∈ interfaces ↔ Belongs repo i := by
  obtain ⟨interfaces, hinterfaces⟩ := h.commandLine.interfaces
  have hlists := h.lists hinterfaces.lists
  have hvalues : List.Forall₂ (fun s (i : Interface) => i.Describes s) g'.surfaces.values
      (interfaces ++ (librarySurfaces publicTypes headers sources).map Surface.interface) :=
    List.forall₂_map_left_iff.mpr (hlists.imp fun _ _ hentry => hentry.2)
  -- The document reorders the surfaces, and the interfaces are reordered with them.
  obtain ⟨listed, hlisted, hperm⟩ := List.perm_comp_forall₂ h.surfaces hvalues
  refine ⟨listed, hlisted, hperm.nodup_iff.mpr hlists.nodup, fun i => ?_⟩
  rw [hperm.mem_iff, List.mem_append, hinterfaces.mem_iff, h.library.mem_interfaces]
  -- What belongs to the target is of the command line, or of the library.
  have hsub : OfCommandLine repo i → Belongs repo i := by
    cases i with
    | command name => exact id
    | option owner name => exact id
    | function name => exact False.elim
    | signal owner name => exact False.elim
  tauto

/-- The identifiers of the library are distinct. -/
theorem nodup_library : ((librarySurfaces publicTypes headers sources).map fun s =>
    s.id).Nodup := by
  have hkeys := g'.surfaces.keys_nodup
  unfold Dict.keys at hkeys
  rw [h.appends.entries, List.map_append, List.map_map] at hkeys
  exact (List.nodup_append.mp hkeys).2.1

end Generated

theorem generated_of_generate {reference : Except PyException Reference} {d : Document}
    (h : (generate texts repo reference).Returns d) :
    ∃ publicTypes headers sources g g',
    Generated texts repo publicTypes headers sources g g' d := by
  obtain ⟨commandLine, hcommandLine, h⟩ := Fueled.returns_bind.mp h
  obtain ⟨g', hg', h⟩ := Fueled.returns_bind.mp h
  obtain ⟨reference, -, h⟩ := Fueled.returns_bind.mp h
  obtain rfl := Fueled.returns_pure.mp h
  have hcli := cli_lists hcommandLine
  obtain ⟨publicTypes, headers, sources, hlibrary, happends⟩ :=
    library_reads (Fueled.returns_ofExcept.mp hg')
  obtain ⟨interfaces, hinterfaces⟩ := hcli.interfaces
  have hlists : g'.Lists (interfaces ++
      (librarySurfaces publicTypes headers sources).map Surface.interface) := by
    refine happends.lists ?_ hinterfaces.lists
    exact List.forall₂_map_right_iff.mpr (List.forall₂_same.mpr fun s hs => hlibrary.describes hs)
  obtain ⟨hids, hperm⟩ := documentSurfaces_spec hlists
  exact ⟨publicTypes, headers, sources, _, g', hcli, hlibrary, happends, rfl, hids, hperm⟩

end

/-! ## A small source tree -/

def smallOption (name : String) : Manual.Node :=
  .element "varlistentry" [] "" [.element "term" [] "" [.element "option" [] name [] ""] ""] ""

/-- A command with one option and a deprecated name, two global options, a type with one function,
and a signal of the type. -/
def smallTree : Manual.Repository where
  tree := {
    root := ["flatpak"]
    files := Dict.ofList [
      (["app", "flatpak-main.c"], ("commands[]=\x7b\x7b\"run\",h,flatpak_builtin_r,c\x7d," ++
        "\x7b\"go\",h,flatpak_builtin_r,c,TRUE\x7d,\x7bNULL\x7d\x7d;" ++
        "global_entries[]=\x7b\x7b\"a\",'a',0,0,0,0,0\x7d\x7d;" ++
        "empty_entries[]=\x7b\x7b\"b\",0,0,0,0,0,0\x7d\x7d;").toList),
      (["doc", "flatpak-run.xml"], "r".toList), (["doc", "flatpak.xml"], "g".toList),
      (["common", "meson.build"], ("public_headers=['a.h']\ninstall_headers(public_headers)\n" ++
        "library('a','a.c')\n").toList),
      (["common", "a.h"], ("typedef struct FlatpakA FlatpakA;" ++
        "FLATPAK_EXTERN GType flatpak_a_get_type();FLATPAK_EXTERN void flatpak_a();").toList),
      (["common", "a.c"], ("/**\n*FlatpakA::a:\n*/\na_class_init(FlatpakAClass*c)\x7b" ++
        "g_signal_new(\"a\",0);\x7d").toList)]
    wellFormed := by decide +kernel }
  root_resolved := by decide
  standard text := .ok (.element "refentry" [] ""
    (if text = "r".toList then [smallOption "--x"] else [smallOption "--a", smallOption "--b"]) "")
  standard_root text root h := ⟨_, _, _, _, (Except.ok.inj h).symm⟩
  undefined _ := "undefined entity"
  findall _ _ := some []
  findall_mem := Manual.mem_iter_of_findall_nil
  attrib _ := "\x7b\x7d"

def smallTexts : Texts := ⟨fun _ => "", id⟩

def smallDocument : Fueled PyException Document :=
  @generate asciiWords smallTexts smallTree (.ok ⟨"0", []⟩)

theorem small_returns : ∃ d, smallDocument.Returns d := by
  have hsome : smallDocument.value?.isSome = true := by decide +kernel
  obtain ⟨d, hd⟩ := Option.isSome_iff_exists.mp hsome
  exact ⟨d, Fueled.value?_eq_some.mp hd⟩

/-! ## What a document says -/

/-- **The catalogue is exact.** The surfaces of a generated document describe the interfaces that
are recognised in the target: the active commands, the long options of their manuals and the global
ones, the first function of each declaration in the public headers, and the signals that are
registered for public types. Each of them has one surface, and there are no other surfaces; they are
in the order of their identifiers. -/
theorem generate_exact [WordDatabase] {texts : Texts} {repo : Manual.Repository}
    {reference : Except PyException Reference} {d : Document}
    (h : (generate texts repo reference).Returns d) :
    ∃ interfaces : List Interface,
      List.Forall₂ (fun s (i : Interface) => i.Describes s) d.surfaces interfaces
        ∧ interfaces.Nodup ∧ (∀ i, i ∈ interfaces ↔ Belongs repo i)
        ∧ (d.surfaces.map fun s => s.id).Pairwise (· < ·) := by
  obtain ⟨publicTypes, headers, sources, g, g', hd⟩ := generated_of_generate h
  obtain ⟨interfaces, hdescribes, hnodup, hmem⟩ := hd.describes
  exact ⟨interfaces, hdescribes, hnodup, hmem, hd.ids ▸ sorted_lt g'.surfaces.keys_nodup⟩

theorem generate_exact_small : ∃ (d : Document) (interfaces : List Interface),
    smallDocument.Returns d
      ∧ List.Forall₂ (fun s (i : Interface) => i.Describes s) d.surfaces interfaces
      ∧ interfaces.Nodup ∧ ∀ i, i ∈ interfaces ↔ @Belongs asciiWords smallTree i := by
  obtain ⟨d, hd⟩ := small_returns
  obtain ⟨interfaces, hdescribes, hnodup, hmem, -⟩ :=
    @generate_exact asciiWords smallTexts smallTree _ d hd
  exact ⟨d, interfaces, hd, hdescribes, hnodup, hmem⟩

/-- **The command line is consistent**, as far as the tables are read. An active command has one
manual; a deprecated name stands for one active command, and the document says so; and the
registered global options are the documented ones, apart from options of a command that is called
`global`. -/
theorem generate_commands [WordDatabase] {texts : Texts} {repo : Manual.Repository}
    {reference : Except PyException Reference} {d : Document}
    (h : (generate texts repo reference).Returns d) :
    (∀ name, IsActive repo name → ∃! document, IsManual repo name document)
      ∧ (∀ other handler, IsCommand repo other ⟨handler, true⟩ → ∃ canonical,
        (∀ name, IsAlias repo other name ↔ name = canonical)
          ∧ aliasReason other canonical ∈ d.limitations)
      ∧ ∀ name, RegistersGlobal repo name ↔
        Defines repo globalManual name ∧ ¬ IsOption repo "global" name := by
  obtain ⟨publicTypes, headers, sources, g, g', hd⟩ := generated_of_generate h
  refine ⟨hd.commandLine.manuals, fun other handler hother => ?_, hd.commandLine.registered⟩
  obtain ⟨canonical, honly, hreason⟩ := hd.commandLine.aliases other handler hother
  exact ⟨canonical, honly, hd.mem_limitations (hd.appends.exclusions _ hreason)⟩

theorem generate_commands_small : ∃ d, smallDocument.Returns d
    ∧ (∀ name, @IsActive asciiWords.toUnicodeDatabase smallTree name →
      ∃! document, @IsManual asciiWords.toUnicodeDatabase smallTree name document)
    ∧ ∀ name, @RegistersGlobal asciiWords.toUnicodeDatabase smallTree name ↔
      @Defines asciiWords.toUnicodeDatabase smallTree globalManual name
        ∧ ¬ @IsOption asciiWords.toUnicodeDatabase smallTree "global" name := by
  obtain ⟨d, hd⟩ := small_returns
  obtain ⟨hmanuals, -, hregistered⟩ := @generate_commands asciiWords smallTexts smallTree _ d hd
  exact ⟨d, hd, hmanuals, hregistered⟩

/-- **Every export marker is accounted for.** Each one in a public header begins a declaration, each
macro that declares a type is one of these, and what else looks like the declaration of a function
is the first function of one of them. The functions of the document are these first ones, none of
them twice; of every declaration of a type, and of every enumeration, the document says why it is
left out. A second function in a declaration is not looked for. -/
theorem generate_headers [WordDatabase] {texts : Texts} {repo : Manual.Repository}
    {reference : Except PyException Reference} {d : Document}
    (h : (generate texts repo reference).Returns d) :
    ∃ files headers, mesonFiles repo = .ok files
      ∧ List.Forall₂ (ReadsHeader repo) files.1 headers
      ∧ (d.surfaces.filter fun s => s.kind = Kind.libraryFunction.text).Perm
        (headers.flatMap HeaderRead.surfaces)
      ∧ ((headers.flatMap HeaderRead.surfaces).map fun s => s.name).Nodup
      ∧ ∀ y ∈ headers,
        (∀ e ∈ y.exports, ∀ reason, e.reason? y.path = some reason → reason ∈ d.limitations)
          ∧ ∀ enum ∈ groupsIn enumPattern (headerText y.source),
            enumReason texts (enum, y.path) ∈ d.limitations := by
  obtain ⟨publicTypes, headers, sources, g, g', hd⟩ := generated_of_generate h
  obtain ⟨files, hfiles, hheaders, -⟩ := hd.library.files
  refine ⟨files, headers, hfiles, hheaders, hd.filter_functions, ?_, fun y hy => ⟨?_, ?_⟩⟩
  · have hids := (List.nodup_append.mp (List.map_append ▸ hd.nodup_library)).1
    refine List.Nodup.of_map (fun name => s!"library.function.{name}") ?_
    rw [List.map_map]
    refine (List.map_congr_left fun s hs => ?_) ▸ hids
    obtain ⟨path, source, -, m, -, hexport⟩ := hd.library.mem_functions.mp hs
    exact (describes_of_exportOf hexport).id_eq
  · exact fun e he reason hreason =>
      hd.mem_limitations (hd.library.declared y hy e he reason hreason)
  · exact fun enum henum => hd.mem_limitations (hd.library.enumerations y hy enum henum)

theorem generate_headers_small : ∃ (d : Document) (headers : List HeaderRead),
    smallDocument.Returns d
    ∧ (∀ y ∈ headers, @HeaderRead.Complete asciiWords.toUnicodeDatabase y)
    ∧ (d.surfaces.filter fun s => s.kind = Kind.libraryFunction.text).Perm
      (headers.flatMap HeaderRead.surfaces) := by
  obtain ⟨d, hd⟩ := small_returns
  obtain ⟨files, headers, -, hheaders, hperm, -⟩ :=
    @generate_headers asciiWords smallTexts smallTree _ d hd
  refine ⟨d, headers, hd, fun y hy => ?_, hperm⟩
  obtain ⟨_, -, hreads⟩ := exists_of_forall₂ hheaders.flip hy
  exact @ReadsHeader.complete asciiWords.toUnicodeDatabase _ _ _ hreads

/-- **Signals are documented and registered.** In every source the registrations for public types
are the documented signals of public types, with multiplicity; a registration is for the class whose
`class_init` comes last before it. The signals of the document are these; of every other
registration the document says that its class is private. -/
theorem generate_signals [WordDatabase] {texts : Texts} {repo : Manual.Repository}
    {reference : Except PyException Reference} {d : Document}
    (h : (generate texts repo reference).Returns d) :
    ∃ publicTypes files sources, (∀ type, type ∈ publicTypes ↔ IsPublic repo type)
      ∧ mesonFiles repo = .ok files ∧ List.Forall₂ (ReadsSource repo publicTypes) files.2 sources
      ∧ (d.surfaces.filter fun s => s.kind = Kind.librarySignal.text).Perm
        (sources.flatMap fun y => y.surfaces publicTypes)
      ∧ (sources.flatMap fun y => y.documented publicTypes).Nodup
      ∧ ∀ y ∈ sources, ∀ found ∈ y.registrations, found.owner ∉ publicTypes →
        privateReason y.path found ∈ d.limitations := by
  obtain ⟨publicTypes, headers, sources, g, g', hd⟩ := generated_of_generate h
  obtain ⟨files, hfiles, -, hsources⟩ := hd.library.files
  refine ⟨publicTypes, files, sources, hd.library.types, hfiles, hsources, hd.filter_signals, ?_,
    fun y hy found hfound hprivate => ?_⟩
  · have hsame : (sources.flatMap fun y => y.documented publicTypes).Perm
        (sources.flatMap fun y => (y.signals publicTypes).map Registration.pair) := by
      refine List.Perm.flatMap_left _ fun y hy => ?_
      obtain ⟨name, -, hreads⟩ := exists_of_forall₂ hsources.flip hy
      exact hreads.complete.documented.symm
    have hids := (List.nodup_append.mp (List.map_append ▸ hd.nodup_library)).2.1
    refine hsame.nodup_iff.mpr (List.Nodup.of_map
      (fun signal => s!"library.signal.{signal.1}.{signal.2}") ?_)
    rw [List.map_flatMap] at hids ⊢
    simp only [SourceRead.surfaces, List.map_map] at hids ⊢
    exact hids
  · exact hd.mem_limitations (hd.library.registered y hy found hfound hprivate)

theorem generate_signals_small : ∃ (d : Document) (publicTypes : List String)
    (sources : List SourceRead), smallDocument.Returns d
    ∧ (∀ type, type ∈ publicTypes ↔ @IsPublic asciiWords smallTree type)
    ∧ (d.surfaces.filter fun s => s.kind = Kind.librarySignal.text).Perm
      (sources.flatMap fun y => SourceRead.surfaces y publicTypes) := by
  obtain ⟨d, hd⟩ := small_returns
  obtain ⟨publicTypes, _, sources, htypes, -, -, hperm, -⟩ :=
    @generate_signals asciiWords smallTexts smallTree _ d hd
  exact ⟨d, publicTypes, sources, hd, htypes, hperm⟩

end Catalogue

end FlatpakBlackbox
