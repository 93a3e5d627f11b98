import FlatpakBlackbox.Catalogue.Target

set_option autoImplicit false

/-! # The command line is listed

What `cli` returns lists the active commands with the long options of their manuals and the global
options, and nothing else (`cli_lists`). The table of commands is read first: each row is read by
itself, and the rows agree with the dictionary of commands. A step of the loops adds the interfaces
that are new; those that are not are there already.
-/

namespace FlatpakBlackbox

namespace Catalogue

open PyLib PyException

/-! ## Literals -/

theorem stringLiteral_spec {value name : String} (h : stringLiteral value = .ok name) :
    name.toList ≠ [] ∧ ∀ c ∈ name.toList, isInterfaceChar c = true := by
  unfold stringLiteral at h
  split at h
  · cases h
  · next m hm =>
      obtain ⟨opening, rest, hvalue, hopening, hrest⟩ :=
        Pattern.accepts_seq.mp (Pattern.isMatch_of_fullmatch? hm).2
      obtain ⟨word, closing, rfl, hword, hclosing⟩ := Pattern.accepts_seq.mp hrest
      obtain ⟨last, empty, rfl, hlast, hempty⟩ := Pattern.accepts_seq.mp hclosing
      obtain rfl := Pattern.accepts_eps.mp hempty
      -- The pattern has a quote at both ends, which the slice drops.
      have hname : value.toList.tail.dropLast = word := by
        rw [hvalue, Pattern.accepts_lit hopening, Pattern.accepts_lit hlast]
        simp
      rw [← Except.ok.inj h, String.toList_ofList, hname]
      exact Pattern.accepts_plus_cls hword

theorem dotless_of_stringLiteral {value name : String} (h : stringLiteral value = .ok name) :
    '.' ∉ name.toList :=
  fun hdot => absurd ((stringLiteral_spec h).2 _ hdot) (by decide)

/-! ## The options of a manual -/

section

variable {texts : Texts} {g g' : Manual.Generator} {command path : String}

theorem keys_ofManual (g : Manual.Generator) :
    (Generator.ofManual g).surfaces.keys = g.surfaces.keys := by
  show (g.surfaces.mapValues Surface.ofManual).keys = _
  unfold Dict.keys Dict.mapValues
  rw [List.map_map]
  rfl

theorem ofManual_add {item : Manual.Surface} (h : g.add item = .ok g') :
    (Generator.ofManual g).add (Surface.ofManual item) = .ok (Generator.ofManual g') := by
  obtain ⟨_, hnew, hset⟩ := bind_eq_ok.mp h
  have hfresh : (Surface.ofManual item).id ∉ (g.surfaces.mapValues Surface.ofManual).keys := by
    rw [show (g.surfaces.mapValues Surface.ofManual).keys = g.surfaces.keys from keys_ofManual g]
    exact raiseIf_eq_ok.mp hnew
  rw [← Except.ok.inj hset]
  unfold Generator.add
  rw [show (Generator.ofManual g).surfaces = g.surfaces.mapValues Surface.ofManual from rfl,
    raiseIf_of_not hfresh, Dict.mapValues_set]
  rfl

/-- A surface of the command line that still describes its interface. -/
theorem extends_replace {id : String} {old new : Manual.Surface}
    (hold : g.surfaces.get? id = some old) (hid : new.id = old.id) (hkind : new.kind = old.kind)
    (hname : new.name = old.name) (hcommand : new.command = old.command) :
    Extends (.ofManual g) (.ofManual { g with surfaces := g.surfaces.set id new }) [] where
  lists interfaces h := by
    have hget : (Generator.ofManual g).surfaces.get? id = some (Surface.ofManual old) := by
      show (g.surfaces.mapValues Surface.ofManual).get? id = _
      rw [Dict.get?_mapValues, hold]
      rfl
    have hdescribes : ∀ i : Interface, i.Describes (Surface.ofManual old) →
        i.Describes (Surface.ofManual new) := fun i hi =>
      ⟨hid.trans hi.id_eq, hkind.trans hi.kind_eq, hname.trans hi.name_eq,
        hcommand.trans hi.command_eq, hi.owner_eq⟩
    rw [List.append_nil]
    show Generator.Lists ⟨(g.surfaces.set id new).mapValues Surface.ofManual, g.exclusions⟩
      interfaces
    rw [← Dict.mapValues_set]
    exact h.replace hget hdescribes
  keys other hother := by
    rw [keys_ofManual] at hother ⊢
    exact (Dict.mem_keys_set _ _ _ _).mpr (.inl hother)
  exclusions _ h := h

/-- One long name: it is an option of the command that is new, or one that was there. -/
theorem extends_addOption {origin name : String} {names longs : List String}
    {s s' : Manual.Progress} (h : Manual.addOption command path origin names longs s
    name = .ok s') :
    ∃ added, s'.spellings = s.spellings ++ added ∧ Extends (.ofManual s.generator)
      (.ofManual s'.generator) (added.map (Interface.option command)) := by
  unfold Manual.addOption at h
  dsimp only at h
  split at h
  -- The name is there already: its surface grows, but no interface is added.
  · next previous hprevious =>
      obtain rfl := Except.ok.inj h
      refine ⟨[], (List.append_nil _).symm, ?_⟩
      refine (extends_replace hprevious ?_ ?_ ?_ ?_).trans (extends_exclude _ _)
      all_goals rfl
  · obtain ⟨generator, hadd, hstate⟩ := bind_eq_ok.mp h
    obtain rfl := Except.ok.inj hstate
    exact ⟨[name], rfl, extends_add (ofManual_add hadd) ⟨rfl, rfl, rfl, rfl, rfl⟩⟩

/-- The spellings of the loop are the options that are new. -/
def Spelled (command : String) (g : Manual.Generator) (s : Manual.Progress) : Prop :=
  Extends (.ofManual g) (.ofManual s.generator) (s.spellings.map (Interface.option command))

theorem Spelled.addEntry {s s' : Manual.Progress} (h : Spelled command g s) {entry : Manual.Element}
    (hstep : Manual.addEntry command path s entry = .ok s') : Spelled command g s' := by
  obtain ⟨names, hnames, hstep⟩ := bind_eq_ok.mp hstep
  dsimp only at hstep
  split at hstep
  · obtain rfl := Except.ok.inj hstep
    split
    · exact h
    · unfold Spelled
      rw [← List.append_nil (List.map _ _)]
      exact h.trans (extends_exclude _ _)
  · refine foldlM_invariant h (fun t name t' _ ht ht' => ?_) hstep
    obtain ⟨added, hspellings, hextends⟩ := extends_addOption ht'
    unfold Spelled
    rw [hspellings, List.map_append]
    exact ht.trans hextends

/-- **The options of a manual.** The long names that are new are added, and no others. -/
theorem extends_options {tree : Manual.Element} {names : List String}
    (h : Manual.options command path tree g = .ok (g', names)) :
    Extends (.ofManual g) (.ofManual g') (names.map (Interface.option command))
      ∧ ∃ entries, List.Forall₂ (fun element entry => Manual.Entry.Reads path element entry)
          (Manual.entriesOf tree) entries
        ∧ Manual.Collected command path entries g g' ∧ Manual.NewNames command g entries names := by
  obtain ⟨s, hs, hrest⟩ := bind_eq_ok.mp h
  obtain ⟨_, -, hresult⟩ := bind_eq_ok.mp hrest
  obtain ⟨rfl, rfl⟩ := Prod.mk.inj (Except.ok.inj hresult)
  have hstart : Spelled command g ⟨g, [], []⟩ := Extends.refl _
  have hend := foldlM_invariant hstart (fun t entry t' _ ht ht' => ht.addEntry ht') hs
  obtain ⟨entries, hentries⟩ := Manual.exists_entries hs
  refine ⟨hend, entries, hentries, ?_⟩
  obtain ⟨g'', names, hcollected, hnames, hoptions⟩ := Manual.options_entries command g hentries
  obtain ⟨_, -, hsame⟩ := bind_eq_ok.mp (hoptions.symm.trans h)
  obtain ⟨rfl, rfl⟩ := Prod.mk.inj (Except.ok.inj hsame)
  exact ⟨hcollected, hnames⟩

/-! ## The rows of the global options -/

theorem register_eq_ok {table name short : String} {item item' : Manual.Surface}
    (h : register table name short item = .ok item') : item'.id = item.id ∧ item'.kind = item.kind
      ∧ item'.name = item.name ∧ item'.command = item.command := by
  unfold register at h
  dsimp only at h
  split at h
  · obtain rfl := Except.ok.inj h
    exact ⟨rfl, rfl, rfl, rfl⟩
  · split at h
    · cases h
    · obtain rfl := Except.ok.inj h
      exact ⟨rfl, rfl, rfl, rfl⟩

/-- One row: it ends the table, or registers an option. -/
theorem addRegistration_eq_ok {table : String} {s s' : Registered} {fields : List String}
    (h : addRegistration texts table s fields = .ok s') :
    Extends (.ofManual s.generator) (.ofManual s'.generator) []
      ∧ ∀ name, name ∈ s'.names ↔ name ∈ s.names ∨ NamesOption fields name := by
  unfold addRegistration at h
  split at h
  · obtain rfl := Except.ok.inj h
    refine ⟨Extends.refl _, fun name => (or_iff_left ?_).symm⟩
    -- `NULL` ends the table; a registration has six more fields.
    rintro ⟨literal, rest, suffix, hfields, hlength, -⟩
    obtain ⟨-, rfl⟩ := List.cons.inj hfields
    cases hlength
  · next literal short c d e f k =>
      obtain ⟨suffix, hsuffix, h⟩ := bind_eq_ok.mp h
      have hnames : ∀ name, name ∈ ("--" ++ suffix) :: s.names ↔
          name ∈ s.names ∨ NamesOption [literal, short, c, d, e, f, k] name := by
        intro name
        rw [List.mem_cons, or_comm]
        refine or_congr_right ⟨fun hname => ⟨literal, _, suffix, rfl, rfl, hsuffix, hname⟩, ?_⟩
        rintro ⟨literal', rest, suffix', hfields, -, hsuffix', rfl⟩
        obtain ⟨rfl, -⟩ := List.cons.inj hfields
        rw [Except.ok.inj (hsuffix.symm.trans hsuffix')]
      dsimp only at h
      split at h
      · obtain rfl := Except.ok.inj h
        exact ⟨Extends.refl _, hnames⟩
      · next item hitem =>
          obtain ⟨item', hitem', h⟩ := bind_eq_ok.mp h
          obtain rfl := Except.ok.inj h
          obtain ⟨hid, hkind, hname, hcommand⟩ := register_eq_ok hitem'
          exact ⟨extends_replace hitem hid hkind hname hcommand, hnames⟩
  · cases h

theorem checkGlobal_eq_ok {documented registered : List String}
    (h : checkGlobal texts documented registered = .ok ()) (name : String) :
    name ∈ registered ↔ name ∈ documented := by
  have hnone := raiseIf_eq_ok.mp h
  rw [not_or, not_not, not_not, missingFrom_eq_nil, missingFrom_eq_nil] at hnone
  exact ⟨hnone.1 name, hnone.2 name⟩

end

section

variable [UnicodeDatabase] {texts : Texts} {repo : Manual.Repository}

/-! ## The table of commands -/

theorem Names.unique {fields : List String} {name name' : String} {command command' : Command}
    (h : Names fields name command) (h' : Names fields name' command') :
    name = name' ∧ command = command' := by
  obtain ⟨literal, flag, hrow, hname, hdeprecated⟩ := h.row
  obtain ⟨literal', flag', hrow', hname', hdeprecated'⟩ := h'.row
  obtain ⟨rfl, hrest⟩ := Prod.mk.inj (Option.some.inj (hrow.symm.trans hrow'))
  obtain ⟨hhandler, rfl⟩ := Prod.mk.inj hrest
  obtain rfl := Except.ok.inj (hname.symm.trans hname')
  refine ⟨rfl, ?_⟩
  cases command
  cases command'
  simp_all

/-- One row: it is no command, or it adds a new one. -/
theorem addCommand_eq_ok {commands commands' : Dict String Command} {fields : List String}
    (h : addCommand texts commands fields = .ok commands') :
    (∀ name command, ¬ Names fields name command) ∧ commands' = commands
      ∨ ∃ name command, Names fields name command ∧ name ∉ commands.keys
        ∧ commands' = commands.set name command := by
  unfold addCommand at h
  split at h
  · next hheading =>
      refine Or.inl ⟨fun name command hnames => ?_, (Except.ok.inj h).symm⟩
      rw [hnames.not_heading] at hheading
      cases hheading
  · next hheading =>
      split at h
      · cases h
      · next row hrow =>
          obtain ⟨name, hname, h⟩ := bind_eq_ok.mp h
          obtain ⟨_, hnew, h⟩ := bind_eq_ok.mp h
          have hfresh := raiseIf_eq_ok.mp hnew
          refine Or.inr ⟨name, _, ⟨?_, row.1, row.2.2, hrow, hname, rfl⟩, fun hmem => ?_,
            (Except.ok.inj h).symm⟩
          · exact Bool.not_eq_true _ ▸ hheading
          · exact hfresh (Or.inl hmem)

/-- The dictionary of commands holds what the rows register. -/
theorem get?_commands {rows : List (List String)} {commands : Dict String Command}
    (h : rows.foldlM (addCommand texts) Dict.empty = .ok commands) (name : String)
    (command : Command) :
    commands.get? name = some command ↔ ∃ fields ∈ rows, Names fields name command := by
  have hrows := (runs_of_foldlM h).iff_exists (p := fun d => d.get? name = some command)
    (q := fun fields => Names fields name command) ?_
  · rw [hrows, Dict.get?_empty]
    exact ⟨fun h => h.resolve_left (by simp), Or.inr⟩
  · intro d fields d' hstep
    rcases addCommand_eq_ok hstep with ⟨hnone, rfl⟩ | ⟨other, found, hnames, hnew, rfl⟩
    · exact (or_iff_left (hnone name command)).symm
    · rw [Dict.get?_set]
      -- The row registers `other`, which no row before it did, so nothing is overwritten.
      by_cases hother : other = name
      · obtain rfl := hother
        rw [if_pos rfl, (Dict.get?_eq_none_iff _ _).mpr hnew]
        constructor
        · intro heq
          rw [← Option.some.inj heq]
          exact Or.inr hnames
        · rintro (hnone | hnames')
          · cases hnone
          · rw [(hnames.unique hnames').2]
      · rw [if_neg hother, iff_self_or]
        intro hnames'
        exact absurd (hnames.unique hnames').1 hother

/-- The dictionary holds the commands of the source tree. -/
def Tabulates (repo : Manual.Repository) (commands : Dict String Command) : Prop :=
  ∀ name command, commands.get? name = some command ↔ IsCommand repo name command

theorem tabulates {rows : List (List String)} {commands : Dict String Command}
    (hrows : mainTable repo "commands" = .ok rows)
    (h : rows.foldlM (addCommand texts) Dict.empty = .ok commands) : Tabulates repo commands := by
  intro name command
  rw [get?_commands h]
  constructor
  · exact fun hfields => ⟨rows, hrows, hfields⟩
  · rintro ⟨rows', hrows', hfields⟩
    obtain rfl := Except.ok.inj (hrows.symm.trans hrows')
    exact hfields

theorem dotless_of_isActive {name : String} (h : IsActive repo name) : '.' ∉ name.toList := by
  obtain ⟨handler, rows, -, fields, -, hnames⟩ := h
  obtain ⟨literal, flag, -, hname, -⟩ := hnames.row
  exact dotless_of_stringLiteral hname

section

variable {commands : Dict String Command} {item : String × Command} (h : Tabulates repo commands)

include h

/-- The loop over the manuals visits the active commands. -/
theorem mem_byName : item ∈ byName (activeCommands commands) ↔
    IsCommand repo item.1 item.2 ∧ item.2.deprecated = false := by
  unfold byName activeCommands
  rw [(List.perm_insertionSort _ _).mem_iff, List.mem_filter, Bool.not_eq_true', ← h item.1 item.2,
    Dict.get?_eq_some_iff]

theorem exists_mem_byName {name : String} :
    (∃ item ∈ byName (activeCommands commands), item.1 = name) ↔ IsActive repo name := by
  constructor
  · rintro ⟨item, hitem, rfl⟩
    obtain ⟨hcommand, hdeprecated⟩ := (mem_byName h).mp hitem
    refine ⟨item.2.handler, ?_⟩
    rw [← hdeprecated]
    exact hcommand
  · rintro ⟨handler, hcommand⟩
    exact ⟨(name, ⟨handler, false⟩), (mem_byName h).mpr ⟨hcommand, rfl⟩, rfl⟩

/-- A command is registered once. -/
theorem IsCommand.unique {name : String} {command command' : Command}
    (hcommand : IsCommand repo name command) (hcommand' : IsCommand repo name command') :
    command = command' :=
  Option.some.inj (((h name command).mpr hcommand).symm.trans ((h name command').mpr hcommand'))

/-- The names under which the manual of an active command is looked for. -/
theorem mem_candidatesOf (hitem : item ∈ byName (activeCommands commands)) {candidate : String} :
    candidate ∈ candidatesOf commands item ↔ candidate = item.1 ∨
    IsAlias repo candidate item.1 := by
  obtain ⟨hcommand, hdeprecated⟩ := (mem_byName h).mp hitem
  have halias : IsAlias repo candidate item.1 ↔ ∃ entry ∈ commands.entries,
      (entry.2.deprecated && entry.2.handler = item.2.handler) = true ∧ entry.1 = candidate := by
    constructor
    · rintro ⟨handler, hname, hother⟩
      have hsame := hcommand.unique h hname
      refine ⟨(candidate, ⟨handler, true⟩), Dict.get?_eq_some_iff.mp ((h _ _).mpr hother), ?_, rfl⟩
      simp [hsame]
    · rintro ⟨⟨other, command⟩, hentry, hflags, rfl⟩
      obtain ⟨hdeprecated', hhandler⟩ := Bool.and_eq_true_iff.mp hflags
      have hother := (h _ _).mp (Dict.get?_eq_some_iff.mpr hentry)
      refine ⟨item.2.handler, ?_, ?_⟩
      · rw [← hdeprecated]
        exact hcommand
      · rw [← of_decide_eq_true hhandler, ← hdeprecated']
        exact hother
  unfold candidatesOf
  rw [List.mem_cons, mem_sorted, List.mem_map, halias]
  simp only [List.mem_filter, and_assoc]

/-- **A command has one manual.** -/
theorem manualOf_eq_ok (hitem : item ∈ byName (activeCommands commands)) {document : String}
    (hmanual : manualOf texts repo commands item = .ok document) :
    IsManual repo item.1 document ∧ ∀ other, IsManual repo item.1 other → other = document := by
  have hmem : ∀ other, IsManual repo item.1 other ↔
      other ∈ ((candidatesOf commands item).filter (hasManual repo)).map manualPath := by
    intro other
    simp only [List.mem_map, List.mem_filter, mem_candidatesOf h hitem]
    constructor
    · rintro ⟨candidate, rfl, hfile, hcandidate⟩
      exact ⟨candidate, ⟨hcandidate, hfile⟩, rfl⟩
    · rintro ⟨candidate, ⟨hcandidate, hfile⟩, rfl⟩
      exact ⟨candidate, rfl, hfile, hcandidate⟩
  unfold manualOf at hmanual
  dsimp only at hmanual
  split at hmanual
  · cases hmanual
  · next found hdocuments =>
      obtain rfl := Except.ok.inj hmanual
      rw [hdocuments] at hmem
      exact ⟨(hmem _).mpr (List.mem_singleton_self _), fun other hother =>
        List.mem_singleton.mp ((hmem other).mp hother)⟩
  · cases hmanual

end

/-! ## The manuals -/

variable {g g' : Manual.Generator} {command path : String}

/-- The options of a document: what is defined there is there afterwards, and what is new is
defined there. -/
theorem extends_optionsOf {names : List String}
    (h : (optionsOf repo command path g).Returns (g', names)) :
    Extends (.ofManual g) (.ofManual g') (names.map (Interface.option command))
      ∧ (∀ name, name ∈ names ↔
        Defines repo path name ∧ Manual.identifier command name ∉ g.surfaces.keys)
      ∧ ∀ name, Defines repo path name → Manual.identifier command name ∈ g'.surfaces.keys := by
  obtain ⟨tree, htree, h⟩ := Fueled.returns_bind.mp h
  obtain ⟨hextends, entries, hentries, hcollected, hnames⟩ :=
    extends_options (Fueled.returns_ofExcept.mp h)
  -- The entries say what the document defines.
  have hdefines : ∀ name, Defines repo path name ↔ ∃ entry ∈ entries, name ∈ entry.longs := by
    intro name
    constructor
    · rintro ⟨tree', element, found, htree', helement, hfound, hname, hlong⟩
      obtain rfl := htree.unique htree'
      obtain ⟨entry, hentry, hreads⟩ := exists_of_forall₂ hentries helement
      refine ⟨entry, hentry, List.mem_filter.mpr ⟨?_, hlong⟩⟩
      rwa [Except.ok.inj (hreads.1.symm.trans hfound)]
    · rintro ⟨entry, hentry, hname⟩
      obtain ⟨element, helement, hreads⟩ := exists_of_forall₂ hentries.flip hentry
      obtain ⟨hname, hlong⟩ := List.mem_filter.mp hname
      exact ⟨tree, element, entry.names, htree, helement, hreads.1, hname, hlong⟩
  refine ⟨hextends, fun name => ?_, fun name hname => ?_⟩
  · rw [hnames, hdefines, and_comm, Manual.Fresh, Dict.get?_eq_none_iff]
  · by_contra hmissing
    -- A name that is new afterwards was new before, and no entry defines it.
    have hfresh := (hcollected.fresh name).mp ((Dict.get?_eq_none_iff _ _).mpr hmissing)
    exact hfresh.2 ((hdefines name).mp hname)

/-- The interfaces of the commands. -/
def OfCommands (repo : Manual.Repository) : Interface → Prop
  | .command name => IsActive repo name
  | .option command name => IsOption repo command name
  | _ => False

theorem OfCommands.dotless {i : Interface} (h : OfCommands repo i) : i.Dotless := by
  cases i with
  | option owner name => exact dotless_of_isActive h.1
  | signal owner name => exact h.elim
  | _ => trivial

/-- What the loop adds for a command: the command, and options of it. -/
structure IsPart (repo : Manual.Repository) (name : String) (part : List Interface) : Prop where
  command : .command name ∈ part
  sound : ∀ i ∈ part, OfCommands repo i

/-- An active command: it is added, with the options of its manual that are new. -/
theorem extends_addManual {commands : Dict String Command} (h : Tabulates repo commands)
    {item : String × Command} (hitem : item ∈ byName (activeCommands commands))
    (hstep : (addManual texts repo commands g item).Returns g') :
    (∃! document, IsManual repo item.1 document)
      ∧ (∃ part, IsPart repo item.1 part ∧ Extends (.ofManual g) (.ofManual g') part)
      ∧ ∀ name, IsOption repo item.1 name → Manual.identifier item.1 name ∈ g'.surfaces.keys := by
  obtain ⟨document, hdocument, hstep⟩ := Fueled.returns_bind.mp hstep
  obtain ⟨middle, hmiddle, hstep⟩ := Fueled.returns_bind.mp hstep
  obtain ⟨added, hadded, hresult⟩ := Fueled.returns_bind.mp hstep
  obtain rfl := Fueled.returns_pure.mp hresult
  obtain ⟨hmanual, honly⟩ := manualOf_eq_ok h hitem (Fueled.returns_ofExcept.mp hdocument)
  have hactive : IsActive repo item.1 := (exists_mem_byName h).mp ⟨item, hitem, rfl⟩
  have hcommand := extends_add (i := .command item.1)
    (ofManual_add (Fueled.returns_ofExcept.mp hmiddle)) ⟨rfl, rfl, rfl, rfl, rfl⟩
  obtain ⟨hextends, hnames, hkeys⟩ := extends_optionsOf hadded
  -- There is one manual, so the options of the command are what it defines.
  have hoption : ∀ name, IsOption repo item.1 name ↔ Defines repo document name := by
    intro name
    constructor
    · rintro ⟨-, other, hother, hdefines⟩
      exact honly other hother ▸ hdefines
    · exact fun hdefines => ⟨hactive, document, hmanual, hdefines⟩
  refine ⟨⟨document, hmanual, honly⟩, ⟨_, ⟨List.mem_cons_self, fun i hi => ?_⟩,
    hcommand.trans hextends⟩, fun name hname => hkeys name ((hoption name).mp hname)⟩
  rcases List.mem_cons.mp hi with rfl | hi
  · exact hactive
  · obtain ⟨name, hname, rfl⟩ := List.mem_map.mp hi
    exact (hoption name).mpr ((hnames name).mp hname).1

/-- **The loop over the manuals.** -/
theorem lists_manuals {commands : Dict String Command} (h : Tabulates repo commands)
    (hempty : (Generator.ofManual g).Lists [])
    (hloop : ((byName (activeCommands commands)).foldlM (addManual texts repo commands) g).Returns
      g') :
    (∀ name, IsActive repo name → ∃! document, IsManual repo name document)
      ∧ ∃ interfaces, Extends (.ofManual g) (.ofManual g') interfaces
        ∧ ListsExactly (.ofManual g') (OfCommands repo) interfaces := by
  have hruns := (Fueled.runs_of_returns hloop).attach
  have hstep := fun s item s' (hs : item ∈ byName (activeCommands commands) ∧
    (addManual texts repo commands s item).Returns s') => extends_addManual h hs.1 hs.2
  have hactive : ∀ name, (∃ item ∈ byName (activeCommands commands), item.1 = name) ↔
      IsActive repo name := fun _ => exists_mem_byName h
  -- The interfaces are the parts of the commands, in the order of the loop.
  obtain ⟨parts, hparts, hrun⟩ := hruns.simulate
    (R := fun item part => (∃! document, IsManual repo item.1 document) ∧ IsPart repo item.1 part)
    (T := fun g part g' => Extends (.ofManual g) (.ofManual g') part) fun s item s' hs => by
      obtain ⟨hmanual, ⟨part, hpart, hextends⟩, -⟩ := hstep s item s' hs
      exact ⟨part, ⟨hmanual, hpart⟩, hextends⟩
  have hextends : Extends (.ofManual g) (.ofManual g') (parts.flatMap id) :=
    hrun.compose (T := fun g added g' => Extends (.ofManual g) (.ofManual g') added)
      (fun g => Extends.refl _) (fun _ _ _ _ _ => Extends.trans) fun _ _ _ hpart => hpart
  have hlists := hextends.lists [] hempty
  rw [List.nil_append] at hlists
  -- Every option of a command is there when the loop has visited the command.
  have hkeys := hruns.established
    (c := fun item g => ∀ name, IsOption repo item.1 name →
      Manual.identifier item.1 name ∈ (Generator.ofManual g).surfaces.keys)
    (fun s item s' hs other hother name hname => by
      obtain ⟨-, ⟨part, -, hextends⟩, -⟩ := hstep s item s' hs
      exact hextends.keys _ (hother name hname))
    fun s item s' hs name hname => by
      rw [keys_ofManual]
      exact (hstep s item s' hs).2.2 name hname
  have hsound : ∀ i ∈ parts.flatMap id, OfCommands repo i := by
    intro i hi
    obtain ⟨part, hpart, hi⟩ := List.mem_flatMap.mp hi
    obtain ⟨item, -, -, hitem⟩ := exists_of_forall₂ hparts.flip hpart
    exact hitem.sound i hi
  refine ⟨fun name hname => ?_, parts.flatMap id, hextends, hlists,
    fun i hi => (hsound i hi).dotless, fun i => ⟨hsound i, fun hi => ?_⟩⟩
  · obtain ⟨item, hitem, rfl⟩ := (hactive name).mpr hname
    obtain ⟨-, -, hmanual, -⟩ := exists_of_forall₂ hparts hitem
    exact hmanual
  · cases i with
    | command name =>
        obtain ⟨item, hitem, rfl⟩ := (hactive name).mpr hi
        obtain ⟨part, hpart, -, hpartOf⟩ := exists_of_forall₂ hparts hitem
        exact List.mem_flatMap.mpr ⟨part, hpart, hpartOf.command⟩
    | option owner name =>
        obtain ⟨item, hitem, rfl⟩ := (hactive owner).mpr hi.1
        -- Its identifier is there, and a listed interface with that identifier is this one.
        have hkey := hkeys item hitem name hi
        rw [hlists.keys] at hkey
        obtain ⟨j, hj, hid⟩ := List.mem_map.mp hkey
        exact Interface.eq_of_id (hsound j hj).dotless hi.dotless hid ▸ hj
    | function name => exact hi.elim
    | signal owner name => exact hi.elim

/-! ## Deprecated names -/

/-- The name stands for one command, and the generator has excluded it. -/
def IsExcluded (repo : Manual.Repository) (g : Generator) (other : String) : Prop :=
  ∃ canonical, (∀ name, IsAlias repo other name ↔ name = canonical)
    ∧ aliasReason other canonical ∈ g.exclusions

/-- A deprecated name: it stands for one active command. -/
theorem excludeAlias_eq_ok {commands : Dict String Command} (h : Tabulates repo commands)
    {item : String × Command} (hitem : IsCommand repo item.1 item.2)
    (hstep : excludeAlias (activeCommands commands) g item = .ok g') :
    Extends (.ofManual g) (.ofManual g') []
      ∧ (item.2.deprecated = true → IsExcluded repo (.ofManual g') item.1) := by
  unfold excludeAlias at hstep
  split at hstep
  · next hactive =>
      obtain rfl := Except.ok.inj hstep
      exact ⟨Extends.refl _, fun hdeprecated => absurd (hactive.symm.trans hdeprecated) (by decide)⟩
  · next hdeprecated =>
      split at hstep
      -- One name of the handler is not deprecated: the name stands for that one.
      · next canonical hcanonical =>
          obtain rfl := Except.ok.inj hstep
          refine ⟨extends_exclude _ _, fun _ => ⟨canonical, fun name => ?_,
            mem_exclude (.ofManual g) _⟩⟩
          rw [← List.mem_singleton, ← hcanonical, List.mem_map]
          have hother : IsCommand repo item.1 ⟨item.2.handler, true⟩ := by
            rw [← Bool.eq_true_of_not_eq_false hdeprecated]
            exact hitem
          constructor
          · rintro ⟨handler, hname, hother'⟩
            have hhandler := congrArg Command.handler (hother.unique h hother')
            refine ⟨(name, ⟨handler, false⟩), List.mem_filter.mpr ⟨?_, ?_⟩, rfl⟩
            · exact List.mem_filter.mpr ⟨Dict.get?_eq_some_iff.mp ((h _ _).mpr hname), rfl⟩
            · exact decide_eq_true hhandler.symm
          · rintro ⟨⟨name, command⟩, hentry, rfl⟩
            obtain ⟨hactive, hhandler⟩ := List.mem_filter.mp hentry
            obtain ⟨hentry, hfresh⟩ := List.mem_filter.mp hactive
            have hname := (h _ _).mp (Dict.get?_eq_some_iff.mpr hentry)
            refine ⟨item.2.handler, ?_, hother⟩
            rw [← of_decide_eq_true hhandler]
            rw [Bool.not_eq_true'] at hfresh
            rw [← hfresh]
            exact hname
      · cases hstep

/-- The loop over the deprecated names. -/
theorem excludeAliases_eq_ok {commands : Dict String Command} (h : Tabulates repo commands)
    (hloop : (byName commands.entries).foldlM (excludeAlias (activeCommands commands)) g = .ok g') :
    Extends (.ofManual g) (.ofManual g') []
      ∧ ∀ other handler, IsCommand repo other ⟨handler, true⟩ →
        IsExcluded repo (.ofManual g') other := by
  have hmem : ∀ item, item ∈ byName commands.entries ↔ IsCommand repo item.1 item.2 := by
    intro item
    rw [← h, Dict.get?_eq_some_iff]
    exact (List.perm_insertionSort _ _).mem_iff
  have hruns := (runs_of_foldlM hloop).attach
  have hstep := fun s item s' (hs : item ∈ byName commands.entries ∧
    excludeAlias (activeCommands commands) s item = .ok s') =>
      excludeAlias_eq_ok h ((hmem item).mp hs.1) hs.2
  refine ⟨hruns.invariant (p := fun s => Extends (.ofManual g) (.ofManual s) [])
    (fun s item s' hs hextends => hextends.trans (hstep s item s' hs).1) (Extends.refl _),
    fun other handler hother => ?_⟩
  refine hruns.established (c := fun item g => item.2.deprecated = true →
    IsExcluded repo (.ofManual g) item.1) (fun s item s' hs y hy hdeprecated => ?_)
    (fun s item s' hs => (hstep s item s' hs).2) (other, ⟨handler, true⟩) ((hmem _).mpr hother) rfl
  obtain ⟨canonical, honly, hreason⟩ := hy hdeprecated
  exact ⟨canonical, honly, (hstep s item s' hs).1.exclusions _ hreason⟩

/-! ## The tables of the global options -/

theorem addTables_eq_ok {text : List Char} {tables : List String} {s s' : Registered}
    (h : tables.foldlM (addTable texts text) s = .ok s') :
    Extends (.ofManual s.generator) (.ofManual s'.generator) []
      ∧ ∀ name, name ∈ s'.names ↔ name ∈ s.names ∨ ∃ table ∈ tables, ∃ rows,
        rowsOf text table = .ok rows ∧ ∃ fields ∈ rows, NamesOption fields name := by
  have hstep : ∀ s table s', addTable texts text s table = .ok s' →
      Extends (.ofManual s.generator) (.ofManual s'.generator) []
        ∧ ∀ name, name ∈ s'.names ↔ name ∈ s.names ∨ ∃ rows,
          rowsOf text table = .ok rows ∧ ∃ fields ∈ rows, NamesOption fields name := by
    intro s table s' h
    obtain ⟨rows, hrows, h⟩ := bind_eq_ok.mp h
    have hruns := runs_of_foldlM h
    have hextends := hruns.invariant
      (p := fun t => Extends (.ofManual s.generator) (.ofManual t.generator) [])
      (fun _ _ _ hrow ht => ht.trans (addRegistration_eq_ok hrow).1) (Extends.refl _)
    refine ⟨hextends, fun name => ?_⟩
    rw [hruns.iff_exists (p := fun t => name ∈ t.names) (q := fun fields => NamesOption fields name)
      fun _ _ _ hrow => (addRegistration_eq_ok hrow).2 name]
    refine or_congr_right ⟨fun hfields => ⟨rows, hrows, hfields⟩, ?_⟩
    rintro ⟨rows', hrows', hfields⟩
    exact Except.ok.inj (hrows.symm.trans hrows') ▸ hfields
  have hruns := runs_of_foldlM h
  refine ⟨hruns.invariant (p := fun t => Extends (.ofManual s.generator) (.ofManual t.generator) [])
    (fun _ _ _ htable ht => ht.trans (hstep _ _ _ htable).1) (Extends.refl _), fun name => ?_⟩
  exact hruns.iff_exists (p := fun t => name ∈ t.names) fun _ _ _ htable =>
    (hstep _ _ _ htable).2 name

/-! ## The whole command line -/

/-- The interfaces of the command line. -/
def OfCommandLine (repo : Manual.Repository) : Interface → Prop
  | .command name => IsActive repo name
  | .option command name =>
      IsOption repo command name ∨ command = "global" ∧ Defines repo globalManual name
  | _ => False

/-- What a generator has, after the command line. -/
structure CommandLine (repo : Manual.Repository) (g : Generator) : Prop where
  interfaces : ∃ interfaces, ListsExactly g (OfCommandLine repo) interfaces
  manuals : ∀ name, IsActive repo name → ∃! document, IsManual repo name document
  aliases : ∀ other handler, IsCommand repo other ⟨handler, true⟩ → IsExcluded repo g other
  /-- The registered global options are those that are documented as such, where no command is
  called `global`. -/
  registered : ∀ name, RegistersGlobal repo name ↔
    Defines repo globalManual name ∧ ¬ IsOption repo "global" name

/-- The options of the global manual are added to those of the commands. -/
theorem lists_global {interfaces : List Interface} {names : List String}
    (h : ListsExactly (.ofManual g) (OfCommands repo) interfaces)
    (hglobal : (optionsOf repo "global" globalManual g).Returns (g', names)) :
    Extends (.ofManual g) (.ofManual g') (names.map (Interface.option "global"))
      ∧ ListsExactly (.ofManual g') (OfCommandLine repo)
        (interfaces ++ names.map (Interface.option "global"))
      ∧ ∀ name, name ∈ names ↔ Defines repo globalManual name ∧ ¬ IsOption repo "global" name := by
  obtain ⟨hextends, hnames, -⟩ := extends_optionsOf hglobal
  have hdotless : ∀ name, (Interface.option "global" name).Dotless := fun name =>
    show '.' ∉ "global".toList by decide
  -- A command may be called `global`: its options are there, and are not added again.
  have hnew : ∀ name, name ∈ names ↔
      Defines repo globalManual name ∧ ¬ IsOption repo "global" name := by
    intro name
    rw [hnames, ← keys_ofManual]
    exact and_congr_right' (not_congr (h.mem_keys (hdotless name)))
  refine ⟨hextends, ⟨hextends.lists _ h.lists, fun i hi => ?_, fun i => ?_⟩, hnew⟩
  · rcases List.mem_append.mp hi with hi | hi
    · exact h.dotless i hi
    · obtain ⟨name, -, rfl⟩ := List.mem_map.mp hi
      exact hdotless name
  · rw [List.mem_append, h.mem_iff, List.mem_map]
    cases i with
    | option owner name =>
        constructor
        · rintro (hi | ⟨other, hother, heq⟩)
          · exact Or.inl hi
          · obtain ⟨rfl, rfl⟩ := Interface.option.inj heq
            exact Or.inr ⟨rfl, ((hnew other).mp hother).1⟩
        · rintro (hi | ⟨rfl, hdefines⟩)
          · exact Or.inl hi
          · by_cases hoption : IsOption repo "global" name
            · exact Or.inl hoption
            · exact Or.inr ⟨name, (hnew name).mpr ⟨hdefines, hoption⟩, rfl⟩
    | _ => simp [OfCommands, OfCommandLine]

/-- **The command line is listed.** -/
theorem cli_lists (h : (cli texts repo).Returns g) : CommandLine repo (.ofManual g) := by
  obtain ⟨text, htext, h⟩ := Fueled.returns_bind.mp h
  obtain ⟨rows, hrows, h⟩ := Fueled.returns_bind.mp h
  obtain ⟨commands, hcommands, h⟩ := Fueled.returns_bind.mp h
  obtain ⟨_, -, h⟩ := Fueled.returns_bind.mp h
  obtain ⟨excluded, hexcluded, h⟩ := Fueled.returns_bind.mp h
  obtain ⟨listed, hlisted, h⟩ := Fueled.returns_bind.mp h
  obtain ⟨⟨global, documented⟩, hglobal, h⟩ := Fueled.returns_bind.mp h
  obtain ⟨s, hs, h⟩ := Fueled.returns_bind.mp h
  obtain ⟨_, hcheck, h⟩ := Fueled.returns_bind.mp h
  obtain rfl := Fueled.returns_pure.mp h
  -- All the tables are read from one text.
  have hmain : ∀ table, mainTable repo table = rowsOf (uncomment text) table := fun table => by
    unfold mainTable
    rw [Fueled.returns_ofExcept.mp htext]
    rfl
  have htabulates := tabulates ((hmain "commands").trans (Fueled.returns_ofExcept.mp hrows))
    (Fueled.returns_ofExcept.mp hcommands)
  obtain ⟨hfirst, haliases⟩ :=
    excludeAliases_eq_ok htabulates (Fueled.returns_ofExcept.mp hexcluded)
  obtain ⟨hmanuals, interfaces, hsecond, hinterfaces⟩ :=
    lists_manuals htabulates (hfirst.lists [] .nil) hlisted
  obtain ⟨hthird, hall, hdocumented⟩ := lists_global hinterfaces hglobal
  obtain ⟨hlast, hregistered⟩ := addTables_eq_ok (Fueled.returns_ofExcept.mp hs)
  have hchecked := checkGlobal_eq_ok (Fueled.returns_ofExcept.mp hcheck)
  have hlists := hlast.lists _ hall.lists
  rw [List.append_nil] at hlists
  refine ⟨⟨_, hlists, hall.dotless, hall.mem_iff⟩, hmanuals, fun other handler hother => ?_,
    fun name => ?_⟩
  · obtain ⟨canonical, honly, hreason⟩ := haliases other handler hother
    exact ⟨canonical, honly,
      hlast.exclusions _ (hthird.exclusions _ (hsecond.exclusions _ hreason))⟩
  · rw [← hdocumented, ← hchecked, hregistered]
    simp only [RegistersGlobal, hmain, List.not_mem_nil, false_or]

end

end Catalogue

end FlatpakBlackbox
