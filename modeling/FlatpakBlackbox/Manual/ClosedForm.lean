import FlatpakBlackbox.Manual.Options

set_option autoImplicit false

/-! # Options in closed form

What `options` computes, stated without its loop. Every entry of a manual has an origin and names;
the surface of a long name is a function of the entries that define it, and their order does not
matter. The loop keeps this after every single definition.
-/

namespace FlatpakBlackbox.Manual

open PyLib PyException

/-! ## Sorted sets -/

theorem mem_sortedSet {names : List String} {name : String} :
    name ∈ sortedSet names ↔ name ∈ names := by
  rw [sortedSet, mem_sorted, List.mem_dedup]

/-- A sorted set is determined by its members. -/
theorem sortedSet_congr {names names' : List String} (h : ∀ name, name ∈ names ↔ name ∈ names') :
    sortedSet names = sortedSet names' := by
  refine sorted_eq_of_perm
    ((List.perm_ext_iff_of_nodup names.nodup_dedup names'.nodup_dedup).mpr ?_)
  intro name
  rw [List.mem_dedup, List.mem_dedup]
  exact h name

theorem sortedSet_sorted {names : List String} (h : names.Nodup) :
    sortedSet (sorted names) = sorted names := by
  rw [sortedSet_congr fun name => mem_sorted, sortedSet, h.dedup]

theorem sortedSet_eq_nil {names : List String} : sortedSet names = [] ↔ names = [] := by
  simp only [List.eq_nil_iff_forall_not_mem, mem_sortedSet]

/-! ## Entries -/

/-- An entry of a manual: the document it stands in, and the names it defines. -/
structure Entry where
  origin : String
  names : List String
  nodup : names.Nodup

namespace Entry

def longs (entry : Entry) : List String := entry.names.filter isLong

def shorts (entry : Entry) : List String := entry.names.filter fun name => !isLong name

theorem longs_nodup (entry : Entry) : entry.longs.Nodup := entry.nodup.filter _

/-- The element is read as this entry. -/
def Reads (path : String) (element : Element) (entry : Entry) : Prop :=
  entryNames path element = .ok entry.names ∧ entry.origin = element.origin

end Entry

theorem nodup_of_addName {path : String} {names names' : List String} {option : Element}
    (hnames : names.Nodup) (h : addName path names option = .ok names') : names'.Nodup := by
  unfold addName at h
  dsimp only at h
  split at h
  · split at h
    · cases h
    · rwa [← Except.ok.inj h]
  · next name _ =>
      rw [← Except.ok.inj h]
      split
      · exact hnames
      · next hname => exact List.nodup_append.mpr ⟨hnames, List.nodup_singleton _, by
          rintro a ha b hb rfl
          exact hname (List.mem_singleton.mp hb ▸ ha)⟩

theorem nodup_of_entryNames {path : String} {entry : Element} {names : List String}
    (h : entryNames path entry = .ok names) : names.Nodup := by
  refine foldlM_invariant (P := List.Nodup) List.nodup_nil
    (fun names term names' _ hnames hterm => ?_) h
  obtain ⟨_, -, hoptions⟩ := bind_eq_ok.mp hterm
  exact foldlM_invariant hnames (fun _ _ _ _ => nodup_of_addName) hoptions

/-! ## The closed form -/

section

variable (path : String) (entries : List Entry) (name : String)

/-- The short spellings of the entries in which the name is the only long one. -/
def aliasesOf : List String :=
  sortedSet ((entries.filter fun entry => entry.longs = [name]).flatMap Entry.shorts)

/-- The other long names of the entries that define the name. -/
def otherNames : List String :=
  sortedSet ((entries.filter fun entry => name ∈ entry.longs).flatMap fun entry =>
    entry.longs.filter fun other => other ≠ name)

/-- How many entries of one document define the name. -/
def occurrencesIn (origin : String) : Nat :=
  entries.countP fun entry => name ∈ entry.longs ∧ entry.origin = origin

/-- The places where the name is defined: one for each definition, by its number in its document,
and one for each other document that has one. -/
def IsSource (source : Source) : Prop :=
  (∃ n, 0 < n ∧ n ≤ occurrencesIn entries name source.path ∧
      source.anchor = definitionAnchor name n) ∨
    source.path = path ∧ ∃ origin, origin ≠ path ∧ 0 < occurrencesIn entries name origin ∧
      source.anchor = includeAnchor origin

/-- The surface of a name that these entries define. -/
structure Describes (command : String) (surface : Surface) : Prop where
  id_eq : surface.id = identifier command name
  kind_eq : surface.kind = "cli-option"
  name_eq : surface.name = name
  command_eq : surface.command = some command
  sources_nodup : surface.sources.Nodup
  mem_sources : ∀ source, source ∈ surface.sources ↔ IsSource path entries name source
  aliases_eq : surface.aliases = some (aliasesOf entries name)
  documentedWith_eq : surface.documentedWith =
    if otherNames entries name = [] then none else some (otherNames entries name)

end

section

variable {path : String} {entries : List Entry} {name : String} {entry : Entry}

theorem mem_aliasesOf {short : String} : short ∈ aliasesOf entries name ↔
    ∃ entry ∈ entries, entry.longs = [name] ∧ short ∈ entry.shorts := by
  simp [aliasesOf, mem_sortedSet, and_assoc]

theorem mem_otherNames {other : String} : other ∈ otherNames entries name ↔
    ∃ entry ∈ entries, name ∈ entry.longs ∧ other ∈ entry.longs ∧ other ≠ name := by
  simp [otherNames, mem_sortedSet, and_assoc]

/-- What a definition adds to the aliases. -/
theorem aliasesOf_concat (hname : name ∈ entry.longs) : aliasesOf (entries ++ [entry]) name =
    sortedSet (aliasesOf entries name ++
      if entry.longs.length = 1 then sorted entry.shorts else []) := by
  have honly : entry.longs.length = 1 ↔ entry.longs = [name] := by
    rw [List.length_eq_one_iff]
    constructor
    · rintro ⟨other, hlongs⟩
      rw [hlongs, List.mem_singleton] at hname
      rw [hlongs, hname]
    · exact fun hlongs => ⟨name, hlongs⟩
  refine sortedSet_congr fun short => ?_
  rw [← mem_sortedSet, ← aliasesOf, mem_aliasesOf, List.mem_append, mem_aliasesOf]
  by_cases hlongs : entry.longs = [name]
  · rw [if_pos (honly.mpr hlongs), mem_sorted]
    simp [or_and_right, exists_or, hlongs]
  · rw [if_neg (mt honly.mp hlongs)]
    simp [or_and_right, exists_or, hlongs]

/-- What a definition adds to the other names. -/
theorem otherNames_concat (hname : name ∈ entry.longs) : otherNames (entries ++ [entry]) name =
    sortedSet (otherNames entries name ++
      sorted (entry.longs.filter fun other => other ≠ name)) := by
  refine sortedSet_congr fun other => ?_
  rw [← mem_sortedSet, ← otherNames, mem_otherNames, List.mem_append, mem_otherNames, mem_sorted]
  simp [or_and_right, exists_or, hname]

theorem occurrencesIn_concat (hname : name ∈ entry.longs) (origin : String) :
    occurrencesIn (entries ++ [entry]) name origin =
      occurrencesIn entries name origin + if entry.origin = origin then 1 else 0 := by
  simp [occurrencesIn, List.countP_append, List.countP_singleton, hname]

theorem mem_definitionSources {origin : String} {n : Nat} {source : Source} :
    source ∈ definitionSources path origin name n ↔
      (source.path = origin ∧ source.anchor = definitionAnchor name n) ∨
        origin ≠ path ∧ source.path = path ∧ source.anchor = includeAnchor origin := by
  obtain ⟨place, anchor⟩ := source
  unfold definitionSources
  by_cases horigin : origin = path
  · rw [if_neg (not_not.mpr horigin)]
    simp [horigin]
  · rw [if_pos horigin]
    simp [horigin]

/-- What a definition adds to the sources. -/
theorem isSource_concat (hname : name ∈ entry.longs) (source : Source) :
    IsSource path (entries ++ [entry]) name source ↔ IsSource path entries name source ∨
      source ∈ definitionSources path entry.origin name
        (occurrencesIn entries name entry.origin + 1) := by
  simp only [IsSource, mem_definitionSources, occurrencesIn_concat hname]
  constructor
  · rintro (⟨n, hpos, hle, hanchor⟩ | ⟨hpath, origin, hne, hpos, hanchor⟩)
    · by_cases hold : n ≤ occurrencesIn entries name source.path
      · exact .inl (.inl ⟨n, hpos, hold, hanchor⟩)
      · -- The number is new, so the definition is in the document of the source.
        have horigin : entry.origin = source.path := by
          by_contra hne
          rw [if_neg hne] at hle
          exact hold hle
        rw [if_pos horigin] at hle
        have hn : n = occurrencesIn entries name source.path + 1 := by omega
        exact .inr (.inl ⟨horigin.symm, by rw [hanchor, hn, horigin]⟩)
    · by_cases hold : 0 < occurrencesIn entries name origin
      · exact .inl (.inr ⟨hpath, origin, hne, hold, hanchor⟩)
      · have horigin : entry.origin = origin := by
          by_contra hother
          rw [if_neg hother] at hpos
          exact hold hpos
        exact .inr (.inr ⟨horigin ▸ hne, hpath, horigin ▸ hanchor⟩)
  · rintro ((⟨n, hpos, hle, hanchor⟩ | ⟨hpath, origin, hne, hpos, hanchor⟩) |
      (⟨hpath, hanchor⟩ | ⟨hne, hpath, hanchor⟩))
    · exact .inl ⟨n, hpos, Nat.le_add_right_of_le hle, hanchor⟩
    · exact .inr ⟨hpath, origin, hne, Nat.add_pos_left hpos _, hanchor⟩
    · refine .inl ⟨_, Nat.succ_pos _, ?_, hanchor⟩
      rw [hpath, if_pos rfl]
    · refine .inr ⟨hpath, entry.origin, hne, ?_, hanchor⟩
      rw [if_pos rfl]
      exact Nat.succ_pos _

theorem nodup_definitionSources (path origin : String) (name : String) (n : Nat) :
    (definitionSources path origin name n).Nodup := by
  unfold definitionSources
  by_cases horigin : origin = path
  · rw [if_neg (not_not.mpr horigin)]
    exact List.nodup_singleton _
  · rw [if_pos horigin]
    simp [horigin]

theorem mem_extend {sources more : List Source} {source : Source} :
    source ∈ extend sources more ↔ source ∈ sources ∨ source ∈ more := by
  unfold extend
  induction more generalizing sources with
  | nil => simp
  | cons first more ih =>
      rw [List.foldl_cons, ih]
      by_cases hfirst : first ∈ sources
      · rw [if_pos hfirst, List.mem_cons]
        constructor
        · exact fun h => h.imp_right .inr
        · rintro (h | rfl | h)
          · exact .inl h
          · exact .inl hfirst
          · exact .inr h
      · rw [if_neg hfirst]
        simp [or_assoc]

theorem nodup_extend {sources : List Source} (h : sources.Nodup) (more : List Source) :
    (extend sources more).Nodup := by
  unfold extend
  induction more generalizing sources with
  | nil => exact h
  | cons first more ih =>
      rw [List.foldl_cons]
      refine ih ?_
      by_cases hfirst : first ∈ sources
      · rwa [if_pos hfirst]
      · rw [if_neg hfirst]
        rw [← List.concat_eq_append]
        exact (List.nodup_concat sources first).mpr ⟨hfirst, h⟩

end

/-! ## One definition -/

section

variable {command : String} {path : String} {entry : Entry} {name : String}

theorem identifier_injective {other : String}
    (h : identifier command name = identifier command other) :
    name = other := by
  have hlist := congrArg String.toList h
  have hname : (toString name).toList = (toString other).toList := by simpa [identifier] using hlist
  exact String.toList_inj.mp hname

/-- The entries that define a name, among definitions: entries with one of their long names. -/
def definersOf (definitions : List (Entry × String)) (name : String) : List Entry :=
  (definitions.filter fun d => d.2 = name).map Prod.fst

theorem definersOf_concat (definitions : List (Entry × String)) (name other : String) :
    definersOf (definitions ++ [(entry, name)]) other =
      if name = other then definersOf definitions other ++
      [entry] else definersOf definitions other := by
  unfold definersOf
  by_cases hname : name = other
  · rw [if_pos hname, List.filter_append, List.map_append]
    simp [hname]
  · rw [if_neg hname, List.filter_append]
    simp [hname]

/-- The generator has no surface of the name yet. -/
def Fresh (command : String) (g : Generator) (name : String) : Prop :=
  g.surfaces.get? (identifier command name) = none

/-- What the loop has made of these definitions. -/
structure Loop (command : String) (path : String) (g : Generator)
    (definitions : List (Entry × String))
    (s : Progress) : Prop where
  other : ∀ id, (∀ name, id ≠ identifier command name) →
    s.generator.surfaces.get? id = g.surfaces.get? id
  none : ∀ name, Fresh command s.generator name ↔
    Fresh command g name ∧ definersOf definitions name = []
  some : ∀ name, Fresh command g name → definersOf definitions name ≠ [] →
    ∃ surface, s.generator.surfaces.get? (identifier command name) = some surface ∧
      Describes path (definersOf definitions name) name command surface
  occurrences : ∀ origin name, s.occurrences.count (origin, name) =
    occurrencesIn (definersOf definitions name) name origin
  spellings : ∀ name, name ∈ s.spellings ↔
    Fresh command g name ∧ definersOf definitions name ≠ []

/-- The surface of a first definition. -/
theorem describes_first (command : String) (hname : name ∈ entry.longs) :
    Describes path [entry] name command
      ⟨identifier command name, "cli-option", name, some command,
        definitionSources path entry.origin name 1,
        some (if entry.longs.length = 1 then sorted entry.shorts else []),
        if sorted (entry.longs.filter fun other => other ≠ name) = [] then none
        else some (sorted (entry.longs.filter fun other => other ≠ name))⟩ where
  id_eq := rfl
  kind_eq := rfl
  name_eq := rfl
  command_eq := rfl
  sources_nodup := nodup_definitionSources _ _ _ _
  mem_sources source := by
    have hnone : ¬ IsSource path [] name source := by
      rintro (⟨n, hpos, hle, -⟩ | ⟨-, origin, -, hpos, -⟩)
      · exact absurd hpos (Nat.not_lt.mpr hle)
      · exact absurd hpos (Nat.lt_irrefl 0)
    have hconcat : IsSource path ([] ++ [entry]) name source ↔ _ := isSource_concat hname source
    exact (hconcat.trans (or_iff_right hnone)).symm
  aliases_eq := by
    have hconcat : aliasesOf ([] ++ [entry]) name = _ := aliasesOf_concat hname
    refine congrArg some (Eq.symm (hconcat.trans ?_))
    show sortedSet (if entry.longs.length = 1 then sorted entry.shorts else []) = _
    split
    · exact sortedSet_sorted (entry.nodup.filter _)
    · rfl
  documentedWith_eq := by
    have hconcat : otherNames ([] ++ [entry]) name = _ := otherNames_concat hname
    have hothers : otherNames [entry] name = sorted (entry.longs.filter fun other =>
      other ≠ name) :=
      hconcat.trans (sortedSet_sorted (entry.longs_nodup.filter _))
    rw [hothers]

/-- The surface of a further definition. -/
theorem Describes.concat {entries : List Entry} {surface : Surface}
    (h : Describes path entries name command surface) (hname : name ∈ entry.longs) :
    Describes path (entries ++ [entry]) name command
      { surface with
        sources := extend surface.sources (definitionSources path entry.origin name
          (occurrencesIn entries name entry.origin + 1))
        aliases := some (sortedSet (surface.aliases.getD [] ++
          if entry.longs.length = 1 then sorted entry.shorts else []))
        documentedWith :=
          if sorted (entry.longs.filter fun other => other ≠ name) = [] then surface.documentedWith
          else some (sortedSet (surface.documentedWith.getD [] ++
            sorted (entry.longs.filter fun other => other ≠ name))) } where
  id_eq := h.id_eq
  kind_eq := h.kind_eq
  name_eq := h.name_eq
  command_eq := h.command_eq
  sources_nodup := nodup_extend h.sources_nodup _
  mem_sources source := by
    rw [isSource_concat hname, mem_extend, h.mem_sources]
  aliases_eq := by
    rw [aliasesOf_concat hname, h.aliases_eq]
    rfl
  documentedWith_eq := by
    have hold : surface.documentedWith.getD [] = otherNames entries name := by
      rw [h.documentedWith_eq]
      by_cases hnil : otherNames entries name = []
      · rw [if_pos hnil, hnil]
        rfl
      · rw [if_neg hnil]
        rfl
    rw [otherNames_concat hname, hold]
    by_cases hmore : sorted (entry.longs.filter fun other => other ≠ name) = []
    · have hsame : sortedSet (otherNames entries name) = otherNames entries name :=
        sortedSet_congr fun other => mem_sortedSet
      rw [if_pos hmore, hmore, List.append_nil, hsame]
      exact h.documentedWith_eq
    · have hne : sortedSet (otherNames entries name ++
          sorted (entry.longs.filter fun other => other ≠ name)) ≠ [] := fun hnil =>
        hmore (List.append_eq_nil_iff.mp (sortedSet_eq_nil.mp hnil)).2
      rw [if_neg hmore, if_neg hne]

variable {g : Generator} {definitions : List (Entry × String)} {s s' : Progress}

/-- A definition that sets the surface of its name. -/
theorem Loop.set (h : Loop command path g definitions s) {surface : Surface}
    (hname : name ∈ entry.longs)
    (hsurface : Fresh command g name →
      Describes path (definersOf definitions name ++ [entry]) name command surface)
    (hset : s'.generator.surfaces = s.generator.surfaces.set (identifier command name) surface)
    (hoccurrences : s'.occurrences = (entry.origin, name) :: s.occurrences)
    (hspellings : ∀ other, other ∈ s'.spellings ↔
      other ∈ s.spellings ∨ Fresh command g name ∧ other = name) :
    Loop command path g (definitions ++ [(entry, name)]) s' where
  other id hid := by
    rw [hset, Dict.get?_set_ne _ _ (Ne.symm (hid name))]
    exact h.other id hid
  none other := by
    unfold Fresh
    rw [definersOf_concat, hset]
    by_cases hne : name = other
    · subst hne
      rw [if_pos rfl, Dict.get?_set, if_pos rfl]
      simp
    · rw [if_neg hne, Dict.get?_set_ne _ _ fun heq => hne (identifier_injective heq)]
      exact h.none other
  some other hfresh hother := by
    rw [definersOf_concat] at hother ⊢
    by_cases hne : name = other
    · subst hne
      rw [if_pos rfl, hset, Dict.get?_set, if_pos rfl]
      exact ⟨surface, rfl, hsurface hfresh⟩
    · rw [if_neg hne] at hother ⊢
      rw [hset, Dict.get?_set_ne _ _ fun heq => hne (identifier_injective heq)]
      exact h.some other hfresh hother
  occurrences origin other := by
    rw [hoccurrences, List.count_cons, h.occurrences, definersOf_concat]
    by_cases hne : name = other
    · subst hne
      rw [if_pos rfl, occurrencesIn_concat hname]
      simp
    · rw [if_neg hne, if_neg (by simp [hne])]
      rfl
  spellings other := by
    rw [hspellings, h.spellings, definersOf_concat]
    by_cases hne : name = other
    · subst hne
      rw [if_pos rfl]
      simp only [and_true, ne_eq, List.append_eq_nil_iff, List.cons_ne_nil, and_false,
        not_false_eq_true, or_iff_right_iff_imp]
      exact And.left
    · rw [if_neg hne]
      simp [Ne.symm hne]

/-- **One definition.** It succeeds, and the surface of its name stays the one that is described by
its definitions. -/
theorem Loop.addOption (h : Loop command path g definitions s) (hname : name ∈ entry.longs) :
    ∃ s', addOption command path entry.origin entry.names entry.longs s name = .ok s' ∧
      Loop command path g (definitions ++ [(entry, name)]) s' := by
  have hcount : ((entry.origin, name) :: s.occurrences).count (entry.origin, name) =
      occurrencesIn (definersOf definitions name) name entry.origin + 1 := by
    rw [List.count_cons_self, h.occurrences]
  unfold Manual.addOption
  dsimp only
  rw [hcount]
  cases hprevious : s.generator.surfaces.get? (identifier command name) with
  | none =>
      obtain ⟨hfresh, hdefined⟩ := (h.none name).mp hprevious
      have hadd : ∀ item : Surface, item.id = identifier command name →
          s.generator.add item =
            .ok { s.generator with surfaces := s.generator.surfaces.set item.id item } := by
        intro item hid
        have hkey : item.id ∉ s.generator.surfaces.keys := by
          rw [hid]
          exact (Dict.get?_eq_none_iff _ _).mp hprevious
        unfold Generator.add
        rw [raiseIf_of_not hkey]
        rfl
      dsimp only
      rw [hadd _ rfl]
      refine ⟨_, rfl, h.set hname (fun _ => ?_) rfl rfl fun other => List.mem_append.trans ?_⟩
      · rw [hdefined]
        exact describes_first command hname
      · rw [List.mem_singleton, and_iff_right hfresh]
  | some previous =>
      dsimp only
      have hdefined : Fresh command g name → definersOf definitions name ≠ [] := by
        intro hfresh hnil
        have hnone : s.generator.surfaces.get? (identifier command name) = Option.none :=
          (h.none name).mpr ⟨hfresh, hnil⟩
        rw [hprevious] at hnone
        cases hnone
      refine ⟨_, rfl, h.set hname (fun hfresh => ?_) rfl rfl fun other =>
        (or_iff_left_of_imp ?_).symm⟩
      · obtain ⟨surface, hsurface, hdescribes⟩ := h.some name hfresh (hdefined hfresh)
        obtain rfl := Option.some.inj (hprevious.symm.trans hsurface)
        exact hdescribes.concat hname
      · rintro ⟨hfresh, rfl⟩
        exact (h.spellings other).mpr ⟨hfresh, hdefined hfresh⟩

/-! ## The run -/

/-- The definitions of entries, in their order. -/
def definitionsOf (entries : List Entry) : List (Entry × String) :=
  entries.flatMap fun entry => entry.longs.map fun name => (entry, name)

theorem Loop.longs {names : List String} (hnames : ∀ name ∈ names, name ∈ entry.longs)
    (h : Loop command path g definitions s) :
    ∃ s', names.foldlM (Manual.addOption command path entry.origin entry.names entry.longs) s =
    .ok s' ∧
      Loop command path g (definitions ++ names.map fun name => (entry, name)) s' := by
  induction names generalizing definitions s with
  | nil => exact ⟨s, rfl, by simpa using h⟩
  | cons name names ih =>
      obtain ⟨hname, hnames⟩ := List.forall_mem_cons.mp hnames
      obtain ⟨next, hnext, hloop⟩ := h.addOption hname
      obtain ⟨s', hrest, hloop⟩ := ih hnames hloop
      refine ⟨s', ?_, by simpa using hloop⟩
      rw [List.foldlM_cons, hnext]
      exact hrest

/-- **One entry.** -/
theorem Loop.addEntry (h : Loop command path g definitions s) {element : Element}
    (hreads : entry.Reads path element) :
    ∃ s', Manual.addEntry command path s element = .ok s' ∧
      Loop command path g (definitions ++ entry.longs.map fun name => (entry, name)) s' := by
  unfold Manual.addEntry
  rw [hreads.1, ← hreads.2]
  show ∃ s', (if entry.longs = [] then _ else _) = _ ∧ _
  by_cases hlongs : entry.longs = []
  · rw [if_pos hlongs, hlongs]
    refine ⟨_, rfl, ?_⟩
    rw [List.map_nil, List.append_nil]
    split
    · exact h
    · exact ⟨h.other, h.none, h.some, h.occurrences, h.spellings⟩
  · rw [if_neg hlongs]
    exact h.longs fun name hname => hname

theorem Loop.entries {elements : List Element} {entries : List Entry}
    (hreads : List.Forall₂ (fun element entry => Entry.Reads path element entry) elements entries)
    (h : Loop command path g definitions s) :
    ∃ s', elements.foldlM (Manual.addEntry command path) s = .ok s' ∧
      Loop command path g (definitions ++ definitionsOf entries) s' := by
  induction hreads generalizing definitions s with
  | nil => exact ⟨s, rfl, by simpa [definitionsOf] using h⟩
  | cons hentry _ ih =>
      obtain ⟨next, hnext, hloop⟩ := h.addEntry hentry
      obtain ⟨s', hrest, hloop⟩ := ih hloop
      refine ⟨s', ?_, by simpa [definitionsOf] using hloop⟩
      rw [List.foldlM_cons, hnext]
      exact hrest

/-- What the loop accepts can be read as entries. -/
theorem exists_entries {elements : List Element}
    (h : elements.foldlM (Manual.addEntry command path) s = .ok s') :
    ∃ entries, List.Forall₂ (fun element entry => Entry.Reads path element entry)
    elements entries := by
  induction elements generalizing s with
  | nil => exact ⟨[], .nil⟩
  | cons element elements ih =>
      obtain ⟨next, hnext, hrest⟩ := bind_eq_ok.mp h
      obtain ⟨names, hnames, -⟩ := bind_eq_ok.mp hnext
      obtain ⟨entries, hentries⟩ := ih hrest
      exact ⟨⟨element.origin, names, nodup_of_entryNames hnames⟩ :: entries,
        .cons ⟨hnames, rfl⟩ hentries⟩

theorem definersOf_definitionsOf (entries : List Entry) (name : String) :
    definersOf (definitionsOf entries) name = entries.filter fun entry => name ∈ entry.longs := by
  induction entries with
  | nil => rfl
  | cons entry entries ih =>
      have hone : definersOf (entry.longs.map fun name => (entry, name)) name =
          if name ∈ entry.longs then [entry] else [] := by
        have hsingle : (entry.longs.map fun name => (entry, name)).filter (fun d => d.2 = name) =
            (entry.longs.filter fun other => other = name).map fun name => (entry, name) := by
          rw [List.filter_map]
          rfl
        rw [definersOf, hsingle, List.filter_eq, entry.longs_nodup.count]
        split <;> rfl
      have hsplit : definersOf (definitionsOf (entry :: entries)) name =
          definersOf (entry.longs.map fun name => (entry, name)) name ++
            definersOf (definitionsOf entries) name := by
        simp [definersOf, definitionsOf]
      rw [hsplit, hone, ih, List.filter_cons]
      by_cases hname : name ∈ entry.longs
      · simp [hname]
      · simp [hname]

/-- Only the entries that define the name matter. -/
theorem Describes.of_filter {entries : List Entry} {surface : Surface}
    (h : Describes path (entries.filter fun entry => name ∈ entry.longs) name command surface) :
    Describes path entries name command surface := by
  have haliases : aliasesOf (entries.filter fun entry => name ∈ entry.longs) name =
      aliasesOf entries name := by
    unfold aliasesOf
    rw [List.filter_filter]
    refine congrArg (fun l : List Entry => sortedSet (l.flatMap Entry.shorts))
      (List.filter_congr fun entry _ => ?_)
    by_cases hlongs : entry.longs = [name] <;> simp [hlongs]
  have hothers : otherNames (entries.filter fun entry => name ∈ entry.longs) name =
      otherNames entries name := by
    unfold otherNames
    rw [List.filter_filter]
    simp
  have hoccurrences : ∀ origin, occurrencesIn (entries.filter fun entry => name ∈ entry.longs) name
      origin = occurrencesIn entries name origin := by
    intro origin
    unfold occurrencesIn
    rw [List.countP_filter]
    refine List.countP_congr fun entry _ => ?_
    rw [Bool.and_eq_true, decide_eq_true_eq, decide_eq_true_eq]
    exact and_iff_left_of_imp And.left
  refine ⟨h.id_eq, h.kind_eq, h.name_eq, h.command_eq, h.sources_nodup, fun source => ?_,
    haliases ▸ h.aliases_eq, hothers ▸ h.documentedWith_eq⟩
  rw [h.mem_sources]
  unfold IsSource
  simp only [hoccurrences]

/-! ## The order of the entries -/

/-- Two surfaces that differ in the order of their sources only. -/
structure Surface.Same (a b : Surface) : Prop where
  id_eq : a.id = b.id
  kind_eq : a.kind = b.kind
  name_eq : a.name = b.name
  command_eq : a.command = b.command
  sources_perm : a.sources.Perm b.sources
  aliases_eq : a.aliases = b.aliases
  documentedWith_eq : a.documentedWith = b.documentedWith

/-- The closed form does not depend on the order of the entries. -/
theorem Describes.perm {entries entries' : List Entry} (hperm : entries.Perm entries')
    {a b : Surface} (ha : Describes path entries name command a)
    (hb : Describes path entries' name command b) : a.Same b where
  id_eq := ha.id_eq.trans hb.id_eq.symm
  kind_eq := ha.kind_eq.trans hb.kind_eq.symm
  name_eq := ha.name_eq.trans hb.name_eq.symm
  command_eq := ha.command_eq.trans hb.command_eq.symm
  sources_perm := by
    have hoccurrences : ∀ origin, occurrencesIn entries name origin =
        occurrencesIn entries' name origin := fun origin => hperm.countP_eq _
    refine (List.perm_ext_iff_of_nodup ha.sources_nodup hb.sources_nodup).mpr fun source => ?_
    rw [ha.mem_sources, hb.mem_sources]
    unfold IsSource
    simp only [hoccurrences]
  aliases_eq := by
    rw [ha.aliases_eq, hb.aliases_eq]
    refine congrArg some (sortedSet_congr fun short => ?_)
    exact ((hperm.filter _).flatMap_right _).mem_iff
  documentedWith_eq := by
    have hothers : otherNames entries name = otherNames entries' name :=
      sortedSet_congr fun other => ((hperm.filter _).flatMap_right _).mem_iff
    rw [ha.documentedWith_eq, hb.documentedWith_eq, hothers]

/-- What an accepted manual makes of the generator. -/
structure Collected (command : String) (path : String) (entries : List Entry) (g g' : Generator) :
    Prop where
  /-- A long name that the generator did not have is described by its definitions. -/
  surface : ∀ name, Fresh command g name → (∃ entry ∈ entries, name ∈ entry.longs) →
    ∃ surface, g'.surfaces.get? (identifier command name) = some surface ∧
      Describes path entries name command surface
  /-- The long names of the entries, and no others, have a surface. -/
  fresh : ∀ name, Fresh command g' name ↔
    Fresh command g name ∧ ¬ ∃ entry ∈ entries, name ∈ entry.longs
  other : ∀ id, (∀ name, id ≠ identifier command name) → g'.surfaces.get? id = g.surfaces.get? id

theorem definers_ne_nil {entries : List Entry} : definersOf (definitionsOf entries) name ≠ [] ↔
    ∃ entry ∈ entries, name ∈ entry.longs := by
  rw [definersOf_definitionsOf, ne_eq, List.filter_eq_nil_iff]
  simp

theorem loop_nil (command : String) (path : String) (g : Generator) :
    Loop command path g [] ⟨g, [], []⟩ where
  other _ _ := rfl
  none name := (and_iff_left rfl).symm
  some name _ hname := absurd rfl hname
  occurrences _ _ := rfl
  spellings name := by simp [definersOf]

theorem Loop.collected {entries : List Entry}
    (h : Loop command path g (definitionsOf entries) s) :
    Collected command path entries g s.generator where
  surface name hfresh hname := by
    obtain ⟨surface, hsurface, hdescribes⟩ := h.some name hfresh (definers_ne_nil.mpr hname)
    rw [definersOf_definitionsOf] at hdescribes
    exact ⟨surface, hsurface, hdescribes.of_filter⟩
  fresh name := by rw [h.none, ← definers_ne_nil, not_not]
  other := h.other

/-- The long names that are new. -/
def NewNames (command : String) (g : Generator) (entries : List Entry) (spellings : List String) :
    Prop :=
  ∀ name, name ∈ spellings ↔ Fresh command g name ∧ ∃ entry ∈ entries, name ∈ entry.longs

/-- What `options` does with entries: it returns if one of them has a new long name. -/
theorem options_entries (command : String) (g : Generator) {tree : Element} {entries : List Entry}
    (hreads : List.Forall₂ (fun element entry => Entry.Reads path element entry) (entriesOf tree)
      entries) : ∃ g' spellings, Collected command path entries g g' ∧
        NewNames command g entries spellings ∧
        options command path tree g = (do
          raiseIf (spellings = []) (catalogueError s!"No long-option definitions in {path}")
          return (g', spellings)) := by
  obtain ⟨s, hs, hloop⟩ := (loop_nil command path g).entries hreads
  refine ⟨s.generator, s.spellings, hloop.collected, fun name => ?_, ?_⟩
  · rw [← definers_ne_nil]
    exact hloop.spellings name
  · unfold options
    rw [hs]
    rfl

theorem Surface.Same.refl (a : Surface) : a.Same a :=
  ⟨rfl, rfl, rfl, rfl, List.Perm.refl _, rfl, rfl⟩

/-- Two collections from the same entries, in any order. -/
theorem Collected.same {entries entries' : List Entry} {g' g'' : Generator}
    (h : Collected command path entries g g') (h' : Collected command path entries' g g'')
    (hperm : entries.Perm entries') {id : String}
    (hid : ∀ name, id = identifier command name → Fresh command g name) :
    Option.Rel Surface.Same (g'.surfaces.get? id) (g''.surfaces.get? id) := by
  have hdefined : ∀ name, (∃ entry ∈ entries', name ∈ entry.longs) ↔
      ∃ entry ∈ entries, name ∈ entry.longs := fun name => by simp only [hperm.mem_iff]
  by_cases hname : ∃ name, id = identifier command name
  · obtain ⟨name, rfl⟩ := hname
    have hfresh := hid name rfl
    by_cases hentry : ∃ entry ∈ entries, name ∈ entry.longs
    · obtain ⟨a, ha, hdescribes⟩ := h.surface name hfresh hentry
      obtain ⟨b, hb, hdescribes'⟩ := h'.surface name hfresh ((hdefined name).mpr hentry)
      rw [ha, hb]
      exact .some (hdescribes.perm hperm hdescribes')
    · have hnone : Fresh command g' name := (h.fresh name).mpr ⟨hfresh, hentry⟩
      have hnone' : Fresh command g'' name :=
        (h'.fresh name).mpr ⟨hfresh, mt (hdefined name).mp hentry⟩
      unfold Fresh at hnone hnone'
      rw [hnone, hnone']
      exact .none
  · have hother : ∀ name, id ≠ identifier command name := fun name heq => hname ⟨name, heq⟩
    rw [h.other id hother, h'.other id hother]
    cases g.surfaces.get? id with
    | none => exact .none
    | some surface => exact .some (Surface.Same.refl surface)

/-- **Option extraction in closed form.** When `options` returns, the manual consists of entries,
and every long name of them has one surface, which is described by the entries that define it. The
order of the entries does not matter: a manual with the same entries in another order gives the same
surfaces, up to the order of their sources. Surfaces that the generator had before are left out. -/
theorem options_closed {command : String} {path : String} {tree : Element} {g g' : Generator}
    {spellings : List String} (h : options command path tree g = .ok (g', spellings)) :
    ∃ entries, List.Forall₂ (fun element entry => Entry.Reads path element entry) (entriesOf tree)
        entries ∧
      Collected command path entries g g' ∧ NewNames command g entries spellings ∧
      ∀ tree', (entriesOf tree').Perm (entriesOf tree) → ∃ g'' spellings',
        options command path tree' g = .ok (g'', spellings') ∧
          (∀ name, name ∈ spellings' ↔ name ∈ spellings) ∧
          ∀ id, (∀ name, id = identifier command name → Fresh command g name) →
            Option.Rel Surface.Same (g'.surfaces.get? id) (g''.surfaces.get? id) := by
  obtain ⟨s, hs, -⟩ := bind_eq_ok.mp h
  obtain ⟨entries, hentries⟩ := exists_entries hs
  obtain ⟨h₁, names, hcollected, hnames, hoptions⟩ := options_entries command g hentries
  obtain ⟨_, hnonempty, hresult⟩ := bind_eq_ok.mp (hoptions.symm.trans h)
  obtain ⟨rfl, rfl⟩ := Prod.mk.inj (Except.ok.inj hresult)
  refine ⟨entries, hentries, hcollected, hnames, fun tree' hperm => ?_⟩
  -- The entries of the other manual are the same ones, in its order.
  obtain ⟨entries', hentries', hperm'⟩ := List.perm_comp_forall₂ hperm hentries
  obtain ⟨g'', spellings', hcollected', hnames', hoptions'⟩ := options_entries command g hentries'
  have hsame : ∀ name, name ∈ spellings' ↔ name ∈ names := by
    intro name
    rw [hnames, hnames']
    simp only [hperm'.mem_iff]
  refine ⟨g'', spellings', ?_, hsame, fun id hid => hcollected.same hcollected' hperm'.symm hid⟩
  rw [hoptions', raiseIf_of_not]
  · rfl
  · intro hnil
    refine raiseIf_eq_ok.mp hnonempty (List.eq_nil_iff_forall_not_mem.mpr fun name hname => ?_)
    have hnone := (hsame name).mpr hname
    rw [hnil] at hnone
    cases hnone

end

/-- Two documents define `--a`: once alone, and once with `--b`. -/
def smallManual : Element :=
  let option (name : String) (origin : String) : Element :=
    .node "term" [] "" [.node "option" [] name [] "" origin] "" origin
  .node "refentry" [] "" [
    .node "varlistentry" [] "" [option "-x" "a.xml", option "--a" "a.xml"] "" "a.xml",
    .node "varlistentry" [] "" [option "--b" "b.xml", option "--a" "b.xml"] "" "b.xml"]
    "" "a.xml"

theorem options_closed_small : ∃ g' spellings,
    options "run" "a.xml" smallManual ⟨Dict.empty, []⟩ = .ok (g', spellings) ∧
      ∃ entries, List.Forall₂ (fun element entry => Entry.Reads "a.xml" element entry)
          (entriesOf smallManual) entries ∧
        Collected "run" "a.xml" entries ⟨Dict.empty, []⟩ g' ∧
        NewNames "run" ⟨Dict.empty, []⟩ entries spellings := by
  have hoptions : ∃ r, options "run" "a.xml" smallManual ⟨Dict.empty, []⟩ = .ok r := ⟨_, rfl⟩
  obtain ⟨⟨g', spellings⟩, h⟩ := hoptions
  obtain ⟨entries, hentries, hcollected, hnames, -⟩ := options_closed h
  exact ⟨g', spellings, h, entries, hentries, hcollected, hnames⟩

end FlatpakBlackbox.Manual
