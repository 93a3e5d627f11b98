import FlatpakBlackbox.Basic.Reorder
import FlatpakBlackbox.Coverage.Pinned
import FlatpakBlackbox.Schema.Documents

set_option autoImplicit false

/-! # Layouts of a suite

Behaviors and mappings can stand in `inventory.json` and `coverage-data/mapping.json` or in
scenario groups at any depth, and the requirements of an interface in its index or in the shards
it includes. A `Layout` says which items stand where, in documents that are valid without them.
The loaders are then described by the items alone: what they accept and what they return does not
mention the documents.
-/

namespace FlatpakBlackbox

open PyLib PyException

/-! ## Documents that hold items -/

section Holds

variable {Bytes : Type} [UnicodeDatabase] (rt : Runtime Bytes) (tree : FileTree Bytes)

/-- `inventory.json` is a valid envelope around these behaviors. -/
def HoldsInventory (behaviors : List Value) : Prop :=
  ∃ entries, loadJson rt tree ["inventory.json"] = .ok (.dict entries) ∧
    entries.lookup "behaviors" = some (.list behaviors) ∧
    ∃ empty, parseInventory (.dict (emptied "behaviors" entries)) "" = .ok empty

/-- The file is a scenario group around these behaviors and mappings. -/
def HoldsGroup (path : Path) (group : List Value × List Value) : Prop :=
  ∃ entries, loadJson rt tree path = .ok (.dict entries) ∧
    entries.lookup "behaviors" = some (.list group.1) ∧
    entries.lookup "mappings" = some (.list group.2) ∧
    ∃ empty, parseScenarioGroup (.dict (emptied "mappings" (emptied "behaviors" entries))) ""
      = .ok empty

omit [UnicodeDatabase] in
/-- `coverage-data/mapping.json` is a valid envelope around these mappings. -/
def HoldsMappings (mappings : List Value) : Prop :=
  ∃ entries, loadJson rt tree ["coverage-data", "mapping.json"] = .ok (.dict entries) ∧
    entries.lookup "cases" = some (.list mappings) ∧
    ∃ empty, parseMappings (.dict (emptied "cases" entries)) "" = .ok empty

omit [UnicodeDatabase] in
/-- The file is a valid envelope of an interface, with these includes, around requirements. -/
def HoldsRequirements (path : Path) (interface : String) (includes : Option (List String))
    (requirements : List Value) : Prop :=
  ∃ entries, loadJson rt tree path = .ok (.dict entries) ∧
    entries.lookup "requirements" = some (.list requirements) ∧
    ∃ empty, parseRequirements (.dict (emptied "requirements" entries)) "" = .ok empty ∧
      (RequirementsDocument.ofValue empty).scope = interface ∧
      (RequirementsDocument.ofValue empty).includes = includes

omit [UnicodeDatabase] in
/-- The index of an interface holds requirements and includes these shards, each once. -/
def HoldsIndex (interface : String) (requirements : List Value)
    (shards : List (Path × List Value)) : Prop :=
  ∃ includes, HoldsRequirements rt tree (indexPath interface) interface includes requirements ∧
    (includes.getD []).mapM (includedShard tree (indexPath interface)) =
      .ok (shards.map Prod.fst) ∧
    (shards.map Prod.fst).Nodup ∧
    ∀ shard ∈ shards, HoldsRequirements rt tree shard.1 interface none shard.2

/-- The files of the scenario groups. -/
def groupFiles : List Path := FileTree.below tree.files.keys ["scenario-data"] ".json"

/-- Which items stand where in a suite. -/
structure Layout where
  inventory : List Value
  groups : List (List Value × List Value)
  mapping : List Value
  index : String → List Value
  shards : String → List (Path × List Value)
  holdsInventory : HoldsInventory rt tree inventory
  holdsGroups : List.Forall₂ (HoldsGroup rt tree) (groupFiles tree) groups
  holdsMappings : HoldsMappings rt tree mapping
  holdsIndex : ∀ interface ∈ interfaces,
    HoldsIndex rt tree interface (index interface) (shards interface)

end Holds

section

variable {Bytes : Type} [UnicodeDatabase] {rt : Runtime Bytes} {tree : FileTree Bytes}

namespace Layout

/-- All behaviors of the suite. -/
def behaviors (layout : Layout rt tree) : List Value :=
  layout.inventory ++ layout.groups.flatMap Prod.fst

/-- All mappings. -/
def mappings (layout : Layout rt tree) : List Value :=
  layout.mapping ++ layout.groups.flatMap Prod.snd

/-- All requirements of an interface. -/
def requirements (layout : Layout rt tree) (interface : String) : List Value :=
  layout.index interface ++ (layout.shards interface).flatMap Prod.snd

end Layout

/-! ## Scenario groups and behaviors -/

/-- The scenario group of a file. -/
def readGroup (rt : Runtime Bytes) (tree : FileTree Bytes) (path : Path) :
    Except PyException ScenarioGroup := do
  return ScenarioGroup.ofValue (← parseScenarioGroup (← loadJson rt tree path) (tree.text path))

omit [UnicodeDatabase] in
/-- What the glob yields are the scenario groups, unless it yields a directory. -/
theorem rglob_eq_groupFiles
    (h : ∀ path ∈ tree.rglob ["scenario-data"] ".json", path ∈ tree.files.keys) :
    tree.rglob ["scenario-data"] ".json" = groupFiles tree := by
  refine FileTree.below_eq (List.nodup_dedup _) tree.files.keys_nodup fun path => ?_
  constructor
  · intro hpath
    exact FileTree.mem_below.mpr ⟨h path hpath, (FileTree.mem_below.mp hpath).2⟩
  · intro hpath
    obtain ⟨hkey, hname⟩ := FileTree.mem_below.mp hpath
    exact FileTree.mem_below.mpr ⟨FileTree.mem_entries.mpr (.inl hkey), hname⟩

omit [UnicodeDatabase] in
theorem FileTree.Plain.rglob_eq (h : tree.Plain) :
    tree.rglob ["scenario-data"] ".json" = groupFiles tree := by
  refine rglob_eq_groupFiles fun path hpath => ?_
  obtain ⟨hentry, hprefix, hlength, hname⟩ := mem_rglob.mp hpath
  exact h path hentry (.inr (.inl ⟨_, by decide, hprefix, hlength, hname⟩))

/-- Where the documents have been read, they are the scenario groups. -/
theorem readGroups_of_documents {groups : List ScenarioGroup}
    (h : documents rt tree = .ok groups) :
    (groupFiles tree).mapM (readGroup rt tree) = .ok groups := by
  rw [← rglob_eq_groupFiles fun path hpath => ?_]
  · exact h
  · obtain ⟨_, -, hgroup⟩ := exists_mem_of_mapM h hpath
    obtain ⟨_, hload, -⟩ := bind_eq_ok.mp hgroup
    exact mem_keys_of_loadJson hload

theorem HoldsGroup.of_readGroup {path : Path} {group : List Value × List Value}
    (h : HoldsGroup rt tree path group) {g : ScenarioGroup}
    (hread : readGroup rt tree path = .ok g) :
    ∃ parsed, group.1.mapM (parseBehavior · "") = .ok parsed ∧
      (∀ item ∈ group.2, TypeHint.coverageMapping.Accepts item) ∧
      g.behaviors = parsed.map Behavior.ofValue ∧
      g.mappings = group.2.map CoverageMapping.ofValue := by
  obtain ⟨entries, hload, hbehaviors, hmappings, _⟩ := h
  obtain ⟨json, hjson, hread⟩ := bind_eq_ok.mp hread
  obtain rfl := Except.ok.inj (hload.symm.trans hjson)
  obtain ⟨r, hr, hread⟩ := bind_eq_ok.mp hread
  cases hread
  obtain ⟨parsed, hparsed, rfl, _, hall, _⟩ :=
    (parseScenarioGroup_eq_ok (isJson_of_loadJson hload) hbehaviors hmappings).mp hr
  refine ⟨parsed, hparsed, hall, ?_, ?_⟩
  · show ((Value.list? _ "behaviors").getD []).map Behavior.ofValue = _
    rw [behaviors_of_parsed]
    rfl
  · show ((Value.list? _ "mappings").getD []).map CoverageMapping.ofValue = _
    rw [Value.list?, Value.field?, lookup_setEntries, if_neg (by decide), hmappings]
    rfl

theorem HoldsGroup.readGroup_isOk {path : Path} {group : List Value × List Value}
    (h : HoldsGroup rt tree path group) {parsed : List Value}
    (hparsed : group.1.mapM (parseBehavior · "") = .ok parsed)
    (hdistinct : DistinctIds Value.ident parsed)
    (hall : ∀ item ∈ group.2, TypeHint.coverageMapping.Accepts item) :
    ∃ g, readGroup rt tree path = .ok g := by
  obtain ⟨entries, hload, hbehaviors, hmappings, empty, hempty⟩ := h
  have hjson := isJson_of_loadJson hload
  obtain ⟨henvelope, hclient⟩ := scenarioGroup_envelope hjson hempty
  have hgroup : parseScenarioGroup (.dict entries) (tree.text path) = .ok _ :=
    (parseScenarioGroup_eq_ok hjson hbehaviors hmappings).mpr
      ⟨parsed, hparsed, rfl, hdistinct, hall, henvelope, hclient⟩
  exact ⟨_, bind_eq_ok.mpr ⟨_, hload, bind_eq_ok.mpr ⟨_, hgroup, rfl⟩⟩⟩

/-- The scenario groups of a suite, read file by file. -/
theorem of_readGroups {paths : List Path} {held : List (List Value × List Value)}
    (h : List.Forall₂ (HoldsGroup rt tree) paths held) {groups : List ScenarioGroup}
    (hread : paths.mapM (readGroup rt tree) = .ok groups) :
    ∃ parsed, (held.flatMap Prod.fst).mapM (parseBehavior · "") = .ok parsed ∧
      (∀ item ∈ held.flatMap Prod.snd, TypeHint.coverageMapping.Accepts item) ∧
      (groups.map ScenarioGroup.behaviors).flatten = parsed.map Behavior.ofValue ∧
      (groups.map ScenarioGroup.mappings).flatten =
        (held.flatMap Prod.snd).map CoverageMapping.ofValue := by
  induction h generalizing groups with
  | nil =>
      cases hread
      exact ⟨[], rfl, by simp, rfl, rfl⟩
  | @cons path group paths held hgroup _ ih =>
      rw [List.mapM_cons] at hread
      obtain ⟨g, hg, hread⟩ := bind_eq_ok.mp hread
      obtain ⟨rest, hrest, hread⟩ := bind_eq_ok.mp hread
      cases hread
      obtain ⟨parsed, hparsed, hall, hbehaviors, hmappings⟩ := hgroup.of_readGroup hg
      obtain ⟨parsed', hparsed', hall', hbehaviors', hmappings'⟩ := ih hrest
      refine ⟨parsed ++ parsed', ?_, ?_, ?_, ?_⟩
      · rw [List.flatMap_cons, mapM_append_eq_ok]
        exact ⟨parsed, parsed', hparsed, hparsed', rfl⟩
      · rw [List.flatMap_cons]
        exact List.forall_mem_append.mpr ⟨hall, hall'⟩
      · rw [List.map_cons, List.flatten_cons, List.map_append, hbehaviors, hbehaviors']
      · rw [List.map_cons, List.flatten_cons, List.flatMap_cons, List.map_append, hmappings,
          hmappings']

theorem readGroups_isOk {paths : List Path} {held : List (List Value × List Value)}
    (h : List.Forall₂ (HoldsGroup rt tree) paths held) {parsed : List Value}
    (hparsed : (held.flatMap Prod.fst).mapM (parseBehavior · "") = .ok parsed)
    (hdistinct : DistinctIds Value.ident parsed)
    (hall : ∀ item ∈ held.flatMap Prod.snd, TypeHint.coverageMapping.Accepts item) :
    ∃ groups, paths.mapM (readGroup rt tree) = .ok groups := by
  induction h generalizing parsed with
  | nil => exact ⟨[], rfl⟩
  | @cons path group paths held hgroup _ ih =>
      rw [List.flatMap_cons, mapM_append_eq_ok] at hparsed
      obtain ⟨first, rest, hfirst, hrest, rfl⟩ := hparsed
      rw [List.flatMap_cons, List.forall_mem_append] at hall
      obtain ⟨g, hg⟩ := hgroup.readGroup_isOk hfirst
        (hdistinct.sublist (List.sublist_append_left first rest)) hall.1
      obtain ⟨groups, hgroups⟩ := ih hrest
        (hdistinct.sublist (List.sublist_append_right first rest)) hall.2
      refine ⟨g :: groups, ?_⟩
      rw [List.mapM_cons]
      exact bind_eq_ok.mpr ⟨g, hg, bind_eq_ok.mpr ⟨groups, hgroups, rfl⟩⟩

/-- **The loaders of behaviors and mappings, by the items alone.** -/
structure LoadsCases (layout : Layout rt tree) (behaviors : List Behavior)
    (mappings : List CoverageMapping) : Prop where
  parsed : ∃ parsed, layout.behaviors.mapM (parseBehavior · "") = .ok parsed ∧
    DistinctIds Value.ident parsed ∧ behaviors = parsed.map Behavior.ofValue
  accepted : ∀ item ∈ layout.mappings, TypeHint.coverageMapping.Accepts item
  mappings_eq : mappings = layout.mappings.map CoverageMapping.ofValue

theorem Layout.of_load (layout : Layout rt tree) {behaviors : List Behavior}
    {mappings : List CoverageMapping} (hbehaviors : loadBehaviors rt tree = .ok behaviors)
    (hmappings : loadMappings rt tree = .ok mappings) : LoadsCases layout behaviors mappings := by
  obtain ⟨entries, hload, hitems, empty, hempty⟩ := layout.holdsInventory
  obtain ⟨entries', hload', hitems', empty', hempty'⟩ := layout.holdsMappings
  obtain ⟨json, hjson, h⟩ := bind_eq_ok.mp hbehaviors
  obtain rfl := Except.ok.inj (hload.symm.trans hjson)
  obtain ⟨inventory, hinventory, h⟩ := bind_eq_ok.mp h
  obtain ⟨groups, hgroups, h⟩ := bind_eq_ok.mp h
  obtain ⟨d, hdistinct, h⟩ := bind_eq_ok.mp h
  cases h
  obtain ⟨own, hown, rfl, _⟩ :=
    (parseInventory_eq_ok (isJson_of_loadJson hload) hitems).mp hinventory
  obtain ⟨parsed, hparsed, hall, hgroupBehaviors, hgroupMappings⟩ :=
    of_readGroups layout.holdsGroups (readGroups_of_documents hgroups)
  obtain ⟨json', hjson', h'⟩ := bind_eq_ok.mp hmappings
  obtain rfl := Except.ok.inj (hload'.symm.trans hjson')
  obtain ⟨document, hdocument, h'⟩ := bind_eq_ok.mp h'
  obtain ⟨groups', hgroups', h'⟩ := bind_eq_ok.mp h'
  obtain rfl := Except.ok.inj (hgroups.symm.trans hgroups')
  cases h'
  obtain ⟨rfl, _, hcases⟩ :=
    (parseMappings_eq_ok (isJson_of_loadJson hload') hitems').mp hdocument
  have hbehaviorList : ((Value.dict (Dict.setEntries "behaviors" (.list own) entries)).list?
      "behaviors").getD [] = own := by rw [behaviors_of_parsed]; rfl
  have hcaseList : ((Value.dict entries').list? "cases").getD [] = layout.mapping := by
    rw [Value.list?, Value.field?, hitems']
    rfl
  rw [hbehaviorList, hgroupBehaviors, ← List.map_append] at hdistinct ⊢
  refine ⟨⟨own ++ parsed, mapM_append_eq_ok.mpr ⟨own, parsed, hown, hparsed, rfl⟩, ?_, rfl⟩,
    List.forall_mem_append.mpr ⟨hcases, hall⟩, ?_⟩
  · have hids : DistinctIds Behavior.id ((own ++ parsed).map Behavior.ofValue) :=
      indexed_isOk_iff.mp ⟨d, hdistinct⟩
    have hparsedIds : DistinctIds (fun item => (Behavior.ofValue item).id) (own ++ parsed) :=
      distinctIds_map.mp hids
    exact hparsedIds
  · rw [hcaseList, hgroupMappings, Layout.mappings, List.map_append]

theorem Layout.load_isOk (layout : Layout rt tree) (hplain : tree.Plain) {parsed : List Value}
    (hparsed : layout.behaviors.mapM (parseBehavior · "") = .ok parsed)
    (hdistinct : DistinctIds Value.ident parsed)
    (hall : ∀ item ∈ layout.mappings, TypeHint.coverageMapping.Accepts item) :
    (∃ behaviors, loadBehaviors rt tree = .ok behaviors) ∧
      ∃ mappings, loadMappings rt tree = .ok mappings := by
  obtain ⟨entries, hload, hitems, empty, hempty⟩ := layout.holdsInventory
  obtain ⟨entries', hload', hitems', empty', hempty'⟩ := layout.holdsMappings
  have hjson := isJson_of_loadJson hload
  have hjson' := isJson_of_loadJson hload'
  obtain ⟨own, rest, hown, hrest, rfl⟩ := mapM_append_eq_ok.mp hparsed
  obtain ⟨hcases, hgroupMappings⟩ := List.forall_mem_append.mp hall
  obtain ⟨groups, hgroups⟩ := readGroups_isOk layout.holdsGroups hrest
    (hdistinct.sublist (List.sublist_append_right own rest)) hgroupMappings
  have hdocuments : documents rt tree = .ok groups := by
    unfold documents
    rw [hplain.rglob_eq]
    exact hgroups
  have hinventory : parseInventory (.dict entries) (tree.text ["inventory.json"]) = .ok _ :=
    (parseInventory_eq_ok hjson hitems).mpr ⟨own, hown, rfl,
      hdistinct.sublist (List.sublist_append_left own rest), inventory_envelope hjson hempty⟩
  have hdocument : parseMappings (.dict entries') (tree.text ["coverage-data", "mapping.json"]) =
      .ok _ := (parseMappings_eq_ok hjson' hitems').mpr
    ⟨rfl, mappings_envelope hjson' hempty', hcases⟩
  obtain ⟨read, hread, _, hbehaviors, _⟩ := of_readGroups layout.holdsGroups hgroups
  obtain rfl := Except.ok.inj (hrest.symm.trans hread)
  have hids : DistinctIds Behavior.id ((own ++ rest).map Behavior.ofValue) :=
    distinctIds_map.mpr hdistinct
  obtain ⟨d, hd⟩ : ∃ d, indexed "behavior" Behavior.id ((own ++ rest).map Behavior.ofValue) =
    .ok d :=
    indexed_isOk_iff.mpr hids
  refine ⟨⟨_, bind_eq_ok.mpr ⟨_, hload, bind_eq_ok.mpr ⟨_, hinventory, bind_eq_ok.mpr
    ⟨groups, hdocuments, bind_eq_ok.mpr ⟨d, ?_, rfl⟩⟩⟩⟩⟩,
    ⟨_, bind_eq_ok.mpr ⟨_, hload', bind_eq_ok.mpr ⟨_, hdocument, bind_eq_ok.mpr
      ⟨groups, hdocuments, rfl⟩⟩⟩⟩⟩
  rw [behaviors_of_parsed, hbehaviors, ← List.map_append]
  exact hd

/-! ## Requirements -/

section

omit [UnicodeDatabase]

variable {path : Path} {interface : String} {includes : Option (List String)} {items : List Value}
  (h : HoldsRequirements rt tree path interface includes items)

include h

theorem HoldsRequirements.of_read {document : RequirementsDocument}
    (hread : readRequirements rt tree path = .ok document) :
    (∀ item ∈ items, TypeHint.requirement.Accepts item) ∧ DistinctIds Value.ident items ∧
      document.scope = interface ∧ document.includes = includes ∧
      document.requirements = items.map Requirement.ofValue := by
  obtain ⟨entries, hload, hitems, empty, hempty, hscope, hincludes⟩ := h
  have hjson := isJson_of_loadJson hload
  obtain ⟨json, hloaded, hread⟩ := bind_eq_ok.mp hread
  obtain rfl := Except.ok.inj (hload.symm.trans hloaded)
  obtain ⟨r, hr, hread⟩ := bind_eq_ok.mp hread
  cases hread
  obtain ⟨rfl, _, hall, hdistinct⟩ := (parseRequirements_eq_ok hjson hitems).mp hr
  obtain ⟨rfl, _⟩ := requirements_envelope hjson hempty
  have hsame : ∀ key, "requirements" ≠ key →
      (Value.dict (emptied "requirements" entries)).field? key = (Value.dict entries).field? key :=
    fun key hkey => lookup_emptied_ne entries hkey
  refine ⟨hall, hdistinct, ?_, ?_, ?_⟩
  · rw [← hscope, RequirementsDocument.ofValue, RequirementsDocument.ofValue,
      Value.str?, Value.str?,
      hsame "scope" (by decide)]
  · rw [← hincludes]
    show Value.strs? _ "includes" = Value.strs? _ "includes"
    unfold Value.strs? Value.list?
    rw [hsame "includes" (by decide)]
  · show (((entries.lookup "requirements").bind _).getD []).map _ = _
    rw [hitems]
    rfl

theorem HoldsRequirements.read_isOk (hall : ∀ item ∈ items, TypeHint.requirement.Accepts item)
    (hdistinct : DistinctIds Value.ident items) :
    ∃ document, readRequirements rt tree path = .ok document := by
  obtain ⟨entries, hload, hitems, empty, hempty, _, _⟩ := h
  have hjson := isJson_of_loadJson hload
  have hparsed : parseRequirements (.dict entries) (tree.text path) = .ok _ :=
    (parseRequirements_eq_ok hjson hitems).mpr
      ⟨rfl, (requirements_envelope hjson hempty).2, hall, hdistinct⟩
  exact ⟨_, bind_eq_ok.mpr ⟨_, hload, bind_eq_ok.mpr ⟨_, hparsed, rfl⟩⟩⟩

end

/-- One turn of the loop of `load_requirements`. -/
def includeShard (rt : Runtime Bytes) (tree : FileTree Bytes) (path : Path) (scope : String)
    (state : List Path × RequirementsDocument) (text : String) :
    Except PyException (List Path × RequirementsDocument) := do
  let shard ← includedShard tree path text
  raiseIf (shard ∈ state.1)
    (validationError s!"{tree.text path}: duplicate requirement include: {text}")
  let document ← readRequirements rt tree shard
  raiseIf (document.includes.isSome) (validationError
    s!"{tree.text shard}: recursive requirement includes are not supported")
  raiseIf (document.scope ≠ scope ∨
      document.requirements.any (fun item => item.interface ≠ scope) = true)
    (validationError s!"{tree.text shard}: requirement shard has incorrect interface scope")
  return (shard :: state.1, { state.2 with
    requirements := state.2.requirements ++ document.requirements
    limitations := state.2.limitations ++ document.limitations })

section

omit [UnicodeDatabase]

variable {path : Path} {interface : String}

theorem of_includeShards {texts : List String} {shards : List (Path × List Value)}
    (htexts : texts.mapM (includedShard tree path) = .ok (shards.map Prod.fst))
    (hshards : ∀ shard ∈ shards, HoldsRequirements rt tree shard.1 interface none shard.2)
    {state state' : List Path × RequirementsDocument}
    (h : texts.foldlM (includeShard rt tree path interface) state = .ok state') :
    (∀ item ∈ shards.flatMap Prod.snd, TypeHint.requirement.Accepts item) ∧
      state'.2.scope = state.2.scope ∧ state'.2.requirements =
        state.2.requirements ++ (shards.flatMap Prod.snd).map Requirement.ofValue := by
  induction texts generalizing shards state with
  | nil =>
      cases h
      obtain rfl : shards = [] := by simpa using (Except.ok.inj htexts).symm
      simp
  | cons text texts ih =>
      rw [List.mapM_cons] at htexts
      obtain ⟨shard, hshard, htexts⟩ := bind_eq_ok.mp htexts
      obtain ⟨rest, hrest, htexts⟩ := bind_eq_ok.mp htexts
      cases shards with
      | nil => cases htexts
      | cons first shards =>
          obtain ⟨rfl, rfl⟩ := List.cons.inj (Except.ok.inj htexts)
          obtain ⟨hfirst, hshards⟩ := List.forall_mem_cons.mp hshards
          rw [List.foldlM_cons] at h
          obtain ⟨next, hnext, h⟩ := bind_eq_ok.mp h
          obtain ⟨shard, hincluded, hnext⟩ := bind_eq_ok.mp hnext
          obtain rfl := Except.ok.inj (hshard.symm.trans hincluded)
          obtain ⟨_, _, hnext⟩ := bind_eq_ok.mp hnext
          obtain ⟨document, hdocument, hnext⟩ := bind_eq_ok.mp hnext
          obtain ⟨_, _, hnext⟩ := bind_eq_ok.mp hnext
          obtain ⟨_, _, hnext⟩ := bind_eq_ok.mp hnext
          cases hnext
          obtain ⟨hall, _, _, _, hitems⟩ := hfirst.of_read hdocument
          obtain ⟨hall', hscope, hrequirements⟩ := ih hrest hshards h
          rw [List.flatMap_cons]
          refine ⟨List.forall_mem_append.mpr ⟨hall, hall'⟩, hscope, ?_⟩
          rw [hrequirements, hitems, List.map_append, List.append_assoc]

theorem includeShards_isOk {texts : List String} {shards : List (Path × List Value)}
    (htexts : texts.mapM (includedShard tree path) = .ok (shards.map Prod.fst))
    (hshards : ∀ shard ∈ shards, HoldsRequirements rt tree shard.1 interface none shard.2)
    (hnodup : (shards.map Prod.fst).Nodup)
    (hall : ∀ item ∈ shards.flatMap Prod.snd, TypeHint.requirement.Accepts item)
    (hdistinct : DistinctIds Value.ident (shards.flatMap Prod.snd))
    (hinterface : ∀ item ∈ shards.flatMap Prod.snd,
      (Requirement.ofValue item).interface = interface)
    (state : List Path × RequirementsDocument)
    (hnew : ∀ shard ∈ shards.map Prod.fst, shard ∉ state.1) :
    ∃ state', texts.foldlM (includeShard rt tree path interface) state = .ok state' := by
  induction texts generalizing shards state with
  | nil => exact ⟨state, rfl⟩
  | cons text texts ih =>
      rw [List.mapM_cons] at htexts
      obtain ⟨shard, hshard, htexts⟩ := bind_eq_ok.mp htexts
      obtain ⟨rest, hrest, htexts⟩ := bind_eq_ok.mp htexts
      cases shards with
      | nil => cases htexts
      | cons first shards =>
          obtain ⟨rfl, rfl⟩ := List.cons.inj (Except.ok.inj htexts)
          obtain ⟨hfirst, hshards⟩ := List.forall_mem_cons.mp hshards
          rw [List.flatMap_cons, List.forall_mem_append] at hall hinterface
          rw [List.flatMap_cons] at hdistinct
          rw [List.map_cons, List.nodup_cons] at hnodup
          rw [List.map_cons, List.forall_mem_cons] at hnew
          obtain ⟨document, hdocument⟩ := hfirst.read_isOk hall.1
            (hdistinct.sublist (List.sublist_append_left ..))
          obtain ⟨_, _, hscope, hincludes, hitems⟩ := hfirst.of_read hdocument
          have hother : document.requirements.any (fun item => item.interface ≠ interface) =
            false := by
            rw [hitems, List.any_map, List.any_eq_false]
            intro item hitem
            simpa using hinterface.1 item hitem
          -- The shard that was read stands among the old ones for those that follow.
          obtain ⟨state', hstate'⟩ := ih hrest hshards hnodup.2 hall.2
            (hdistinct.sublist (List.sublist_append_right ..)) hinterface.2
            (first.1 :: state.1, { state.2 with
              requirements := state.2.requirements ++ document.requirements
              limitations := state.2.limitations ++ document.limitations })
            fun other hother hmem => by
              rcases List.mem_cons.mp hmem with rfl | hmem
              · exact hnodup.1 hother
              · exact hnew.2 other hother hmem
          refine ⟨state', ?_⟩
          rw [List.foldlM_cons]
          refine bind_eq_ok.mpr ⟨_, bind_eq_ok.mpr ⟨_, hshard, bind_eq_ok.mpr
            ⟨(), raiseIf_of_not hnew.1, bind_eq_ok.mpr ⟨document, hdocument, bind_eq_ok.mpr
              ⟨(), raiseIf_of_not ?_, bind_eq_ok.mpr ⟨(), raiseIf_of_not ?_, rfl⟩⟩⟩⟩⟩, hstate'⟩
          · rw [hincludes]
            simp
          · rw [hscope, hother]
            simp

end

/-- What an interface reads, by the items alone. -/
theorem Layout.of_readInterface (layout : Layout rt tree) {surfaces : Dict String Surface}
    {interface : String} (hinterface : interface ∈ interfaces)
    {result : List Requirement × List String}
    (h : readInterface rt tree surfaces interface = .ok result) :
    (∀ item ∈ layout.requirements interface, TypeHint.requirement.Accepts item ∧
      checkRequirement surfaces interface (Requirement.ofValue item) = .ok ()) ∧
    result.1 = (layout.requirements interface).map Requirement.ofValue := by
  obtain ⟨includes, hindex, htexts, hnodup, hshards⟩ := layout.holdsIndex interface hinterface
  obtain ⟨document, hdocument, h⟩ := bind_eq_ok.mp h
  obtain ⟨_, _, h⟩ := bind_eq_ok.mp h
  obtain ⟨_, hchecks, h⟩ := bind_eq_ok.mp h
  cases h
  obtain ⟨index, hread, hdocument⟩ := bind_eq_ok.mp hdocument
  obtain ⟨state, hloop, hdocument⟩ := bind_eq_ok.mp hdocument
  obtain ⟨_, _, hdocument⟩ := bind_eq_ok.mp hdocument
  obtain rfl := Except.ok.inj hdocument
  obtain ⟨hall, _, hscope, hincludes, hitems⟩ := hindex.of_read hread
  rw [hincludes, hscope] at hloop
  obtain ⟨hall', _, hrequirements⟩ := of_includeShards htexts hshards hloop
  have hresult : state.2.requirements =
      (layout.requirements interface).map Requirement.ofValue := by
    rw [hrequirements, hitems, Layout.requirements, List.map_append]
  refine ⟨fun item hitem => ⟨?_, ?_⟩, hresult⟩
  · exact List.forall_mem_append.mpr ⟨hall, hall'⟩ item hitem
  · rw [hresult] at hchecks
    exact forM_eq_ok.mp hchecks _ (List.mem_map_of_mem hitem)

theorem Layout.readInterface_isOk (layout : Layout rt tree) {surfaces : Dict String Surface}
    {interface : String} (hinterface : interface ∈ interfaces)
    (hall : ∀ item ∈ layout.requirements interface, TypeHint.requirement.Accepts item ∧
      checkRequirement surfaces interface (Requirement.ofValue item) = .ok ())
    (hdistinct : DistinctIds Value.ident (layout.requirements interface)) :
    ∃ result, readInterface rt tree surfaces interface = .ok result := by
  obtain ⟨includes, hindex, htexts, hnodup, hshards⟩ := layout.holdsIndex interface hinterface
  obtain ⟨hallIndex, hallShards⟩ := List.forall_mem_append.mp hall
  obtain ⟨index, hread⟩ := hindex.read_isOk (fun item hitem => (hallIndex item hitem).1)
    (hdistinct.sublist (List.sublist_append_left ..))
  obtain ⟨_, _, hscope, hincludes, hitems⟩ := hindex.of_read hread
  have hchecked : ∀ item ∈ (layout.shards interface).flatMap Prod.snd,
      (Requirement.ofValue item).interface = interface := by
    intro item hitem
    obtain ⟨_, hfirst, _⟩ := bind_eq_ok.mp (hallShards item hitem).2
    have hfirst := raiseIf_eq_ok.mp hfirst
    simp only [not_or, ne_eq, not_not] at hfirst
    exact hfirst.1
  obtain ⟨state, hloop⟩ := includeShards_isOk htexts hshards hnodup
    (fun item hitem => (hallShards item hitem).1)
    (hdistinct.sublist (List.sublist_append_right ..)) hchecked ([], index)
    (fun _ _ => List.not_mem_nil)
  obtain ⟨_, hstateScope, hrequirements⟩ := of_includeShards htexts hshards hloop
  have hresult : state.2.requirements =
      (layout.requirements interface).map Requirement.ofValue := by
    rw [hrequirements, hitems, Layout.requirements, List.map_append]
  have hids : DistinctIds Requirement.id state.2.requirements := by
    rw [hresult]
    exact distinctIds_map.mpr hdistinct
  obtain ⟨d, hd⟩ : ∃ d, indexed "requirement" Requirement.id state.2.requirements = .ok d :=
    indexed_isOk_iff.mpr hids
  have hload : loadRequirements rt tree (indexPath interface) = .ok state.2 := by
    refine bind_eq_ok.mpr ⟨index, hread, bind_eq_ok.mpr ⟨state, ?_, bind_eq_ok.mpr ⟨d, hd, rfl⟩⟩⟩
    rw [hincludes, hscope]
    exact hloop
  refine ⟨_, bind_eq_ok.mpr ⟨state.2, hload, bind_eq_ok.mpr ⟨(), raiseIf_of_not ?_,
    bind_eq_ok.mpr ⟨(), forM_eq_ok.mpr fun r hr => ?_, rfl⟩⟩⟩⟩
  · rw [hstateScope, hscope]
    exact not_not.mpr rfl
  · rw [hresult] at hr
    obtain ⟨item, hitem, rfl⟩ := List.mem_map.mp hr
    exact (hall item hitem).2

end

end FlatpakBlackbox
