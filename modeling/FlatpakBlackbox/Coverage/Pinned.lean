import FlatpakBlackbox.Coverage.Includes
import FlatpakBlackbox.Coverage.Reports
import FlatpakBlackbox.Schema.Paths

set_option autoImplicit false

/-! # What the definition pins

`snapshot` hashes files by patterns of their names, the loaders find the files they read by other
rules (directories searched at any depth, include lists with their own path rules, the names of
clients and handlers). Every file that a loader reads matches a pattern, so two suites with the
same hashes load the same model. One thing is not hashed: where the suite lies. An include that
climbs above the root of the file system names another shard in a suite that lies deeper.
-/

namespace FlatpakBlackbox

open PyLib PyException

/-! ## Client sources -/

section Clients

variable {Bytes : Type}

/-- One turn of the loop of `extension_clients`. -/
def addClient (tree : FileTree Bytes) (clients : Dict String Path) (group : ScenarioGroup) :
    Except PyException (Dict String Path) :=
  match group.client with
  | none => .ok clients
  | some client => do
      let path := [client.source]
      raiseIf (isClientEntry client.entry = false)
        (valueError s!"invalid client entry point: {client.entry}")
      raiseIf (isClientSource client.source = false)
        (valueError s!"invalid client source: {client.source}")
      raiseIf ((tree.files.get? path).isNone = true ∨
          (clients.get? client.entry).any (fun other => other ≠ path) = true)
        (valueError s!"missing or conflicting client source: {client.source}")
      return clients.set client.entry path

/-- `extension_clients(suite)`: the sources that are linked into the library client, with their
entry points. -/
def extensionClients [UnicodeDatabase] (rt : Runtime Bytes) (tree : FileTree Bytes) :
    Except PyException (List (Path × String)) := do
  let clients ← (← documents rt tree).foldlM (addClient tree) Dict.empty
  return (clients.entries.insertionSort fun a b => a.1 ≤ b.1).map fun entry => (entry.2, entry.1)

end Clients

/-! ## The hashed files -/

/-- The names of the files that `snapshot` hashes in every suite. -/
def Hashed (path : Path) : Prop :=
  path = ["inventory.json"] ∨
  (∃ directory ∈ ["coverage-data", "scenario-data"], [directory].isPrefixOf path = true ∧
    1 < path.length ∧ endsWith (FileTree.name path) ".json" = true) ∨
  (path.dropLast = ["ci"] ∧ ∃ suffix ∈ [".py", ".sh"],
    endsWith (FileTree.name path) suffix = true) ∨
  (path.dropLast = [] ∧ ∃ suffix ∈ [".py", ".c", ".h"],
    endsWith (FileTree.name path) suffix = true ∧
      (suffix = ".py" → startsWith (FileTree.name path) "test_" = false))

/-- No directory has a hashed name: all that the globs of `snapshot` yield can be read. -/
def FileTree.Plain {Bytes : Type} (tree : FileTree Bytes) : Prop :=
  ∀ path ∈ tree.entries, Hashed path → path ∈ tree.files.keys

/-- The module of a handler. -/
def handlerPath (handler : String) : Path := [(partition handler ':').1 ++ ".py"]

section

variable {Bytes : Type} {tree : FileTree Bytes} {cases : Dict CaseKey Behavior}

theorem mem_rglob {directory path : Path} {suffix : String} :
    path ∈ tree.rglob directory suffix ↔ path ∈ tree.entries ∧
      directory.isPrefixOf path = true ∧ directory.length < path.length ∧
        endsWith (FileTree.name path) suffix = true := FileTree.mem_below

theorem mem_glob {directory path : Path} {suffix : String} :
    path ∈ tree.glob directory suffix ↔ path ∈ tree.entries ∧
      path.dropLast = directory ∧ endsWith (FileTree.name path) suffix = true := by
  simp only [FileTree.glob, List.mem_filter, Bool.and_eq_true, decide_eq_true_eq, and_assoc]
  refine and_congr_right fun hpath => and_congr_right fun _ => ?_
  exact and_iff_left (FileTree.ne_nil_of_mem_entries hpath)

/-- The paths of a snapshot: the inventory, the entries of the suite with a hashed name, and the
modules of the handlers. -/
theorem mem_snapshotPaths {path : Path} : path ∈ snapshotPaths tree cases ↔
    path = ["inventory.json"] ∨ (path ∈ tree.entries ∧ Hashed path) ∨
      ∃ key case handler, cases.get? key = some case ∧ case.handler = some handler ∧
        path = handlerPath handler := by
  unfold snapshotPaths
  rw [List.mem_insertionSort, List.mem_dedup]
  simp only [List.mem_append, List.mem_cons, List.mem_flatMap, List.mem_filter, List.mem_filterMap,
    Dict.mem_values_iff, Option.map_eq_some_iff, List.not_mem_nil, or_false]
  constructor
  · rintro (((((rfl | hdata) | hgroup) | ⟨suffix, hsuffix, hci⟩) | ⟨suffix, hsuffix, htop, htest⟩) |
      ⟨case, ⟨key, hcase⟩, handler, hhandler, hmodule⟩)
    · exact .inl rfl
    · obtain ⟨hpath, hprefix, hlength, hname⟩ := mem_rglob.mp hdata
      exact .inr (.inl ⟨hpath, .inr (.inl ⟨_, by decide, hprefix, hlength, hname⟩)⟩)
    · obtain ⟨hpath, hprefix, hlength, hname⟩ := mem_rglob.mp hgroup
      exact .inr (.inl ⟨hpath, .inr (.inl ⟨_, by decide, hprefix, hlength, hname⟩)⟩)
    · obtain ⟨hpath, hci, hname⟩ := mem_glob.mp hci
      exact .inr (.inl ⟨hpath, .inr (.inr (.inl ⟨hci, suffix, by simpa using hsuffix, hname⟩))⟩)
    · obtain ⟨hpath, htop, hname⟩ := mem_glob.mp htop
      refine .inr (.inl ⟨hpath, .inr (.inr (.inr ⟨htop, suffix, by simpa using hsuffix, hname,
        fun hpy => ?_⟩))⟩)
      simpa [hpy] using htest
    · exact .inr (.inr ⟨key, case, handler, hcase, hhandler, hmodule.symm⟩)
  · rintro (rfl | ⟨hpath, h⟩ | ⟨key, case, handler, hcase, hhandler, rfl⟩)
    · exact .inl (.inl (.inl (.inl (.inl rfl))))
    · rcases h with rfl | ⟨directory, hdirectory, hprefix, hlength, hname⟩ |
        ⟨hci, suffix, hsuffix, hname⟩ | ⟨htop, suffix, hsuffix, hname, htest⟩
      · exact .inl (.inl (.inl (.inl (.inl rfl))))
      · have hglob := mem_rglob.mpr ⟨hpath, hprefix, hlength, hname⟩
        rcases List.mem_cons.mp hdirectory with rfl | hdirectory
        · exact .inl (.inl (.inl (.inl (.inr hglob))))
        · rw [List.mem_singleton.mp hdirectory] at hglob
          exact .inl (.inl (.inl (.inr hglob)))
      · exact .inl (.inl (.inr ⟨suffix, by simpa using hsuffix, mem_glob.mpr ⟨hpath, hci, hname⟩⟩))
      · refine .inl (.inr ⟨suffix, by simpa using hsuffix, mem_glob.mpr ⟨hpath, htop, hname⟩, ?_⟩)
        by_cases hpy : suffix = ".py"
        · rw [htest hpy]
          simp
        · simp [hpy]
    · exact .inr ⟨case, ⟨key, hcase⟩, handler, hhandler, rfl⟩

end

/-! ## Equal hashes, equal files -/

/-- `str(path)` below the suite determines the path. -/
theorem intercalate_injective {path path' : Path} (hpath : path ≠ [])
    (hparts : path.all isComponent = true) (hpath' : path' ≠ [])
    (hparts' : path'.all isComponent = true)
    (h : "/".intercalate path = "/".intercalate path') : path = path' := by
  have hsplit : ∀ {parts : Path}, parts ≠ [] → parts.all isComponent = true →
      ("/".intercalate parts).toList.splitOn '/' = parts.map String.toList := by
    intro parts hne hall
    rw [String.toList_intercalate]
    refine List.splitOn_intercalate '/' (fun piece hpiece => ?_) (by simpa using hne)
    obtain ⟨part, hpart, rfl⟩ := List.mem_map.mp hpiece
    have hcomponent := List.all_eq_true.mp hall part hpart
    simpa [isComponent] using (Bool.and_eq_true_iff.mp hcomponent).2
  have hlists : path.map String.toList = path'.map String.toList := by
    rw [← hsplit hpath hparts, ← hsplit hpath' hparts', h]
  exact List.map_injective_iff.mpr (fun _ _ => String.toList_inj.mp) hlists

section

variable {Bytes : Type} {rt : Runtime Bytes} {t t₁ t₂ : FileTree Bytes}
  {c c₁ c₂ : Dict CaseKey Behavior} {r r₁ r₂ : String} {d d₁ d₂ : Definition}

theorem read_eq_ok {path : Path} {bytes : Bytes} :
    t.read path = .ok bytes ↔ t.files.get? path = some bytes := by
  unfold FileTree.read
  cases t.files.get? path with
  | none => simp
  | some content => simp

theorem mem_keys_of_loadJson {path : Path} {v : Value} (h : loadJson rt t path = .ok v) :
    path ∈ t.files.keys := by
  obtain ⟨bytes, hread, -⟩ := bind_eq_ok.mp h
  exact (Dict.mem_keys_iff _ _).mpr ⟨bytes, read_eq_ok.mp hread⟩

/-- A file that is in the tree has a name of components. -/
theorem components_of_get? {path : Path} {bytes : Bytes} (h : t.files.get? path = some bytes) :
    path ≠ [] ∧ path.all isComponent = true :=
  t.wellFormed path ((Dict.mem_keys_iff _ _).mpr ⟨bytes, h⟩)

/-- The entry of one file in `files`. -/
theorem hash_eq_ok {path : Path} {entry : String × String} :
    (do
      let bytes ← t.read path
      return ("/".intercalate path, rt.sha256 bytes)) = Except.ok entry ↔
      ∃ bytes, t.files.get? path = some bytes ∧
        entry = ("/".intercalate path, rt.sha256 bytes) := by
  rw [bind_eq_ok]
  refine exists_congr fun bytes => and_congr read_eq_ok ?_
  exact ⟨fun h => (Except.ok.inj h).symm, fun h => congrArg Except.ok h.symm⟩

theorem snapshotPaths_nodup : (snapshotPaths t c).Nodup :=
  (List.perm_insertionSort _ _).nodup_iff.mpr (List.nodup_dedup _)

/-- A snapshot reads all its paths. -/
theorem exists_of_mem_snapshotPaths (h : snapshot rt t c r = .ok d) {path : Path}
    (hpath : path ∈ snapshotPaths t c) : ∃ bytes, t.files.get? path = some bytes := by
  obtain ⟨hashes, hhashes, _⟩ := bind_eq_ok.mp h
  obtain ⟨_, _, hentry⟩ := exists_mem_of_mapM hhashes hpath
  obtain ⟨bytes, hbytes, _⟩ := hash_eq_ok.mp hentry
  exact ⟨bytes, hbytes⟩

/-- A suite with a snapshot is plain. -/
theorem plain_of_snapshot (h : snapshot rt t c r = .ok d) : t.Plain := fun _ hpath hhashed =>
  (Dict.mem_keys_iff _ _).mpr
    (exists_of_mem_snapshotPaths h (mem_snapshotPaths.mpr (.inr (.inl ⟨hpath, hhashed⟩))))

/-- The hashes of a snapshot are those of its files. -/
theorem get?_snapshot (h : snapshot rt t c r = .ok d) {name digest : String} :
    d.files.get? name = some digest ↔ ∃ path ∈ snapshotPaths t c, ∃ bytes,
      t.files.get? path = some bytes ∧ name = "/".intercalate path ∧ digest = rt.sha256 bytes := by
  have hread : ∀ path ∈ snapshotPaths t c, ∃ bytes, t.files.get? path = some bytes :=
    fun _ => exists_of_mem_snapshotPaths h
  obtain ⟨hashes, hhashes, h⟩ := bind_eq_ok.mp h
  cases h
  have hnames : hashes.map Prod.fst = (snapshotPaths t c).map ("/".intercalate ·) := by
    refine mapM_map_eq_ok hhashes fun path _ entry hentry => ?_
    obtain ⟨_, _, rfl⟩ := hash_eq_ok.mp hentry
    rfl
  have hnodup : (hashes.map Prod.fst).Nodup := by
    rw [hnames]
    refine List.Nodup.map_on (fun path hpath path' hpath' heq => ?_) snapshotPaths_nodup
    obtain ⟨_, hbytes⟩ := hread path hpath
    obtain ⟨_, hbytes'⟩ := hread path' hpath'
    obtain ⟨hne, hparts⟩ := components_of_get? hbytes
    obtain ⟨hne', hparts'⟩ := components_of_get? hbytes'
    exact intercalate_injective hne hparts hne' hparts' heq
  rw [Dict.ofList_of_nodup hnodup, Dict.get?_eq_some_iff]
  constructor
  · intro hentry
    obtain ⟨path, hpath, hhash⟩ := exists_of_mem_mapM hhashes hentry
    obtain ⟨bytes, hbytes, heq⟩ := hash_eq_ok.mp hhash
    cases heq
    exact ⟨path, hpath, bytes, hbytes, rfl, rfl⟩
  · rintro ⟨path, hpath, bytes, hbytes, rfl, rfl⟩
    obtain ⟨entry, hentry, hhash⟩ := exists_mem_of_mapM hhashes hpath
    obtain ⟨bytes', hbytes', rfl⟩ := hash_eq_ok.mp hhash
    rw [hbytes] at hbytes'
    cases hbytes'
    exact hentry

/-- A hashed file of one suite is a file of every suite with the same hashes. -/
theorem get?_of_same (hsha : Function.Injective rt.sha256) (h₁ : snapshot rt t₁ c₁ r₁ = .ok d₁)
    (h₂ : snapshot rt t₂ c₂ r₂ = .ok d₂) (hsame : d₁.files.Same d₂.files) {path : Path}
    (hpath : path ∈ snapshotPaths t₁ c₁) {bytes : Bytes}
    (hbytes : t₁.files.get? path = some bytes) :
    t₂.files.get? path = some bytes := by
  have hhash : d₁.files.get? ("/".intercalate path) = some (rt.sha256 bytes) :=
    (get?_snapshot h₁).mpr ⟨path, hpath, bytes, hbytes, rfl, rfl⟩
  rw [hsame, get?_snapshot h₂] at hhash
  obtain ⟨path', _, bytes', hbytes', hname, hdigest⟩ := hhash
  obtain ⟨hne, hparts⟩ := components_of_get? hbytes
  obtain ⟨hne', hparts'⟩ := components_of_get? hbytes'
  obtain rfl := intercalate_injective hne hparts hne' hparts' hname
  obtain rfl := hsha hdigest
  exact hbytes'

/-- The files of two suites agree where their names match a pattern of `snapshot`. -/
def SameFiles (t₁ t₂ : FileTree Bytes) : Prop :=
  ∀ path, Hashed path → t₁.files.get? path = t₂.files.get? path

theorem sameFiles_of_same (hsha : Function.Injective rt.sha256)
    (h₁ : snapshot rt t₁ c₁ r₁ = .ok d₁) (h₂ : snapshot rt t₂ c₂ r₂ = .ok d₂)
    (hsame : d₁.files.Same d₂.files) : SameFiles t₁ t₂ := by
  intro path hpath
  have hother : d₂.files.Same d₁.files := fun name => (hsame name).symm
  cases hbytes : t₁.files.get? path with
  | some bytes =>
      have hentry := FileTree.mem_entries.mpr (.inl ((Dict.mem_keys_iff _ _).mpr ⟨bytes, hbytes⟩))
      exact (get?_of_same hsha h₁ h₂ hsame (mem_snapshotPaths.mpr (.inr (.inl ⟨hentry, hpath⟩)))
        hbytes).symm
  | none =>
      cases hbytes' : t₂.files.get? path with
      | none => rfl
      | some bytes =>
          have hentry :=
            FileTree.mem_entries.mpr (.inl ((Dict.mem_keys_iff _ _).mpr ⟨bytes, hbytes'⟩))
          have hfound := get?_of_same hsha h₂ h₁ hother
            (mem_snapshotPaths.mpr (.inr (.inl ⟨hentry, hpath⟩))) hbytes'
          rw [hbytes] at hfound
          cases hfound

/-! ## The loaders -/

theorem decodeJson_eq_ok {text : Bytes} {path : String} {v : Value} :
    decodeJson rt text path = .ok v ↔ ∃ raw, rt.loads text = some raw ∧
      uniqueObjects raw = .ok () ∧ jsonValue raw path = .ok v := by
  unfold decodeJson
  cases rt.loads text with
  | none => simp
  | some raw =>
      simp only [Option.some.injEq, exists_eq_left']
      cases uniqueObjects raw with
      | error e => simp [Bind.bind, Except.bind]
      | ok _ =>
          cases jsonValue raw path with
          | error e => simp [Bind.bind, Except.bind]
          | ok w => simp [Bind.bind, Except.bind]

theorem decodeJson_agree (text : Bytes) (path path' : String) :
    Agree (decodeJson rt text path) (decodeJson rt text path') := by
  intro v
  rw [decodeJson_eq_ok, decodeJson_eq_ok]
  refine exists_congr fun raw => and_congr_right fun _ => and_congr_right fun _ => ?_
  exact ⟨jsonValue_path raw path', jsonValue_path raw path⟩

theorem isJson_of_loadJson {path : Path} {v : Value} (h : loadJson rt t path = .ok v) :
    v.IsJson := by
  obtain ⟨bytes, _, h⟩ := bind_eq_ok.mp h
  obtain ⟨raw, _, _, h⟩ := decodeJson_eq_ok.mp h
  exact isJson_of_jsonValue raw h

theorem loadJson_agree {path : Path} (h : t₁.files.get? path = t₂.files.get? path) :
    Agree (loadJson rt t₁ path) (loadJson rt t₂ path) := by
  refine Agree.bind (fun bytes => ?_) fun bytes _ => decodeJson_agree bytes _ _
  rw [read_eq_ok, read_eq_ok, h]

/-- The catalogue of surfaces is decided by its file. -/
theorem loadCatalogue_agree (h : t₁.files.get? ["coverage-data", "surfaces.json"] =
      t₂.files.get? ["coverage-data", "surfaces.json"]) :
    Agree (do
        let json ← loadJson rt t₁ ["coverage-data", "surfaces.json"]
        parseCatalogue json (t₁.text ["coverage-data", "surfaces.json"]))
      (do
        let json ← loadJson rt t₂ ["coverage-data", "surfaces.json"]
        parseCatalogue json (t₂.text ["coverage-data", "surfaces.json"])) :=
  Agree.bind (loadJson_agree h) fun json _ => parseCatalogue_agree json _ _

theorem mem_entries_iff_of_plain (h : t.Plain) {path : Path} (hpath : Hashed path) :
    path ∈ t.entries ↔ path ∈ t.files.keys :=
  ⟨fun hentry => h path hentry hpath, fun hkey => FileTree.mem_entries.mpr (.inl hkey)⟩

variable (h : SameFiles t₁ t₂) (hplain₁ : t₁.Plain) (hplain₂ : t₂.Plain)

include h

section

include hplain₁ hplain₂

theorem mem_entries_of_sameFiles {path : Path} (hpath : Hashed path) :
    path ∈ t₁.entries ↔ path ∈ t₂.entries := by
  rw [mem_entries_iff_of_plain hplain₁ hpath, mem_entries_iff_of_plain hplain₂ hpath,
    Dict.mem_keys_iff, Dict.mem_keys_iff, h path hpath]

theorem rglob_eq {directory : String}
    (hdirectory : directory ∈ ["coverage-data", "scenario-data"]) :
    t₁.rglob [directory] ".json" = t₂.rglob [directory] ".json" := by
  refine FileTree.below_eq (List.nodup_dedup _) (List.nodup_dedup _) fun path => ?_
  rw [FileTree.mem_below, FileTree.mem_below]
  refine and_congr_left fun ⟨hstart, hlength, hsuffix⟩ => ?_
  exact mem_entries_of_sameFiles h hplain₁ hplain₂
    (.inr (.inl ⟨directory, hdirectory, hstart, hlength, hsuffix⟩))

end

theorem loadJson_scenario_agree {path : Path} (hpath : path ∈ t₂.rglob ["scenario-data"] ".json") :
    Agree (loadJson rt t₁ path) (loadJson rt t₂ path) := by
  obtain ⟨_, hprefix, hlength, hsuffix⟩ := mem_rglob.mp hpath
  exact loadJson_agree (h path (.inr (.inl ⟨_, by decide, hprefix, hlength, hsuffix⟩)))

omit h in
/-- A document directly in `coverage-data`. -/
theorem hashed_coverageData {name : String} (hname : endsWith name ".json" = true) :
    Hashed ["coverage-data", name] :=
  .inr (.inl ⟨"coverage-data", by decide, by simp, by simp, hname⟩)

theorem addClient_agree (clients : Dict String Path) (group : ScenarioGroup) :
    Agree (addClient t₁ clients group) (addClient t₂ clients group) := by
  unfold addClient
  cases group.client with
  | none => exact Agree.refl _
  | some client =>
      refine Agree.bind (Agree.refl _) fun _ _ => ?_
      refine Agree.bind (Agree.refl _) fun _ hsource => ?_
      refine Agree.bind (Agree.raiseIf ?_ _ _) fun _ _ => Agree.refl _
      have hsource := raiseIf_eq_ok.mp hsource
      rw [Bool.not_eq_false, isClientSource, Bool.and_eq_true_iff] at hsource
      have hhashed : Hashed [client.source] :=
        .inr (.inr (.inr ⟨rfl, ".c", by decide, hsource.1, fun hpy => absurd hpy (by decide)⟩))
      rw [h _ hhashed]

section

variable [UnicodeDatabase]

include hplain₁ hplain₂

theorem documents_agree : Agree (documents rt t₁) (documents rt t₂) := by
  unfold documents
  rw [rglob_eq h hplain₁ hplain₂ (by decide)]
  refine Agree.mapM fun path hpath => Agree.bind (loadJson_scenario_agree h hpath) fun json _ => ?_
  exact Agree.bind (parseScenarioGroup_agree json _ _) fun _ _ => Agree.refl _

theorem loadBehaviors_agree : Agree (loadBehaviors rt t₁) (loadBehaviors rt t₂) := by
  refine Agree.bind (loadJson_agree (h _ (.inl rfl))) fun json _ => ?_
  refine Agree.bind (parseInventory_agree json _ _) fun inventory _ => ?_
  exact Agree.bind (documents_agree h hplain₁ hplain₂) fun groups _ => Agree.refl _

theorem loadMappings_agree : Agree (loadMappings rt t₁) (loadMappings rt t₂) := by
  refine Agree.bind (loadJson_agree (h _ (hashed_coverageData (by decide)))) fun json _ => ?_
  refine Agree.bind (parseMappings_agree json _ _) fun document _ => ?_
  exact Agree.bind (documents_agree h hplain₁ hplain₂) fun groups _ => Agree.refl _

theorem extensionClients_agree : Agree (extensionClients rt t₁) (extensionClients rt t₂) := by
  refine Agree.bind (documents_agree h hplain₁ hplain₂) fun groups _ => ?_
  refine Agree.bind ?_ fun clients _ => Agree.refl _
  exact Agree.foldlM (fun clients group _ => addClient_agree h clients group) _

end

/-! ## Requirements -/

theorem readRequirements_agree {path : Path} (hpath : Hashed path) :
    Agree (readRequirements rt t₁ path) (readRequirements rt t₂ path) := by
  refine Agree.bind (loadJson_agree (h path hpath)) fun json _ => ?_
  exact Agree.bind (parseRequirements_agree json _ _) fun _ _ => Agree.refl _

/-- The index of an interface. -/
def indexPath (interface : String) : Path := ["coverage-data", interface ++ "-requirements.json"]

omit h in
theorem hashed_indexPath {interface : String} (hinterface : interface ∈ interfaces) :
    Hashed (indexPath interface) := by
  refine hashed_coverageData ?_
  rcases List.mem_cons.mp hinterface with rfl | hinterface
  · decide
  · rw [List.mem_singleton.mp hinterface]
    decide

omit h in
/-- An accepted shard is hashed. -/
theorem hashed_shard {interface text : String} {shard : Path}
    (hshard : includedShard t₁ (indexPath interface) text = .ok shard) : Hashed shard := by
  obtain ⟨hbelow, hname⟩ := includedShard_eq_ok hshard
  have hjson := hname (by simp [indexPath])
  generalize (climb (pathParts text)).2.drop _ = below at hbelow
  obtain rfl : shard = "coverage-data" :: below := hbelow
  refine .inr (.inl ⟨"coverage-data", by decide, by simp, ?_, hjson⟩)
  cases below with
  | nil => exact absurd hjson (by decide)
  | cons part below => simp

/-- Whatever a requirement index includes, it climbs alike. -/
def IncludesAlike (rt : Runtime Bytes) (t₁ t₂ : FileTree Bytes) : Prop :=
  ∀ interface ∈ interfaces, ∀ index, readRequirements rt t₁ (indexPath interface) = .ok index →
    ∀ text ∈ index.includes.getD [], ClimbsAlike t₁ t₂ text

theorem loadRequirements_coincide {interface : String} (hinterface : interface ∈ interfaces)
    (halike : IncludesAlike rt t₁ t₂) :
    Coincide (loadRequirements rt t₁ (indexPath interface))
      (loadRequirements rt t₂ (indexPath interface)) := by
  have hindex :
      Agree (readRequirements rt t₁ (indexPath interface))
        (readRequirements rt t₂ (indexPath interface)) :=
    readRequirements_agree h (hashed_indexPath hinterface)
  refine Coincide.bind (Coincide.of_agree hindex) fun index hread _ => ?_
  refine Coincide.bind (Coincide.foldlM (fun state text htext => ?_) _) fun state _ _ => ?_
  swap
  · exact Coincide.of_agree (Agree.refl _)
  have hclimb := halike interface hinterface index hread text htext
  refine Coincide.bind (fun shard shard' hshard hshard' =>
    includedShard_coincide (by simp [indexPath]) hclimb hshard hshard') fun shard hshard _ => ?_
  refine Coincide.bind (Coincide.of_agree (Agree.raiseIf Iff.rfl _ _)) fun _ _ _ => ?_
  refine Coincide.bind (Coincide.of_agree (readRequirements_agree h (hashed_shard hshard)))
    fun document _ _ => ?_
  refine Coincide.bind (Coincide.of_agree (Agree.raiseIf Iff.rfl _ _)) fun _ _ _ => ?_
  refine Coincide.bind (Coincide.of_agree (Agree.raiseIf Iff.rfl _ _)) fun _ _ _ => ?_
  exact Coincide.of_agree (Agree.refl _)

theorem collectRequirements_coincide (halike : IncludesAlike rt t₁ t₂)
    (surfaces : Dict String Surface) :
    Coincide (collectRequirements rt t₁ surfaces) (collectRequirements rt t₂ surfaces) := by
  refine Coincide.bind (Coincide.mapM fun interface hinterface => ?_) fun read _ _ =>
    Coincide.of_agree (Agree.refl _)
  exact Coincide.bind (loadRequirements_coincide h hinterface halike) fun document _ _ =>
    Coincide.of_agree (Agree.refl _)

/-! ## The definition -/

include hplain₁ hplain₂ in
/-- The snapshot of the same cases. -/
theorem snapshot_agree (hhandlers : ∀ key case handler, c.get? key = some case →
      case.handler = some handler →
      t₁.files.get? (handlerPath handler) = t₂.files.get? (handlerPath handler)) :
    Agree (snapshot rt t₁ c r) (snapshot rt t₂ c r) := by
  have hpaths : snapshotPaths t₁ c = snapshotPaths t₂ c := by
    refine List.Perm.eq_of_pairwise (fun a b _ _ => le_antisymm) (List.pairwise_insertionSort _ _)
      (List.pairwise_insertionSort _ _) ?_
    refine (List.perm_ext_iff_of_nodup snapshotPaths_nodup snapshotPaths_nodup).mpr fun path => ?_
    rw [mem_snapshotPaths, mem_snapshotPaths]
    refine or_congr_right (or_congr_left (and_congr_left fun hpath => ?_))
    exact mem_entries_of_sameFiles h hplain₁ hplain₂ hpath
  unfold snapshot
  rw [hpaths]
  refine Agree.bind (Agree.mapM fun path hpath => Agree.bind ?_ fun _ _ => Agree.refl _)
    fun _ _ => Agree.refl _
  have hfile : t₁.files.get? path = t₂.files.get? path := by
    rcases mem_snapshotPaths.mp hpath with hpath | ⟨_, hpath⟩ | ⟨key, case, handler, hcase,
      hhandler, rfl⟩
    · exact h path (.inl hpath)
    · exact h path hpath
    · exact hhandlers key case handler hcase hhandler
  intro bytes
  rw [read_eq_ok, read_eq_ok, hfile]

end

/-- `==` of two definitions, whose `files` are dictionaries. -/
structure Definition.Same (d e : Definition) : Prop where
  fingerprint : d.fingerprint = e.fingerprint
  files : d.files.Same e.files
  policySha256 : d.policySha256 = e.policySha256
  loaderSha256 : d.loaderSha256 = e.loaderSha256
  referenceCommit : d.referenceCommit = e.referenceCommit

section

variable {Bytes : Type} {rt : Runtime Bytes} {t₁ t₂ : FileTree Bytes}

/-- The modules of the handlers are hashed. -/
theorem handlers_of_same {m₁ m₂ : ModelData} {r₁ r₂ : String} (hsha : Function.Injective rt.sha256)
    (h₁ : snapshot rt t₁ m₁.cases r₁ = .ok m₁.definition)
    (h₂ : snapshot rt t₂ m₂.cases r₂ = .ok m₂.definition)
    (hsame : m₁.definition.files.Same m₂.definition.files) {key : CaseKey} {case : Behavior}
    {handler : String} (hcase : m₁.cases.get? key = some case)
    (hhandler : case.handler = some handler) :
    t₁.files.get? (handlerPath handler) = t₂.files.get? (handlerPath handler) := by
  have hpath : handlerPath handler ∈ snapshotPaths t₁ m₁.cases :=
    mem_snapshotPaths.mpr (.inr (.inr ⟨key, case, handler, hcase, hhandler, rfl⟩))
  obtain ⟨bytes, hbytes⟩ := exists_of_mem_snapshotPaths h₁ hpath
  rw [hbytes, get?_of_same hsha h₁ h₂ hsame hpath hbytes]

/-- While the files are those of the definition, `summarize` does not depend on the suite. -/
theorem summarize_eq [UnicodeDatabase] {m : ModelData}
    (h₁ : snapshot rt t₁ m.cases m.definition.referenceCommit = .ok m.definition)
    (h₂ : snapshot rt t₂ m.cases m.definition.referenceCommit = .ok m.definition)
    (value : Option Value) : m.summarize rt t₁ value = m.summarize rt t₂ value := by
  have hstale : m.isStale rt t₁ = m.isStale rt t₂ := by
    funext recorded
    unfold ModelData.isStale
    rw [h₁, h₂]
  simp only [ModelData.summarize, ModelData.summarizeReport, ModelData.verification, hstale]

variable [UnicodeDatabase]

section

variable (h : SameFiles t₁ t₂) {m₁ m₂ : ModelData} {loaded₁ loaded₂ : Loaded}
  (h₁ : m₁.BuiltFrom rt t₁ loaded₁) (h₂ : m₂.BuiltFrom rt t₂ loaded₂)

include h h₁ h₂

theorem catalogue_eq_of_sameFiles : loaded₁.catalogue = loaded₂.catalogue :=
  Coincide.of_agree (loadCatalogue_agree (h _ (hashed_coverageData (by decide)))) _ _
    h₁.catalogue h₂.catalogue

theorem cases_eq_of_sameFiles : m₁.cases = m₂.cases := by
  have hbehaviors : loaded₁.behaviors = loaded₂.behaviors :=
    Coincide.of_agree (loadBehaviors_agree h (plain_of_snapshot h₁.definition)
      (plain_of_snapshot h₂.definition)) _ _ h₁.behaviors h₂.behaviors
  have hother := h₂.cases
  rw [← hbehaviors] at hother
  exact Except.ok.inj (h₁.cases.symm.trans hother)

/-- The same files have the same definition, wherever they lie. -/
theorem definition_eq_of_sameFiles (hhandlers : ∀ key case handler, m₁.cases.get? key = some case →
      case.handler = some handler →
      t₁.files.get? (handlerPath handler) = t₂.files.get? (handlerPath handler)) :
    m₁.definition = m₂.definition := by
  have hother := h₂.definition
  rw [← cases_eq_of_sameFiles h h₁ h₂, Loaded.commit, ← catalogue_eq_of_sameFiles h h₁ h₂] at hother
  exact Coincide.of_agree (snapshot_agree h (plain_of_snapshot h₁.definition)
    (plain_of_snapshot h₂.definition) hhandlers) _ _ h₁.definition hother

/-- The dictionaries of two models that were built from the same files. -/
theorem tables_eq_of_sameFiles (halike : IncludesAlike rt t₁ t₂) :
    { m₁ with definition := m₂.definition } = m₂ := by
  have hcatalogue := catalogue_eq_of_sameFiles h h₁ h₂
  have hsurfaces : m₁.surfaces = m₂.surfaces := by
    have hother := h₂.surfaces
    rw [← hcatalogue] at hother
    exact Except.ok.inj (h₁.surfaces.symm.trans hother)
  have hread := collectRequirements_coincide h halike m₁.surfaces _ _ h₁.read
    (by rw [hsurfaces]; exact h₂.read)
  obtain ⟨hread, hlimits⟩ := Prod.mk.inj hread
  have hrequirements : m₁.requirements = m₂.requirements := by
    have hother := h₂.requirements
    rw [← hread] at hother
    exact Except.ok.inj (h₁.requirements.symm.trans hother)
  have hcases := cases_eq_of_sameFiles h h₁ h₂
  have hmappings : loaded₁.mappings = loaded₂.mappings :=
    Coincide.of_agree (loadMappings_agree h (plain_of_snapshot h₁.definition)
      (plain_of_snapshot h₂.definition)) _ _ h₁.mappings h₂.mappings
  have htables : m₁.toMappingTables = m₂.toMappingTables := by
    have hother := h₂.tables
    rw [← hsurfaces, ← hrequirements, ← hcases, ← hmappings] at hother
    exact Except.ok.inj (h₁.tables.symm.trans hother)
  have hlimitations : m₁.limitations = m₂.limitations := by
    rw [h₁.limitations, h₂.limitations, hcatalogue, hlimits]
  obtain ⟨tables₁, surfaces₁, requirements₁, cases₁, limitations₁, definition₁⟩ := m₁
  obtain ⟨tables₂, surfaces₂, requirements₂, cases₂, limitations₂, definition₂⟩ := m₂
  dsimp only at hsurfaces hrequirements hcases htables hlimitations
  subst hsurfaces hrequirements hcases htables hlimitations
  rfl

end

/-- **The definition pins the model.** -/
theorem definition_pins (rt : Runtime Bytes) (t₁ t₂ : FileTree Bytes) (m₁ m₂ : CoverageModel)
    (hsha : Function.Injective rt.sha256) (h₁ : CoverageModel.init rt t₁ = .ok m₁)
    (h₂ : CoverageModel.init rt t₂ = .ok m₂) (hdefinition : m₁.definition.Same m₂.definition)
    (halike : IncludesAlike rt t₁ t₂) :
    m₁ = m₂ ∧ SameFiles t₁ t₂ ∧
      (∀ key case handler, m₁.cases.get? key = some case → case.handler = some handler →
        t₁.files.get? (handlerPath handler) = t₂.files.get? (handlerPath handler)) ∧
      Agree (extensionClients rt t₁) (extensionClients rt t₂) ∧
      ∀ report, m₁.summarize rt t₁ report = m₂.summarize rt t₂ report := by
  obtain ⟨loaded₁, hbuilt₁⟩ := CoverageModel.init_eq_ok.mp h₁
  obtain ⟨loaded₂, hbuilt₂⟩ := CoverageModel.init_eq_ok.mp h₂
  have hfiles : SameFiles t₁ t₂ :=
    sameFiles_of_same hsha hbuilt₁.definition hbuilt₂.definition hdefinition.files
  have hhandlers : ∀ key case handler, m₁.cases.get? key = some case →
      case.handler = some handler →
      t₁.files.get? (handlerPath handler) = t₂.files.get? (handlerPath handler) :=
    fun key case handler => handlers_of_same hsha hbuilt₁.definition hbuilt₂.definition
      hdefinition.files
  have htables := tables_eq_of_sameFiles hfiles hbuilt₁ hbuilt₂ halike
  have hpinned := definition_eq_of_sameFiles hfiles hbuilt₁ hbuilt₂ hhandlers
  have hmodel : m₁ = m₂ := by
    obtain ⟨data₁, valid₁⟩ := m₁
    obtain ⟨data₂, valid₂⟩ := m₂
    dsimp only at htables hpinned
    rw [CoverageModel.mk.injEq, ← htables, ← hpinned]
  refine ⟨hmodel, hfiles, hhandlers, extensionClients_agree hfiles
    (plain_of_snapshot hbuilt₁.definition) (plain_of_snapshot hbuilt₂.definition), fun report => ?_⟩
  subst hmodel
  exact summarize_eq (CoverageModel.snapshot_of_init h₁) (CoverageModel.snapshot_of_init h₂) report

end

/-! ## One suite in two places -/

/-- A runtime whose files hold the number of a JSON document, with digests that do not collide. -/
def numberedRuntime (documents : List Value) : Runtime Nat where
  loads n := documents[n]?
  dumps _ := 0
  sha256 n := String.ofList (List.replicate n 'a')
  policySource := 0
  loaderSource := 0

theorem numberedRuntime_injective (documents : List Value) :
    Function.Injective (numberedRuntime documents).sha256 := by
  intro n n' h
  have hlists : List.replicate n 'a' = List.replicate n' 'a' := String.ofList_injective h
  simpa using congrArg List.length hlists

/-- The documents of a suite whose index has one include. -/
def includingDocuments (text : String) : List Value := [
  .dict [("schema", .int 1), ("behaviors", .list [])],
  .dict [("schema", .int 1), ("reference", .dict [("commit", .str "0"), ("sources", .dict [])]),
    ("limitations", .list []), ("surfaces", .list [.dict [("id", .str "cli.command.run"),
      ("kind", .str "cli-command"), ("name", .str "run")]])],
  .dict [("schema", .int 1), ("cases", .list [])],
  .dict [("schema", .int 1), ("scope", .str "library"), ("limitations", .list []),
    ("requirements", .list [])],
  .dict [("schema", .int 1), ("scope", .str "cli"), ("limitations", .list []),
    ("requirements", .list []), ("includes", .list [.str text])],
  .dict [("schema", .int 1), ("scope", .str "cli"), ("limitations", .list []),
    ("requirements", .list [])],
  .dict [("schema", .int 1), ("scope", .str "cli"), ("limitations", .list []),
    ("requirements", .list [.dict [("id", .str "cli.run"), ("interface", .str "cli"),
      ("profile", .str "user"), ("category", .str "run"), ("description", .str "runs"),
      ("sources", .list [.dict [("path", .str "doc"), ("anchor", .str "run")]]),
      ("surfaces", .list [.str "cli.command.run"]),
      ("required_capabilities", .list [.str "cli"])]])]]

/-- A suite with two shards `x.json`, one below the other. -/
def includingSuite (root : Path) : FileTree Nat where
  root := root
  files := {
    entries := [(["inventory.json"], 0), (["coverage-data", "surfaces.json"], 1),
      (["coverage-data", "mapping.json"], 2), (["coverage-data", "library-requirements.json"], 3),
      (["coverage-data", "cli-requirements.json"], 4),
      (["coverage-data", "coverage-data", "x.json"], 5), (["coverage-data", "x.json"], 6)]
    nodup := by decide }
  wellFormed := by decide

def includingInit (text : String) (root : Path) : Except PyException CoverageModel :=
  @CoverageModel.init Nat asciiOnly (numberedRuntime (includingDocuments text))
    (includingSuite root)

theorem exists_including {text : String} {root : Path} {ids : List String}
    (h : (includingInit text root).toOption.any (fun m => m.requirements.keys = ids) = true) :
    ∃ m, includingInit text root = .ok m ∧ m.requirements.keys = ids := by
  cases hinit : includingInit text root with
  | error e => rw [hinit] at h; cases h
  | ok m =>
      rw [hinit] at h
      exact ⟨m, rfl, by simpa [Except.toOption] using h⟩

theorem including_definition_eq {text : String} {root₁ root₂ : Path} {m₁ m₂ : CoverageModel}
    (h₁ : includingInit text root₁ = .ok m₁) (h₂ : includingInit text root₂ = .ok m₂) :
    m₁.definition = m₂.definition := by
  obtain ⟨_, hbuilt₁⟩ := (@CoverageModel.init_eq_ok Nat asciiOnly _ _ _).mp h₁
  obtain ⟨_, hbuilt₂⟩ := (@CoverageModel.init_eq_ok Nat asciiOnly _ _ _).mp h₂
  have hsame : SameFiles (includingSuite root₁) (includingSuite root₂) := fun _ _ => rfl
  exact @definition_eq_of_sameFiles Nat _ _ _ asciiOnly hsame _ _ _ _ hbuilt₁ hbuilt₂
    fun _ _ _ _ _ => rfl

theorem definition_pins_small : ∃ m₁ m₂ : CoverageModel,
    includingInit "x.json" ["suite"] = .ok m₁ ∧ includingInit "x.json" ["copy"] = .ok m₂ ∧
      m₁ = m₂ := by
  obtain ⟨m₁, h₁, _⟩ := @exists_including "x.json" ["suite"] ["cli.run"] (by decide +kernel)
  obtain ⟨m₂, h₂, _⟩ := @exists_including "x.json" ["copy"] ["cli.run"] (by decide +kernel)
  have hdefinition := including_definition_eq h₁ h₂
  have hsame : m₁.definition.Same m₂.definition := by
    rw [hdefinition]
    exact ⟨rfl, fun _ => rfl, rfl, rfl, rfl⟩
  exact ⟨m₁, m₂, h₁, h₂, (@definition_pins Nat asciiOnly _ (includingSuite ["suite"])
    (includingSuite ["copy"]) m₁ m₂ (numberedRuntime_injective _) h₁ h₂ hsame
    fun _ _ _ _ _ _ => .inl rfl).1⟩

/-- An include that climbs above the root of the file system names one shard in a suite at the
root, another in a suite one directory deeper. -/
theorem definition_pins_fails_small : ∃ m₁ m₂ : CoverageModel,
    includingInit "../../coverage-data/coverage-data/x.json" [] = .ok m₁ ∧
      includingInit "../../coverage-data/coverage-data/x.json" ["coverage-data"] = .ok m₂ ∧
      m₁.definition = m₂.definition ∧ m₁.requirements ≠ m₂.requirements := by
  obtain ⟨m₁, h₁, hids₁⟩ := @exists_including "../../coverage-data/coverage-data/x.json" [] []
    (by decide +kernel)
  obtain ⟨m₂, h₂, hids₂⟩ := @exists_including "../../coverage-data/coverage-data/x.json"
    ["coverage-data"] ["cli.run"] (by decide +kernel)
  refine ⟨m₁, m₂, h₁, h₂, including_definition_eq h₁ h₂, fun heq => ?_⟩
  rw [heq, hids₂] at hids₁
  cases hids₁

end FlatpakBlackbox
