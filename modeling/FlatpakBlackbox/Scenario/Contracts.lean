import FlatpakBlackbox.Basic.Text
import FlatpakBlackbox.Scenario.Client
import FlatpakBlackbox.Schema.Lossless

set_option autoImplicit false

/-! # The contract scenarios

The part of `six_contract_scenarios.run` that works with the prepared contracts of the manifest:
their repositories, refs and commits. The validator of the manifest lists the aliases and versions
that must be there on its own; here it is proved that these are enough, in every scenario and
whatever the client answers.
-/

namespace FlatpakBlackbox.Scenario

open PyLib PyException Script

/-! ## Helpers -/

/-- `call(path, *args)`. -/
def call (path : String) (arguments : List String) : Talk Answer :=
  success "tx-contract" (path :: arguments)

/-- `state(path)`. -/
def deployedState (path : String) : Talk (List (String × String)) := do
  let answer ← call path ["state"]
  (labelled "state" answer.rows).mapM fun row => do
    let ref ← cell 1 row
    let commit ← cell 2 row
    return (ref, commit)

/-- The keyword arguments of `exercise`. -/
structure Exercise where
  sdk : Bool := false
  debug : Bool := false
  nodeps : Bool := false
  unrelated : Bool := false
  previous : List String := []

/-- `exercise(path, action, refs, …)`. -/
def exercise (path action : String) (refs : List String) (options : Exercise := {}) :
    Talk (List (List String)) := do
  let previous := if options.previous = [] then ["-"] else options.previous
  let answer ← call path ["exercise", action, ";".intercalate refs, flagText options.sdk,
    flagText options.debug, flagText options.nodeps, flagText options.unrelated,
    ";".intercalate previous]
  let started ← column "new" 1 answer.rows
  let completed ← column "completed" 1 answer.rows
  check (action = "reject-install" ∨ completed = [toString started.length])
    "client completes all execution callback assertions"
  return answer.rows

/-- `causes(rows, ref)`. -/
def causes (rows : List (List String)) (ref : String) : Talk (List (String × String)) := do
  let found ← (labelled "cause" rows).mapM fun row => do
    let target ← cell 1 row
    if target = ref then
      let cause ← cell 2 row
      let skipped ← cell 3 row
      return [(cause, skipped)]
    else return []
  return found.flatten

/-- Whether these are the causes, in any order. -/
def sameCauses (a b : List (String × String)) : Bool := a.all (b.contains ·) && b.all (a.contains ·)

section

variable (asUri : String → String) (contracts : Value)

/-- `setup(label)`. `asUri` is the URI of a repository in the directory of the fixture. -/
def setup (label : String) : Talk String := do
  let repos ← lookup [] contracts "repos"
  let repo ← lookupText ["repos"] repos "A"
  let _ ← call label ["remote", asUri repo]
  return label

/-- `{ref: contracts["commits"][version][ref] for ref in expected}`. -/
def deployments (expected : List String) (version : String) : Talk (List (String × String)) :=
  expected.mapM fun ref => do
    let commits ← lookup [] contracts "commits"
    let versionCommits ← lookup ["commits"] commits version
    let commit ← lookupText ["commits", version] versionCommits ref
    return (ref, commit)

/-- `deployed(path, expected, version)`. -/
def deployed (path : String) (expected : List String) (version : String := "A") :
    Observing Unit := do
  let actual ← deployedState path
  let entries ← deployments contracts expected version
  observe (sameDict actual entries) "exact contract deployments"

/-- The commits of a version, as a dictionary. -/
def commitEntries (commits : Value) : List (String × String) :=
  (commits.asEntries?.getD []).map fun entry => (entry.1, entry.2.asStr?.getD "")

/-- `switch(path, version)`. -/
def switch (path version : String) : Talk Unit := do
  let commits ← lookup [] contracts "commits"
  let new ← lookup ["commits"] commits version
  let commits ← lookup [] contracts "commits"
  let old ← lookup ["commits"] commits "A"
  check (sameDict (commitEntries new) (commitEntries old) = false)
    "prepared update really changes a dependency"
  let repos ← lookup [] contracts "repos"
  let repo ← lookupText ["repos"] repos version
  let _ ← call path ["remote", asUri repo]

/-! ## Scenarios -/

/-- The refs that every scenario names, and the group that further aliases are looked up in. -/
structure Refs where
  group : Value
  one : String
  two : String
  platform : String
  sdk : String
  extension : String
  shared : String

/-- `apps`. -/
def Refs.apps (refs : Refs) : List String := [refs.one, refs.two]

/-- `dependencies`. -/
def Refs.dependencies (refs : Refs) : List String := [refs.platform, refs.extension, refs.shared]

/-- `base`. -/
def Refs.base (refs : Refs) : List String := refs.one :: refs.dependencies

/-- `refs[alias]`. -/
def Refs.lookup (refs : Refs) (name : String) : Talk String := lookupText ["refs"] refs.group name

/-- The debug refs that `debug` adds to an installation. -/
def debugRefs (refs : Refs) (sdk debug : Bool) : Talk (List String) :=
  if debug then do
    let oneDebug ← refs.lookup "one_debug"
    let platformDebug ← refs.lookup "platform_debug"
    if sdk then do
      let sdkDebug ← refs.lookup "sdk_debug"
      return [oneDebug, platformDebug, sdkDebug]
    else return [oneDebug, platformDebug]
  else return []

/-- `tx-auto-sdk-debug`. -/
def autoSdkDebug (refs : Refs) : Observing Unit := do
  [(false, false), (true, false), (false, true), (true, true)].forM fun (sdk, debug) => do
    let path ← setup asUri contracts s!"auto-{boolText sdk}-{boolText debug}"
    let rows ← exercise path "install" [refs.one] { sdk, debug }
    let added ← debugRefs refs sdk debug
    let expected := refs.base ++ (if sdk then [refs.sdk] else []) ++ added
    let operations ← column "op" 1 rows
    observe (sameSet operations expected) "automatic install operation set"
    deployed contracts path expected
  let path ← setup asUri contracts "auto-update"
  let _ ← exercise path "install" [refs.one]
  deployed contracts path refs.base
  let _ ← exercise path "update" [refs.one] { sdk := true, debug := true }
  let oneDebug ← refs.lookup "one_debug"
  let platformDebug ← refs.lookup "platform_debug"
  let sdkDebug ← refs.lookup "sdk_debug"
  deployed contracts path (refs.base ++ [refs.sdk, oneDebug, platformDebug, sdkDebug])
  let path ← setup asUri contracts "auto-uninstall"
  let _ ← exercise path "install" [refs.one]
  deployed contracts path refs.base
  let rows ← exercise path "uninstall" [refs.one] { sdk := true, debug := true }
  let actions ← column "op" 2 rows
  observe (∀ action ∈ actions, action = "uninstall")
    "uninstall-only has no added install operations"
  -- Neither extension is marked autodelete, so both remain after app removal.
  deployed contracts path refs.dependencies

/-- `tx-operation-causes`. -/
def operationCauses (refs : Refs) : Observing Unit := do
  let path ← setup asUri contracts "causes"
  let rows ← exercise path "install" [refs.one, refs.two]
  observe (sameCauses (← causes rows refs.platform) (refs.apps.map (·, "0")))
    "shared runtime reports both requesting apps"
  observe (sameCauses (← causes rows refs.extension) [(refs.platform, "0")])
    "related extension reports its main runtime"
  observe (sameCauses (← causes rows refs.shared) (refs.apps.map (·, "0")))
    "shared related extension reports both main apps"
  observe (sameSet (← column "cause-free" 1 rows) refs.apps) "explicit app requests have no causes"
  let skips ← column "skip" 2 rows
  observe (∀ skip ∈ skips, skip = "0") "fresh install operations are not skipped"
  deployed contracts path (refs.apps ++ refs.dependencies)
  switch asUri contracts path "RUNTIME"
  let rows ← exercise path "update" [refs.one, refs.two]
  observe (sameCauses (← causes rows refs.platform) (refs.apps.map (·, "1")))
    "runtime update exposes both skipped unchanged app causes"
  let operations ← column "op" 1 rows
  observe (∀ app ∈ refs.apps, app ∉ operations) "skipped apps absent from operation list"
  let new ← column "new" 1 rows
  observe (∀ app ∈ refs.apps, app ∉ new) "skipped app causes have no execution callbacks"
  deployed contracts path (refs.apps ++ refs.dependencies) "RUNTIME"

/-- The control before the update of a runtime or an extension. -/
def currentThenSwitch (path variant : String) : Talk Unit :=
  if variant = "RUNTIME" ∨ variant = "EXTENSION" then do
    let answer ← call path ["updates"]
    check (answer.text = "") "complete current apps need no update"
    switch asUri contracts path variant
  else pure ()

/-- `query-missing-dependencies`. -/
def missingDependencies (refs : Refs) : Observing Unit :=
  ["runtime-missing", "related-missing", "RUNTIME", "EXTENSION"].forM fun variant => do
    let missing := variant = "runtime-missing" ∨ variant = "related-missing"
    let path ← setup asUri contracts variant
    let _ ← exercise path "install" [refs.one, refs.two]
      { nodeps := variant = "runtime-missing", unrelated := missing }
    deployed contracts path
      (refs.apps ++ (if variant = "runtime-missing" then [] else [refs.platform]) ++
      if missing then [] else [refs.extension, refs.shared])
    currentThenSwitch asUri contracts path variant
    let answer ← call path ["updates"]
    let updates ← column "update" 1 answer.rows
    observe (∀ app ∈ refs.apps, app ∈ updates) s!"all affected apps listed for {variant}"
    -- Resolve the missing or updated dependency, and require the negative control.
    let _ ← exercise path "update" [refs.one, refs.two]
    deployed contracts path (refs.apps ++ refs.dependencies)
      (if variant = "RUNTIME" ∨ variant = "EXTENSION" then variant else "A")
    let answer ← call path ["updates"]
    let _ ← call path ["updates"]
    observe (answer.text = "") s!"repaired {variant} has no updates"

/-- Install the new application beside the old one, where the variant does. -/
def installTarget (refs : Refs) (path variant : String) : Talk Unit :=
  if variant = "update" ∨ variant = "changed-update" then do
    -- Do not launch the new app before migration: it must have no existing data.
    let _ ← exercise path "install" [refs.two]
  else pure ()

/-- Publish the changed application, where the variant does. -/
def changeTarget (path variant : String) : Talk Unit :=
  if variant = "changed-update" then switch asUri contracts path "APP" else pure ()

/-- Rebase the old application to the new one, or install the new one. -/
def migrate (refs : Refs) (path variant : String) : Talk Unit :=
  if variant = "ordinary-control" then do
    let _ ← exercise path "install" [refs.two]
  else do
    let previous ← cell 1 (splitBy refs.one '/')
    let _ ← exercise path "rebase" [refs.two] { previous := [previous] }

/-- `tx-rebase-migration`. -/
def rebaseMigration (refs : Refs) : Observing Unit :=
  ["install", "update", "changed-update", "ordinary-control"].forM fun variant => do
    let path ← setup asUri contracts s!"migration-{variant}"
    let home := s!"home-{variant}"
    let _ ← ask (.mkdir home)
    let launch (arguments : List String) : Talk Answer :=
      succeed (.launch home "run" arguments) "library run"
    let _ ← exercise path "install" [refs.one]
    let oldData ← launch [refs.one, "env", "XDG_DATA_HOME"]
    let marker := "migration-marker"
    let payload := s!"actual application data for {variant}"
    let _ ← launch [refs.one, "write", s!"{oldData.text}/{marker}", payload]
    let written ← launch [refs.one, "read", s!"{oldData.text}/{marker}"]
    check (written.text = payload) "old application really wrote persistent data"
    installTarget refs path variant
    changeTarget asUri contracts path variant
    migrate refs path variant
    deployed contracts path (refs.apps ++ refs.dependencies)
      (if variant = "changed-update" then "APP" else "A")
    let newData ← launch [refs.two, "env", "XDG_DATA_HOME"]
    check (newData.text ≠ oldData.text) "new application has its own public data path"
    let result ← ask (.launch home "run" [refs.two, "read", s!"{newData.text}/{marker}"])
    if variant = "ordinary-control" then
      observe (result.returncode ≠ 0) "ordinary install does not migrate data"
    else
      observe (result.returncode = 0 ∧ result.text = payload)
        s!"{variant} rebase migrates actual application data"

/-- `run(driver, repository, url, fixture, name)` from its prepared contracts on. -/
def contractsPart (name : String) : Talk Unit := do
  let group ← lookup [] contracts "refs"
  let one ← lookupText ["refs"] group "one"
  let two ← lookupText ["refs"] group "two"
  let platform ← lookupText ["refs"] group "platform"
  let sdk ← lookupText ["refs"] group "sdk"
  let extension ← lookupText ["refs"] group "extension"
  let shared ← lookupText ["refs"] group "shared"
  let refs : Refs := { group, one, two, platform, sdk, extension, shared }
  let scenario : Observing Unit :=
    if name = "tx-auto-sdk-debug" then autoSdkDebug asUri contracts refs
    else if name = "tx-operation-causes" then operationCauses asUri contracts refs
    else if name = "query-missing-dependencies" then missingDependencies asUri contracts refs
    else if name = "tx-rebase-migration" then rebaseMigration asUri contracts refs
    else liftM (Script.raise (valueError name) : Talk Unit)
  let (_, failures) ← scenario.run []
  check (failures = []) ("\n".intercalate failures)

end

/-! ## What the validator promises -/

/-- A text that is there, and is not empty. -/
def IsText (found : Option Value) : Prop := ∃ text, found = some (.str text) ∧ text ≠ ""

/-- One of the refs of the group. -/
def Listed (refs : List (String × Value)) (ref : String) : Prop :=
  ∃ name, refs.lookup name = some (.str ref)

/-- The contracts group: the aliases, the repositories and, for every ref, the commits that the
scenarios look up. -/
structure Complete (contracts : Value) (repos refs commits : List (String × Value)) : Prop where
  repos_there : contracts.field? "repos" = some (.dict repos)
  refs_there : contracts.field? "refs" = some (.dict refs)
  commits_there : contracts.field? "commits" = some (.dict commits)
  aliases : ∀ name ∈ contractAliases, IsText (refs.lookup name)
  repositories : ∀ version ∈ contractVersions, IsText (repos.lookup version)
  versions : ∀ version ∈ contractVersions, ∃ entries,
    commits.lookup version = some (.dict entries) ∧
    ∀ ref, Listed refs ref → IsText (entries.lookup ref)

theorem string_ne_empty {v : Value} {path text : String} (h : string true v path = .ok text) :
    text ≠ "" := by
  rintro rfl
  obtain rfl := string_eq_ok h
  cases h

/-- The texts of an object that was read as one. -/
theorem isText_of_textMap {v : Value} {path key : String} {entries : List (String × Value)}
    (h : textMapReader true v path = .ok (.dict entries)) {value : Value}
    (hvalue : entries.lookup key = some value) : IsText (some value) := by
  obtain ⟨texts, htexts, hentries⟩ := bind_eq_ok.mp h
  obtain rfl := Value.dict.inj (Except.ok.inj hentries)
  obtain ⟨entry, hentry, hsame⟩ := List.mem_map.mp (mem_of_lookup hvalue)
  obtain ⟨-, rfl⟩ := Prod.mk.inj hsame
  obtain ⟨data, -, hread⟩ := bind_eq_ok.mp htexts
  obtain ⟨item, -, hitem⟩ := exists_of_mem_mapM hread hentry
  obtain ⟨text, htext, hitem⟩ := bind_eq_ok.mp hitem
  rw [← Except.ok.inj hitem]
  exact ⟨text, rfl, string_ne_empty htext⟩

/-- **What `parse_contracts` accepts is complete.** -/
theorem complete_of_parseContracts {v w : Value} {path : String}
    (h : parseContracts v path = .ok w) :
    ∃ repos refs commits, Complete w repos refs commits := by
  obtain ⟨data, result, rfl, rfl, hreads⟩ := parseContracts_follows.mp h
  obtain ⟨repos, refs, commits, hrepos, hrefs, hcommits, hall⟩ := hreads.check
  have hnodup : (contractsFields.map Prod.fst).Nodup := by decide
  have hread : ∀ {key : String} {entries : List (String × Value)} {reader : Reader},
      (key, reader) ∈ contractsFields → result.lookup key = some (.dict entries) →
      ∃ y path, reader y path = .ok (.dict entries) := by
    intro key entries reader hmem hlookup
    obtain ⟨y, x, -, hx, hfound⟩ := readRequired_lookup hreads.read hnodup hmem
    rw [← Option.some.inj (hlookup.symm.trans hfound)] at hx
    exact ⟨y, _, hx⟩
  obtain ⟨_, _, hreadRepos⟩ := hread (.head _) hrepos
  obtain ⟨_, _, hreadRefs⟩ := hread (.tail _ (.head _)) hrefs
  obtain ⟨_, _, hreadCommits⟩ := hread (.tail _ (.tail _ (.head _))) hcommits
  refine ⟨repos, refs, commits, hrepos, hrefs, hcommits, ?_, ?_, ?_⟩
  · intro name hname
    obtain ⟨ref, href, -⟩ := hall.aliases name hname
    rw [href]
    exact isText_of_textMap hreadRefs href
  · intro version hversion
    obtain ⟨⟨repo, hrepo⟩, -⟩ := hall.versions version hversion
    rw [hrepo]
    exact isText_of_textMap hreadRepos hrepo
  · intro version hversion
    obtain ⟨-, entries, hentries, hcommitted⟩ := hall.versions version hversion
    refine ⟨entries, hentries, ?_⟩
    rintro ref ⟨name, hname⟩
    obtain ⟨commit, hcommit⟩ := hcommitted (name, .str ref) (mem_of_lookup hname)
    obtain ⟨_, _, -, hout, hread⟩ := mapReader_eq_ok.mp hreadCommits
    obtain rfl := Value.dict.inj hout
    obtain ⟨_, -, -, hversion⟩ := exists_of_forall₂ hread.flip (mem_of_lookup hentries)
    have hcommit' : entries.lookup ref = some commit := hcommit
    rw [hcommit']
    exact isText_of_textMap hversion hcommit

/-- The contracts group of a manifest. -/
theorem exists_parseContracts {v fixture contracts : Value} {path : String}
    (h : parseFixture v path = .ok fixture) (hgroup : fixture.field? "contracts" = some contracts) :
    ∃ x path, parseContracts x path = .ok contracts := by
  obtain ⟨data, result, rfl, rfl, hreads⟩ := parseFixture_follows.mp h
  obtain ⟨reader, x, hmem, -, hx⟩ := lookup_readRequired hreads.read hgroup
  have hfield := (manifestGroup_sublist data).subset hmem
  have hreader : reader = parseContracts := by
    simpa [manifestFields, manifestOptional] using hfield
  rw [hreader] at hx
  exact ⟨x, _, hx⟩

/-! ## What the scenarios look up -/

/-- A lookup into the contracts group that finds what the scenarios need. -/
inductive Answered : List String → Option Value → Prop where
  | container {key : String} {found : Option Value} (h : found.isSome = true) :
      Answered [key] found
  | versionCommits {version : String} {found : Option Value} (h : found.isSome = true) :
      Answered ["commits", version] found
  | repo {version : String} {found : Option Value} (hversion : version ∈ contractVersions)
      (h : IsText found) : Answered ["repos", version] found
  | ref {name : String} {found : Option Value} (hname : name ∈ contractAliases) (h : IsText found) :
      Answered ["refs", name] found
  | commit {version ref : String} {found : Option Value} (hversion : version ∈ contractVersions)
      (h : IsText found) : Answered ["commits", version, ref] found

section

variable {asUri : String → String} {contracts : Value} {repos refs commits : List (String × Value)}
  (h : Complete contracts repos refs commits)

theorem silent_call (path : String) (arguments : List String) : Silent (call path arguments) :=
  silent_success _ _

theorem silent_deployedState (path : String) : Silent (deployedState path) :=
  (silent_call _ _).bind fun _ => silent_mapM (fun row => (silent_cell 1 row).bind fun _ =>
    (silent_cell 2 row).bind fun _ => silent_pure _) _

theorem silent_exercise (path action : String) (refs : List String) (options : Exercise) :
    Silent (exercise path action refs options) :=
  (silent_call _ _).bind fun _ => (silent_column _ _ _).bind fun _ =>
    (silent_column _ _ _).bind fun _ => (silent_check _ _).bind fun _ => silent_pure _

theorem silent_causes (rows : List (List String)) (ref : String) : Silent (causes rows ref) := by
  refine Silent.bind (silent_mapM (fun row => (silent_cell 1 row).bind fun target P => ?_) _)
    fun _ => silent_pure _
  refine .ite (fun _ => ?_) fun _ => trivial
  exact ((silent_cell 2 row).bind fun _ => (silent_cell 3 row).bind fun _ => silent_pure _) P

/-- A container of the group. -/
theorem meets_container {key : String} {entries : List (String × Value)}
    (hkey : contracts.field? key = some (.dict entries)) :
    (lookup [] contracts key).Meets Answered fun value => value = .dict entries :=
  ⟨.container (by rw [hkey]; rfl), fun _ hvalue => Option.some.inj (hvalue.symm.trans hkey)⟩

/-- A text of a container. -/
theorem meets_text {name : List String} {container : List (String × Value)} {key : String}
    (hanswered : Answered (name ++ [key]) (container.lookup key))
    (hfound : IsText (container.lookup key)) :
    (lookupText name (.dict container) key).Meets Answered
      fun text => container.lookup key = some (.str text) := by
  have hlookup : (lookup name (.dict container) key).Meets Answered
      fun value => container.lookup key = some value := ⟨hanswered, fun value hvalue => hvalue⟩
  refine hlookup.bind fun value hvalue => ?_
  obtain ⟨text, htext, -⟩ := hfound
  obtain rfl := Option.some.inj (hvalue.symm.trans htext)
  exact hvalue

include h

theorem meets_alias {name : String} (hname : name ∈ contractAliases) :
    (lookupText ["refs"] (.dict refs) name).Meets Answered (Listed refs) :=
  (meets_text (.ref hname (h.aliases name hname)) (h.aliases name hname)).mono
    fun _ htext => ⟨name, htext⟩

theorem meets_setup (label : String) : (setup asUri contracts label).Meets Answered Anything := by
  refine (meets_container h.repos_there).bind fun group hgroup => ?_
  rw [hgroup]
  have hversion : "A" ∈ contractVersions := by decide
  refine (meets_text (.repo hversion (h.repositories "A" hversion))
    (h.repositories "A" hversion)).bind fun repo _ => ?_
  exact ((silent_call _ _).bind fun _ => silent_pure label) Answered

/-- The commits of a version. -/
theorem meets_versionCommits {version : String} (hversion : version ∈ contractVersions) :
    (lookup ["commits"] (.dict commits) version).Meets Answered fun value =>
      ∃ entries, value = .dict entries ∧ ∀ ref, Listed refs ref → IsText (entries.lookup ref) := by
  obtain ⟨entries, hentries, hall⟩ := h.versions version hversion
  have hfound : (Value.dict commits).field? version = some (.dict entries) := hentries
  exact ⟨.versionCommits (by rw [hfound]; rfl), fun value hvalue =>
    ⟨entries, Option.some.inj (hvalue.symm.trans hfound), hall⟩⟩

theorem meets_deployments {expected : List String} (hexpected : ∀ ref ∈ expected, Listed refs ref)
    {version : String} (hversion : version ∈ contractVersions) :
    (deployments contracts expected version).Meets Answered Anything := by
  refine (Meets.mapM (Q := Anything) fun ref href => ?_).mono fun _ _ => trivial
  refine (meets_container h.commits_there).bind fun group hgroup => ?_
  rw [hgroup]
  refine (meets_versionCommits h hversion).bind fun versionCommits hcommits => ?_
  obtain ⟨entries, rfl, hall⟩ := hcommits
  have htext := hall ref (hexpected ref href)
  exact (meets_text (.commit hversion htext) htext).bind fun commit _ => Meets.pure trivial

omit h in
theorem meetsFrom_observe (condition : Prop) [Decidable condition] (label : String) :
    MeetsFrom Answered Anything (observe condition label) :=
  .ite (fun _ => .pure trivial) fun _ _ => trivial

/-- The deployments of refs of the group. -/
theorem meets_deployed (path : String) {expected : List String}
    (hexpected : ∀ ref ∈ expected, Listed refs ref) {version : String}
    (hversion : version ∈ contractVersions) :
    MeetsFrom Answered Anything (deployed contracts path expected version) := by
  refine MeetsFrom.bind (.lift (silent_deployedState path Answered)) fun actual _ => ?_
  refine MeetsFrom.bind (.lift (meets_deployments h hexpected hversion)) fun entries _ => ?_
  exact meetsFrom_observe _ _

theorem meets_switch (path : String) {version : String} (hversion : version ∈ contractVersions) :
    (switch asUri contracts path version).Meets Answered Anything := by
  refine (meets_container h.commits_there).bind fun group hgroup => ?_
  rw [hgroup]
  refine (meets_versionCommits h hversion).bind fun new _ => ?_
  refine (meets_container h.commits_there).bind fun group hgroup => ?_
  rw [hgroup]
  refine (meets_versionCommits h (by decide)).bind fun old _ => ?_
  refine (silent_check _ _ Answered).bind fun _ _ => ?_
  refine (meets_container h.repos_there).bind fun group hgroup => ?_
  rw [hgroup]
  refine (meets_text (.repo hversion (h.repositories version hversion))
    (h.repositories version hversion)).bind fun repo _ => ?_
  exact ((silent_call _ _).bind fun _ => silent_pure _) Answered

omit h in
/-- The refs of a scenario are refs of the group. -/
structure Refs.Known (refs : List (String × Value)) (known : Refs) : Prop where
  group : known.group = .dict refs
  one : Listed refs known.one
  two : Listed refs known.two
  platform : Listed refs known.platform
  sdk : Listed refs known.sdk
  extension : Listed refs known.extension
  shared : Listed refs known.shared

variable {known : Refs} (hknown : known.Known refs)

include hknown

omit h in
theorem Refs.Known.dependencies : ∀ ref ∈ known.dependencies, Listed refs ref := by
  simp only [Refs.dependencies, List.forall_mem_cons]
  exact ⟨hknown.platform, hknown.extension, hknown.shared, by simp⟩

omit h in
theorem Refs.Known.base : ∀ ref ∈ known.base, Listed refs ref :=
  List.forall_mem_cons.mpr ⟨hknown.one, hknown.dependencies⟩

omit h in
theorem Refs.Known.all : ∀ ref ∈ known.apps ++ known.dependencies, Listed refs ref := by
  refine List.forall_mem_append.mpr ⟨?_, hknown.dependencies⟩
  simp only [Refs.apps, List.forall_mem_cons]
  exact ⟨hknown.one, hknown.two, by simp⟩

theorem meets_lookup {name : String} (hname : name ∈ contractAliases) :
    (known.lookup name).Meets Answered (Listed refs) := by
  rw [Refs.lookup, hknown.group]
  exact meets_alias h hname

theorem meets_debugRefs (sdk debug : Bool) :
    (debugRefs known sdk debug).Meets Answered fun added => ∀ ref ∈ added, Listed refs ref := by
  refine .ite (fun _ => ?_) fun _ => Meets.pure (by simp)
  refine (meets_lookup h hknown (by decide)).bind fun one hone => ?_
  refine (meets_lookup h hknown (by decide)).bind fun platform hplatform => ?_
  refine .ite (fun _ => ?_) fun _ => Meets.pure (by simp [hone, hplatform])
  refine (meets_lookup h hknown (by decide)).bind fun sdk hsdk => ?_
  exact Meets.pure (by simp [hone, hplatform, hsdk])

omit h hknown in
theorem meetsFrom_silent {α : Type} {p : Talk α} (hp : Silent p) :
    MeetsFrom Answered Anything (liftM p : Observing α) := .lift (hp Answered)

theorem meets_autoSdkDebug : MeetsFrom Answered Anything (autoSdkDebug asUri contracts known) := by
  have hversion : "A" ∈ contractVersions := by decide
  have hsdk : ∀ ref ∈ [known.sdk], Listed refs ref := by simpa using hknown.sdk
  refine MeetsFrom.bind (MeetsFrom.forM fun flags _ => ?_) fun _ _ => ?_
  · refine MeetsFrom.bind (.lift (meets_setup h _)) fun path _ => ?_
    refine (meetsFrom_silent (silent_exercise _ _ _ _)).bind fun rows _ => ?_
    refine MeetsFrom.bind (.lift (meets_debugRefs h hknown _ _)) fun added hadded => ?_
    refine (meetsFrom_silent (silent_column _ _ _)).bind fun operations _ => ?_
    refine (meetsFrom_observe _ _).bind fun _ _ => ?_
    refine meets_deployed h _ ?_ hversion
    refine List.forall_mem_append.mpr ⟨List.forall_mem_append.mpr ⟨hknown.base, ?_⟩, hadded⟩
    split
    · exact hsdk
    · simp
  refine MeetsFrom.bind (.lift (meets_setup h _)) fun path _ => ?_
  refine (meetsFrom_silent (silent_exercise _ _ _ _)).bind fun _ _ => ?_
  refine (meets_deployed h _ hknown.base hversion).bind fun _ _ => ?_
  refine (meetsFrom_silent (silent_exercise _ _ _ _)).bind fun _ _ => ?_
  refine MeetsFrom.bind (.lift (meets_lookup h hknown (by decide))) fun oneDebug hone => ?_
  refine MeetsFrom.bind (.lift (meets_lookup h hknown (by decide))) fun platformDebug hplatform =>
    ?_
  refine MeetsFrom.bind (.lift (meets_lookup h hknown (by decide))) fun sdkDebug hsdkDebug => ?_
  have hall : ∀ ref ∈ known.base ++ [known.sdk, oneDebug, platformDebug, sdkDebug],
      Listed refs ref := by
    refine List.forall_mem_append.mpr ⟨hknown.base, ?_⟩
    simp only [List.forall_mem_cons]
    exact ⟨hknown.sdk, hone, hplatform, hsdkDebug, by simp⟩
  refine (meets_deployed h _ hall hversion).bind fun _ _ => ?_
  refine MeetsFrom.bind (.lift (meets_setup h _)) fun path _ => ?_
  refine (meetsFrom_silent (silent_exercise _ _ _ _)).bind fun _ _ => ?_
  refine (meets_deployed h _ hknown.base hversion).bind fun _ _ => ?_
  refine (meetsFrom_silent (silent_exercise _ _ _ _)).bind fun rows _ => ?_
  refine (meetsFrom_silent (silent_column _ _ _)).bind fun actions _ => ?_
  refine (meetsFrom_observe _ _).bind fun _ _ => ?_
  exact meets_deployed h _ hknown.dependencies hversion

theorem meets_operationCauses :
    MeetsFrom Answered Anything (operationCauses asUri contracts known) := by
  refine MeetsFrom.bind (.lift (meets_setup h _)) fun path _ => ?_
  refine (meetsFrom_silent (silent_exercise _ _ _ _)).bind fun rows _ => ?_
  refine (meetsFrom_silent (silent_causes _ _)).bind fun _ _ => ?_
  refine (meetsFrom_observe _ _).bind fun _ _ => ?_
  refine (meetsFrom_silent (silent_causes _ _)).bind fun _ _ => ?_
  refine (meetsFrom_observe _ _).bind fun _ _ => ?_
  refine (meetsFrom_silent (silent_causes _ _)).bind fun _ _ => ?_
  refine (meetsFrom_observe _ _).bind fun _ _ => ?_
  refine (meetsFrom_silent (silent_column _ _ _)).bind fun _ _ => ?_
  refine (meetsFrom_observe _ _).bind fun _ _ => ?_
  refine (meetsFrom_silent (silent_column _ _ _)).bind fun _ _ => ?_
  refine (meetsFrom_observe _ _).bind fun _ _ => ?_
  refine (meets_deployed h _ hknown.all (by decide)).bind fun _ _ => ?_
  refine MeetsFrom.bind (.lift (meets_switch h _ (by decide))) fun _ _ => ?_
  refine (meetsFrom_silent (silent_exercise _ _ _ _)).bind fun rows _ => ?_
  refine (meetsFrom_silent (silent_causes _ _)).bind fun _ _ => ?_
  refine (meetsFrom_observe _ _).bind fun _ _ => ?_
  refine (meetsFrom_silent (silent_column _ _ _)).bind fun _ _ => ?_
  refine (meetsFrom_observe _ _).bind fun _ _ => ?_
  refine (meetsFrom_silent (silent_column _ _ _)).bind fun _ _ => ?_
  refine (meetsFrom_observe _ _).bind fun _ _ => ?_
  exact meets_deployed h _ hknown.all (by decide)

omit hknown in
theorem meets_currentThenSwitch (path variant : String) :
    (currentThenSwitch asUri contracts path variant).Meets Answered Anything := by
  refine .ite (fun hvariant => ?_) fun _ => Meets.pure trivial
  refine (silent_call _ _ Answered).bind fun answer _ => ?_
  refine (silent_check _ _ Answered).bind fun _ _ => ?_
  refine meets_switch h _ ?_
  rcases hvariant with rfl | rfl
  · decide
  · decide

theorem meets_missingDependencies :
    MeetsFrom Answered Anything (missingDependencies asUri contracts known) := by
  refine MeetsFrom.forM fun variant _ => ?_
  refine MeetsFrom.bind (.lift (meets_setup h _)) fun path _ => ?_
  refine (meetsFrom_silent (silent_exercise _ _ _ _)).bind fun _ _ => ?_
  refine MeetsFrom.bind (meets_deployed h _ ?_ (by decide)) fun _ _ => ?_
  · refine List.forall_mem_append.mpr ⟨List.forall_mem_append.mpr ⟨?_, ?_⟩, ?_⟩
    · exact fun ref href => hknown.all ref (List.mem_append_left _ href)
    · split
      · simp
      · simpa using hknown.platform
    · split
      · simp
      · simpa using ⟨hknown.extension, hknown.shared⟩
  refine MeetsFrom.bind (.lift (meets_currentThenSwitch h _ _)) fun _ _ => ?_
  refine (meetsFrom_silent (silent_call _ _)).bind fun answer _ => ?_
  refine (meetsFrom_silent (silent_column _ _ _)).bind fun _ _ => ?_
  refine (meetsFrom_observe _ _).bind fun _ _ => ?_
  refine (meetsFrom_silent (silent_exercise _ _ _ _)).bind fun _ _ => ?_
  refine (meets_deployed h _ hknown.all ?_).bind fun _ _ => ?_
  · split
    · next hvariant =>
        rcases hvariant with rfl | rfl
        · decide
        · decide
    · decide
  refine (meetsFrom_silent (silent_call _ _)).bind fun answer _ => ?_
  refine (meetsFrom_silent (silent_call _ _)).bind fun _ _ => ?_
  exact meetsFrom_observe _ _

omit h hknown in
theorem silent_installTarget (path variant : String) : Silent (installTarget known path variant) :=
  fun P => .ite (fun _ => ((silent_exercise _ _ _ _).bind fun _ => silent_pure _) P) fun _ =>
    trivial

omit h hknown in
theorem silent_migrate (path variant : String) : Silent (migrate known path variant) := by
  refine fun P => .ite (fun _ => ?_) fun _ => ?_
  · exact ((silent_exercise _ _ _ _).bind fun _ => silent_pure _) P
  · exact ((silent_cell _ _).bind fun _ => (silent_exercise _ _ _ _).bind fun _ => silent_pure _) P

omit hknown in
theorem meets_changeTarget (path variant : String) :
    (changeTarget asUri contracts path variant).Meets Answered Anything :=
  .ite (fun _ => meets_switch h _ (by decide)) fun _ => Meets.pure trivial

theorem meets_rebaseMigration :
    MeetsFrom Answered Anything (rebaseMigration asUri contracts known) := by
  refine MeetsFrom.forM fun variant _ => ?_
  refine MeetsFrom.bind (.lift (meets_setup h _)) fun path _ => ?_
  refine (meetsFrom_silent (silent_ask _)).bind fun _ _ => ?_
  refine (meetsFrom_silent (silent_exercise _ _ _ _)).bind fun _ _ => ?_
  refine (meetsFrom_silent (silent_succeed _ _)).bind fun oldData _ => ?_
  refine (meetsFrom_silent (silent_succeed _ _)).bind fun _ _ => ?_
  refine (meetsFrom_silent (silent_succeed _ _)).bind fun written _ => ?_
  refine (meetsFrom_silent (silent_check _ _)).bind fun _ _ => ?_
  refine (meetsFrom_silent (silent_installTarget _ _)).bind fun _ _ => ?_
  refine MeetsFrom.bind (.lift (meets_changeTarget h _ _)) fun _ _ => ?_
  refine (meetsFrom_silent (silent_migrate _ _)).bind fun _ _ => ?_
  refine (meets_deployed h _ hknown.all ?_).bind fun _ _ => ?_
  · split
    · decide
    · decide
  refine (meetsFrom_silent (silent_succeed _ _)).bind fun newData _ => ?_
  refine (meetsFrom_silent (silent_check _ _)).bind fun _ _ => ?_
  refine (meetsFrom_silent (silent_ask _)).bind fun result _ => ?_
  exact .ite (fun _ => meetsFrom_observe _ _) fun _ => meetsFrom_observe _ _

omit hknown in
/-- Every lookup of every scenario is answered. -/
theorem meets_contractsPart (name : String) :
    (contractsPart asUri contracts name).Meets Answered Anything := by
  refine (meets_container h.refs_there).bind fun group hgroup => ?_
  subst hgroup
  refine (meets_alias h (by decide)).bind fun one hone => ?_
  refine (meets_alias h (by decide)).bind fun two htwo => ?_
  refine (meets_alias h (by decide)).bind fun platform hplatform => ?_
  refine (meets_alias h (by decide)).bind fun sdk hsdk => ?_
  refine (meets_alias h (by decide)).bind fun extension hextension => ?_
  refine (meets_alias h (by decide)).bind fun shared hshared => ?_
  have hknown : Refs.Known refs ⟨.dict refs, one, two, platform, sdk, extension, shared⟩ :=
    ⟨rfl, hone, htwo, hplatform, hsdk, hextension, hshared⟩
  refine Meets.bind (Q := Anything) ?_ fun _ _ => silent_check _ _ Answered
  refine (MeetsFrom.ite (fun _ => meets_autoSdkDebug h hknown) fun _ => ?_) []
  refine .ite (fun _ => meets_operationCauses h hknown) fun _ => ?_
  refine .ite (fun _ => meets_missingDependencies h hknown) fun _ => ?_
  exact .ite (fun _ => meets_rebaseMigration h hknown) fun _ _ => trivial

end

/-- **The contract oracle is closed.** For every manifest that is accepted and has a contracts
group, the group has a repository for each version, the aliases that are named, and a commit for
each version and each ref under any alias; and every lookup that a scenario makes into it, whatever
the client answers, finds what it needs. -/
theorem contracts_closed {v fixture contracts : Value} {path : String}
    (h : parseFixture v path = .ok fixture) (hgroup : fixture.field? "contracts" = some contracts) :
    (∃ repos refs commits, Complete contracts repos refs commits) ∧
      ∀ asUri scenario name found, (contractsPart asUri contracts scenario).Reads name found →
        Answered name found := by
  obtain ⟨x, path', hparsed⟩ := exists_parseContracts h hgroup
  obtain ⟨repos, refs, commits, hcomplete⟩ := complete_of_parseContracts hparsed
  exact ⟨⟨repos, refs, commits, hcomplete⟩, fun asUri scenario name found hreads =>
    (meets_contractsPart hcomplete scenario).reads hreads⟩

/-! ## A small manifest -/

section Small

/-- A contracts group all of whose aliases are one ref. -/
def smallContracts : Value := .dict [
  ("repos", .dict (contractVersions.map fun version => (version, .str version))),
  ("refs", .dict (contractAliases.map fun name => (name, .str "r"))),
  ("commits", .dict (contractVersions.map fun version => (version, .dict [("r", .str "c")])))]

def contractsManifest : Value := .dict [
  ("schema", .int 1), ("arch", .str "a"), ("app", .str "b"), ("runtime", .str "c"),
  ("branch", .str "d"), ("commits", .dict [("A", .str "e"), ("B", .str "f")]),
  ("runtime_commit", .str "g"), ("sha256", .dict []), ("contracts", smallContracts)]

/-- The theorem on a small manifest, and a lookup of its first scenario. -/
theorem contracts_closed_small : Answered ["refs", "one"] (some (.str "r")) := by
  have hparsed : parseFixture contractsManifest "fixture" = .ok contractsManifest := by rfl
  have hgroup : contractsManifest.field? "contracts" = some smallContracts := rfl
  exact (contracts_closed hparsed hgroup).2 id "tx-auto-sdk-debug" _ _ (.after .here)

end Small

end FlatpakBlackbox.Scenario
