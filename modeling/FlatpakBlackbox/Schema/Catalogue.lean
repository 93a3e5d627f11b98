import FlatpakBlackbox.Basic.Text
import FlatpakBlackbox.Json.Typed

set_option autoImplicit false

/-! # Catalogue documents

`catalogue_schema.py`: the annotations and parsers of the static inputs (surfaces, behaviors,
scenario groups, coverage mappings, requirements), and `indexed`. A parser maps a JSON value
to the normalized JSON value, as in the source; the structures after it (`Surface`,
`Requirement`, ...) are the typed view of a parsed document, with the fields the rest of the
program reads. A view is total: on a parsed document every field it reads has the declared
type, and the defaults are never used.
-/

namespace FlatpakBlackbox

open PyLib PyException

namespace TypeHint

def interface : TypeHint := oneOf ["cli", "library"]

def profile : TypeHint := oneOf ["user", "system", "any"]

def kind : TypeHint := oneOf ["cli-command", "cli-option", "library-function", "library-signal"]

def source : TypeHint := .typedDict [req "path" .str, req "anchor" .str]

def surface : TypeHint := .typedDict [
  req "id" .str, req "kind" kind, req "name" .str, req "sources" (.list source),
  opt "aliases" (.list .str), opt "documented_with" (.list .str), opt "command" .str,
  opt "owner" .str, opt "deprecated" .bool, opt "replacement" .str]

def catalogue : TypeHint := .typedDict [
  req "schema" .int,
  req "reference" (.typedDict [req "commit" .str, req "sources" (strDict .str)]),
  req "limitations" (.list .str), req "surfaces" (.list surface)]

def textOrTexts : TypeHint := .union [.str, .list .str]

/-- The fields of `BehaviorMetadata`. -/
def behaviorMetadata : List (String × Bool × TypeHint) := [
  req "id" .str, opt "description" .str, opt "preconditions" textOrTexts,
  opt "expected" textOrTexts, opt "references" (.list .str), opt "handler" .str,
  opt "execution_environment" .str, opt "notes" (.list .str)]

def behavior : TypeHint := .typedDict (behaviorMetadata ++ [
  opt "gap" .str, opt "scenario" .str, opt "profile" profile, opt "drivers" (.list interface),
  opt "required_capabilities" (.list .str)])

def executableBehavior : TypeHint := .typedDict (behaviorMetadata ++ [
  req "scenario" .str, req "profile" profile, req "drivers" (.list interface),
  req "required_capabilities" (.list .str)])

def gapBehavior : TypeHint := .typedDict (behaviorMetadata ++ [
  req "gap" .str, opt "profile" profile, opt "drivers" (.list interface),
  opt "required_capabilities" (.list .str)])

def surfaceAssertion : TypeHint := .typedDict [req "id" .str, req "rationale" .str]

def coverageMapping : TypeHint := .typedDict [
  req "behavior_id" .str, req "driver" interface, req "profile" profile,
  req "requirements" (.list .str), req "rationale" .str,
  opt "surface_assertions" (.list surfaceAssertion),
  opt "equivalent_options" (.list surfaceAssertion), opt "notes" (.list .str)]

def inventory : TypeHint := .typedDict [req "schema" .int, req "behaviors" (.list behavior)]

def scenarioGroup : TypeHint := .typedDict [
  req "schema" .int, req "behaviors" (.list behavior), req "mappings" (.list coverageMapping),
  opt "client" (.typedDict [req "source" .str, req "entry" .str]), opt "notes" (.list .str)]

def mappingDocument : TypeHint := .typedDict [
  req "schema" .int, req "cases" (.list coverageMapping)]

def requirement : TypeHint := .typedDict [
  req "id" .str, req "interface" interface, req "profile" profile, req "category" .str,
  req "description" .str, req "sources" (.list source), req "surfaces" (.list .str),
  req "required_capabilities" (.list .str)]

def requirementsDocument : TypeHint := .typedDict [
  req "schema" .int, req "scope" interface, req "limitations" (.list .str),
  req "requirements" (.list requirement), opt "includes" (.list .str)]

end TypeHint

/-! ## `indexed` -/

section Indexed

variable {α : Type}

/-- `indexed(items, label)`: the items under their ids, which must be nonempty and distinct. -/
def indexed (label : String) (ident : α → String) (items : List α) :
    Except PyException (Dict String α) :=
  items.foldlM (fun result item => do
    let identifier ← string true (.str (ident item)) s!"{label}.id"
    raiseIf (identifier ∈ result.keys)
      (validationError s!"invalid or duplicate {label} ID: {identifier}")
    return result.set identifier item) Dict.empty

theorem string_str_eq_ok {nonempty : Bool} {s path t : String}
    (h : string nonempty (.str s) path = .ok t) : t = s := by
  simp only [string] at h
  split at h
  · cases h
  · cases h; rfl

theorem entries_of_foldlM_indexed {label : String} {ident : α → String} {items : List α}
    {d r : Dict String α}
    (h : items.foldlM (fun (result : Dict String α) item => do
      let identifier ← string true (.str (ident item)) s!"{label}.id"
      raiseIf (identifier ∈ result.keys)
        (validationError s!"invalid or duplicate {label} ID: {identifier}")
      return result.set identifier item) d = .ok r) :
    r.entries = d.entries ++ items.map fun item => (ident item, item) := by
  induction items generalizing d with
  | nil =>
      rw [List.foldlM_nil] at h
      cases h
      simp
  | cons item items ih =>
      rw [List.foldlM_cons] at h
      obtain ⟨d', hstep, hrest⟩ := bind_eq_ok.mp h
      obtain ⟨identifier, hid, hstep⟩ := bind_eq_ok.mp hstep
      obtain ⟨_, hnew, hset⟩ := bind_eq_ok.mp hstep
      have hid' : identifier = ident item := string_str_eq_ok hid
      subst hid'
      cases hset
      have hnew' := raiseIf_eq_ok.mp hnew
      have hset' : (d.set (ident item) item).entries = d.entries ++ [(ident item, item)] :=
        Dict.setEntries_of_not_mem item hnew'
      rw [ih hrest, hset', List.append_assoc]
      rfl

/-- An accepted index lists exactly the items, each under its own id. -/
theorem indexed_entries {label : String} {ident : α → String} {items : List α}
    {d : Dict String α} (h : indexed label ident items = .ok d) :
    d.entries = items.map fun item => (ident item, item) := by
  have := entries_of_foldlM_indexed h
  simpa [Dict.empty] using this

theorem indexed_get? {label : String} {ident : α → String} {items : List α}
    {d : Dict String α} (h : indexed label ident items = .ok d) {k : String} {x : α}
    (hk : d.get? k = some x) : ident x = k ∧ x ∈ items := by
  have hmem := Dict.mem_entries_of_get? hk
  rw [indexed_entries h, List.mem_map] at hmem
  obtain ⟨y, hy, heq⟩ := hmem
  cases heq
  exact ⟨rfl, hy⟩

end Indexed

/-- The `id` of a parsed record. -/
def Value.ident (v : Value) : String := (v.str? "id").getD ""

/-! ## Parsers -/

/-- `parse_catalogue(value, path)`. Legacy catalogues may omit the sources of a surface. -/
def parseCatalogue (value : Value) (path : String) : Except PyException Value := do
  let data ← objectMap value path
  let items ← array (← required data "surfaces" path) s!"{path}.surfaces"
  let surfaces ← items.zipIdx.mapM fun (item, index) => do
    let raw ← objectMap item s!"{path}.surfaces[{index}]"
    return Value.dict (setDefault "sources" (.list []) raw)
  let result ← parseTyped .catalogue (.dict (Dict.setEntries "surfaces" (.list surfaces) data)) path
  let parsed := (result.list? "surfaces").getD []
  let _ ← indexed "surface" Value.ident parsed
  let commands := (parsed.filter fun s => s.str? "kind" = some "cli-command").map fun s =>
    (s.str? "name").getD ""
  parsed.zipIdx.forM fun (surface, index) => do
    let _ ← string true (.str ((surface.str? "name").getD "")) s!"{path}.surfaces[{index}].name"
    match surface.str? "command" with
    | some command => raiseIf (command ∉ commands ∧ command ≠ "global") (validationError
        s!"{path}.surfaces[{index}].command: unknown command {command}")
    | none => .ok ()
  return result

/-- `executable_behavior(value, path)`. -/
def executableBehavior (value : Value) (path : String) : Except PyException Value := do
  let data ← objectMap value path
  let data := setDefault "required_capabilities" (.list []) data
  let result ← parseTyped .executableBehavior (.dict data) path
  let _ ← string true (.str ((result.str? "scenario").getD "")) s!"{path}.scenario"
  let drivers := (result.strs? "drivers").getD []
  raiseIf (drivers = [] ∨ ¬ drivers.Nodup)
    (validationError s!"{path}.drivers: expected nonempty unique drivers")
  return result

section

variable [UnicodeDatabase]

/-- The handler names a root module and a function of it. -/
def checkHandler (handler ident path : String) : Except PyException Unit :=
  let (module, separator, function) := partition handler ':'
  raiseIf (separator = false ∨ isIdentifier module = false ∨ isIdentifier function = false)
    (validationError s!"{path}.handler: handler must name a root module and function: {ident}")

/-- `parse_behavior(value, path)`. -/
def parseBehavior (value : Value) (path : String) : Except PyException Value := do
  let raw ← objectMap value path
  let data ← if (raw.lookup "scenario").isSome then do
      let data := setDefault "required_capabilities" (.list []) raw
      let _ ← executableBehavior (.dict data) path
      pure data
    else do
      let _ ← parseTyped .gapBehavior (.dict raw) path
      let _ ← string true (← required raw "gap" path) s!"{path}.gap"
      pure raw
  let result ← parseTyped .behavior (.dict data) path
  let _ ← string true (.str result.ident) s!"{path}.id"
  match result.str? "handler" with
  | some handler => checkHandler handler result.ident path
  | none => .ok ()
  return result

/-- `parse_gap(value, path)`. -/
def parseGap (value : Value) (path : String) : Except PyException Value := do
  let behavior ← parseBehavior value path
  let result ← parseTyped .gapBehavior behavior path
  let _ ← string true (.str ((result.str? "gap").getD "")) s!"{path}.gap"
  return result

/-- `_behaviors(data, path)`. -/
def parseBehaviors (data : List (String × Value)) (path : String) :
    Except PyException (List (String × Value)) := do
  let items ← array (← required data "behaviors" path) s!"{path}.behaviors"
  let behaviors ← items.zipIdx.mapM fun (item, index) =>
    parseBehavior item s!"{path}.behaviors[{index}]"
  return Dict.setEntries "behaviors" (.list behaviors) data

/-- `parse_inventory(value, path)`. -/
def parseInventory (value : Value) (path : String) : Except PyException Value := do
  let data ← parseBehaviors (← objectMap value path) path
  let result ← parseTyped .inventory (.dict data) path
  let _ ← indexed "behavior" Value.ident ((result.list? "behaviors").getD [])
  return result

/-- `re.fullmatch(r"blackbox_[a-z0-9_]+_main", entry)`. -/
def isClientEntry (entry : String) : Bool :=
  let body := entry.toList.drop "blackbox_".length
  let inner := body.dropLast.dropLast.dropLast.dropLast.dropLast
  startsWith entry "blackbox_" && endsWith entry "_main" && !inner.isEmpty
    && body == inner ++ "_main".toList
    && inner.all fun c => c.isLower || c.isDigit || c == '_'

/-- `Path(source).name == source and source.endswith(".c")`: a plain file name. -/
def isClientSource (source : String) : Bool :=
  endsWith source ".c" && !source.toList.contains '/'

/-- The checks of `parse_scenario_group` on the optional client. -/
def checkClient (client : Value) (path : String) : Except PyException Unit := do
  let entry := (client.str? "entry").getD ""
  let source := (client.str? "source").getD ""
  raiseIf (isClientEntry entry = false)
    (validationError s!"{path}.client.entry: invalid client entry point: {entry}")
  raiseIf (isClientSource source = false)
    (validationError s!"{path}.client.source: invalid client source: {source}")

/-- `parse_scenario_group(value, path)`. -/
def parseScenarioGroup (value : Value) (path : String) : Except PyException Value := do
  let data ← parseBehaviors (← objectMap value path) path
  let result ← parseTyped .scenarioGroup (.dict data) path
  let _ ← indexed "behavior" Value.ident ((result.list? "behaviors").getD [])
  match result.field? "client" with
  | some client => checkClient client path
  | none => .ok ()
  return result

end

/-- `parse_mappings(value, path)`. -/
def parseMappings (value : Value) (path : String) : Except PyException Value :=
  parseTyped .mappingDocument value path

/-- `parse_requirements(value, path)`. -/
def parseRequirements (value : Value) (path : String) : Except PyException Value := do
  let result ← parseTyped .requirementsDocument value path
  let _ ← indexed "requirement" Value.ident ((result.list? "requirements").getD [])
  return result

/-! ## Typed views -/

/-- The kind of an interface of the target. -/
inductive Kind where
  | cliCommand
  | cliOption
  | libraryFunction
  | librarySignal
  deriving DecidableEq, Repr

/-- The text of a kind in a document. -/
def Kind.text : Kind → String
  | .cliCommand => "cli-command"
  | .cliOption => "cli-option"
  | .libraryFunction => "library-function"
  | .librarySignal => "library-signal"

/-- `KINDS`. -/
def kinds : List Kind := [.cliCommand, .cliOption, .libraryFunction, .librarySignal]

/-- The interface a kind belongs to: `kind.startswith(interface + "-")`. -/
def Kind.ofInterface (interface : String) (kind : Kind) : Bool :=
  startsWith kind.text (interface ++ "-")

/-- `Source`. -/
structure Source where
  path : String
  anchor : String
  deriving DecidableEq, Repr

/-- `Surface`: an interface of the catalogue. -/
structure Surface where
  id : String
  kind : Kind
  name : String
  sources : List Source
  aliases : List String
  documentedWith : List String
  command : Option String
  owner : Option String
  deprecated : Bool
  replacement : Option String
  deriving DecidableEq, Repr

def Source.ofValue (v : Value) : Source :=
  ⟨(v.str? "path").getD "", (v.str? "anchor").getD ""⟩

/-- `unknown surface kind` is raised for a text that is no kind. -/
def Kind.ofText (text : String) : Except PyException Kind :=
  match kinds.find? fun k => k.text = text with
  | some k => .ok k
  | none => .error (valueError s!"unknown surface kind: {text}")

def Surface.ofValue (v : Value) : Except PyException Surface := do
  let kind ← Kind.ofText ((v.str? "kind").getD "")
  return {
    id := v.ident, kind, name := (v.str? "name").getD ""
    sources := ((v.list? "sources").getD []).map Source.ofValue
    aliases := (v.strs? "aliases").getD []
    documentedWith := (v.strs? "documented_with").getD []
    command := v.str? "command", owner := v.str? "owner"
    deprecated := (v.bool? "deprecated").getD false, replacement := v.str? "replacement" }

/-- `Requirement`. -/
structure Requirement where
  id : String
  interface : String
  profile : String
  category : String
  description : String
  sources : List Source
  surfaces : List String
  requiredCapabilities : List String
  deriving DecidableEq, Repr

def Requirement.ofValue (v : Value) : Requirement where
  id := v.ident
  interface := (v.str? "interface").getD ""
  profile := (v.str? "profile").getD ""
  category := (v.str? "category").getD ""
  description := (v.str? "description").getD ""
  sources := ((v.list? "sources").getD []).map Source.ofValue
  surfaces := (v.strs? "surfaces").getD []
  requiredCapabilities := (v.strs? "required_capabilities").getD []

/-- `RequirementsDocument`. -/
structure RequirementsDocument where
  scope : String
  limitations : List String
  requirements : List Requirement
  includes : Option (List String)

def RequirementsDocument.ofValue (v : Value) : RequirementsDocument where
  scope := (v.str? "scope").getD ""
  limitations := (v.strs? "limitations").getD []
  requirements := ((v.list? "requirements").getD []).map Requirement.ofValue
  includes := v.strs? "includes"

/-- `Behavior`; a gap has no scenario. -/
structure Behavior where
  id : String
  gap : Option String
  scenario : Option String
  profile : String
  drivers : List String
  requiredCapabilities : List String
  handler : Option String
  executionEnvironment : Option String
  deriving DecidableEq, Repr

def Behavior.ofValue (v : Value) : Behavior where
  id := v.ident
  gap := v.str? "gap"
  scenario := v.str? "scenario"
  profile := (v.str? "profile").getD ""
  drivers := (v.strs? "drivers").getD []
  requiredCapabilities := (v.strs? "required_capabilities").getD []
  handler := v.str? "handler"
  executionEnvironment := v.str? "execution_environment"

/-- `SurfaceAssertion`. -/
structure SurfaceAssertion where
  id : String
  rationale : String
  deriving DecidableEq, Repr

def SurfaceAssertion.ofValue (v : Value) : SurfaceAssertion :=
  ⟨v.ident, (v.str? "rationale").getD ""⟩

/-- The key of a case: behavior id, driver, profile. -/
structure CaseKey where
  behaviorId : String
  driver : String
  profile : String
  deriving DecidableEq, Repr

/-- The text of a key in a message: the tuple of its parts, none of which has a quote in it. -/
def CaseKey.text (key : CaseKey) : String :=
  s!"('{key.behaviorId}', '{key.driver}', '{key.profile}')"

/-- `CoverageMapping`. -/
structure CoverageMapping where
  key : CaseKey
  requirements : List String
  rationale : String
  surfaceAssertions : List SurfaceAssertion
  equivalentOptions : List SurfaceAssertion
  deriving DecidableEq, Repr

def CoverageMapping.ofValue (v : Value) : CoverageMapping where
  key := ⟨(v.str? "behavior_id").getD "", (v.str? "driver").getD "", (v.str? "profile").getD ""⟩
  requirements := (v.strs? "requirements").getD []
  rationale := (v.str? "rationale").getD ""
  surfaceAssertions := ((v.list? "surface_assertions").getD []).map SurfaceAssertion.ofValue
  equivalentOptions := ((v.list? "equivalent_options").getD []).map SurfaceAssertion.ofValue

/-- `Client`: the client source of a scenario group and its entry point. -/
structure Client where
  source : String
  entry : String

def Client.ofValue (v : Value) : Client :=
  ⟨(v.str? "source").getD "", (v.str? "entry").getD ""⟩

/-- `ScenarioGroup`. -/
structure ScenarioGroup where
  behaviors : List Behavior
  mappings : List CoverageMapping
  client : Option Client

def ScenarioGroup.ofValue (v : Value) : ScenarioGroup where
  behaviors := ((v.list? "behaviors").getD []).map Behavior.ofValue
  mappings := ((v.list? "mappings").getD []).map CoverageMapping.ofValue
  client := (v.field? "client").map Client.ofValue

end FlatpakBlackbox
