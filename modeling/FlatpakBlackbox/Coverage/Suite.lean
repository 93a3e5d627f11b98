import FlatpakBlackbox.FileTree
import FlatpakBlackbox.Schema.Catalogue

set_option autoImplicit false

/-! # The suite directory and its loaders

A suite is a finite tree of files. `Runtime` collects what the loaders take from Python's
standard library: the JSON decoder, the JSON encoder and SHA-256, over an arbitrary type of
file contents. On top stand the loaders of `scenario_catalogue.py` (scenario groups at any
depth) and `load_requirements` of `catalogue_schema.py` (an index and the shards it includes).
-/

namespace FlatpakBlackbox

open PyLib PyException

/-- The standard library functions of the loaders, and the two source files whose text is
part of every definition. -/
structure Runtime (Bytes : Type) where
  /-- `json.loads`; an object may repeat a key. `none` where the text is not JSON. -/
  loads : Bytes → Option Value
  /-- `json.dumps(value, sort_keys=True).encode()`. -/
  dumps : Value → Bytes
  /-- `hashlib.sha256(data).hexdigest()`. -/
  sha256 : Bytes → String
  /-- The bytes of `coverage_report.py`. -/
  policySource : Bytes
  /-- The bytes of `scenario_catalogue.py`. -/
  loaderSource : Bytes

section Loaders

variable {Bytes : Type}

mutual

/-- `_unique_object` on every object of a decoded text. -/
def uniqueObjects : Value → Except PyException Unit
  | .list items => uniqueItems items
  | .tuple items => uniqueItems items
  | .dict entries => do
      uniqueEntries entries
      raiseIf (¬ (entries.map Prod.fst).Nodup) (validationError "duplicate JSON key")
  | _ => .ok ()

def uniqueItems : List Value → Except PyException Unit
  | [] => .ok ()
  | item :: items => do
      uniqueObjects item
      uniqueItems items

def uniqueEntries : List (String × Value) → Except PyException Unit
  | [] => .ok ()
  | (_, item) :: entries => do
      uniqueObjects item
      uniqueEntries entries

end

/-- `decode_json(text, path)`. -/
def decodeJson (rt : Runtime Bytes) (text : Bytes) (path : String) : Except PyException Value :=
  match rt.loads text with
  | none => .error (validationError s!"{path}: not a JSON text")
  | some raw =>
      match (do uniqueObjects raw; jsonValue raw path) with
      | .ok v => .ok v
      | .error e => .error (validationError s!"{path}: {e.message}")

/-- `load_json(path)`. -/
def loadJson (rt : Runtime Bytes) (tree : FileTree Bytes) (path : Path) :
    Except PyException Value := do
  decodeJson rt (← tree.read path) (tree.text path)

/-! ## Scenario groups -/

section Scenarios

variable [UnicodeDatabase]

/-- `documents(suite)`. -/
def documents (rt : Runtime Bytes) (tree : FileTree Bytes) :
    Except PyException (List ScenarioGroup) :=
  (tree.rglob ["scenario-data"] ".json").mapM fun path => do
    return ScenarioGroup.ofValue (← parseScenarioGroup (← loadJson rt tree path) (tree.text path))

/-- `load_behaviors(suite)`. -/
def loadBehaviors (rt : Runtime Bytes) (tree : FileTree Bytes) :
    Except PyException (List Behavior) := do
  let path := ["inventory.json"]
  let inventory ← parseInventory (← loadJson rt tree path) (tree.text path)
  let own := ((inventory.list? "behaviors").getD []).map Behavior.ofValue
  let groups ← documents rt tree
  let result := own ++ (groups.map ScenarioGroup.behaviors).flatten
  let _ ← indexed "behavior" Behavior.id result
  return result

/-- `load_mappings(suite)`. -/
def loadMappings (rt : Runtime Bytes) (tree : FileTree Bytes) :
    Except PyException (List CoverageMapping) := do
  let path := ["coverage-data", "mapping.json"]
  let document ← parseMappings (← loadJson rt tree path) (tree.text path)
  let own := ((document.list? "cases").getD []).map CoverageMapping.ofValue
  let groups ← documents rt tree
  return own ++ (groups.map ScenarioGroup.mappings).flatten

end Scenarios

/-! ## Requirement documents -/

/-- The shard an include names, checked as in `load_requirements`. -/
def includedShard (tree : FileTree Bytes) (path : Path) (text : String) :
    Except PyException Path := do
  let directory := tree.root ++ path.dropLast
  let parts := pathParts text
  let fileName := FileTree.name parts
  let shard := resolveFrom directory parts
  raiseIf (startsWith text "/" = true ∨ (endsWith fileName ".json" = false ∨ fileName = ".json") ∨
      directory.isPrefixOf shard = false ∨ shard = tree.root ++ path)
    (validationError s!"{tree.text path}: invalid requirement include path: {text}")
  return shard.drop tree.root.length

/-- One document of requirements. -/
def readRequirements (rt : Runtime Bytes) (tree : FileTree Bytes) (path : Path) :
    Except PyException RequirementsDocument := do
  return RequirementsDocument.ofValue
    (← parseRequirements (← loadJson rt tree path) (tree.text path))

/-- `load_requirements(path)`: an index and its direct shards, or a monolithic document. -/
def loadRequirements (rt : Runtime Bytes) (tree : FileTree Bytes) (path : Path) :
    Except PyException RequirementsDocument := do
  let index ← readRequirements rt tree path
  let (_, result) ← (index.includes.getD []).foldlM (fun (seen, result) text => do
    let shard ← includedShard tree path text
    raiseIf (shard ∈ seen)
      (validationError s!"{tree.text path}: duplicate requirement include: {text}")
    let document ← readRequirements rt tree shard
    raiseIf (document.includes.isSome) (validationError
      s!"{tree.text shard}: recursive requirement includes are not supported")
    raiseIf (document.scope ≠ index.scope ∨
        document.requirements.any (fun item => item.interface ≠ index.scope) = true)
      (validationError s!"{tree.text shard}: requirement shard has incorrect interface scope")
    return (shard :: seen, { result with
      requirements := result.requirements ++ document.requirements
      limitations := result.limitations ++ document.limitations })) ([], index)
  let _ ← indexed "requirement" Requirement.id result.requirements
  return result

end Loaders

end FlatpakBlackbox
