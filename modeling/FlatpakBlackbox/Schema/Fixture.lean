import FlatpakBlackbox.Json.Typed

set_option autoImplicit false

/-! # The fixture manifest

`fixture_manifest.py`: the annotation of a manifest (its `TypedDict` classes) and
`parseFixture`, which reads the groups one by one and refuses fields it does not know. Each
group parser reads its fields with a `Reader` in the order of the source; a reader checks one
value and returns it.
-/

namespace FlatpakBlackbox

open PyLib PyException

namespace TypeHint

def fixtureAssets : TypeHint := .typedDict [req "runtime_tree" .str, req "app_tree" .str]

def fixtureSizeFields : List (String × Bool × TypeHint) :=
  [req "installed" .int, req "download" .int]

def fixtureBuild : TypeHint := .typedDict [
  req "gpg_home" .str, req "public_key" .str, req "key_id" .str, req "signed_repo" .str,
  req "bundle" .str, req "usb_repo" .str, req "collection_id" .str,
  req "usb_commits" (strDict .str), req "inheritance_tree" .str, req "permissions_repo" .str]

def fixtureBuildOptions : TypeHint := .typedDict [
  req "oci" .str, req "oci_ref" .str, opt "arch" .str, opt "arch_repo" .str,
  opt "arch_commits" (strDict .str), opt "oci_updates" (strDict .str)]

def fixtureQueryRef : TypeHint :=
  .typedDict (fixtureSizeFields ++ [req "commit" .str, req "metadata" .str])

def fixtureQueryVersion : TypeHint := .typedDict [
  req "repo" .str, req "refs" (strDict fixtureQueryRef), req "appstream" .str]

def fixturePolicyExtension : TypeHint := .typedDict [
  req "ref" .str, req "commit" .str, req "no_autodownload" .bool, req "autodelete" .bool,
  req "should_download" .bool, req "should_delete" .bool]

def fixtureExtensionMounts : TypeHint := .typedDict [
  req "app" .str, req "extension" .str, req "app_repo" .str, req "combined_repo" .str,
  req "extension_repo" .str, req "app_commit" .str, req "runtime_commit" .str,
  req "combined_commit" .str, req "separate_commit" .str, req "combined_marker" .str,
  req "separate_marker" .str]

def fixtureQueries : TypeHint := .typedDict [
  req "app" .str, req "second" .str, req "extension" .str, req "foreign_arch" .str,
  req "versions" (strDict fixtureQueryVersion), req "bundle_urls" .str,
  req "bundle_urls_size" .int, req "bundle_plain" .str, req "bundle_plain_size" .int,
  req "policy_repo" .str, req "policy_ref" .str, req "policy_commit" .str,
  req "policy_metadata" .str, req "policy_extensions" (.list fixturePolicyExtension),
  req "appstream" .str, req "icons" (strDict .str), opt "search_kind_repo" .str,
  opt "selection_repo" .str, opt "selection_commits" (strDict .str),
  opt "extension_mounts" fixtureExtensionMounts]

def fixtureTransactions : TypeHint := .typedDict [
  req "directory" .str, req "apps" (.list .str), req "commits" (strDict (strDict .str)),
  req "payloads" (strDict (strDict (.list .str))), req "metadata" (strDict .str),
  req "eol_reason" .str]

def fixtureContracts : TypeHint := .typedDict [
  req "repos" (strDict .str), req "refs" (strDict .str), req "commits" (strDict (strDict .str))]

def fixtureAuth : TypeHint := .typedDict [
  req "directory" .str, req "ref" .str, req "commit" .str, req "payloads" (.list .str),
  opt "authenticator_ref" .str, opt "authenticator_commit" .str,
  opt "authenticator_runtime_ref" .str, opt "authenticator_runtime_commit" .str,
  opt "authenticator_binary" .str]

def fixtureExtras : TypeHint := .typedDict [
  opt "transactions" fixtureTransactions, opt "auth" fixtureAuth]

def fixtureTrigger : TypeHint := .typedDict [req "repo" .str, req "commit" .str]

def fixtureLifecycleExtra : TypeHint := .typedDict [
  req "reference_version" .str, req "image_A" .str, req "payload_A" .str, req "image_B" .str,
  req "payload_B" .str, req "signed_bundle" .str, req "sideload_native" .str,
  req "sideload" .str, req "usage_repo" .str, req "usage_app" .str, req "usage_sdk" .str,
  req "usage_metadata" .str, req "usage_app_commit" .str, req "usage_sdk_commit" .str,
  req "trigger_app" .str, req "triggers" (strDict fixtureTrigger), opt "foreign_bundle" .str,
  opt "sideload_update_repo" .str, opt "sideload_update" .str, opt "sideload_update_commit" .str]

/-- `FixtureManifest`. -/
def fixtureManifest : TypeHint := .typedDict [
  req "schema" .int, req "arch" .str, req "app" .str, req "runtime" .str, req "branch" .str,
  req "commits" (strDict .str), req "runtime_commit" .str, req "sha256" (strDict .str),
  opt "directory" .str, opt "reference_version" .str, opt "compiler" .str,
  opt "assets" fixtureAssets, opt "sizes" (strDict (strDict (.typedDict fixtureSizeFields))),
  opt "build" fixtureBuild, opt "build_options" fixtureBuildOptions,
  opt "queries" fixtureQueries, opt "extras" fixtureExtras,
  opt "lifecycle_extra" fixtureLifecycleExtra, opt "contracts" fixtureContracts]

end TypeHint

/-! ## Readers -/

/-- A check of one value at a path, returning the value it accepts. -/
abbrev Reader := Value → String → Except PyException Value

/-- `string(value, path, nonempty=...)` as a reader; `_text` with `nonempty := false`. -/
def textReader (nonempty : Bool) : Reader := fun value path => do
  return .str (← string nonempty value path)

/-- `_size`: a nonnegative integer. -/
def sizeReader : Reader := fun value path => do
  return .int (← integer (some 0) value path)

/-- `_flag`. -/
def flagReader : Reader := fun value path => do
  return .bool (← boolean value path)

/-- `string_map(value, path, nonempty=...)` as a reader. -/
def textMapReader (nonempty : Bool) : Reader := fun value path => do
  let entries ← stringMap nonempty value path
  return .dict (entries.map fun (key, s) => (key, .str s))

/-- `strings(value, path)` as a reader. -/
def textsReader : Reader := fun value path => do
  return .list ((← strings false value path).map .str)

/-- `{key: reader(item, f"{path}.{key}") for key, item in object_map(value, path).items()}`. -/
def mapReader (reader : Reader) : Reader := fun value path => do
  let entries ← objectMap value path
  let result ← entries.mapM fun (key, item) => do
    let v ← reader item s!"{path}.{key}"
    return (key, v)
  return .dict result

/-- `[reader(item, f"{path}[{index}]") for index, item in enumerate(array(value, path))]`. -/
def listReader (reader : Reader) : Reader := fun value path => do
  let items ← array value path
  let result ← items.zipIdx.mapM fun (item, index) => reader item s!"{path}[{index}]"
  return .list result

/-- The required fields of a group, in order. -/
def readRequired (data : List (String × Value)) (path : String)
    (fields : List (String × Reader)) : Except PyException (List (String × Value)) :=
  fields.mapM fun (key, reader) => do
    let value ← required data key path
    let v ← reader value s!"{path}.{key}"
    return (key, v)

/-- `if key in data: result[key] = reader(...)`, for several independent fields. -/
def readOptional (data : List (String × Value)) (path : String)
    (fields : List (String × Reader)) : Except PyException (List (String × Value)) :=
  readRequired data path (fields.filter fun field => (data.lookup field.1).isSome)

/-- `_known(data, result, path)`: schema 1 has no extension fields. -/
def known (data result : List (String × Value)) (path : String) : Except PyException Unit :=
  data.forM fun (key, _) =>
    raiseIf ((result.lookup key).isNone) (validationError s!"{path}.{key}: unknown fixture field")

/-- A group with required fields only. -/
def groupReader (fields : List (String × Reader)) : Reader := fun value path => do
  let data ← objectMap value path
  let result ← readRequired data path fields
  known data result path
  return .dict result

/-! ## The groups -/

def parseAssets : Reader := groupReader [
  ("runtime_tree", textReader false), ("app_tree", textReader false)]

def parseSize : Reader := groupReader [("installed", sizeReader), ("download", sizeReader)]

def parseSizes : Reader := mapReader (mapReader parseSize)

def parseBuild : Reader := groupReader [
  ("gpg_home", textReader false), ("public_key", textReader false),
  ("key_id", textReader false), ("signed_repo", textReader false),
  ("bundle", textReader false), ("usb_repo", textReader false),
  ("collection_id", textReader false), ("usb_commits", textMapReader false),
  ("inheritance_tree", textReader false), ("permissions_repo", textReader false)]

/-- The set of keys of an object is exactly `keys`. -/
def hasExactKeys (keys : List String) (value : Value) : Bool :=
  keys.all (fun key => value.keys.contains key) && value.keys.all (fun key => keys.contains key)

def parseBuildOptions : Reader := fun value path => do
  let data ← objectMap value path
  let base ← readRequired data path [("oci", textReader false), ("oci_ref", textReader false)]
  let optional ← readOptional data path [
    ("arch", textReader false), ("arch_repo", textReader false),
    ("arch_commits", textMapReader false), ("oci_updates", textMapReader false)]
  match optional.lookup "oci_updates" with
  | some updates =>
      raiseIf (hasExactKeys ["app_A", "app_B", "runtime"] updates = false) (validationError
        s!"{path}.oci_updates: expected app_A, app_B and runtime layouts")
  | none => .ok ()
  known data (base ++ optional) path
  return .dict (base ++ optional)

def parseQueryRef : Reader := groupReader [
  ("commit", textReader false), ("metadata", textReader false),
  ("installed", sizeReader), ("download", sizeReader)]

def parseQueryVersion : Reader := groupReader [
  ("repo", textReader false), ("appstream", textReader false),
  ("refs", mapReader parseQueryRef)]

def parsePolicyExtension : Reader := groupReader [
  ("ref", textReader false), ("commit", textReader false), ("no_autodownload", flagReader),
  ("autodelete", flagReader), ("should_download", flagReader), ("should_delete", flagReader)]

def parseExtensionMounts : Reader := groupReader [
  ("app", textReader false), ("extension", textReader false), ("app_repo", textReader false),
  ("combined_repo", textReader false), ("extension_repo", textReader false),
  ("app_commit", textReader false), ("runtime_commit", textReader false),
  ("combined_commit", textReader false), ("separate_commit", textReader false),
  ("combined_marker", textReader false), ("separate_marker", textReader false)]

/-- The four refs the selection fixture exports besides its base runtime. -/
def selectionRefs (arch : String) : List String :=
  [("app", "org.flatpak.Selection"), ("app", "org.flatpak.SelectionOther"),
    ("runtime", "org.flatpak.SelectionPlatform"), ("runtime", "org.flatpak.Selection.Locale")].map
    fun (kind, name) => s!"{kind}/{name}/{arch}/test"

def parseQueries (arch : String) : Reader := fun value path => do
  let data ← objectMap value path
  let base ← readRequired data path [
    ("app", textReader false), ("second", textReader false), ("extension", textReader false),
    ("foreign_arch", textReader false), ("versions", mapReader parseQueryVersion),
    ("bundle_urls", textReader false), ("bundle_urls_size", sizeReader),
    ("bundle_plain", textReader false), ("bundle_plain_size", sizeReader),
    ("policy_repo", textReader false), ("policy_ref", textReader false),
    ("policy_commit", textReader false), ("policy_metadata", textReader false),
    ("policy_extensions", listReader parsePolicyExtension), ("appstream", textReader false),
    ("icons", textMapReader false)]
  let search ← readOptional data path [("search_kind_repo", textReader false)]
  let selection ← if (data.lookup "selection_repo").isSome then
      readRequired data path [
        ("selection_repo", textReader false), ("selection_commits", textMapReader false)]
    else .ok []
  match selection.lookup "selection_commits" with
  | some commits =>
      (selectionRefs arch).forM fun ref => do
        match commits.field? ref with
        | some commit => do
            let _ ← string true commit s!"{path}.selection_commits.{ref}"
        | none => .error (validationError
            s!"{path}.selection_commits.{ref}: required field is missing")
  | none => .ok ()
  let mounts ← readOptional data path [("extension_mounts", parseExtensionMounts)]
  let result := base ++ search ++ selection ++ mounts
  known data result path
  return .dict result

def parseTransactions : Reader := fun value path => do
  let data ← objectMap value path
  let apps ← strings false (← required data "apps" path) s!"{path}.apps"
  raiseIf (apps.length < 2) (validationError s!"{path}.apps: expected at least two apps")
  let result ← readRequired data path [
    ("directory", textReader false), ("apps", textsReader),
    ("commits", mapReader (textMapReader false)), ("payloads", mapReader (mapReader textsReader)),
    ("metadata", textMapReader false), ("eol_reason", textReader false)]
  known data result path
  return .dict result

def parseAuth : Reader := fun value path => do
  let data ← objectMap value path
  let base ← readRequired data path [
    ("directory", textReader false), ("ref", textReader false), ("commit", textReader false),
    ("payloads", textsReader)]
  let authenticator ← if (data.lookup "authenticator_ref").isSome then
      readRequired data path [
        ("authenticator_ref", textReader false), ("authenticator_commit", textReader false)]
    else .ok []
  let binary ← if (data.lookup "authenticator_binary").isSome then do
      let _ ← required data "authenticator_ref" path
      readRequired data path [
        ("authenticator_binary", textReader false),
        ("authenticator_runtime_ref", textReader false),
        ("authenticator_runtime_commit", textReader false)]
    else .ok []
  let result := base ++ authenticator ++ binary
  known data result path
  return .dict result

def parseExtras : Reader := fun value path => do
  let data ← objectMap value path
  let result ← readOptional data path [("transactions", parseTransactions), ("auth", parseAuth)]
  known data result path
  return .dict result

def parseTrigger : Reader := groupReader [
  ("repo", textReader false), ("commit", textReader false)]

def parseLifecycleExtra : Reader := fun value path => do
  let data ← objectMap value path
  let base ← readRequired data path [
    ("reference_version", textReader false), ("image_A", textReader false),
    ("payload_A", textReader false), ("image_B", textReader false),
    ("payload_B", textReader false), ("signed_bundle", textReader false),
    ("sideload_native", textReader false), ("sideload", textReader false),
    ("usage_repo", textReader false), ("usage_app", textReader false),
    ("usage_sdk", textReader false), ("usage_metadata", textReader false),
    ("usage_app_commit", textReader false), ("usage_sdk_commit", textReader false),
    ("trigger_app", textReader false), ("triggers", mapReader parseTrigger)]
  let foreign ← readOptional data path [("foreign_bundle", textReader false)]
  let sideload ← if (data.lookup "sideload_update_repo").isSome then
      readRequired data path [
        ("sideload_update_repo", textReader false), ("sideload_update", textReader false),
        ("sideload_update_commit", textReader false)]
    else .ok []
  let result := base ++ foreign ++ sideload
  known data result path
  return .dict result

def contractAliases : List String :=
  ["one", "two", "platform", "sdk", "extension", "shared", "one_debug", "two_debug",
    "platform_debug", "sdk_debug"]

def contractVersions : List String := ["A", "RUNTIME", "EXTENSION", "APP"]

def parseContracts : Reader := fun value path => do
  let data ← objectMap value path
  let result ← readRequired data path [
    ("repos", textMapReader true), ("refs", textMapReader true),
    ("commits", mapReader (textMapReader true))]
  let repos ← objectMap ((result.lookup "repos").getD .none) s!"{path}.repos"
  let refs ← objectMap ((result.lookup "refs").getD .none) s!"{path}.refs"
  let commits ← objectMap ((result.lookup "commits").getD .none) s!"{path}.commits"
  contractAliases.forM fun name => do
    let _ ← string true (← required refs name s!"{path}.refs") s!"{path}.refs.{name}"
  contractVersions.forM fun version => do
    let _ ← required repos version s!"{path}.repos"
    let versionCommits ← objectMap (← required commits version s!"{path}.commits")
      s!"{path}.commits.{version}"
    refs.forM fun (_, ref) => do
      let _ ← required versionCommits (ref.asStr?.getD "") s!"{path}.commits.{version}"
  known data result path
  return .dict result

/-- `parse_fixture(value, path)`. -/
def parseFixture : Reader := fun value path => do
  let data ← objectMap value path
  schemaOne data path
  let commits ← stringMap true (← required data "commits" path) s!"{path}.commits"
  ["A", "B"].forM fun version =>
    raiseIf ((commits.lookup version).isNone)
      (validationError s!"{path}.commits.{version}: required field is missing")
  let base ← readRequired data path [
    ("arch", textReader true), ("app", textReader true), ("runtime", textReader true),
    ("branch", textReader true), ("commits", textMapReader true),
    ("runtime_commit", textReader false), ("sha256", textMapReader false)]
  let arch := ((base.lookup "arch").bind Value.asStr?).getD ""
  let groups ← readOptional data path [
    ("directory", textReader false), ("reference_version", textReader false),
    ("compiler", textReader false), ("assets", parseAssets), ("sizes", parseSizes),
    ("build", parseBuild), ("build_options", parseBuildOptions),
    ("queries", parseQueries arch), ("extras", parseExtras),
    ("lifecycle_extra", parseLifecycleExtra), ("contracts", parseContracts)]
  let result := ("schema", .int 1) :: base ++ groups
  known data result path
  return .dict result

end FlatpakBlackbox
