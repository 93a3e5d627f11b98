import FlatpakBlackbox.Catalogue.Library
import FlatpakBlackbox.Json.Value

set_option autoImplicit false

/-! # The catalogue document

`Generator.generate` of `catalogue.py`: the surfaces of the command line and of the library in the
order of their identifiers, and what the generator has left out, behind the policy.
-/

namespace FlatpakBlackbox

namespace Catalogue

open PyLib PyException

/-- `POLICY`. -/
def policy : List String := [
  "This is a source interface denominator, not behavior coverage. An entry does " ++
    "not establish that any test exercises its behavior, arguments, outcomes or errors.",
  "CLI commands are active entries in app/flatpak-main.c commands[]. Deprecated " ++
    "command aliases are excluded individually below. Standalone executables, " ++
    "D-Bus interfaces, environment variables and file formats are outside this denominator.",
  "Command options count every distinct documented long spelling in the command " ++
    "manual's option definitions, including local XML includes, with value arguments " ++
    "stripped. Sharing a documentation group does not imply semantic equivalence. " ++
    "Short spellings are aliases metadata only for groups with exactly one long " ++
    "spelling; multi-long groups record other long spellings as documented_with. " ++
    "Duplicate definitions of the same long spelling merge their source references. Repeated " ++
    "options such as --user count separately for each command. Synopsis placeholders, " ++
    "prose references, option values and short-only groups do not count. Undocumented " ++
    "command switches and GLib-generated help switches are outside this denominator.",
  "Global options come from flatpak.xml and are checked against global_entries[] " ++
    "and empty_entries[]. user_entries[] is command-specific, not an additional " ++
    "global option group.",
  "Library functions are explicit flatpak_* callable declarations in the literal " ++
    "public_headers list in common/meson.build, including deprecated functions. " ++
    "Macros, callbacks, class vfunc slots, private headers and generated plumbing " ++
    "are excluded. All type-registration get_type functions are excluded individually " ++
    "below, consistently for explicit declarations, G_DECLARE_* and generated enums.",
  "Library signals require a gtk-doc Owner::signal block and a matching " ++
    "g_signal_new registration for a public GType. Inherited GLib signals and " ++
    "private-class signals are excluded. Common library C sources listed in Meson " ++
    "are scanned without a built tree or preprocessing; conditional public " ++
    "declarations are counted regardless of the local build configuration.",
  "Meson discovery supports one literal public_headers assignment installed by " ++
    "one direct install_headers(public_headers, ...) call. Header reassignment, " ++
    "augmentation and alternative installer arguments are rejected. Library source " ++
    "discovery supports literal file lists assigned to names ending in sources, " ++
    "literal-list augmentation, and direct library/static_library source arguments. " ++
    "Source-list reassignment and indirect or computed source expressions are rejected.",
  "Meson parsing is a static subset, not a guarantee that future build structures " ++
    "are understood. It does not evaluate conditions, follow subdir/include calls, " ++
    "or resolve dependency-provided sources. The known generated inputs enums, " ++
    "flatpak_gdbus, flatpak_document_gdbus, flatpak_permission_gdbus, systemd_gdbus, " ++
    "flatpak_variant and " ++
    "wl_security_context are excluded from signal discovery without interpreting " ++
    "their generator definitions. New build indirection or generated public APIs " ++
    "require a catalogue-parser review.",
  "XML is parsed offline with the standard library. Internal entities and local " ++
    "SYSTEM XML entities/includes with one root element are supported and hashed. " ++
    "External DTDs are not " ++
    "fetched; unresolved entities, includes and unsupported XPointer syntax are errors."]

/-- The `reference` of a catalogue: the commit, and the hashes of the files that were read. -/
structure Reference where
  commit : String
  sources : List (String × String)

structure Document where
  reference : Reference
  limitations : List String
  surfaces : List Surface

/-- `Generator.generate`. What `git` and the hashes say is a parameter. -/
def generate [WordDatabase] (texts : Texts) (repo : Manual.Repository)
    (reference : Except PyException Reference) : Fueled PyException Document := do
  let commandLine ← cli texts repo
  let g ← Fueled.ofExcept (library texts repo (.ofManual commandLine))
  let reference ← Fueled.ofExcept reference
  return {
    reference
    limitations := policy ++ sorted g.exclusions
    surfaces := (sorted g.surfaces.keys).filterMap g.surfaces.get? }

/-! ## JSON -/

/-- The fields that an object has. -/
def present (fields : List (String × Option Value)) : List (String × Value) :=
  fields.filterMap fun field => field.2.map fun item => (field.1, item)

def textList (texts : List String) : Value := .list (texts.map .str)

def sourceValue (source : Manual.Source) : Value :=
  .dict [("path", .str source.path), ("anchor", .str source.anchor)]

/-- The fields of a surface, and whether it has them. -/
def Surface.fields (s : Surface) : List (String × Option Value) := [
  ("id", some (.str s.id)), ("kind", some (.str s.kind)), ("name", some (.str s.name)),
  ("command", s.command.map .str), ("owner", s.owner.map .str),
  ("sources", some (.list (s.sources.map sourceValue))), ("aliases", s.aliases.map textList),
  ("documented_with", s.documentedWith.map textList), ("deprecated", s.deprecated.map .bool),
  ("replacement", s.replacement.map .str)]

def Surface.toValue (s : Surface) : Value := .dict (present s.fields)

def Reference.toValue (r : Reference) : Value := .dict [
  ("commit", .str r.commit),
  ("sources", .dict (r.sources.map fun entry => (entry.1, .str entry.2)))]

/-- The JSON document. -/
def Document.toValue (d : Document) : Value := .dict [
  ("schema", .int 1), ("reference", d.reference.toValue),
  ("limitations", textList d.limitations), ("surfaces", .list (d.surfaces.map Surface.toValue))]

end Catalogue

end FlatpakBlackbox
