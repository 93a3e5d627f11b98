import FlatpakBlackbox.Basic.Pattern
import FlatpakBlackbox.Catalogue.Commands
import FlatpakBlackbox.Catalogue.Meson

set_option autoImplicit false

/-! # The library interfaces

`Generator.library` and `Generator.signals` of `catalogue.py`: the functions that the public headers
declare, and the signals that the sources register for public types. What a declaration is, is
decided by itself (`exportOf`, `registrationOf`); what the generator does with it is a fold over the
declarations of a file.
-/

namespace FlatpakBlackbox

namespace Catalogue

open PyLib PyException

/-! ## Surfaces -/

/-- A surface of the catalogue, with the fields of the command line and of the library. -/
structure Surface extends Manual.Surface where
  owner : Option String
  deprecated : Option Bool
  replacement : Option String

/-- A surface of the command line. -/
def Surface.ofManual (s : Manual.Surface) : Surface := ⟨s, none, none, none⟩

/-- `Generator`, without the hashes of what it has read. -/
structure Generator where
  surfaces : Dict String Surface
  exclusions : List String

/-- The generator behind `cli`. -/
def Generator.ofManual (g : Manual.Generator) : Generator :=
  ⟨g.surfaces.mapValues Surface.ofManual, g.exclusions⟩

/-- `Generator.add`. -/
def Generator.add (g : Generator) (item : Surface) : Except PyException Generator := do
  raiseIf (item.id ∈ g.surfaces.keys) (catalogueError s!"Duplicate interface ID: {item.id}")
  return { g with surfaces := g.surfaces.set item.id item }

def Generator.exclude (g : Generator) (reason : String) : Generator :=
  { g with exclusions := g.exclusions.insert reason }

def typeReason (name path reason : String) : String :=
  s!"Excluded type-registration function {name} ({path}: {reason}); GType plumbing."

/-- `Generator.exclude_type`. -/
def Generator.excludeType (g : Generator) (name path reason : String) : Generator :=
  g.exclude (typeReason name path reason)

/-- `word in text`. -/
def occursIn (word : String) (text : List Char) : Bool :=
  text.tails.any fun rest => word.toList.isPrefixOf rest

section

variable [UnicodeDatabase]

/-! ## Patterns -/

def wordChars : Pattern := .star (.cls isWord)

def word : Pattern := .plus (.cls isWord)

def spaces : Pattern := .star (.cls isSpace)

def someSpaces : Pattern := .plus (.cls isSpace)

/-- `\b`. -/
def edge : Pattern := .boundary isWord

/-- `[^…]*`. -/
def noneOf (characters : List Char) : Pattern := .star (.cls fun c => c ∉ characters)

/-- `(?m)^\s*#(?:[^\n\\]|\\\n)*`. -/
def directivePattern : Pattern :=
  .seqs [.lineStart, spaces, .lit "#",
    .star (.alt (.cls fun c => c ∉ ['\n', '\\']) (.lit "\\\n"))]

/-- `typedef\s+struct\s+_?(Flatpak\w+)\s+\1\s*;`. -/
def structPattern : Pattern :=
  .seqs [.lit "typedef", someSpaces, .lit "struct", someSpaces, .opt (.lit "_"),
    .group 1 (.seq (.lit "Flatpak") word), someSpaces, .again 1, spaces, .lit ";"]

/-- `typedef\s+enum\s*(?:\w+\s*)?\{[^}]*\}\s*(Flatpak\w+)\s*;`. -/
def enumPattern : Pattern :=
  .seqs [.lit "typedef", someSpaces, .lit "enum", spaces, .opt (.seq word spaces), .lit "\x7b",
    noneOf ['}'], .lit "\x7d", spaces, .group 1 (.seq (.lit "Flatpak") word), spaces, .lit ";"]

/-- `\bG_BEGIN_DECLS\b|\bG_END_DECLS\b`. -/
def guardPattern : Pattern :=
  .alt (.seqs [edge, .lit "G_BEGIN_DECLS", edge]) (.seqs [edge, .lit "G_END_DECLS", edge])

/-- `\bFLATPAK_EXTERN\s+(?:G_DECLARE_\w+\s*\([^)]*\)|[^;]+;)`. -/
def externPattern : Pattern :=
  .seqs [edge, .lit "FLATPAK_EXTERN", someSpaces, .alt
    (.seqs [.lit "G_DECLARE_", word, spaces, .lit "(", noneOf [')'], .lit ")"])
    (.seqs [.plus (.cls (· != ';')), .lit ";"])]

/-- `\bFLATPAK_EXTERN\b`. -/
def markerPattern : Pattern := .seqs [edge, .lit "FLATPAK_EXTERN", edge]

/-- `FLATPAK_EXTERN\s+G_DECLARE_(?:FINAL|DERIVABLE|INTERFACE)_TYPE\s*\(\s*(Flatpak\w+)\s*,\s*`
`(flatpak_\w+)\s*,[^)]*\)`. -/
def macroPattern : Pattern :=
  .seqs [.lit "FLATPAK_EXTERN", someSpaces, .lit "G_DECLARE_",
    .alt (.lit "FINAL") (.alt (.lit "DERIVABLE") (.lit "INTERFACE")), .lit "_TYPE", spaces,
    .lit "(", spaces, .group 1 (.seq (.lit "Flatpak") word), spaces, .lit ",", spaces,
    .group 2 (.seq (.lit "flatpak_") word), spaces, .lit ",", noneOf [')'], .lit ")"]

/-- `flatpak_\w+`. -/
def functionName : Pattern := .seq (.lit "flatpak_") word

/-- `\b(flatpak_\w+)\s*\(`. -/
def functionPattern : Pattern := .seqs [edge, .group 1 functionName, spaces, .lit "("]

/-- `G_GNUC_DEPRECATED(?:_FOR\s*\(\s*(\w+)\s*\))?\s*$`. -/
def annotationPattern : Pattern :=
  .seqs [.lit "G_GNUC_DEPRECATED",
    .opt (.seqs [.lit "_FOR", spaces, .lit "(", spaces, .group 1 word, spaces, .lit ")"]),
    spaces, .textEnd]

/-- `\bG_DECLARE_\w+\s*\(`. -/
def declarePattern : Pattern := .seqs [edge, .lit "G_DECLARE_", word, spaces, .lit "("]

/-- `G_GNUC_DEPRECATED_FOR\s*\([^)]*\)`. -/
def replacedPattern : Pattern :=
  .seqs [.lit "G_GNUC_DEPRECATED_FOR", spaces, .lit "(", noneOf [')'], .lit ")"]

/-- `\b(flatpak_\w+)\s*\([^;{}]*\)\s*[^;{}]*;`. -/
def candidatePattern : Pattern :=
  .seqs [edge, .group 1 functionName, spaces, .lit "(", noneOf [';', '{', '}'], .lit ")", spaces,
    noneOf [';', '{', '}'], .lit ";"]

/-- `GType\s+@enum_name@_get_type\s*\(void\)`. -/
def templatePattern : Pattern :=
  .seqs [.lit "GType", someSpaces, .lit "@enum_name@_get_type", spaces, .lit "(void)"]

/-- `([A-Z]+)([A-Z][a-z])` and `([a-z0-9])([A-Z])`. -/
def acronymPattern : Pattern :=
  .seqs [.group 1 (.plus (.cls Char.isUpper)),
    .group 2 (.seq (.cls Char.isUpper) (.cls Char.isLower))]

def humpPattern : Pattern :=
  .seqs [.group 1 (.cls fun c => c.isLower || c.isDigit), .group 2 (.cls Char.isUpper)]

/-- `\b\w+_class_init\s*\(\s*(\w+)Class\s*\*\s*\w+\s*\)\s*\{`. -/
def classPattern : Pattern :=
  .seqs [edge, word, .lit "_class_init", spaces, .lit "(", spaces, .group 1 word, .lit "Class",
    spaces, .lit "*", spaces, word, spaces, .lit ")", spaces, .lit "\x7b"]

/-- `/\*\*.*?\*/`. -/
def blockPattern : Pattern := .seqs [.lit "/**", .lazy (.cls fun _ => true), .lit "*/"]

/-- `[\w-]+`. -/
def signalName : Pattern := .plus (.cls fun c => isWord c || c == '-')

/-- `(?m)^\s*\*\s*(\w+)::([\w-]+):\s*$`. -/
def signalPattern : Pattern :=
  .seqs [.lineStart, spaces, .lit "*", spaces, .group 1 word, .lit "::", .group 2 signalName,
    .lit ":", spaces, .lineEnd]

/-- `\b(g_signal_new\w*)\s*\(`. -/
def registrationPattern : Pattern :=
  .seqs [edge, .group 1 (.seq (.lit "g_signal_new") wordChars), spaces, .lit "("]

/-- `\s*"([\w-]+)"\s*,`. -/
def namePattern : Pattern :=
  .seqs [spaces, .lit "\"", .group 1 signalName, .lit "\"", spaces, .lit ","]

/-- `"(?:\\.|[^"\\])*"|'(?:\\.|[^'\\])*'`, for one quote. -/
def quotedPattern (quote : Char) : Pattern :=
  .seqs [.cls (· == quote), .star (.alt (.seq (.lit "\\") (.cls (· != '\n')))
    (.cls fun c => c ∉ [quote, '\\'])), .cls (· == quote)]

/-- `{m[1] for m in re.finditer(r, text)}`, in the order of the text. -/
def groupsIn (r : Pattern) (text : List Char) : List String :=
  (r.finditer text).map fun m => m.group 1

/-! ## Declarations -/

/-- A declaration of a public header. -/
inductive Export where
  | macroType (type function : String)
  | typeFunction (name : String)
  | function (surface : Surface)

/-- The function that an ordinary declaration declares. -/
def Export.name? : Export → Option String
  | macroType _ _ => none
  | typeFunction name => some name
  | function surface => some surface.name

def Export.isMacro : Export → Bool
  | macroType _ _ => true
  | _ => false

/-- The public type that the declaration makes. -/
def Export.type? : Export → Option String
  | macroType type _ => some type
  | _ => none

/-- The surface of the declaration. -/
def Export.surface? : Export → Option Surface
  | function surface => some surface
  | _ => none

/-- Why the declaration has no surface. -/
def Export.reason? (path : String) : Export → Option String
  | macroType _ getter => some (typeReason getter path "G_DECLARE_* implicit declaration")
  | typeFunction name => some (typeReason name path "explicit declaration")
  | function _ => none

/-- The surface of a function, whose declaration stands behind `before`. -/
def functionSurface (path name : String) (before unit : List Char) : Surface :=
  let annotation := annotationPattern.search? before
  { id := s!"library.function.{name}", kind := "library-function", name := name, command := none
    sources := [⟨path, name⟩], aliases := none, documentedWith := none, owner := none
    deprecated := some <| annotation.isSome || occursIn "DEPRECATED" unit
    replacement := annotation.bind fun m => m.group? 1 }

/-- What stands behind `FLATPAK_EXTERN`. -/
def exportOf (path : String) (m : Pattern.Match) : Except PyException Export :=
  let unrecognized := catalogueError
    s!"Unrecognized public declaration in {path}: {String.ofList m.text}"
  -- `G_DECLARE_*` declares the function of a type, whose name the macro has as an argument.
  match macroPattern.fullmatch? m.text with
  | some found => .ok (.macroType (found.group 1) (found.group 2 ++ "_get_type"))
  | none =>
      match functionPattern.search? m.text with
      | none => .error unrecognized
      | some function => do
          let name := function.group 1
          let units ← splitC m.text ';'
          raiseIf (units.length ≠ 1 ∨ occursIn "G_DECLARE_" m.text = true) unrecognized
          if endsWith name "_get_type" then return .typeFunction name
          return .function (functionSurface path name m.before m.text)

/-- The variables of the loop over the headers. -/
structure Exports where
  generator : Generator
  publicTypes : List String
  enumTypes : List (String × String)

/-- What the generator does with a declaration. -/
def account (path : String) (e : Exports) : Export → Except PyException Exports
  | .macroType type function => .ok { e with
      generator := e.generator.excludeType function path "G_DECLARE_* implicit declaration"
      publicTypes := type :: e.publicTypes }
  | .typeFunction name =>
      .ok { e with generator := e.generator.excludeType name path "explicit declaration" }
  | .function surface => do
      let generator ← e.generator.add surface
      return { e with generator }

/-- The variables of the loop over the declarations of a header. -/
structure HeaderState where
  exports : Exports
  found : List String
  declaredMacros : Nat

/-- One declaration. -/
def addExport (path : String) (s : HeaderState) (m : Pattern.Match) :
    Except PyException HeaderState := do
  let declared ← exportOf path m
  let exports ← account path s.exports declared
  return ⟨exports, s.found ++ declared.name?.toList,
    s.declaredMacros + if declared.isMacro then 1 else 0⟩

/-! ## Headers -/

/-- A header without comments and directives. -/
def headerText (source : List Char) : List Char :=
  directivePattern.sub (fun _ => []) (uncomment source)

/-- The text of a header in which the declarations are found. -/
def declarationText (source : List Char) : List Char :=
  guardPattern.sub (fun _ => []) (headerText source)

/-- The functions that a header may declare. -/
def candidatesIn (source : List Char) : List String :=
  groupsIn candidatePattern (replacedPattern.sub (fun _ => []) (declarationText source))

variable (texts : Texts) (repo : Manual.Repository)

def headerPath (header : String) : String := s!"common/{header}"

/-- One public header. -/
def addHeader (e : Exports) (header : String) : Except PyException Exports := do
  raiseIf (occursIn "private" header.toList = true)
    (catalogueError s!"Private header in public_headers: {header}")
  let path := headerPath header
  let source ← repo.read path
  let text := declarationText source
  let declarations := externPattern.finditer text
  raiseIf (declarations.length ≠ (markerPattern.finditer text).length)
    (catalogueError s!"Unparsed public export marker in {path}")
  let s ← declarations.foldlM (addExport path) ⟨{ e with
    publicTypes := groupsIn structPattern (headerText source) ++ e.publicTypes
    enumTypes := ((groupsIn enumPattern (headerText source)).map fun enum => (enum, path))
      ++ e.enumTypes }, [], 0⟩
  raiseIf (s.declaredMacros ≠ (declarePattern.finditer text).length)
    (catalogueError s!"Unaccounted G_DECLARE_* public type in {path}")
  let unaccounted := missingFrom (candidatesIn source) s.found
  raiseIf (unaccounted ≠ []) (catalogueError
    (s!"Unaccounted public declarations in {path}: " ++ texts.listText unaccounted))
  return s.exports

/-! ## Enumerations -/

def templatePath : String := "common/flatpak-enum-types.h.template"

/-- `r"\1_\2"`. -/
def joinGroups (m : Pattern.Match) : List Char :=
  (m.group 1).toList ++ '_' :: (m.group 2).toList

/-- The name of the function that is generated for an enumeration. -/
def enumFunction (enum : String) : String :=
  let snake := humpPattern.sub joinGroups (acronymPattern.sub joinGroups enum.toList)
  texts.lower (String.ofList snake) ++ "_get_type"

/-- `sorted(enum_types)`, of a set of pairs. -/
def sortedPairs (pairs : List (String × String)) : List (String × String) :=
  pairs.dedup.insertionSort fun a b => a.1 < b.1 ∨ a.1 = b.1 ∧ a.2 ≤ b.2

/-- What is reported of an enumeration and its header. -/
def enumReason (enum : String × String) : String :=
  typeReason (enumFunction texts enum.1) enum.2 s!"generated enum {enum.1}; {templatePath}"

/-- The functions that are generated for the enumerations. -/
def excludeEnums (g : Generator) (enumTypes : List (String × String)) :
    Except PyException Generator :=
  if enumTypes = [] then .ok g
  else do
    let template ← repo.read templatePath
    raiseIf ((templatePattern.search? template).isNone)
      (catalogueError "Unrecognized generated enum declaration template")
    return (sortedPairs enumTypes).foldl (fun g enum => g.exclude (enumReason texts enum)) g

/-! ## Signals -/

/-- A comment, which may document a signal. -/
def addComment (documented : Dict Nat (String × String)) (block : Pattern.Match) :
    Dict Nat (String × String) :=
  match signalPattern.search? block.text with
  | none => documented
  | some m => documented.set block.stop (m.group 1, m.group 2)

/-- The documented signals of a source, by the end of their comments. -/
def documentedIn (source : List Char) : Dict Nat (String × String) :=
  (blockPattern.finditer source).foldl addComment Dict.empty

/-- The owner and the name of a registration. -/
structure Registration where
  owner : String
  name : String

/-- `braces`: what stands between the last class and a registration, without literals. -/
def bracesOf (between : List Char) : List Char :=
  (Pattern.alt (quotedPattern '"') (quotedPattern '\'')).sub (fun _ => []) between

/-- What a call of `g_signal_new` registers, and for which class. -/
def registrationOf (path : String) (clean : List Char) (m : Pattern.Match) :
    Except PyException Registration := do
  raiseIf (m.group 1 ≠ "g_signal_new") (catalogueError
    s!"Unsupported signal registration form in {path}: {String.ofList m.text}")
  match namePattern.match? m.after with
  | none => .error (catalogueError s!"Nonliteral signal name in {path}")
  | some found =>
      let name := found.group 1
      match ((classPattern.finditer clean).filter fun owner => owner.start < m.start).getLast? with
      | none => .error (catalogueError
          s!"Signal registration outside recognized class_init in {path}: {name}")
      | some owner => do
          -- The registration stands within the function if more braces are opened than closed.
          let braces := bracesOf ((clean.take m.start).drop (owner.stop - 1))
          raiseIf (braces.count '{' ≤ braces.count '}')
            (catalogueError s!"Signal registration outside class_init in {path}: {name}")
          return ⟨owner.group 1, name⟩

/-- The surface of a signal. -/
def signalSurface (path owner signal : String) : Surface :=
  { id := s!"library.signal.{owner}.{signal}", kind := "library-signal", name := signal
    command := none
    sources := [⟨path, s!"{owner}::{signal}"⟩, ⟨path, "g_signal_new (\"" ++ signal ++ "\""⟩]
    aliases := none, documentedWith := none, owner := some owner, deprecated := none
    replacement := none }

/-- The variables of the loop over the registrations. -/
structure SignalState where
  generator : Generator
  consumed : List Nat

/-- A registration for a public type needs the last comment before it. -/
def addSignal (path : String) (source : List Char) (documented : Dict Nat (String × String))
    (s : SignalState) (m : Pattern.Match) (found : Registration) : Except PyException SignalState :=
  match (documented.keys.filter fun stop => stop ≤ m.start).max? with
  | none => .error (catalogueError s!"Undocumented signal registration in {path}: {found.name}")
  | some stop => do
      let block := documented.getD stop ("", "")
      -- A comment belongs to the registration if no statement stands between them.
      let between := uncomment ((source.take m.start).drop stop)
      raiseIf (block.2 ≠ found.name ∨ block.1 ≠ found.owner ∨ ';' ∈ between ∨ stop ∈ s.consumed)
        (catalogueError s!"Cannot associate signal registration in {path}: {found.name}")
      let generator ← s.generator.add (signalSurface path block.1 block.2)
      return ⟨generator, stop :: s.consumed⟩

def privateReason (path : String) (found : Registration) : String :=
  s!"Excluded private-class signal {found.owner}::{found.name} ({path}); " ++
    "owner is not a public GType."

/-- One registration. -/
def addRegistered (path : String) (source : List Char) (publicTypes : List String)
    (documented : Dict Nat (String × String)) (s : SignalState) (m : Pattern.Match) :
    Except PyException SignalState := do
  let found ← registrationOf path (uncomment source) m
  if found.owner ∉ publicTypes then
    return { s with generator := s.generator.exclude (privateReason path found) }
  else addSignal path source documented s m found

/-- `Generator.signals(path, public_types)`. -/
def signals (path : String) (publicTypes : List String) (g : Generator) :
    Except PyException Generator := do
  let source ← repo.read path
  let documented := documentedIn source
  let s ← (registrationPattern.finditer (uncomment source)).foldlM
    (addRegistered path source publicTypes documented) ⟨g, []⟩
  documented.entries.forM fun entry =>
    raiseIf (entry.2.1 ∈ publicTypes ∧ entry.1 ∉ s.consumed) (catalogueError
      s!"Public signal has no registration in {path}: {entry.2.1}::{entry.2.2}")
  return s.generator

end

/-! ## The library -/

/-- `headers, c_sources`. -/
def mesonFiles [WordDatabase] (repo : Manual.Repository) :
    Except PyException (List String × List String) := do
  let meson ← repo.read "common/meson.build"
  mesonInputs (String.ofList meson)

def sourcePath (source : String) : String := s!"common/{source}"

/-- `Generator.library`. -/
def library [WordDatabase] (texts : Texts) (repo : Manual.Repository) (g : Generator) :
    Except PyException Generator := do
  let files ← mesonFiles repo
  let e ← files.1.foldlM (addHeader texts repo) ⟨g, [], []⟩
  let g ← excludeEnums texts repo e.generator e.enumTypes
  files.2.foldlM (fun g source => signals repo (sourcePath source) e.publicTypes g) g

end Catalogue

end FlatpakBlackbox
