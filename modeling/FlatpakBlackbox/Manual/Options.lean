import FlatpakBlackbox.Basic.Reorder
import FlatpakBlackbox.Catalogue.SplitC
import FlatpakBlackbox.Manual.Element

set_option autoImplicit false

/-! # The options of a manual

`Generator.options` of `catalogue.py`: the long options that the definition lists of a manual
define, each with its short spellings, the other long spellings of its entries and the places where
it is defined. An option may be defined several times, in several documents.
-/

namespace FlatpakBlackbox.Manual

open PyLib PyException

/-! ## Names -/

/-- `[a-zA-Z0-9-]`. -/
def isOptionChar (c : Char) : Bool := c.isAlphanum || c == '-'

/-- `re.match(r"(--?[a-zA-Z0-9?][a-zA-Z0-9-]*)(?=$|[=\s\[])", value)`. -/
def optionName? (value : List Char) : Option String :=
  -- `--?` cannot take one dash of two: the next character would be a dash.
  let dashes := if ['-', '-'].isPrefixOf value then ['-', '-'] else ['-']
  if dashes.isPrefixOf value then
    match value.drop dashes.length with
    | c :: rest =>
        let ends := ((rest.dropWhile isOptionChar).head?.all fun d => d == '=' ||
          d == '[' || isSpace d)
        if (c.isAlphanum || c == '?') && ends then
          some (.ofList (dashes ++ c :: rest.takeWhile isOptionChar))
        else none
    | [] => none
  else none

/-- One `<option>` of a term. -/
def addName (path : String) (names : List String) (option : Element) :
    Except PyException (List String) :=
  let value := strip option.itertext.toList
  match optionName? value with
  | none =>
      -- Nested value tables are not option definitions: only what starts with a dash must parse.
      if value.head? = some '-' then
        .error (catalogueError
          s!"Unparsed option definition in {path}: {String.ofList value}")
      else .ok names
  | some name => .ok (if name ∈ names then names else names ++ [name])

/-- One `<term>` of an entry. -/
def addTerm (path : String) (names : List String) (term : Element) :
    Except PyException (List String) := do
  let options := term.iter.filter fun element => element.tag = "option"
  raiseIf (options.isEmpty = true ∧ (strip term.itertext.toList).head? = some '-')
    (catalogueError s!"Option definition without <option> markup in {path}")
  options.foldlM (addName path) names

/-- The names that an entry defines. -/
def entryNames (path : String) (entry : Element) : Except PyException (List String) :=
  (entry.findall "term").foldlM (addTerm path) []

def isLong (name : String) : Bool := startsWith name "--"

/-! ## Surfaces -/

structure Source where
  path : String
  anchor : String
  deriving DecidableEq

/-- The fields of a surface that options have. -/
structure Surface where
  id : String
  kind : String
  name : String
  command : Option String
  sources : List Source
  aliases : Option (List String)
  documentedWith : Option (List String)

/-- What `options` changes of the generator. -/
structure Generator where
  surfaces : Dict String Surface
  exclusions : List String

/-- `Generator.add`. -/
def Generator.add (g : Generator) (item : Surface) : Except PyException Generator := do
  raiseIf (item.id ∈ g.surfaces.keys) (catalogueError s!"Duplicate interface ID: {item.id}")
  return { g with surfaces := g.surfaces.set item.id item }

def Generator.exclude (g : Generator) (reason : String) : Generator :=
  { g with exclusions := g.exclusions.insert reason }

def identifier (command name : String) : String := s!"cli.option.{command}.{name}"

/-- The anchor of the `n`-th definition of a name in one document. -/
def definitionAnchor (name : String) (n : Nat) : String :=
  if n > 1 then s!"varlistentry/term/option: {name} (definition {n})"
  else s!"varlistentry/term/option: {name}"

def includeAnchor (origin : String) : String := s!"XML include/entity of {origin}"

/-- Where the `n`-th definition of a name in `origin` is. -/
def definitionSources (path origin : String) (name : String) (n : Nat) : List Source :=
  ⟨origin, definitionAnchor name n⟩ ::
    if origin ≠ path then [⟨path, includeAnchor origin⟩] else []

/-- `list.extend` with what is not in the list yet. -/
def extend (sources more : List Source) : List Source :=
  more.foldl (fun known source => if source ∈ known then known else known ++ [source]) sources

/-- `sorted({…})`. -/
def sortedSet (names : List String) : List String := sorted names.dedup

/-! ## The loop -/

/-- The variables of the loop. -/
structure Progress where
  generator : Generator
  spellings : List String
  /-- The counter, as the list of what has been counted. -/
  occurrences : List (String × String)

/-- One long name of an entry. -/
def addOption (command : String) (path origin : String) (names longs : List String) (s : Progress)
    (name : String) : Except PyException Progress :=
  let occurrences := (origin, name) :: s.occurrences
  let sources := definitionSources path origin name (occurrences.count (origin, name))
  -- A short name belongs to an option only where it is the one long name of the entry.
  let aliases := if longs.length = 1 then sorted (names.filter fun n => !isLong n) else []
  let documentedWith := sorted (longs.filter fun other => other ≠ name)
  match s.generator.surfaces.get? (identifier command name) with
  | some previous =>
      let merged : Surface := { previous with
        sources := extend previous.sources sources
        aliases := some (sortedSet (previous.aliases.getD [] ++ aliases))
        documentedWith := if documentedWith = [] then previous.documentedWith
          else some (sortedSet (previous.documentedWith.getD [] ++ documentedWith)) }
      let generator : Generator :=
        { s.generator with surfaces := s.generator.surfaces.set (identifier command name) merged }
      .ok ⟨generator.exclude
        (s!"Collapsed duplicate option definition {command} {name} ({path}); " ++
          "identical long spellings count once, with merged source references."),
        s.spellings, occurrences⟩
  | none => do
      let generator ← s.generator.add
        ⟨identifier command name, "cli-option", name, some command, sources, some aliases,
          if documentedWith = [] then none else some documentedWith⟩
      return ⟨generator, s.spellings ++ [name], occurrences⟩

/-- An entry without a long name. -/
def Progress.exclude (s : Progress) (command : String) (path : String) (names : List String) :
    Progress :=
  let reason := s!"Excluded short-only option group {command} " ++ "/".intercalate names ++
    s!" ({path})."
  { s with generator := s.generator.exclude reason }

/-- One entry. -/
def addEntry (command : String) (path : String) (s : Progress) (entry : Element) :
    Except PyException Progress := do
  let names ← entryNames path entry
  let longs := names.filter isLong
  -- An entry without any name is not about options.
  if longs = [] then return if names = [] then s else s.exclude command path names
  else longs.foldlM (addOption command path entry.origin names longs) s

/-- The definitions of a manual, in document order. -/
def entriesOf (tree : Element) : List Element := tree.iter.filter fun e => e.tag = "varlistentry"

/-- `Generator.options(command, path)`, for the expanded manual. The result has the long names. -/
def options (command : String) (path : String) (tree : Element) (g : Generator) :
    Except PyException (Generator × List String) := do
  let s ← (entriesOf tree).foldlM (addEntry command path) ⟨g, [], []⟩
  raiseIf (s.spellings = []) (catalogueError s!"No long-option definitions in {path}")
  return (s.generator, s.spellings)

end FlatpakBlackbox.Manual
