import FlatpakBlackbox.Basic.Pattern
import FlatpakBlackbox.Catalogue.Tables
import FlatpakBlackbox.Manual.Expansion

set_option autoImplicit false

/-! # The command line interfaces

`Generator.cli` of `catalogue.py`: the commands that `app/flatpak-main.c` registers, each with the
options of its manual, and the global options, which are documented in one manual and registered in
two tables. A deprecated command is another name of the command with the same handler.
-/

namespace FlatpakBlackbox

open PyLib PyException

/-- Functions of Python's strings that only the texts of exceptions and exclusions use. -/
structure Texts where
  /-- `str` of a list of strings. -/
  listText : List String → String
  /-- `str.lower`. -/
  lower : String → String

namespace Catalogue

/-! ## Literals -/

/-- `[a-zA-Z0-9_-]`. -/
def isInterfaceChar (c : Char) : Bool := c.isAlphanum || c == '_' || c == '-'

/-- `"[a-zA-Z0-9_-]+"`. -/
def literalPattern : Pattern :=
  .seqs [.lit "\"", .plus (.cls isInterfaceChar), .lit "\""]

/-- `string_literal(value)`. -/
def stringLiteral (value : String) : Except PyException String :=
  match literalPattern.fullmatch? value.toList with
  | none => .error (catalogueError s!"Expected an interface-name string literal: {value}")
  | some _ => .ok (String.ofList value.toList.tail.dropLast)

/-- `'([a-zA-Z0-9?])'`. -/
def shortPattern : Pattern :=
  .seqs [.lit "'", .group 1 (.cls fun c => c.isAlphanum || c == '?'), .lit "'"]

/-! ## The table of commands -/

/-- What `commands[]` says of a command. -/
structure Command where
  handler : String
  deprecated : Bool

/-- A row that ends the table or is a heading. -/
def isHeading : List String → Bool
  | [field] => field = "NULL" || startsWith field "N_("
  | _ => false

section

variable [UnicodeDatabase] (texts : Texts)

/-- `flatpak_builtin_\w+`. -/
def handlerPattern : Pattern := .seqs [.lit "flatpak_builtin_", .plus (.cls isWord)]

/-- The name, the handler and the flag of a row that registers a command. -/
def registration? (fields : List String) : Option (String × String × Option String) :=
  let row := match fields with
    | [literal, _, handler, _] => some (literal, handler, none)
    | [literal, _, handler, _, flag] => some (literal, handler, some flag)
    | _ => none
  row.filter fun row => (handlerPattern.fullmatch? row.2.1.toList).isSome

/-- One row of `commands[]`. -/
def addCommand (commands : Dict String Command) (fields : List String) :
    Except PyException (Dict String Command) :=
  -- `continue` for the row that ends the table, and for headings.
  if isHeading fields then .ok commands
  else match registration? fields with
    | none => .error (catalogueError
        ("Unrecognized command registration: " ++ texts.listText fields))
    | some row => do
        let name ← stringLiteral row.1
        raiseIf (name ∈ commands.keys ∨ (row.2.2.any fun flag => flag ∉ ["TRUE", "FALSE"]) = true)
          (catalogueError ("Invalid/duplicate command registration: " ++ texts.listText fields))
        return commands.set name ⟨row.2.1, row.2.2 = some "TRUE"⟩

/-- `{name: fn for name, (fn, deprecated) in commands.items() if not deprecated}`. -/
def activeCommands (commands : Dict String Command) : List (String × Command) :=
  commands.entries.filter fun entry => !entry.2.deprecated

/-- `sorted(commands.items())`: no two items have the same name. -/
def byName (items : List (String × Command)) : List (String × Command) :=
  items.insertionSort fun a b => a.1 ≤ b.1

def mainPath : String := "app/flatpak-main.c"

def aliasReason (other canonical : String) : String :=
  s!"Excluded deprecated command alias {other} -> {canonical} ({mainPath}: commands[]); " ++
    "same handler, not a separate canonical command."

/-- A deprecated command, which must have one canonical name. -/
def excludeAlias (active : List (String × Command)) (g : Manual.Generator)
    (item : String × Command) : Except PyException Manual.Generator :=
  if item.2.deprecated = false then .ok g
  else
    match (active.filter fun entry => entry.2.handler = item.2.handler).map Prod.fst with
    | [canonical] => .ok (g.exclude (aliasReason item.1 canonical))
    | _ => .error (catalogueError s!"Cannot resolve deprecated command alias {item.1}")

/-! ## The manuals -/

variable (repo : Manual.Repository)

/-- `[name, *sorted(...)]`: a command and its deprecated names. -/
def candidatesOf (commands : Dict String Command) (item : String × Command) : List String :=
  item.1 :: sorted ((commands.entries.filter fun entry =>
    entry.2.deprecated && entry.2.handler = item.2.handler).map Prod.fst)

/-- `(self.root / f"doc/flatpak-{candidate}.xml").is_file()`. -/
def hasManual (candidate : String) : Bool :=
  ["doc", s!"flatpak-{candidate}.xml"] ∈ repo.tree.files.keys

def manualPath (candidate : String) : String := s!"doc/flatpak-{candidate}.xml"

/-- The manual of a command. -/
def manualOf (commands : Dict String Command) (item : String × Command) :
    Except PyException String :=
  let candidates := candidatesOf commands item
  let documents := (candidates.filter (hasManual repo)).map manualPath
  match documents with
  | [] => .error (catalogueError
      (s!"Missing command manual for {item.1}; tried " ++ texts.listText candidates))
  | [document] => .ok document
  | _ => .error (catalogueError
      (s!"Ambiguous command manuals for {item.1}: " ++ texts.listText documents))

/-- `self.options(command, path)`. -/
def optionsOf (command path : String) (g : Manual.Generator) :
    Fueled PyException (Manual.Generator × List String) := do
  let tree ← Manual.xml repo path
  Fueled.ofExcept (Manual.options command path tree g)

/-- The surface of a command. -/
def commandSurface (name document : String) : Manual.Surface :=
  ⟨s!"cli.command.{name}", "cli-command", name, none,
    [⟨mainPath, s!"commands[]: \"{name}\""⟩, ⟨document, "refentry"⟩], none, none⟩

/-- An active command and its options. -/
def addManual (commands : Dict String Command) (g : Manual.Generator) (item : String × Command) :
    Fueled PyException Manual.Generator := do
  let document ← Fueled.ofExcept (manualOf texts repo commands item)
  let g ← Fueled.ofExcept (g.add (commandSurface item.1 document))
  let added ← optionsOf repo item.1 document g
  return added.1

/-! ## The global options -/

/-- The variables of the loop over the tables of the global options. -/
structure Registered where
  generator : Manual.Generator
  names : List String

/-- The surface of a global option, with its registration. -/
def register (table name short : String) (item : Manual.Surface) :
    Except PyException Manual.Surface := do
  let literal := removePrefix name "--"
  let item := { item with sources := item.sources ++ [⟨mainPath, s!"{table}[]: \"{literal}\""⟩] }
  if short = "0" then return item
  else match shortPattern.fullmatch? short.toList with
    | none => .error (catalogueError s!"Unrecognized short option in {table}: {short}")
    | some m => return { item with
        aliases := some (Manual.sortedSet (item.aliases.getD [] ++ ["-" ++ m.group 1])) }

/-- One row of a table of global options. -/
def addRegistration (table : String) (s : Registered) (fields : List String) :
    Except PyException Registered :=
  match fields with
  | ["NULL"] => .ok s
  | [literal, short, _, _, _, _, _] => do
      let name := "--" ++ (← stringLiteral literal)
      let id := Manual.identifier "global" name
      match s.generator.surfaces.get? id with
      -- An option without documentation is reported by the comparison at the end.
      | none => return { s with names := name :: s.names }
      | some item => do
          let item ← register table name short item
          return ⟨{ s.generator with surfaces := s.generator.surfaces.set id item },
            name :: s.names⟩
  | _ => .error (catalogueError
      (s!"Unrecognized option registration in {table}: " ++ texts.listText fields))

/-- The manual of the global options, and the tables that register them. -/
def globalManual : String := "doc/flatpak.xml"

def globalTables : List String := ["global_entries", "empty_entries"]

/-- The rows of a table, as strings. -/
def rowsOf (text : List Char) (table : String) : Except PyException (List (List String)) := do
  let rows ← array text table.toList
  return rows.map fun fields => fields.map String.ofList

/-- One table of global options. -/
def addTable (text : List Char) (s : Registered) (table : String) :
    Except PyException Registered := do
  let rows ← rowsOf text table
  rows.foldlM (addRegistration texts table) s

/-- `sorted(first - second)`. -/
def missingFrom (first second : List String) : List String :=
  Manual.sortedSet (first.filter fun name => name ∉ second)

/-- The documented and the registered global options are the same. -/
def checkGlobal (documented registered : List String) : Except PyException Unit :=
  let undocumented := missingFrom registered documented
  let unregistered := missingFrom documented registered
  raiseIf (undocumented ≠ [] ∨ unregistered ≠ []) (catalogueError
    ("Global option mismatch: undocumented=" ++ texts.listText undocumented ++
      ", unregistered=" ++ texts.listText unregistered))

/-- `Generator.cli`, of a new generator. -/
def cli : Fueled PyException Manual.Generator := do
  let text ← Fueled.ofExcept (repo.read mainPath)
  let text := uncomment text
  let rows ← Fueled.ofExcept (rowsOf text "commands")
  let commands ← Fueled.ofExcept (rows.foldlM (addCommand texts) Dict.empty)
  let active := activeCommands commands
  Fueled.ofExcept (raiseIf (active = []) (catalogueError "No active commands found"))
  let g ← Fueled.ofExcept ((byName commands.entries).foldlM (excludeAlias active) ⟨Dict.empty, []⟩)
  let g ← (byName active).foldlM (addManual texts repo commands) g
  let manual ← optionsOf repo "global" globalManual g
  let s ← Fueled.ofExcept (globalTables.foldlM (addTable texts text) ⟨manual.1, []⟩)
  Fueled.ofExcept (checkGlobal texts manual.2 s.names)
  return s.generator

end

end Catalogue

end FlatpakBlackbox
