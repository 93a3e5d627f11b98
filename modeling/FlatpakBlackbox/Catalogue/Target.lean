import FlatpakBlackbox.Catalogue.Interfaces
import FlatpakBlackbox.Catalogue.Library
import FlatpakBlackbox.Manual.ClosedForm

set_option autoImplicit false

/-! # The interfaces of the target

What a source tree says of its interfaces: which commands it registers, which options their manuals
define, which functions its public headers declare and which signals it registers for public types.
Tables, declarations and registrations are recognised as the generator does (`rowsOf`, `exportOf`,
`registrationOf`), so of a declaration with several functions the first one counts; what the
generator makes of them plays no part. `Belongs` puts them together: it is the set that the
catalogue is to list.
-/

namespace FlatpakBlackbox

namespace Catalogue

open PyLib PyException

/-- Nothing is missing. -/
theorem missingFrom_eq_nil {first second : List String} :
    missingFrom first second = [] ↔ ∀ name ∈ first, name ∈ second := by
  unfold missingFrom
  rw [Manual.sortedSet_eq_nil, List.filter_eq_nil_iff]
  simp

section

variable [UnicodeDatabase] (repo : Manual.Repository)

/-! ## The command line -/

/-- The rows of a table of `flatpak-main.c`. -/
def mainTable (table : String) : Except PyException (List (List String)) := do
  let text ← repo.read mainPath
  rowsOf (uncomment text) table

/-- The row registers the command under this name. -/
structure Names (fields : List String) (name : String) (command : Command) : Prop where
  not_heading : isHeading fields = false
  row : ∃ literal flag, registration? fields = some (literal, command.handler, flag)
    ∧ stringLiteral literal = .ok name ∧ command.deprecated = decide (flag = some "TRUE")

def IsCommand (name : String) (command : Command) : Prop :=
  ∃ rows, mainTable repo "commands" = .ok rows ∧ ∃ fields ∈ rows, Names fields name command

/-- A command that is not deprecated. -/
def IsActive (name : String) : Prop := ∃ handler, IsCommand repo name ⟨handler, false⟩

/-- The other name is a deprecated name of the command. -/
def IsAlias (other name : String) : Prop :=
  ∃ handler, IsCommand repo name ⟨handler, false⟩ ∧ IsCommand repo other ⟨handler, true⟩

/-- A manual of the command: under its name, or under a deprecated one. -/
def IsManual (name document : String) : Prop :=
  ∃ candidate, document = manualPath candidate ∧ hasManual repo candidate = true
    ∧ (candidate = name ∨ IsAlias repo candidate name)

/-- The manual defines the long option. -/
def Defines (document name : String) : Prop :=
  ∃ tree entry names, (Manual.xml repo document).Returns tree ∧ entry ∈ Manual.entriesOf tree
    ∧ Manual.entryNames document entry = .ok names ∧ name ∈ names ∧ Manual.isLong name = true

/-- An option of an active command. -/
def IsOption (command name : String) : Prop :=
  IsActive repo command ∧ ∃ document, IsManual repo command document ∧ Defines repo document name

/-- The row registers the option. -/
def NamesOption (fields : List String) (name : String) : Prop :=
  ∃ literal rest suffix, fields = literal :: rest ∧ rest.length = 6
    ∧ stringLiteral literal = .ok suffix ∧ name = "--" ++ suffix

/-- A table registers the global option. -/
def RegistersGlobal (name : String) : Prop :=
  ∃ table ∈ globalTables, ∃ rows, mainTable repo table = .ok rows
    ∧ ∃ fields ∈ rows, NamesOption fields name

end

/-! ## The library -/

section

variable [WordDatabase] (repo : Manual.Repository)

/-- A public header and its text. -/
def IsHeader (path : String) (source : List Char) : Prop :=
  ∃ files, mesonFiles repo = .ok files ∧ ∃ header ∈ files.1, path = headerPath header
    ∧ repo.read path = .ok source

/-- A source of the library and its text. -/
def IsSource (path : String) (source : List Char) : Prop :=
  ∃ files, mesonFiles repo = .ok files ∧ ∃ name ∈ files.2, path = sourcePath name
    ∧ repo.read path = .ok source

/-- A public header makes the declaration, as `exportOf` reads it. -/
def Declares (path : String) (e : Export) : Prop :=
  ∃ source, IsHeader repo path source
    ∧ ∃ m ∈ externPattern.finditer (declarationText source), exportOf path m = .ok e

/-- A public type: a public header has its structure, or declares it with a macro. -/
def IsPublic (type : String) : Prop :=
  (∃ path source, IsHeader repo path source ∧ type ∈ groupsIn structPattern (headerText source))
    ∨ ∃ path function, Declares repo path (.macroType type function)

/-- A source of the library registers the signal, for the class whose `class_init` comes last before
it. -/
def Registers (path : String) (found : Registration) : Prop :=
  ∃ source, IsSource repo path source ∧ ∃ m ∈ registrationPattern.finditer (uncomment source),
    registrationOf path (uncomment source) m = .ok found

/-! ## The interfaces -/

/-- **The interfaces of the target.** -/
def Belongs : Interface → Prop
  | .command name => IsActive repo name
  | .option command name =>
      IsOption repo command name ∨ command = "global" ∧ Defines repo globalManual name
  | .function name => ∃ path surface, Declares repo path (.function surface) ∧ surface.name = name
  | .signal owner name => IsPublic repo owner ∧ ∃ path, Registers repo path ⟨owner, name⟩

end

end Catalogue

end FlatpakBlackbox
