import FlatpakBlackbox.Catalogue.SplitC

set_option autoImplicit false

/-! # Discovery in the Meson sources

`meson_inputs` of `catalogue.py`: the installed headers and the C sources of the library, read from
the text of `common/meson.build`. The comments go first, by a lexer of their own
(`withoutComments`); everything else is a function of the text that is left.
-/

namespace FlatpakBlackbox

open PyLib Regex PyException

/-- What `\w` and `\d` match beyond ASCII. No white space is a letter. -/
class WordDatabase extends UnicodeDatabase where
  /-- `str.isdecimal`. -/
  isDecimal : Char → Bool
  space_not_alnum : ∀ c, isSpace c = true → isAlnum c = false

/-- `\d`. -/
def isDecimal [WordDatabase] (c : Char) : Bool :=
  if c.toNat < 128 then c.isDigit else WordDatabase.isDecimal c

/-! ## Comments -/

/-- `q[^q]*q`: a string literal without escapes. -/
def plainLiteral (q : Char) : Regex :=
  .seq (.cls (· == q)) (.seq (.star (.cls (· != q))) (.cls (· == q)))

/-- `#[^\n]*`. -/
def lineComment : Regex := .seq (.cls (· == '#')) (.star (.cls (· != '\n')))

/-- The expression that finds the comments of a Meson text. -/
def commentLexer : Regex := .alt (plainLiteral '\'') (.alt (plainLiteral '"') lineComment)

/-- `lambda match: "" if match[0].startswith("#") else match[0]`. -/
def dropComment (found : List Char) : List Char := if found.head? = some '#' then [] else found

/-- The text without its comments. -/
def withoutComments (text : List Char) : List Char := commentLexer.sub dropComment text

/-! ## The expressions of single statements -/

section

variable [WordDatabase]

/-- A name with its operator and expression. -/
structure Assignment where
  name : String
  operator : String
  expression : List Char

/-- `(\w+)\s*(\+?=)\s*(.*)`. -/
def assignmentOf (statement : List Char) : Option Assignment :=
  let (name, rest) := statement.span isWord
  if name = [] then none
  else
    match rest.dropWhile isSpace with
    | '+' :: '=' :: expression => some ⟨.ofList name, "+=", expression.dropWhile isSpace⟩
    | '=' :: expression => some ⟨.ofList name, "=", expression.dropWhile isSpace⟩
    | _ => none

/-- `\[([^\]]*)\]`. -/
def listBody? : List Char → Option (List Char)
  | '[' :: rest =>
      let (body, last) := rest.span (· ≠ ']')
      -- `fullmatch`: nothing follows the bracket.
      if last = [']'] then some body else none
  | _ => none

/-- `['"]([^'"]+)['"]`. -/
def quotedBody? : List Char → Option (List Char)
  | q :: rest =>
      let (body, last) := rest.span fun c => !isQuote c
      if isQuote q ∧ body ≠ [] ∧ last.length = 1 then some body else none
  | [] => none

/-- A literal with something before one of these suffixes. -/
def fileName? (suffixes : List String) (text : List Char) : Option String :=
  (quotedBody? text).bind fun body =>
    if suffixes.any fun suffix => suffix.toList.isSuffixOf body && suffix.length < body.length then
      some (.ofList body)
    else none

/-- `(\w+)\[\d+\]`. -/
def indexedName? (text : List Char) : Option String :=
  let (name, rest) := text.span isWord
  match rest with
  | '[' :: rest =>
      let (digits, last) := rest.span isDecimal
      if name ≠ [] ∧ digits ≠ [] ∧ last = [']'] then some (.ofList name) else none
  | _ => none

/-- `(\w+)\s*:\s*(.*)`, at the front. -/
def keyword? (text : List Char) : Option (String × List Char) :=
  let (name, rest) := text.span isWord
  match rest.dropWhile isSpace with
  | ':' :: value => if name ≠ [] then some (.ofList name, value.dropWhile isSpace) else none
  | _ => none

/-- `word\s*\((.*)\)`. -/
def callArguments? (word : String) (text : List Char) : Option (List Char) :=
  if word.toList.isPrefixOf text then
    match (text.drop word.length).dropWhile isSpace with
    -- `.*` is greedy, so the last character closes the call.
    | '(' :: rest => if rest.getLast? = some ')' then some rest.dropLast else none
    | _ => none
  else none

/-- `\w+\s*=\s*`, at the front: what follows. -/
def target? (text : List Char) : Option (List Char) :=
  let (name, rest) := text.span isWord
  match rest.dropWhile isSpace with
  | '=' :: value => if name ≠ [] then some (value.dropWhile isSpace) else none
  | _ => none

/-- The functions that declare a library. -/
def libraryFunctions : List String := ["static_library", "library"]

/-- `(?:\w+\s*=\s*)?(?:static_library|library)\s*\((.*)\)`. -/
def libraryArguments? (statement : List Char) : Option (List Char) :=
  ((target? statement).bind fun call => libraryFunctions.findSome? (callArguments? · call)).or
    (libraryFunctions.findSome? (callArguments? · statement))

/-- `(?:…)\s*\(`, at the front. -/
def opensCall (words : List String) (text : List Char) : Bool :=
  words.any fun word => word.toList.isPrefixOf text &&
    ((text.drop word.length).dropWhile isSpace).head? == some '('

/-- No word goes on after this character. -/
def atBoundary (before : Option Char) : Bool := before.all fun c => !isWord c

/-- `len(re.findall(r"\b(?:…)\s*\(", text))`, after the character `before`. Matches do not overlap,
so every position counts. -/
def callCount (words : List String) : Option Char → List Char → Nat
  | _, [] => 0
  | before, c :: rest =>
      (if atBoundary before && opensCall words (c :: rest) then 1 else 0) +
        callCount words (some c) rest

/-! ## Source expressions -/

/-- The inputs that are generated. -/
def generatedInputs : List String :=
  ["enums", "flatpak_gdbus", "flatpak_document_gdbus", "flatpak_permission_gdbus", "systemd_gdbus",
    "flatpak_variant", "wl_security_context"]

/-- The C sources of one operand of a source expression. `walk` is for the members of a list. -/
def operandSources (references : List String)
    (walk : List Char → Except PyException (List String)) (part : List Char) :
    Except PyException (List String) :=
  match fileName? [".c", ".h"] part with
  -- A header is allowed, but it is no source.
  | some name => .ok (if ".c".toList.isSuffixOf name.toList then [name] else [])
  | none =>
      if part.head? = some '[' ∧ part.getLast? = some ']' then do
        let members ← splitC part.tail.dropLast
        let found ← members.mapM walk
        return found.flatten
      else if String.ofList part ∈ generatedInputs ++ references ∨
          (indexedName? part).any (· ∈ generatedInputs) then .ok []
      else .error (catalogueError
        s!"Unsupported Meson library source expression: {String.ofList part}")

/-- `source_expression(expression, references)`: the C sources that it adds. Every nested list is
shorter than the expression, so the length of the expression is enough fuel. -/
def sourceExpression (references : List String) :
    Nat → List Char → Except PyException (List String)
  | 0, _ => .ok []
  | fuel + 1, expression => do
      let parts ← splitC expression '+'
      let found ← parts.mapM (operandSources references (sourceExpression references fuel))
      return found.flatten

/-- `source_expression` with enough fuel. -/
def sourcesOf (references : List String) (expression : List Char) :
    Except PyException (List String) :=
  sourceExpression references (expression.length + 1) expression

/-! ## Statements -/

/-- The members of the one literal assignment of `public_headers`. -/
def publicHeaders (assignments : List Assignment) : Except PyException (List String) := do
  match assignments.filter fun assignment => assignment.name = "public_headers" with
  | [⟨_, "=", expression⟩] =>
      match listBody? expression with
      | none => .error (catalogueError "Nonliteral public_headers assignment")
      | some body => do
          let members ← splitC body
          let headers ← members.mapM fun member =>
            match fileName? [".h"] member with
            | some name => .ok name
            | none => .error (catalogueError "Nonliteral public_headers list member")
          raiseIf (headers = [] ∨ ¬ headers.Nodup)
            (catalogueError "Empty or duplicate public_headers list")
          return headers
  | _ => .error (catalogueError "Expected one explicit literal public_headers assignment")

/-- `{name for name in assignments if name.endswith("sources")}`, sorted. -/
def sourceNames (assignments : List Assignment) : List String :=
  sorted ((assignments.map Assignment.name).filter fun name =>
    "sources".toList.isSuffixOf name.toList).dedup

/-- The C sources of one source list. -/
def definitionSources (assignments : List Assignment) (name : String) :
    Except PyException (List String) := do
  let definitions := assignments.filter fun assignment => assignment.name = name
  raiseIf (definitions.head?.map Assignment.operator ≠ some "=" ∨
      (definitions.filter fun definition => definition.operator = "=").length ≠ 1)
    (catalogueError s!"Unsupported Meson source-list reassignment: {name}")
  let found ← definitions.mapM fun definition => sourcesOf [] definition.expression
  return found.flatten

/-- The C sources of the source lists. -/
def listedSources (assignments : List Assignment) : Except PyException (List String) := do
  let found ← (sourceNames assignments).mapM (definitionSources assignments)
  return found.flatten

/-- The check of `install_headers(public_headers, ...)`. -/
def checkInstaller (arguments : List Char) : Except PyException Unit := do
  let args ← splitC arguments
  raiseIf (args.head? ≠ some "public_headers".toList ∨
      ∃ arg ∈ args.tail, (keyword? arg).isNone = true)
    (catalogueError "Unsupported install_headers arguments")

/-- The C sources of one argument of a library call. -/
def argumentSources (references : List String) (argument : List Char) :
    Except PyException (List String) :=
  match keyword? argument with
  -- The other keywords hold no sources.
  | some ("sources", value) => sourcesOf references value
  | some _ => .ok []
  | none => sourcesOf references argument

/-- The C sources of a library call. -/
def librarySources (references : List String) (arguments : List Char) :
    Except PyException (List String) := do
  let args ← splitC arguments
  match args with
  | name :: args => do
      raiseIf (quotedBody? name).isNone (catalogueError "Unsupported Meson library target name")
      let found ← args.mapM (argumentSources references)
      return found.flatten
  | [] => .error (catalogueError "Unsupported Meson library target name")

/-- What one statement contributes in the last loop. -/
def statementSources (references : List String) (statement : List Char) :
    Except PyException (List String) := do
  match callArguments? "install_headers" statement with
  | some arguments => checkInstaller arguments
  | none => .ok ()
  match libraryArguments? statement with
  | some arguments => librarySources references arguments
  | none => return []

/-- `meson_inputs` from the text without comments on. -/
def inputsOf (clean : List Char) : Except PyException (List String × List String) := do
  let statements ← splitC clean '\n'
  let assignments := statements.filterMap assignmentOf
  let headers ← publicHeaders assignments
  let listed ← listedSources assignments
  let called ← statements.mapM
    (statementSources (sourceNames assignments ++ ["public_headers"]))
  let installed := (statements.filter fun statement =>
    (callArguments? "install_headers" statement).isSome).length
  let libraries := (statements.filter fun statement => (libraryArguments? statement).isSome).length
  -- A call that is not a statement of its own is counted in the text only.
  raiseIf (installed ≠ 1 ∨ callCount ["install_headers"] none clean ≠ installed)
    (catalogueError "Expected one direct install_headers(public_headers, ...) call")
  raiseIf (libraries = 0 ∨ libraries ≠ callCount libraryFunctions none clean)
    (catalogueError "Unsupported or missing direct Meson library declarations")
  let sources := listed ++ called.flatten
  raiseIf (sources = []) (catalogueError "No common C sources found in Meson")
  return (headers, sorted sources.dedup)

/-- `meson_inputs(text)`. -/
def mesonInputs (text : String) : Except PyException (List String × List String) :=
  inputsOf (withoutComments text.toList)

end

end FlatpakBlackbox
