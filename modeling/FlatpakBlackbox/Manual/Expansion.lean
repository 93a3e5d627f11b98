import FlatpakBlackbox.Basic.Fuel
import FlatpakBlackbox.Basic.Regex
import FlatpakBlackbox.Manual.Options

set_option autoImplicit false

/-! # Expansion of a manual

`Generator.xml` of `catalogue.py` reads a manual and puts other documents of the repository in the
place of its local entities and of its XInclude nodes. `ElementTree` is a parameter: what it parses,
and what its paths find. An element is a value here; the lists of children that the source edits in
place hold references, and so do they in `edit`.
-/

namespace FlatpakBlackbox.Manual

open PyLib Regex PyException

/-! ## The repository -/

/-- The documents below `Generator.root`, and the functions of `ElementTree`. -/
structure Repository where
  /-- The decoded documents. -/
  tree : FileTree (List Char)
  /-- The root is resolved. -/
  root_resolved : tree.root.all isComponent = true
  /-- The root of the document that a text is by the rules of XML, or the text of the
  `ParseError`. -/
  standard : List Char → Except String Node
  /-- The root is an element, and has no tail. -/
  standard_root : ∀ text root, standard text = .ok root →
    ∃ tag attributes content children, root = .element tag attributes content children ""
  /-- The text of the `ParseError` for a reference to an external entity. -/
  undefined : List Char → String
  /-- `element.findall(path)`, and nothing if it raises `SyntaxError` or `KeyError`. -/
  findall : Element → String → Option (List Element)
  /-- What is found is in the element. -/
  findall_mem : ∀ root path found, findall root path = some found →
    ∀ element ∈ found, element ∈ root.iter
  /-- `str(element.attrib)`. -/
  attrib : Element → String

/-- A `findall` that finds nothing. -/
theorem mem_iter_of_findall_nil (root : Element) (_path : String) (found : List Element)
    (h : some [] = some found) : ∀ element ∈ found, element ∈ root.iter :=
  Option.some.inj h ▸ List.forall_mem_nil _

/-- The components of `base / text`, where `base` is absolute. -/
def join (base : Path) (text : String) : List String :=
  if text.toList.head? = some '/' then pathParts text else base ++ pathParts text

/-- `path.as_posix()`. -/
def asPosix (path : Path) : String := if path = [] then "." else "/".intercalate path

/-- `[a-zA-Z][a-zA-Z0-9+.-]*:` at the front of a text. -/
def hasScheme (href : List Char) : Bool :=
  href.head?.any (·.isAlpha) &&
    (href.dropWhile fun c => c.isAlphanum || c == '+' || c == '.' || c == '-').head? = some ':'

namespace Repository

variable (repo : Repository)

/-- `ET.fromstring(text)`. It does not read external entities. -/
def parse (text : List Char) : Except String Element :=
  match repo.standard text with
  | .error e => .error e
  | .ok root =>
      match root.plain? with
      | none => .error (repo.undefined text)
      | some element => .ok element

/-- `path.resolve().relative_to(self.root)`, for the components of an absolute path. -/
def relative? (parts : List String) : Option Path :=
  let path := resolveFrom [] parts
  if repo.tree.root.isPrefixOf path then some (path.drop repo.tree.root.length) else none

/-- `Generator.read`. -/
def read (path : String) : Except PyException (List Char) :=
  match repo.relative? (join repo.tree.root path) with
  | none => .error (catalogueError s!"Source escapes repository: {path}")
  | some file => repo.tree.read file

/-- `Generator.local_path`. -/
def localPath (parent href : String) : Except PyException String := do
  raiseIf (hasScheme href.toList = true ∨ '#' ∈ href.toList ∨ '?' ∈ href.toList)
    (catalogueError s!"Non-local XML reference in {parent}: {href}")
  match repo.relative? (join (join repo.tree.root parent).dropLast href) with
  | none => .error (catalogueError s!"XML reference escapes repository: {href}")
  | some file => return asPosix file

end Repository

/-! ## Entities -/

/-- `[\w.-]`. -/
def isNameChar [UnicodeDatabase] (c : Char) : Bool := isWord c || c == '.' || c == '-'

/-- `r+`, for a class. -/
def oneOrMore (p : Char → Bool) : Regex := .seq (.cls p) (.star (.cls p))

/-- `<!ENTITY\s+([\w.-]+)\s+SYSTEM\s+['"]([^'"]+)['"]\s*>`. -/
def external [UnicodeDatabase] : Regex :=
  .seq (lit "<!ENTITY".toList) (.seq (oneOrMore isSpace) (.seq (oneOrMore isNameChar)
    (.seq (oneOrMore isSpace) (.seq (lit "SYSTEM".toList) (.seq (oneOrMore isSpace)
      (.seq (.cls isQuote) (.seq (oneOrMore fun c => !isQuote c) (.seq (.cls isQuote)
        (.seq (.star (.cls isSpace)) (lit ['>']))))))))))

structure Declaration where
  name : String
  href : String

/-- The groups of a match. -/
def declarationOf [UnicodeDatabase] (found : List Char) : Declaration where
  name := .ofList (((found.drop "<!ENTITY".toList.length).dropWhile isSpace).takeWhile isNameChar)
  href := .ofList (((found.dropWhile fun c => !isQuote c).drop 1).takeWhile fun c => !isQuote c)

/-- `external.finditer(text)`. -/
def declarations [UnicodeDatabase] (text : List Char) : List Declaration :=
  ((external.scan text).filter Prod.fst).map fun piece => declarationOf piece.2

def entityTag : String := "catalogue-local-entity"

/-- A node for each reference to the entity. -/
def markEntity (text : List Char) (declaration : Declaration) : List Char :=
  (lit s!"&{declaration.name};".toList).sub
    (fun _ => s!"<{entityTag} name=\"{declaration.name}\"/>".toList) text

/-- The text that is parsed. -/
def prepared [UnicodeDatabase] (text : List Char) : List Char :=
  external.sub (fun _ => []) ((declarations text).foldl markEntity text)

mutual

/-- `for element in tree.iter(): self.origins[element] = path`. -/
def Element.stamp (path : String) : Element → Element
  | .node tag attributes text children tail _ =>
      .node tag attributes text (Element.stampAll path children) tail path

def Element.stampAll (path : String) : List Element → List Element
  | [] => []
  | child :: children => child.stamp path :: Element.stampAll path children

end

/-- The document itself. -/
def Repository.document [UnicodeDatabase] (repo : Repository) (path : String) (text : List Char) :
    Except PyException Element :=
  match repo.parse (prepared text) with
  | .error e => .error (catalogueError s!"Unresolved or malformed XML in {path}: {e}")
  | .ok tree => .ok (tree.stamp path)

/-! ## Replacements -/

def includeTag : String := "\x7bhttp://www.w3.org/2001/XInclude\x7dinclude"

/-- `(?:element\(([\w.-]+)\)|([\w.-]+))`, as a whole. -/
def pointerId? [UnicodeDatabase] (pointer : List Char) : Option String :=
  if "element(".toList.isPrefixOf pointer ∧ pointer.getLast? = some ')' then
    let name := (pointer.drop "element(".toList.length).dropLast
    if name ≠ [] ∧ name.all isNameChar = true then some (.ofList name) else none
  else if pointer ≠ [] ∧ pointer.all isNameChar = true then some (.ofList pointer)
  else none

/-- `entities[child.attrib["name"]]`. -/
def entityOf (entities : Dict String Element) (child : Element) : Except PyException Element :=
  match child.get? "name" with
  | none => .error (keyError "'name'")
  | some name =>
      match entities.get? name with
      | none => .error (keyError s!"'{name}'")
      | some entity => .ok entity

section

variable [UnicodeDatabase] (repo : Repository)

/-- What an XPointer selects. -/
def selectPointer (path pointer : String) (included : Element) : Except PyException
    (List Element) :=
  match pointerId? pointer.toList with
  | some identifier => .ok (included.iter.filter fun e => e.get? "id" = some identifier)
  | none =>
      let unsupported := catalogueError s!"Unsupported XPointer in {path}: {pointer}"
      if startsWith pointer "xpointer(//" && endsWith pointer ")" then
        let query := (pointer.toList.drop "xpointer(".toList.length).dropLast
        match repo.findall included (.ofList ('.' :: query)) with
        | none => .error unsupported
        | some selected => .ok selected
      else .error unsupported

/-- What an include takes from its document. -/
def select (path : String) (pointer : Option String) (included : Element) :
    Except PyException (List Element) :=
  match pointer with
  | none => .ok [included]
  | some pointer =>
      if pointer = "" then .ok [included]
      else do
        let selected ← selectPointer repo path pointer included
        raiseIf (selected.isEmpty = true)
          (catalogueError s!"Unresolved XPointer in {path}: {pointer}")
        return selected

/-- The document that an include names. -/
def includeHref (path : String) (child : Element) : Except PyException String :=
  let unsupported := catalogueError s!"Unsupported XML include in {path}: {repo.attrib child}"
  match child.get? "href" with
  | none => .error unsupported
  | some href => if (child.get? "parse").getD "xml" ≠ "xml" then .error unsupported else .ok href

/-- What replaces a child, if anything does. `load` expands another document. -/
def replacement (load : String → Fueled PyException Element) (path : String)
    (entities : Dict String Element) (child : Element) :
    Fueled PyException (Option (List Element)) :=
  if child.tag = entityTag then do
    let entity ← Fueled.ofExcept (entityOf entities child)
    return some [entity]
  else if child.tag ≠ includeTag then return none
  else do
    let href ← Fueled.ofExcept (includeHref repo path child)
    let target ← Fueled.ofExcept (repo.localPath path href)
    let included ← load target
    let selected ← Fueled.ofExcept (select repo path (child.get? "xpointer") included)
    return some selected

end

/-! ## Editing -/

/-- An item in the list of a parent: a reference to one of its own children, or to an element of
another document. -/
inductive Slot where
  | own (index : Nat)
  | inserted (element : Element)

/-- `parent.remove(child)` for the child at the index, and `parent.insert(index, entry)` for each
entry, the last one first. -/
def replaceAt (slots : List Slot) (index : Nat) (selected : List Element) : List Slot :=
  selected.reverse.foldl (fun slots entry => slots.insertIdx index (.inserted entry))
    (slots.eraseIdx index)

/-- One child, with its index. -/
def editStep (f : Element → Fueled PyException (Option (List Element))) (slots : List Slot)
    (item : Element × Nat) : Fueled PyException (List Slot) := do
  match ← f item.1 with
  | none => return slots
  | some selected => return replaceAt slots item.2 selected

/-- `for index, child in reversed(list(enumerate(parent)))`. -/
def edit (f : Element → Fueled PyException (Option (List Element))) (children : List Element) :
    Fueled PyException (List Slot) :=
  children.zipIdx.reverse.foldlM (editStep f) ((List.range children.length).map Slot.own)

/-- The element that an item refers to, once the own children are done. -/
def Slot.fill (children : List Element) : Slot → Option Element
  | .own index => children[index]?
  | .inserted element => some element

mutual

/-- `for parent in list(tree.iter())`: a parent comes before its children, and the children are the
ones that it had at first. -/
def expand (f : Element → Fueled PyException (Option (List Element))) :
    Element → Fueled PyException Element
  | .node tag attributes text children tail origin => do
      let slots ← edit f children
      let expanded ← expandAll f children
      return .node tag attributes text (slots.filterMap (Slot.fill expanded)) tail origin

def expandAll (f : Element → Fueled PyException (Option (List Element))) :
    List Element → Fueled PyException (List Element)
  | [] => return []
  | child :: children => do
      let first ← expand f child
      let rest ← expandAll f children
      return first :: rest

end

/-! ## The recursion -/

section

variable [UnicodeDatabase] (repo : Repository)

/-- One declaration. -/
def declare (load : String → Fueled PyException Element) (path : String)
    (entities : Dict String Element) (declaration : Declaration) :
    Fueled PyException (Dict String Element) := do
  let target ← Fueled.ofExcept (repo.localPath path declaration.href)
  let entity ← load target
  return entities.set declaration.name entity

def cyclic (path : String) (ancestors : List String) : PyException :=
  let chain := " -> ".intercalate (ancestors ++ [path])
  catalogueError s!"Cyclic XML include/entity: {chain}"

/-- `Generator.xml`, with fuel. -/
def xmlFrom : Nat → String → List String → Fueled PyException Element
  | 0, _, _ => Fueled.exhausted
  | fuel + 1, path, ancestors => do
      Fueled.ofExcept (raiseIf (path ∈ ancestors) (cyclic path ancestors))
      let text ← Fueled.ofExcept (repo.read path)
      let load := fun target => xmlFrom fuel target (ancestors ++ [path])
      let entities ← (declarations text).foldlM (declare repo load path) Dict.empty
      let tree ← Fueled.ofExcept (repo.document path text)
      expand (replacement repo load path entities) tree

/-- `Generator.xml`. The chain of ancestors holds each document once at most. -/
def xml (path : String) : Fueled PyException Element :=
  xmlFrom repo (repo.tree.files.keys.length + 2) path []

end

end FlatpakBlackbox.Manual
