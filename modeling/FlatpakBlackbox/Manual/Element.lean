import FlatpakBlackbox.FileTree

set_option autoImplicit false

/-! # Elements of the manuals

An element of `xml.etree.ElementTree`. The text that follows an element, up to the next one, is its
tail. `Generator.origins` maps every element to the document that it was parsed from; here the
element holds that path itself.
-/

namespace FlatpakBlackbox.Manual

open PyLib

/-- `ET.Element`, with its entry of `Generator.origins`. -/
inductive Element where
  | node (tag : String) (attributes : List (String × String)) (text : String)
      (children : List Element) (tail : String) (origin : String)

namespace Element

def tag : Element → String
  | node tag _ _ _ _ _ => tag

def attributes : Element → List (String × String)
  | node _ attributes _ _ _ _ => attributes

def text : Element → String
  | node _ _ text _ _ _ => text

def children : Element → List Element
  | node _ _ _ children _ _ => children

def tail : Element → String
  | node _ _ _ _ tail _ => tail

def origin : Element → String
  | node _ _ _ _ _ origin => origin

/-- `element.get(name)`. -/
def get? (element : Element) (name : String) : Option String := element.attributes.lookup name

/-- The element with other children. -/
def withChildren (element : Element) (children : List Element) : Element :=
  node element.tag element.attributes element.text children element.tail element.origin

/-- An element is settled once its children are. -/
theorem induct {motive : Element → Prop}
    (h : ∀ element, (∀ child ∈ element.children, motive child) → motive element) :
    ∀ element, motive element
  | node tag attributes text children tail origin =>
      h (node tag attributes text children tail origin) fun child hchild =>
        have hlt : sizeOf child < sizeOf (node tag attributes text children tail origin) := by
          have hmem := List.sizeOf_lt_of_mem (show child ∈ children from hchild)
          rw [node.sizeOf_spec]
          omega
        induct h child
  termination_by element => sizeOf element
  decreasing_by exact hlt

mutual

/-- `element.iter()`: the element and its descendants, in document order. -/
def iter : Element → List Element
  | node tag attributes text children tail origin =>
      node tag attributes text children tail origin :: iterAll children

def iterAll : List Element → List Element
  | [] => []
  | child :: children => child.iter ++ iterAll children

end

mutual

/-- `"".join(element.itertext())`. -/
def itertext : Element → String
  | node _ _ text children _ _ => text ++ itertextAll children

def itertextAll : List Element → String
  | [] => ""
  | child :: children => child.itertext ++ child.tail ++ itertextAll children

end

/-- `element.findall(tag)`, for the tag of children. -/
def findall (element : Element) (tag : String) : List Element :=
  element.children.filter fun child => child.tag = tag

theorem mem_iterAll {element : Element} {children : List Element} :
    element ∈ iterAll children ↔ ∃ child ∈ children, element ∈ child.iter := by
  induction children with
  | nil => simp [iterAll]
  | cons child children ih => simp [iterAll, ih]

theorem mem_iter {element root : Element} :
    element ∈ root.iter ↔ element = root ∨ ∃ child ∈ root.children, element ∈ child.iter := by
  cases root with
  | node tag attributes text children tail origin =>
      rw [iter, List.mem_cons, mem_iterAll]
      rfl

end Element

/-! ## Documents -/

/-- A node of a document as XML has it: an element, or a reference to an external entity, which
stands where the content of that entity belongs, with the text behind it. -/
inductive Node where
  | element (tag : String) (attributes : List (String × String)) (text : String)
      (children : List Node) (tail : String)
  | entity (href tail : String)

namespace Node

mutual

/-- The element that `ElementTree` makes of a node, if it refers to no external entity. -/
def plain? : Node → Option Element
  | element tag attributes text children tail =>
      (plainAll? children).map fun children => .node tag attributes text children tail ""
  | entity _ _ => none

def plainAll? : List Node → Option (List Element)
  | [] => some []
  | child :: children => do
      let first ← child.plain?
      let rest ← plainAll? children
      return first :: rest

end

end Node

end FlatpakBlackbox.Manual
