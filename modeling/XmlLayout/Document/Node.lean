import XmlLayout.Document.Name
import XmlLayout.Document.Tag
import XmlLayout.Value

/-!
# Document trees

An element is a tag, which holds all that is its own, and a list of children. Where a child
belongs there may also be a plain value, or an element that was read from a document: such a tree can
be held and changed, but not written.

Nodes are compared by shape alone (`Node.equal`): two elements are equal when their children are
equal in order, whatever the tags say. As far as equality goes, an element is the list of its
children, so it may equal a plain list too. An element that was read is equal to itself alone.
-/

namespace XmlLayout.Document

/-- What may stand where an element belongs. -/
inductive Foreign where
  | plain (value : Value)
  /-- An element that was read from a document. Which one it is, is told by where it is kept. -/
  | parsed (address : Nat) (tree : Reading.Tree)

namespace Foreign

def kind : Foreign → Kind
  | plain v => v.kind
  | parsed _ _ => .parsed

def same : Foreign → Foreign → Bool
  | plain v, plain w => v.same w
  | parsed address _, parsed other _ => address = other
  | _, _ => false

def shown : Foreign → String
  | plain v => v.shown
  | parsed address (.element tag _) =>
    "<Element " ++ Text.quoted tag.name ++ " at 0x" ++ String.ofList (Nat.toDigits 16 address) ++ ">"

end Foreign

/-- A node of a tree: an element, or something else in its place. -/
inductive Node where
  | element (tag : Tag) (children : List Node)
  | foreign (value : Foreign)

/-- An element by itself: what can be edited. -/
structure Element where
  tag : Tag
  children : List Node

def Element.toNode (e : Element) : Node :=
  .element e.tag e.children

namespace Node

/-! ## Equality by shape -/

mutual

/-- Whether a node equals what is no element. -/
def equalsForeign : Node → Foreign → Bool
  | foreign v, w => v.same w
  | element _ children, w => match w with
    | .plain (.list items) => childrenEqualItems children items
    | _ => false

/-- Whether children equal the items of a plain list, in order. -/
def childrenEqualItems : List Node → List Value → Bool
  | [], [] => true
  | child :: rest, item :: items =>
    child.equalsForeign (.plain item) && childrenEqualItems rest items
  | _, _ => false

end

mutual

def equal : Node → Node → Bool
  | element tag children, other => match other with
    | element _ others => childrenEqual children others
    | foreign v => (element tag children).equalsForeign v
  | foreign v, other => other.equalsForeign v

def childrenEqual : List Node → List Node → Bool
  | [], [] => true
  | child :: rest, other :: others => child.equal other && childrenEqual rest others
  | _, _ => false

end

/-! ## Nodes in messages -/

/-- A node as it is shown in a message: an element by its name and the number of its children. -/
def shown : Node → String
  | element tag children =>
    "<Element " ++ tag.name ++ " #" ++ toString children.length ++ ">"
  | foreign v => v.shown

end Node

end XmlLayout.Document
