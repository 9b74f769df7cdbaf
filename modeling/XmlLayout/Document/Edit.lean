import XmlLayout.Document.Node
import XmlLayout.Error
import XmlLayout.Length

/-!
# Editing an element

The children of an element are an ordered list. An index counts from the first child, or from
behind the last one when it is negative; one that does not fit a machine word is refused. Searching
uses equality by shape, and finds the first child that is equal.
-/

namespace XmlLayout.Document

/-- The position that an index names among `count` items; none when it names no item. -/
def place? (count : Nat) : Int → Option Nat
  | .ofNat i => if i < count then some i else none
  | .negSucc i => if i < count then some (count - (i + 1)) else none

/-- The position before which an index inserts among `count` items. An index past either end
means that end. -/
def gap (count : Nat) : Int → Nat
  | .ofNat i => min i count
  | .negSucc i => count - (i + 1)

namespace Element

def append (e : Element) (child : Node) : Element :=
  { e with children := e.children ++ [child] }

/-- Adds children behind the last one. -/
def extend (e : Element) (more : List Node) : Element :=
  { e with children := e.children ++ more }

def insert (e : Element) (index : Int) (child : Node) : Except Error Element :=
  if fitsWord index then
    .ok { e with children := e.children.insertIdx (gap e.children.length index) child }
  else .error .numberTooLarge

def clear (e : Element) : Element :=
  { e with children := [] }

/-- Turns the order of the children round. -/
def reverse (e : Element) : Element :=
  { e with children := e.children.reverse }

def child (e : Element) (index : Int) : Except Error Node :=
  if !fitsWord index then .error .indexTooLarge
  else match (place? e.children.length index).bind (e.children[·]?) with
  | some child => .ok child
  | none => .error .noChildAt

/-- Takes out the child at an index. -/
def take (e : Element) (index : Int) : Except Error (Node × Element) :=
  if !fitsWord index then .error .numberTooLarge
  else if e.children = [] then .error .noChildren
  else match place? e.children.length index with
    | none => .error .noChildToTake
    | some i => match e.children[i]? with
      | none => .error .noChildToTake
      | some child => .ok (child, { e with children := e.children.eraseIdx i })

/-- The position of the first child that is equal to `x`. -/
def position? (e : Element) (x : Node) : Option Nat :=
  e.children.findIdx? (·.equal x)

/-- The position of the first child that is equal to `x`, which has to be there. -/
def index (e : Element) (x : Node) : Except Error Nat :=
  match e.position? x with
  | some i => .ok i
  | none => .error (.notAmongChildren x.shown)

def count (e : Element) (x : Node) : Nat :=
  e.children.countP (·.equal x)

/-- Takes out the first child that is equal to `x`. -/
def remove (e : Element) (x : Node) : Except Error Element :=
  match e.position? x with
  | some i => .ok { e with children := e.children.eraseIdx i }
  | none => .error .noEqualChild

def setText (e : Element) (text : Option String) : Element :=
  { e with tag.text := text }

/-- Sets the name, legal or not. -/
def setName (e : Element) (name : String) : Element :=
  { e with tag.name := name }

/-- Gives an attribute a value, under a legal name or not. -/
def setAttribute (e : Element) (key value : String) : Element :=
  { e with tag.attributes := e.tag.attributes.insert key value }

/-- Takes an attribute away, which has to be there. -/
def unsetAttribute (e : Element) (key : String) : Except Error Element :=
  if key ∈ e.tag.attributes.keys then
    .ok { e with tag.attributes := e.tag.attributes.erase key }
  else .error (.noAttribute key)

end Element

end XmlLayout.Document
