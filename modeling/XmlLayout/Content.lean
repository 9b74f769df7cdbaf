import XmlLayout.Reading.Tree
import XmlLayout.Text.Blank
import XmlLayout.Writing.Encoding

/-!
# Content

The content of a tree is what remains of it when its layout is set aside: an empty text is no
text, and neither is a text of blanks in front of a child. The content of a tree that is held and
that of a document that is read can be compared. The order of attributes does not matter.
-/

namespace XmlLayout

open Document (Tag Attributes Node)
open Reading (Tree)

/-- The content of an element. -/
inductive Content where
  | element (tag : Tag) (children : List Content)

namespace Content

/-- The text that counts. -/
def textOf (hasChildren : Bool) : Option String → Option String
  | none => none
  | some text => if text = "" ∨ (hasChildren ∧ Text.onlyBlanks text) then none else some text

/-- The content of an element, from the contents of its children. -/
def ofParts (tag : Tag) (children : List Content) : Content :=
  .element { tag with text := textOf (!children.isEmpty) tag.text } children

mutual

def ofTree : Tree → Content
  | .element tag children => ofParts tag (ofTrees children)

def ofTrees : List Tree → List Content
  | [] => []
  | tree :: rest => ofTree tree :: ofTrees rest

end

mutual

/-- The content of a tree; a plain value has none, but an element that was read has one. -/
def ofNode : Node → Except Error Content
  | .foreign (.plain value) => .error (.notElement value.kind)
  | .foreign (.parsed _ tree) => .ok (ofTree tree)
  | .element tag children => (ofNodes children).map (ofParts tag)

/-- The contents of several trees; the first failure ends it. -/
def ofNodes : List Node → Except Error (List Content)
  | [] => .ok []
  | node :: rest => match ofNode node with
    | .error cause => .error cause
    | .ok first => (ofNodes rest).map (first :: ·)

end

/-- Whether two elements without their children have the same content. -/
def sameTag (s t : Tag) : Bool :=
  s.name = t.name && s.attributes.same t.attributes && s.text = t.text

mutual

def same : Content → Content → Bool
  | .element s xs, .element t ys => sameTag s t && sameAll xs ys

def sameAll : List Content → List Content → Bool
  | [], [] => true
  | x :: xs, y :: ys => x.same y && sameAll xs ys
  | _, _ => false

end

end Content

/-- Whether a tree and a document differ in content. The tree is looked at first. -/
def differs (root : Node) (document : String) : Except Error Bool := do
  let was ← Content.ofNode root
  let tree ← Reading.read document
  return !was.same (Content.ofTree tree)

end XmlLayout
