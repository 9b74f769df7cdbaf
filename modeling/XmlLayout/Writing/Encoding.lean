import XmlLayout.Document.Node
import XmlLayout.Indent.Stack
import XmlLayout.Writing.Escape

/-!
# Encoding a tree

A tree is written tag by tag, while a stack of levels gives the indents. An opening tag stands
on a line of its own, and so does the closing tag of an element with children; text is written
between the tags as it is, so that no blanks are added to it. An element without children and
without a text is written as a single tag.

An element cannot be written if it has children and a text, or an attribute whose name is not
legal; neither can what is no element, nor an element at a level whose indent is too wide. The
first node that cannot be written ends the encoding, and what was written before it stays.
-/

namespace XmlLayout.Writing

open Document Indent

/-- What an encoding has come to: the levels that are open, and the text so far. -/
structure Draft where
  stack : Stack
  text : String

/-- A part of an encoding. A failure keeps the text so far. -/
abbrev Encoding := EStateM Error Draft

def emit (piece : String) : Encoding Unit :=
  modify fun d => { d with text := d.text ++ piece }

/-- Takes the indent that a move of the stack gives. -/
def indentBy (go : Stack → Except Error String × Stack) : Encoding String := fun d =>
  match go d.stack with
  | (.ok indent, stack) => .ok indent { d with stack := stack }
  | (.error cause, stack) => .error cause { d with stack := stack }

/-- Goes a level deeper, and gives the indent of the opening tag. -/
def openLevel : Encoding String :=
  indentBy Stack.push

/-- Comes back a level, and gives the indent of the closing tag. -/
def closeLevel : Encoding String :=
  indentBy Stack.pop

@[simp]
theorem emit_apply (piece : String) (d : Draft) :
    emit piece d = .ok () { d with text := d.text ++ piece } :=
  rfl

theorem indentBy_of_ok {go : Stack → Except Error String × Stack} {d : Draft}
    {indent : String} {stack : Stack} (h : go d.stack = (.ok indent, stack)) :
    indentBy go d = .ok indent { d with stack := stack } := by
  simp only [indentBy, h]

theorem indentBy_of_error {go : Stack → Except Error String × Stack} {d : Draft} {cause : Error}
    {stack : Stack} (h : go d.stack = (.error cause, stack)) :
    indentBy go d = .error cause { d with stack := stack } := by
  simp only [indentBy, h]

/-- Why an element with this tag and these children cannot be written, if it cannot. -/
def fault? (tag : Tag) (children : List Node) : Option Error :=
  if !children.isEmpty && tag.text.getD "" ≠ "" then some (.textAndChildren tag.name)
  else (tag.attributes.keys.find? (!isLegalName ·)).map .illegalAttributeName

/-- An attribute as it stands in a tag, with a space in front. -/
def attributeText (entry : String × String) : String :=
  " " ++ entry.1 ++ "=" ++ String.ofList (quoteValue entry.2.toList)

/-- An opening tag up to its closing bracket. -/
def openingText (tag : Tag) : String :=
  "<" ++ tag.name ++ String.join (tag.attributes.toList.map attributeText)

def closingText (tag : Tag) : String :=
  "</" ++ tag.name ++ ">"

def contentText (tag : Tag) : String :=
  String.ofList (escape (tag.text.getD "").toList)

mutual

def encodeNode : Node → Encoding Unit
  | .foreign value => throw (.notElement value.kind)
  | .element tag children => match fault? tag children with
    | some cause => throw cause
    | none => do
      emit (← openLevel)
      emit (openingText tag)
      if children.isEmpty && tag.text.isNone then do
        let _ ← closeLevel
        emit "/>"
      else do
        emit ">"
        emit (contentText tag)
        encodeNodes children
        let indent ← closeLevel
        emit (if children.isEmpty then "" else indent)
        emit (closingText tag)

/-- Writes several nodes, one after the other. -/
def encodeNodes : List Node → Encoding Unit
  | [] => return
  | node :: rest => do
    encodeNode node
    encodeNodes rest

end

/-- The result of an encoding: the text that was written, the stack as it was left, and why the
encoding ended early if it did. -/
structure Encoded where
  text : String
  stack : Stack
  fault : Option Error

/-- Writes a tree, from the document level of a stack on. -/
def encodeWith (stack : Stack) (root : Node) : Encoded :=
  match (encodeNode root).run ⟨stack.reset, ""⟩ with
  | .ok _ d => ⟨d.text, d.stack, none⟩
  | .error cause d => ⟨d.text, d.stack, some cause⟩

/-- The text of a tree, indented by `step` spaces for each level. -/
def encodeToText (root : Node) (step : Int) : Except Error String :=
  let result := encodeWith (Stack.ofStep step) root
  match result.fault with
  | none => .ok result.text
  | some cause => .error cause

end XmlLayout.Writing
