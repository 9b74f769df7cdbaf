import XmlLayout.Document.Tag
import XmlLayout.Error
import XmlLayout.Reading.Declaration
import XmlLayout.Reading.Definitions
import XmlLayout.Reading.Namespace
import XmlLayout.Reading.Wide

/-!
# Reading a document

A document is read token by token. The elements that are open are kept on a list, the innermost
first; a closing tag has to bear the name of the innermost. The text of an element is what stands
in front of its first child. When all tokens are read there is one root, and nothing is open.

A reference to an entity is replaced by the text of the entity, which may have tags in it; but what
is opened in that text has to be closed in it, and nothing else.

The bytes that are read are counted, token by token (`Usage`). The whole text is checked before to
hold no character that a document may not hold.
-/

namespace XmlLayout.Reading

open Document (Tag Attributes)

structure Frame where
  /-- The name as it is written, which the closing tag repeats. -/
  written : QualifiedName
  name : String
  attributes : Attributes
  scope : Scope
  /-- The text so far, in front of the first child; the last character comes first. -/
  text : List Char
  /-- The children so far, the last one first. -/
  children : List Tree

/-- What reading has come to: the open elements, the innermost first, the root once it is closed,
and how many bytes have been read. -/
structure Progress where
  frames : List Frame
  root : Option Tree
  usage : Usage

/-- In front of the root nothing is open. -/
def Progress.start (usage : Usage) : Progress :=
  ⟨[], none, usage⟩

/-- The element that a frame becomes when it is closed. No text is the same as an empty text. -/
def Frame.close (f : Frame) : Tree :=
  .element
    { name := f.name
      attributes := f.attributes
      text := if f.text = [] then none else some (String.ofList f.text.reverse) }
    f.children.reverse

/-- Adds text to a frame. Text behind a child is not kept. -/
def Frame.addText (f : Frame) (text : List Char) : Frame :=
  if f.children = [] then { f with text := text.reverseAux f.text } else f

/-- A frame for an opening tag. -/
def Frame.open? (scope : Scope) (name : QualifiedName)
    (attributes : List (QualifiedName × List Char)) : Option Frame :=
  match scope.enter? attributes with
  | none => none
  | some inner => match inner.elementName? name, inner.attributes? attributes with
    | some full, some entries => some {
        written := name
        name := String.ofList full
        attributes := entries
        scope := inner
        text := []
        children := [] }
    | _, _ => none

namespace Progress

/-- The namespaces in scope. -/
def scope (p : Progress) : Scope :=
  match p.frames with
  | [] => .outermost
  | f :: _ => f.scope

/-- Adds a finished element: to the innermost open one, or as the root. -/
def addTree (p : Progress) (tree : Tree) : Option Progress :=
  match p.frames, p.root with
  | f :: outer, _ => some { p with frames := { f with children := tree :: f.children } :: outer }
  | [], none => some { p with root := some tree }
  | [], some _ => none

/-- Adds text to the innermost open element; outside the root there is none. -/
def addText (p : Progress) (text : List Char) : Option Progress :=
  match p.frames with
  | [] => none
  | f :: outer => some { p with frames := f.addText text :: outer }

/-- Whether a run holds the end mark of a literal section, which may not stand in it. -/
def hasSectionEnd : List Char → Bool
  | ']' :: ']' :: '>' :: _ => true
  | _ :: rest => hasSectionEnd rest
  | [] => false

def charge (account : Account) (n : Nat) (p : Progress) : Option Progress :=
  (p.usage.charge account n).map fun usage => { p with usage := usage }

/-- Counts the bytes of a character of a part, or of what is a part by itself. -/
def pass (account : Account) (isPart : Bool) (n : Nat) (p : Progress) : Option Progress :=
  (p.usage.pass account isPart n).map fun usage => { p with usage := usage }

/-- Adds a piece of text, where it takes some bytes. Line ends and references are parts by
themselves. The text of an entity is read by `enter`. -/
def addPiece (d : Definitions) (enter : Progress → List Char → Option Progress)
    (account : Account) (p : Progress) : Piece × Nat → Option Progress
  | (.plain c, n) => (p.pass account (c = '\n') n).bind (·.addText [c])
  | (.numbered c, n) => (p.pass account true n).bind (·.addText [c])
  | (.entity name, n) => (p.pass account true n).bind fun p => match d.meaning name with
    | .character c => { p with usage := p.usage.note .added 1 }.addText [c]
    | .text t => enter p t
    | _ => none

/-- Adds a run of text. Outside the root it has to be white space. -/
def addRun (d : Definitions) (enter : Progress → List Char → Option Progress) (src : Source)
    (p : Progress) (run : List Char) : Option Progress :=
  if p.frames = [] then
    (if run.all isSpace then p.charge src.account (src.textSize run) else none)
  else if hasSectionEnd run then none
  else match pieces? src run with
    | none => none
    | some pieces => match pieces.foldlM (addPiece d enter src.account) p with
      | none => none
      | some p => p.charge src.account 0

/-- Adds literal text, and counts the bytes of the section that it makes up, but for its start. Line
ends and what begins with a bracket are parts by themselves. -/
def addLiteral (src : Source) (p : Progress) (run : List Char) : Option Progress :=
  let addChar (p : Progress) (c : Char × Nat) : Option Progress :=
    p.pass src.account (c.1 = '\n' || c.1 = ']') c.2
  match (src.measured run).foldlM addChar p with
  | none => none
  | some p => match p.charge src.account 0 with
    | none => none
    | some p => (p.charge src.account (src.textSize Source.literalEnd)).bind
        (·.addText (src.settled run))

/-- Closes the innermost open element. -/
def closeInner (p : Progress) (name : QualifiedName) : Option Progress :=
  match p.frames with
  | [] => none
  | f :: outer =>
    if f.written = name then { p with frames := outer }.addTree f.close else none

/-- Opens an element, which is closed at once if its tag is complete. In the values of its
attributes entities are nested at most `depth` deep. -/
def openInner (d : Definitions) (depth : Nat) (src : Source) (p : Progress) (name : QualifiedName)
    (written : List (QualifiedName × List Char)) (complete : Bool) : Option Progress :=
  if p.frames = [] ∧ p.root.isSome then none
  else match d.attributes? depth src p.usage name written with
    | none => none
    | some (attributes, usage) => match Frame.open? p.scope name attributes with
      | none => none
      | some f =>
        let p := { p with usage := usage }
        if complete then p.addTree f.close else some { p with frames := f :: p.frames }

/-- Takes a token into account. -/
def step (d : Definitions) (depth : Nat) (enter : Progress → List Char → Option Progress)
    (src : Source) (p : Progress) : Token → Option Progress
  | .text run => p.addRun d enter src run
  | .literal run => p.addLiteral src run
  | .opening name written complete => p.openInner d depth src name written complete
  | .closing name => p.closeInner name
  | .remark => some p

/-- Reads a text to its end, where `step` takes a token into account. -/
def feedWith (src : Source) (step : Progress → Token → Option Progress) (p : Progress) :
    List Char → Option Progress
  | [] => some p
  | c :: text =>
    if c = '<' then
      match _h : scanMarkup src text with
      | none => none
      | some (token, rest) =>
        match (p.charge src.account (src.markupSize (c :: text))).bind (step · token) with
        | none => none
        | some q => q.feedWith src step rest
    else match step p (.text (c :: text.takeWhile (· ≠ '<'))) with
      | none => none
      | some q => q.feedWith src step (text.dropWhile (· ≠ '<'))
termination_by text => text.length
decreasing_by
  · have := scanMarkup_length _h
    simp only [List.length_cons]
    omega
  · have := length_dropWhile_le (fun c => decide (c ≠ '<')) text
    simp only [List.length_cons]
    omega

/-- Reads the text of an entity with `feed`: within the innermost open element, which has to be the
only one that is open in the end. -/
def enter (feed : Progress → List Char → Option Progress) (p : Progress) (text : List Char) :
    Option Progress :=
  match p.frames with
  | [] => none
  | f :: outer => match feed ⟨[f], none, p.usage⟩ text with
    | some ⟨[f], none, usage⟩ => some { p with frames := f :: outer, usage := usage }
    | _ => none

/-- Reads a text to its end, with entities nested at most `depth` deep. -/
def feed (d : Definitions) : Nat → Source → Progress → List Char → Option Progress
  | 0, src => feedWith src (step d 0 (fun _ _ => none) src)
  | depth + 1, src => feedWith src (step d (depth + 1) (enter (feed d depth .entity)) src)

end Progress

/-! ## Whole documents -/

/-- The tree of a document by what it defines, where reading starts at its root and `before` bytes
are in front. -/
def readRoot (src : Source) (before : Nat) (text : List Char) : Definitions × Usage → Option Tree
  | (d, usage) =>
    match usage.charge src.account (before - usage.written) with
    | none => none
    | some usage => match (Progress.start usage).feed d d.entities.length src text with
      | some ⟨[], root, _⟩ => root
      | _ => none

/-- The tree of a document of which all characters may be there. -/
def readText (src : Source) (text : List Char) : Option Tree :=
  let size := src.textSize text
  match afterDeclaration? src (withoutMark text) with
  | none => none
  | some (standsAlone, content) =>
    match scanProlog src (size - src.textSize content) none content with
    | none => none
    | some (doctype, rest) =>
      (Definitions.ofDoctype? src standsAlone doctype).bind
        (readRoot src (size - src.textSize rest) rest)

/-- The tree of a document, if that is well formed. -/
def readChars (text : List Char) : Option Tree :=
  match decoded? text with
  | none => none
  | some (src, text) => if text.all isChar then readText src text else none

def read (text : String) : Except Error Tree :=
  match readChars text.toList with
  | some tree => .ok tree
  | none => .error .malformed

end XmlLayout.Reading
