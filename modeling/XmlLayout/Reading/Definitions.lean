import XmlLayout.Reading.Prolog
import XmlLayout.Reading.Usage

/-!
# What a document's type defines

The declarations in a document's type give entities their texts, and attributes their kinds and
their standard values. The first declaration of an entity or an attribute counts. Behind a
reference to more declarations, which are not read, nothing more is heeded, unless the document
stands alone; from there on there may be entities that are declared out of sight.

The value of an attribute is filled with the texts of the entities that it names (`fill`). Entities
can be nested at most as deep as there are entities: deeper, one would be part of itself.
-/

namespace XmlLayout.Reading

/-- What the type of a document defines. -/
structure Definitions where
  /-- The entities that were declared, with their texts; the text of one may be somewhere else. -/
  entities : List (List Char × Option (List Char))
  /-- The elements with their attributes; standard values are filled. -/
  rules : List (QualifiedName × AttributeRule)
  /-- Whether there are no entities that are declared out of sight. -/
  isComplete : Bool

def Definitions.empty : Definitions :=
  ⟨[], [], true⟩

/-! ## Entities -/

/-- What the name of an entity stands for. -/
inductive Meaning where
  | character (c : Char)
  | text (t : List Char)
  /-- A text that is somewhere else. -/
  | distant
  /-- Nothing that is known: the entity may be declared out of sight. -/
  | unknown
  /-- Nothing at all. -/
  | undeclared

def Definitions.meaning (d : Definitions) (name : List Char) : Meaning :=
  match predefined? name with
  | some c => .character c
  | none => match d.entities.lookup name with
    | some (some t) => .text t
    | some none => .distant
    | none => if d.isComplete then .undeclared else .unknown

/-- A piece as it stands in the text of an entity: characters by number are replaced, and references
stay. -/
def Piece.kept : Piece → List Char
  | .plain c => [c]
  | .numbered c => [c]
  | .entity name => '&' :: name ++ [';']

/-- The text of an entity, by its value as it is declared. A percent sign could only begin a
reference to declarations, which may not stand here. -/
def entityText? (src : Source) (value : List Char) : Option (List Char) :=
  if '%' ∈ value then none
  else (pieces? src value).map (·.flatMap fun piece => piece.1.kept)

/-! ## Values of attributes -/

/-- In the value of an attribute white space is written as spaces. -/
def spaced (c : Char) : Char :=
  if isSpace c then ' ' else c

/-- A value that is being filled: its characters so far, backwards, and what has been read. -/
structure Filling where
  done : List Char
  usage : Usage

/-- Adds a character to a value, where it takes `n` bytes. White space is a part by itself. -/
def Filling.addPlain (f : Filling) (account : Account) (c : Char) (n : Nat) : Option Filling :=
  (f.usage.pass account (isSpace c) n).map fun usage => ⟨spaced c :: f.done, usage⟩

/-- Adds the character that a reference of `n` bytes gives; `added` bytes more are counted. -/
def Filling.addReferred (f : Filling) (account : Account) (c : Char) (n added : Nat) :
    Option Filling :=
  (f.usage.pass account true n).map fun usage => ⟨c :: f.done, usage.note .added added⟩

namespace Definitions

/-- Adds a piece to a value. The text of an entity is added by `enter`. -/
def addPiece (d : Definitions) (enter : Filling → List Char → Option Filling) (account : Account)
    (f : Filling) : Piece × Nat → Option Filling
  | (.plain c, n) => f.addPlain account c n
  | (.numbered c, n) => f.addReferred account c n 0
  | (.entity name, n) => match d.meaning name with
    | .character c => f.addReferred account c n 1
    | .text t => (f.usage.pass account true n).bind fun usage => enter { f with usage := usage } t
    | .unknown => (f.usage.pass account true n).map fun usage => { f with usage := usage }
    | .distant => none
    | .undeclared => none

/-- Adds a text to a value. No tag may begin in it. -/
def fillWith (d : Definitions) (enter : Filling → List Char → Option Filling) (src : Source)
    (account : Account) (f : Filling) (raw : List Char) : Option Filling :=
  if '<' ∈ raw then none
  else match piecesOf? src (src.measuredValue raw) with
    | none => none
    | some pieces => match pieces.foldlM (d.addPiece enter account) f with
      | none => none
      | some f => f.usage.check.map fun usage => { f with usage := usage }

/-- Adds a text to a value, with entities nested at most `depth` deep. -/
def fill (d : Definitions) : Nat → Source → Account → Filling → List Char → Option Filling
  | 0 => d.fillWith fun _ _ => none
  | depth + 1 => d.fillWith (d.fill depth .entity .added)

/-- The value of an attribute, by what is between its quotes, and what has been read then. -/
def value? (d : Definitions) (depth : Nat) (src : Source) (account : Account) (usage : Usage)
    (raw : List Char) : Option (List Char × Usage) :=
  (d.fill depth src account ⟨[], usage⟩ raw).map fun f => (f.done.reverse, f.usage)

end Definitions

/-- A value as a list of words: no space stands at its ends or behind another. -/
def joinedWords (value : List Char) : List Char :=
  let done := value.foldl (fun done c =>
    if c = ' ' ∧ done.head?.all (· = ' ') then done else c :: done) []
  match done with
  | ' ' :: rest => rest.reverse
  | _ => done.reverse

/-! ## Attributes -/

namespace Definitions

def rule? (d : Definitions) (element name : QualifiedName) : Option AttributeRule :=
  (d.rules.find? fun r => r.1 = element ∧ r.2.name = name).map Prod.snd

/-- A value as the kind of its attribute has it. -/
def arranged (isText : Bool) (value : List Char) : List Char :=
  if isText then value else joinedWords value

def isText (d : Definitions) (element name : QualifiedName) : Bool :=
  (d.rule? element name).all (·.isText)

/-- Whether a value is the same in every kind of attribute, as it is written: there are no
references in it, no white space other than spaces, and no space at its ends or behind another. -/
def isSettled (raw : List Char) : Bool :=
  raw.all (fun c => c ≠ '&' && (c = ' ' || !isSpace c)) &&
    raw.head? ≠ some ' ' && raw.getLast? ≠ some ' ' &&
    (raw.zip raw.tail).all fun c => !(c.1 = ' ' && c.2 = ' ')

/-- The attributes that are written in a tag, with their values, and what has been read then. The
bytes of the tag have been counted; those of a value that is not settled are counted once more. -/
def writtenValues (d : Definitions) (depth : Nat) (src : Source) (element : QualifiedName) :
    Usage → List (QualifiedName × List Char) → Option (List (QualifiedName × List Char) × Usage)
  | usage, [] => some ([], usage)
  | usage, (name, raw) :: rest =>
    let account := if isSettled raw then .closed else src.account
    match d.value? depth src account usage raw with
    | none => none
    | some (value, usage) => match d.writtenValues depth src element usage rest with
      | none => none
      | some (values, usage) =>
        some ((name, arranged (d.isText element name) value) :: values, usage)

/-- The attributes of an element that have a standard value and are not written. -/
def standardValues (d : Definitions) (element : QualifiedName) (written : List QualifiedName) :
    List (QualifiedName × List Char) :=
  d.rules.filterMap fun r =>
    if r.1 = element ∧ r.2.name ∉ written then r.2.standard.map fun value => (r.2.name, value)
    else none

/-- All attributes of an element by those written in its tag, and what has been read then. -/
def attributes? (d : Definitions) (depth : Nat) (src : Source) (usage : Usage)
    (element : QualifiedName) (written : List (QualifiedName × List Char)) :
    Option (List (QualifiedName × List Char) × Usage) :=
  (d.writtenValues depth src element usage written).map fun r =>
    (r.1 ++ d.standardValues element (written.map Prod.fst), r.2)

end Definitions

/-! ## Declarations -/

/-- What the declarations so far have come to. -/
structure Defining where
  definitions : Definitions
  /-- Whether declarations are still heeded. -/
  isHeeding : Bool
  usage : Usage

namespace Defining

/-- Declares an entity, unless it was declared before. -/
def addEntity (s : Defining) (name : List Char) (text : Option (List Char)) : Defining :=
  let d := s.definitions
  if (d.entities.lookup name).isSome then s
  else { s with definitions := { d with entities := d.entities ++ [(name, text)] } }

/-- Declares an attribute of an element, unless it was declared before. -/
def addRule (element : QualifiedName) (s : Defining) (rule : AttributeRule) : Defining :=
  let d := s.definitions
  if (d.rule? element rule.name).isSome then s
  else { s with definitions := { d with rules := d.rules ++ [(element, rule)] } }

/-- Declares an attribute of an element with its standard value filled. The value has to be right
even if the attribute was declared before. -/
def addFilledRule (src : Source) (element : QualifiedName) (s : Defining) (rule : AttributeRule) :
    Option Defining :=
  match rule.standard with
  | none => some (s.addRule element rule)
  | some raw =>
    let d := s.definitions
    (d.value? d.entities.length src .closed s.usage raw).map fun r =>
      { s with usage := r.2 }.addRule element
        { rule with standard := some (Definitions.arranged rule.isText r.1) }

/-- Takes a declaration into account, in a document that stands alone or does not. -/
def declare (src : Source) (standsAlone : Bool) (s : Defining) : Declaration → Option Defining
  | .remark => some s
  | .reference => some { s with
      definitions := { s.definitions with isComplete := standsAlone }
      isHeeding := standsAlone }
  | d =>
    if !s.isHeeding then some s
    else match d with
      | .entity name value => (entityText? src value).map fun text => s.addEntity name (some text)
      | .distantEntity name => some (s.addEntity name none)
      | .parameter (some value) => (entityText? src value).map fun _ => s
      | .attributes element rules => rules.foldlM (addFilledRule src element) s
      | _ => some s

/-- Takes a declaration of some bytes into account. -/
def next (src : Source) (standsAlone : Bool) (s : Defining) (d : Declaration × Nat) :
    Option Defining :=
  (s.usage.charge src.account d.2).bind fun usage =>
    { s with usage := usage }.declare src standsAlone d.1

end Defining

/-- What the type of a document defines, and what has been read then. -/
def Definitions.ofDoctype? (src : Source) (standsAlone : Bool) :
    Option Doctype → Option (Definitions × Usage)
  | none => some (.empty, ⟨0, 0⟩)
  | some doctype =>
    let start : Defining := {
      definitions := { Definitions.empty with isComplete := standsAlone || !doctype.isPlaced }
      isHeeding := true
      usage := ⟨doctype.start, 0⟩ }
    (doctype.declarations.foldlM (Defining.next src standsAlone) start).map fun s =>
      (s.definitions, s.usage)

end XmlLayout.Reading
