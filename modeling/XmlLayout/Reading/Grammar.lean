import XmlLayout.Reading.Part

/-!
# The grammar of declarations

What a declaration in a document's type says, by its parts. Entities are declared with their text,
or with the place where it is; attributes with their kind and their standard value. What the
content of an element should be like, and which notations there are, has to be well formed but
says nothing to a reader that does not validate.

Lists of attributes and models of content are read by automata: each part leads from one state to
the next, and the last state has to be a final one.
-/

namespace XmlLayout.Reading

/-- What is declared about an attribute. -/
structure AttributeRule where
  name : QualifiedName
  /-- Whether its values are plain text, and not lists of words. -/
  isText : Bool
  /-- The value that it has if it is not written, as it is declared. -/
  standard : Option (List Char)

inductive Declaration where
  /-- An entity with its text, as it is declared. -/
  | entity (name value : List Char)
  /-- An entity whose text is somewhere else. -/
  | distantEntity (name : List Char)
  /-- An entity for use in declarations, with its text if that is given. -/
  | parameter (value : Option (List Char))
  /-- The attributes of an element. -/
  | attributes (element : QualifiedName) (rules : List AttributeRule)
  /-- A reference to more declarations. -/
  | reference
  /-- Something that says nothing here. -/
  | remark

/-! ## Entities and notations -/

/-- What the public name of a definition is made of. -/
def isPublic (c : Char) : Bool :=
  c.isAlphanum || c ∈ " \n\r-'()+,./:=?;!*#@$_%".toList

/-- What follows a place, which is a system name, or a public name and a system name. -/
def afterPlace : List Part → Option (List Part)
  | .name written :: .quoted first :: rest =>
    if written = plainName "SYSTEM" then some rest
    else if written = plainName "PUBLIC" ∧ first.all isPublic then
      match rest with
      | .quoted _ :: rest => some rest
      | _ => none
    else none
  | _ => none

/-- Whether parts say that an entity has a place, and if `mayBeData` perhaps the name of a notation
for its data. -/
def isDistant (mayBeData : Bool) (parts : List Part) : Bool :=
  match afterPlace parts with
  | some [] => true
  | some [.name written, .name ⟨none, _⟩] => mayBeData && written = plainName "NDATA"
  | _ => false

def entity? : List Part → Option Declaration
  | [.name ⟨none, name⟩, .quoted value] => some (.entity name value)
  | .name ⟨none, name⟩ :: rest => if isDistant true rest then some (.distantEntity name) else none
  | [.symbol '%', .name ⟨none, _⟩, .quoted value] => some (.parameter (some value))
  | .symbol '%' :: .name ⟨none, _⟩ :: rest =>
    if isDistant false rest then some (.parameter none) else none
  | _ => none

/-- Whether parts declare a notation: its name, and its place, which may be a public name alone. -/
def declaresNotation : List Part → Bool
  | [.name ⟨none, _⟩, .name written, .quoted name] =>
    written = plainName "SYSTEM" || (written = plainName "PUBLIC" && name.all isPublic)
  | .name ⟨none, _⟩ :: rest => isDistant false rest
  | _ => false

/-! ## Attributes -/

/-- The kinds of attributes whose values are words. -/
def wordKinds : List QualifiedName :=
  ["ID", "IDREF", "IDREFS", "ENTITY", "ENTITIES", "NMTOKEN", "NMTOKENS"].map plainName

/-- Where the reading of a list of attributes is. -/
inductive ListState where
  /-- In front of an attribute, or at the end. -/
  | start
  /-- In front of the kind of an attribute. -/
  | kind (name : QualifiedName)
  /-- In front of the notations that are the values of an attribute. -/
  | notations (name : QualifiedName)
  /-- In front of a value of an attribute; only names are notations. -/
  | value (name : QualifiedName) (onlyNames : Bool)
  /-- Behind a value of an attribute. -/
  | behind (name : QualifiedName) (onlyNames : Bool)
  /-- In front of the standard value of an attribute. -/
  | standard (name : QualifiedName) (isText : Bool)
  /-- In front of the only value of an attribute. -/
  | fixed (name : QualifiedName) (isText : Bool)

/-- The next state of the reading of a list of attributes, and the rule that is complete. -/
def ListState.next : ListState → Part → Option (ListState × Option AttributeRule)
  | .start, .name written => some (.kind written, none)
  | .kind name, .name written =>
    if written = plainName "CDATA" then some (.standard name true, none)
    else if written ∈ wordKinds then some (.standard name false, none)
    else if written = plainName "NOTATION" then some (.notations name, none)
    else none
  | .kind name, .symbol '(' => some (.value name false, none)
  | .notations name, .symbol '(' => some (.value name true, none)
  | .value name onlyNames, .name written =>
    if onlyNames ∧ written.qualifier.isSome then none else some (.behind name onlyNames, none)
  | .value name false, .word => some (.behind name false, none)
  | .behind name onlyNames, .symbol '|' => some (.value name onlyNames, none)
  | .behind name _, .closing none => some (.standard name false, none)
  | .standard name isText, .quoted raw => some (.start, some ⟨name, isText, some raw⟩)
  | .standard name isText, .keyword word =>
    if word = "FIXED".toList then some (.fixed name isText, none)
    else if word = "IMPLIED".toList ∨ word = "REQUIRED".toList then
      some (.start, some ⟨name, isText, none⟩)
    else none
  | .fixed name isText, .quoted raw => some (.start, some ⟨name, isText, some raw⟩)
  | _, _ => none

/-- The rules of a list of attributes, read from a state on. -/
def rulesFrom? : ListState → List Part → Option (List AttributeRule)
  | .start, [] => some []
  | _, [] => none
  | state, part :: rest => match state.next part with
    | none => none
    | some (state, rule) => (rulesFrom? state rest).map (rule.toList ++ ·)

def attributes? : List Part → Option Declaration
  | .name element :: rest => (rulesFrom? .start rest).map (.attributes element)
  | _ => none

/-! ## Models of content -/

/-- Where the reading of a model of content is. A group is known by what separates its items, as
far as that is fixed; the innermost group comes first. -/
inductive ModelState where
  | start
  /-- Behind the first parenthesis. -/
  | first
  /-- In front of an item. -/
  | item (groups : List (Option Char))
  /-- Behind an item. -/
  | behind (groups : List (Option Char))
  /-- Behind the keyword for text. -/
  | text
  /-- In front of a name that may stand beside text. -/
  | beside
  /-- Behind a name that may stand beside text. -/
  | mixed
  | finished
  deriving DecidableEq

/-- The next state of the reading, in front of an item of a group. -/
def ModelState.nextItem (groups : List (Option Char)) : Part → Option ModelState
  | .symbol '(' => some (.item (none :: groups))
  | .name _ => some (.behind groups)
  | .counted _ => some (.behind groups)
  | _ => none

/-- The next state of the reading, behind an item of a group. -/
def ModelState.nextBehind : List (Option Char) → Part → Option ModelState
  | [_], .closing _ => some .finished
  | _ :: outer, .closing _ => some (.behind outer)
  | group :: outer, .symbol c =>
    if (c = ',' ∨ c = '|') ∧ group.all (· = c) then some (.item (some c :: outer)) else none
  | _, _ => none

/-- The next state of the reading of a model of content. -/
def ModelState.next : ModelState → Part → Option ModelState
  | .start, .name written =>
    if written = plainName "EMPTY" ∨ written = plainName "ANY" then some .finished else none
  | .start, .symbol '(' => some .first
  | .first, .keyword word => if word = "PCDATA".toList then some .text else none
  | .first, part => nextItem [none] part
  | .item groups, part => nextItem groups part
  | .behind groups, part => nextBehind groups part
  | .text, .closing count => if count.all (· = '*') then some .finished else none
  | .text, .symbol '|' => some .beside
  | .beside, .name _ => some .mixed
  | .mixed, .closing (some '*') => some .finished
  | .mixed, .symbol '|' => some .beside
  | _, _ => none

/-- Whether parts declare the content of an element. -/
def declaresContent : List Part → Bool
  | .name _ :: model => model.foldlM ModelState.next .start = some .finished
  | _ => false

/-! ## Declarations -/

def Declaration.ofParts? (keyword : List Char) (parts : List Part) : Option Declaration :=
  if keyword = "ENTITY".toList then entity? parts
  else if keyword = "ATTLIST".toList then attributes? parts
  else if keyword = "ELEMENT".toList then (if declaresContent parts then some .remark else none)
  else if keyword = "NOTATION".toList then (if declaresNotation parts then some .remark else none)
  else none

end XmlLayout.Reading
