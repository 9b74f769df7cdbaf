import XmlLayout.Reading.Token

/-!
# The declaration of a document

A document may begin with a mark of its byte order, and then with a declaration of its version,
its encoding and whether it stands alone, which is to say that no declarations out of sight matter
to it. The rest of what is declared has no effect on a text that is already decoded, but a wrong
declaration is an error.
-/

namespace XmlLayout.Reading

/-- What the values in a declaration are made of. -/
def isDeclared (c : Char) : Bool :=
  c.isAlphanum || c = '.' || c = '-' || c = '_'

/-- An item of a declaration, which is a name and a value, and the rest; nothing if there is only
white space. -/
inductive Item where
  | finished
  | item (name value rest : List Char)
  | wrong

def nextItem (text : List Char) : Item :=
  match text, text.dropWhile isSpace with
  | _, [] => .finished
  | [], _ => .finished
  | c :: _, next =>
    if !isSpace c then .wrong
    else
      let isName (c : Char) := c ≠ '=' && !isSpace c
      let name := next.takeWhile isName
      match (next.dropWhile isName).dropWhile isSpace with
      | '=' :: afterEquals => match afterEquals.dropWhile isSpace with
        | quote :: value =>
          if quote = '"' ∨ quote = '\'' then
            match value.dropWhile isDeclared with
            | close :: rest =>
              if close = quote then .item name (value.takeWhile isDeclared) rest else .wrong
            | [] => .wrong
          else .wrong
        | [] => .wrong
      | _ => .wrong

/-- Whether the document stands alone, by the last item of its declaration, which nothing may
follow. -/
def standing? (name value rest : List Char) : Option Bool :=
  if name = "standalone".toList ∧ rest.all isSpace then
    if value = "yes".toList then some true
    else if value = "no".toList then some false
    else none
  else none

/-- Whether the document stands alone, by the items of its declaration behind the version: the
encoding and whether it stands alone, each if it is there. -/
def standingBehindVersion? (text : List Char) : Option Bool :=
  match nextItem text with
  | .finished => some false
  | .wrong => none
  | .item name value rest =>
    if name = "encoding".toList then
      if value.head?.any Char.isAlpha then
        match nextItem rest with
        | .finished => some false
        | .wrong => none
        | .item name value rest => standing? name value rest
      else none
    else standing? name value rest

/-- Whether the document stands alone, by the items of its declaration, the version first; nothing
if the declaration is wrong. -/
def declared? (text : List Char) : Option Bool :=
  match nextItem text with
  | .item name _ rest => if name = "version".toList then standingBehindVersion? rest else none
  | _ => none

/-- The text of a declaration up to its end mark, and the rest. -/
def spanDeclaration : List Char → Option (List Char × List Char)
  | '?' :: '>' :: rest => some ([], rest)
  | c :: rest => (spanDeclaration rest).map fun r => (c :: r.1, r.2)
  | [] => none

/-- A document without the mark of its byte order. -/
def withoutMark : List Char → List Char
  | '\ufeff' :: rest => rest
  | text => text

/-- Whether a document is declared to stand alone, and the rest behind its declaration; nothing if
that is wrong. A longer target than `xml` begins a processing instruction instead. -/
def afterDeclaration? (src : Source) (text : List Char) : Option (Bool × List Char) :=
  match text with
  | '<' :: '?' :: 'x' :: 'm' :: 'l' :: rest =>
    if rest.head?.any src.isNameChar then some (false, text)
    else match spanDeclaration rest with
      | some (items, rest) => (declared? items).map fun standsAlone => (standsAlone, rest)
      | none => none
  | _ => some (false, text)

end XmlLayout.Reading
