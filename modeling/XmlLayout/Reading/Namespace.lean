import XmlLayout.Document.Attributes
import XmlLayout.Reading.Token

/-!
# Namespaces

A qualifier stands for a namespace, which an attribute `xmlns:qualifier` of the element or of one
around it declares; `xmlns` declares the namespace of elements without a qualifier. A name is
then known by its namespace and its base, written as one text with the namespace in braces. The
declarations are no attributes of the element.
-/

namespace XmlLayout.Reading

open Document (Attributes)

/-- The namespaces in scope, the innermost declaration first. An empty default namespace is
none. -/
structure Scope where
  declared : List (Option (List Char) × List Char)

/-- The qualifier that needs no declaration. -/
def xmlQualifier : List Char := "xml".toList

/-- The qualifier of declarations. -/
def declaring : List Char := "xmlns".toList

/-- The namespace of `xml`, which no other qualifier may stand for. -/
def xmlNamespace : List Char := "http://www.w3.org/XML/1998/namespace".toList

/-- The namespace of declarations, which no qualifier may stand for. -/
def declaringNamespace : List Char := "http://www.w3.org/2000/xmlns/".toList

/-- What is in scope around the root. -/
def Scope.outermost : Scope :=
  ⟨[(some xmlQualifier, xmlNamespace)]⟩

/-- The qualifier that an attribute declares: `none` inside is the default namespace. -/
def declares? (name : QualifiedName) : Option (Option (List Char)) :=
  if name.qualifier = some declaring then some (some name.base)
  else if name = ⟨none, declaring⟩ then some none
  else none

/-- Whether a qualifier may be declared to stand for a namespace. Only the default namespace can
be taken back. A closing brace would hide where the namespace ends in a name. -/
def mayDeclare (qualifier : Option (List Char)) (space : List Char) : Bool :=
  !(qualifier.isSome && space = []) &&
    qualifier ≠ some declaring &&
    '}' ∉ space &&
    (qualifier = some xmlQualifier) = (space = xmlNamespace) &&
    space ≠ declaringNamespace

/-- The scope inside an element, from the attributes of its tag. -/
def Scope.enter? (scope : Scope) : List (QualifiedName × List Char) → Option Scope
  | [] => some scope
  | (name, value) :: rest => match declares? name with
    | none => scope.enter? rest
    | some qualifier =>
      if mayDeclare qualifier value then Scope.enter? ⟨(qualifier, value) :: scope.declared⟩ rest
      else none

/-- A base with its namespace in braces. -/
def expanded (space base : List Char) : List Char :=
  '{' :: space ++ '}' :: base

def Scope.elementName? (scope : Scope) (name : QualifiedName) : Option (List Char) :=
  match name.qualifier, scope.declared.lookup name.qualifier with
  | none, none => some name.base
  | none, some space => some (if space = [] then name.base else expanded space name.base)
  | some _, none => none
  | some _, some space => some (expanded space name.base)

/-- The full name of an attribute: without a qualifier it has no namespace. -/
def Scope.attributeName? (scope : Scope) (name : QualifiedName) : Option (List Char) :=
  if name.qualifier = none then some name.base else scope.elementName? name

/-- The attributes of an element without the declarations, under their full names. -/
def Scope.entries? (scope : Scope) :
    List (QualifiedName × List Char) → Option (List (String × String))
  | [] => some []
  | (name, value) :: rest =>
    if (declares? name).isSome then scope.entries? rest
    else match scope.attributeName? name, scope.entries? rest with
      | some full, some entries => some ((String.ofList full, String.ofList value) :: entries)
      | _, _ => none

/-- The attributes of an element. No name is written twice, and no two names are the same in
full. -/
def Scope.attributes? (scope : Scope) (written : List (QualifiedName × List Char)) :
    Option Attributes :=
  if (written.map Prod.fst).Nodup then (scope.entries? written).bind Attributes.ofDistinct?
  else none

end XmlLayout.Reading
