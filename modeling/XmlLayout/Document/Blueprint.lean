import XmlLayout.Document.Node
import XmlLayout.Error

/-!
# Blueprints of trees

A description from which a tree is made, children before their parents. An element is made from
named arguments: its attributes stand among them, so an attribute named `text` is the text, and
one named like the element's other arguments is refused. Only the name that an element is made
with has to be legal; attributes added later and a later name are taken as they are.
-/

namespace XmlLayout.Document

/-- The description of one element without its children. -/
structure Plan where
  name : String
  /-- The text, if it is given on its own. -/
  text : Option (Option String)
  /-- The attributes the element is made with; of a repeated one the last value counts. -/
  attributes : List (String × Value)
  /-- Attributes given their values afterwards. -/
  later : List (String × String)
  /-- A name given afterwards. -/
  rename : Option String

/-- The description of a tree. -/
inductive Blueprint where
  | element (plan : Plan) (children : List Blueprint)
  | value (v : Value)

/-- The entries of a list of arguments: a repeated key keeps its first place and has its last
value. -/
def mergeArguments (arguments : List (String × Value)) : List (String × Value) :=
  arguments.foldl put []
where
  /-- Gives a key its value. -/
  put : List (String × Value) → String × Value → List (String × Value)
    | [], entry => [entry]
    | first :: rest, entry =>
      if first.1 = entry.1 then entry :: rest else first :: put rest entry

/-- A text argument: no value is no text. -/
def textArgument : Value → Option String
  | .null => none
  | v => some v.plain

/-- The names of the arguments that are not attributes, the text apart. -/
def reserved : List String := ["self", "name"]

def Plan.tag (plan : Plan) : Except Error Tag :=
  let arguments := mergeArguments plan.attributes
  let given := arguments.lookup "text"
  if plan.text.isSome ∧ given.isSome then .error .textTwice
  else match (arguments.map Prod.fst).find? (reserved.contains ·) with
    | some key => .error (.argumentTwice key)
    | none =>
      if isLegalName plan.name then
        let entries := (arguments.filter (·.1 ≠ "text")).map fun entry =>
          (entry.1, entry.2.plain)
        .ok {
          name := plan.rename.getD plan.name
          attributes := (Attributes.empty.insertAll entries).insertAll plan.later
          text := plan.text.getD (given.bind textArgument) }
      else .error (.illegalElementName plan.name)

namespace Blueprint

mutual

def build : Blueprint → Except Error Node
  | value v => .ok (.foreign (.plain v))
  | element plan children => do
    let made ← buildAll children
    return .element (← plan.tag) made

/-- Makes several trees, in order; the first failure ends it. -/
def buildAll : List Blueprint → Except Error (List Node)
  | [] => .ok []
  | first :: rest => do
    let made ← first.build
    return made :: (← buildAll rest)

end

end Blueprint

end XmlLayout.Document
