import XmlLayout.Document.Attributes

/-!
# Tags

What an element has of its own. An element that is read from a document is a tag and the elements in
it (`Reading.Tree`): nothing else can stand among them.
-/

namespace XmlLayout

/-- What an element has of its own: its name, its attributes and its text. -/
structure Document.Tag where
  name : String
  attributes : Document.Attributes
  text : Option String
  deriving DecidableEq

/-- An element of a document that is read. -/
inductive Reading.Tree where
  | element (tag : Document.Tag) (children : List Reading.Tree)

end XmlLayout
