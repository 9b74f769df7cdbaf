import XmlLayout.Decimal.Layout
import XmlLayout.Text.Quoted

/-!
# Plain values

Data without a type of its own: what an attribute may be given before it becomes text, and what
may stand in a tree where an element belongs. Numbers are equal when they are the same number,
whatever their kind, and the truth values count as 0 and 1. Records are equal without regard to
the order of their entries.
-/

namespace XmlLayout

open Decimal (Binary64)

/-- A plain value. The keys of a record are distinct. -/
inductive Value where
  | null
  | bool (b : Bool)
  | int (n : Int)
  | float (x : Binary64)
  | text (s : String)
  | list (items : List Value)
  | record (entries : List (String × Value))

/-- What something is that is no element of a tree: a plain value, or an element that was read. -/
inductive Kind where
  | null | bool | int | float | text | list | record | parsed
  deriving DecidableEq, Repr

def Kind.name : Kind → String
  | .null => "NoneType"
  | .bool => "bool"
  | .int => "int"
  | .float => "float"
  | .text => "str"
  | .list => "list"
  | .record => "dict"
  | .parsed => "xml.etree.ElementTree.Element"

namespace Value

def kind : Value → Kind
  | null => .null
  | bool _ => .bool
  | int _ => .int
  | float _ => .float
  | text _ => .text
  | list _ => .list
  | record _ => .record

/-! ## Values as text -/

mutual

/-- A value as it is shown inside a message or a list: texts are quoted. -/
def shown : Value → String
  | null => "None"
  | bool true => "True"
  | bool false => "False"
  | int n => toString n
  | float x => x.text
  | text s => Text.quoted s
  | list items => "[" ++ ", ".intercalate (shownItems items) ++ "]"
  | record entries => "\x7b" ++ ", ".intercalate (shownEntries entries) ++ "\x7d"

def shownItems : List Value → List String
  | [] => []
  | item :: rest => item.shown :: shownItems rest

def shownEntries : List (String × Value) → List String
  | [] => []
  | (key, value) :: rest => (Text.quoted key ++ ": " ++ value.shown) :: shownEntries rest

end

/-- A value as the text of an attribute: a text stands for itself. -/
def plain : Value → String
  | text s => s
  | value => value.shown

/-! ## Equality -/

/-- Whether two values are numbers, and the same number. -/
def sameNumber : Value → Value → Bool
  | float x, float y => x.equals y
  | float x, int n => x.equalsInt n
  | float x, bool b => x.equalsInt b.toInt
  | int n, float x => x.equalsInt n
  | bool b, float x => x.equalsInt b.toInt
  | int m, int n => m = n
  | int m, bool b => m = b.toInt
  | bool b, int n => b.toInt = n
  | bool b, bool c => b = c
  | _, _ => false

mutual

def same : Value → Value → Bool
  | null, other => match other with
    | null => true
    | _ => false
  | text s, other => match other with
    | text t => s = t
    | _ => false
  | list items, other => match other with
    | list others => sameItems items others
    | _ => false
  | record entries, other => match other with
    | record others => entries.length = others.length && entriesIn entries others
    | _ => false
  | bool b, other => sameNumber (bool b) other
  | int n, other => sameNumber (int n) other
  | float x, other => sameNumber (float x) other

def sameItems : List Value → List Value → Bool
  | [], [] => true
  | item :: rest, other :: others => item.same other && sameItems rest others
  | _, _ => false

/-- Whether each entry has its key, with an equal value, among the entries of another record. -/
def entriesIn : List (String × Value) → List (String × Value) → Bool
  | [], _ => true
  | (key, value) :: rest, others =>
    (match others.lookup key with
      | some other => value.same other
      | none => false) && entriesIn rest others

end

end Value

end XmlLayout
