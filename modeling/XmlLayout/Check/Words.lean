import XmlLayout.Check.CommandLine
import XmlLayout.Text.Integer

/-!
# The reader of the program

Options have a name and a value, which is the next word or stands behind an equals sign. An unknown
option, a missing value and a word that belongs to no option are errors of usage, as is a value that
is not accepted. Of an option that is given several times only the last value is looked at.
-/

namespace XmlLayout.Check

def OptionName.all : List OptionName :=
  [.profile, .loops, .deepest, .widest, .step]

def OptionName.ofWord? (word : String) : Option OptionName :=
  OptionName.all.find? fun name => name.word = word

inductive Request where
  /-- The options in their order, with their values as they are written. -/
  | check (pairs : List (OptionName × String))
  /-- A text about the command line itself. -/
  | help

def helpWord : String := "--help"

def Request.add (name : OptionName) (value : String) : Request → Request
  | .check pairs => .check ((name, value) :: pairs)
  | .help => .help

/-- A word as the name of an option with its value behind the first equals sign. -/
def splitWord (word : String) : String × Option String :=
  let chars := word.toList
  let name := String.ofList (chars.takeWhile (· ≠ '='))
  match chars.dropWhile (· ≠ '=') with
  | [] => (name, none)
  | _ :: value => (name, some (String.ofList value))

/-- What a command line asks for; nothing for an error of usage. A double hyphen ends the
options, and nothing may follow it. -/
def Request.ofWords? : List String → Option Request
  | [] => some (.check [])
  | word :: rest =>
    if word = "--" then (if rest = [] then some (.check []) else none)
    else if word = helpWord then (ofWords? rest).map fun _ => .help
    else match OptionName.ofWord? (splitWord word).1, (splitWord word).2, rest with
      | none, _, _ => none
      | some name, some value, rest => (ofWords? rest).map (·.add name value)
      | some _, none, [] => none
      | some name, none, value :: rest => (ofWords? rest).map (·.add name value)

def usage : String :=
  "\n".intercalate [
    "Usage: [--pstats FILE] [--loops N] [--deepest N] [--widest N] [--step N]",
    "",
    "Writes random documents and reads them back.",
    "",
    "--pstats FILE  write a profile to FILE, which must not exist, instead of timing",
    "--loops N      number of documents (250)",
    "--deepest N    bound on the depth of a document (8)",
    "--widest N     bound on the number of children of an element (6)",
    "--step N       spaces for each level of indent; none if zero or less (3)",
    ""]

/-- The response to options: a call if the last value of each is accepted. -/
def respondTo (requirement : OptionName → Requirement) (look : String → Except Gap Place)
    (pairs : List (OptionName × String)) : Response requirement :=
  let accept? (name : OptionName) := (requirement name).accept? Text.integer? look
  if OptionName.all.all fun name => (lastOf pairs name).all fun text => (accept? name text).isSome
  then .call fun name => (lastOf pairs name).bind (accept? name)
  else .exit usageCode "" usage

def wordReader : Reader where
  integer? := Text.integer?
  respond requirement look words := match Request.ofWords? words with
    | none => .exit usageCode "" usage
    | some .help => .exit 0 usage ""
    | some (.check pairs) => respondTo requirement look pairs

end XmlLayout.Check
