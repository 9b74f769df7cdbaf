import XmlLayout.Check.Run
import XmlLayout.Text.Digits

/-!
# The command line of the check

Here it is declared which options the check has, and what each requires of its value (`required`).
The words of a command line are read by a `Reader`, which calls the check with the values that the
options stand for, or ends with a text of its own. A reader is not looked into: all that is known
of it are its laws (`Reader.Lawful`). Of an option that is given several times the last value
counts, and one that is no integer, or too small, or a path that leads to what is not allowed, is an
error of usage.
-/

namespace XmlLayout.Check

/-- The options that take a value. -/
inductive OptionName where
  | profile | loops | deepest | widest | step
  deriving DecidableEq, Repr

def OptionName.word : OptionName → String
  | .profile => "--pstats"
  | .loops => "--loops"
  | .deepest => "--deepest"
  | .widest => "--widest"
  | .step => "--step"

/-- The words of options, of which each has its value behind it. -/
def wordsOf (pairs : List (OptionName × String)) : List String :=
  pairs.flatMap fun pair => [pair.1.word, pair.2]

/-- The values that are given for an option. -/
def valuesOf (pairs : List (OptionName × String)) (name : OptionName) : List String :=
  (pairs.filter fun pair => pair.1 = name).map Prod.snd

/-- The last value of an option. -/
def lastOf (pairs : List (OptionName × String)) (name : OptionName) : Option String :=
  (valuesOf pairs name).getLast?

/-! ## What an option requires -/

inductive Requirement where
  /-- An integer that is not below the least one. -/
  | integer (least : Option Int)
  /-- A path. A file or a directory may only be there already if it is allowed. -/
  | path (fileAllowed directoryAllowed : Bool)

/-- What an option stands for. -/
def Requirement.Value : Requirement → Type
  | .integer _ => Int
  | .path _ _ => String

/-- What the options of the check require. -/
def required : OptionName → Requirement
  | .profile => .path false false
  | .loops => .integer (some 0)
  | .deepest => .integer (some 0)
  | .widest => .integer (some 0)
  | .step => .integer none

def Place.isAllowed (fileAllowed directoryAllowed : Bool) : Place → Bool
  | .file => fileAllowed
  | .device => true
  | .here | .above | .rooted _ => directoryAllowed

/-- Whether an integer is not below the least one, if there is a least one. -/
def isAtLeast (least : Option Int) (n : Int) : Bool :=
  least.all (· ≤ n)

namespace Requirement

/-- A value that is an integer is not too small. -/
def Meets : (r : Requirement) → r.Value → Prop
  | .integer least, n => isAtLeast least n = true
  | .path _ _, _ => True

variable (integer? : String → Option Int) (look : String → Except Gap Place)

/-- The integer that a text is, unless it is too small, where `integer?` reads integers. -/
def acceptInteger? (least : Option Int) (text : String) : Option Int :=
  (integer? text).filter (isAtLeast least)

/-- A path, unless what is there is not allowed, where `look` tells what a path leads to. -/
def acceptPath? (fileAllowed directoryAllowed : Bool) (text : String) : Option String :=
  match look text with
  | .ok place => if place.isAllowed fileAllowed directoryAllowed then some text else none
  | .error .null => none
  | .error _ => some text

/-- What a text stands for, if it is accepted. -/
def accept? : (r : Requirement) → String → Option r.Value
  | .integer least, text => acceptInteger? integer? least text
  | .path fileAllowed directoryAllowed, text => acceptPath? look fileAllowed directoryAllowed text

/-- A text is refused: it is no integer, or too small a one, or a path of what is there and not
allowed. Of a path with a null character nothing is said. -/
inductive Refuses : Requirement → String → Prop
  | integer {least : Option Int} {text : String} (h : acceptInteger? integer? least text = none) :
      Refuses (.integer least) text
  | taken {fileAllowed directoryAllowed : Bool} {text : String} {place : Place}
      (hPlace : look text = .ok place) (h : place.isAllowed fileAllowed directoryAllowed = false) :
      Refuses (.path fileAllowed directoryAllowed) text

end Requirement

/-! ## Readers -/

/-- What comes of the words of a command line: a call with the values of the options that are given,
or an end with something to print. -/
inductive Response (requirement : OptionName → Requirement) where
  | call (values : ∀ name, Option (requirement name).Value)
  | exit (code : Nat) (printed complaints : String)

/-- What reads command lines. -/
structure Reader where
  /-- The integer that a text is. -/
  integer? : String → Option Int
  /-- What comes of words, by what the options require and what paths lead to. -/
  respond : (requirement : OptionName → Requirement) → (look : String → Except Gap Place) →
    List String → Response requirement

/-- The code of an error of usage. -/
def usageCode : Nat := 2

/-- What the check relies on: how a reader converts texts to integers, and that it applies what is
required of an option to its last value. -/
structure Reader.Lawful (reader : Reader) : Prop where
  /-- A decimal integer is converted to what it is, unless it has too many digits. -/
  integer?_of_isDecimal {text : String} {n : Int} :
    Text.IsDecimal text n → (Text.digitsOf text).length ≤ Text.digitLimit →
    reader.integer? text = some n
  /-- With any number of digits it is converted to what it is, if at all. -/
  eq_of_isDecimal {text : String} {m n : Int} :
    Text.IsDecimal text n → reader.integer? text = some m → m = n
  /-- A text is not converted that has a character of no number, or no digit, or too many of them. -/
  integer?_of_isNoInteger {text : String} : Text.IsNoInteger text → reader.integer? text = none
  /-- Where the last value of each option is accepted, the call is with what these stand for. Values
  in front of them are not looked at. -/
  respond_of_accepted (requirement : OptionName → Requirement) (look : String → Except Gap Place)
    (pairs : List (OptionName × String)) :
    (∀ name, ∀ text ∈ lastOf pairs name,
      ((requirement name).accept? reader.integer? look text).isSome = true) →
    reader.respond requirement look (wordsOf pairs) =
      .call fun name => (lastOf pairs name).bind ((requirement name).accept? reader.integer? look)
  /-- Where the last value of some option is refused, this is an error of usage. How the complaint is
  worded is left open. -/
  respond_of_refused (requirement : OptionName → Requirement) (look : String → Except Gap Place)
    (pairs : List (OptionName × String)) {name : OptionName} {text : String} :
    lastOf pairs name = some text → (requirement name).Refuses reader.integer? look text →
    ∃ complaint, reader.respond requirement look (wordsOf pairs) = .exit usageCode "" complaint
  /-- No call is with less than the least integer of an option, whatever the words are. -/
  meets_of_call {requirement : OptionName → Requirement} {look : String → Except Gap Place}
    {words : List String} {values : ∀ name, Option (requirement name).Value} :
    reader.respond requirement look words = .call values →
    ∀ name, ∀ value ∈ values name, (requirement name).Meets value

/-! ## The check -/

/-- The settings of a call; those that are not given are the standard ones. -/
def Settings.ofValues (values : ∀ name, Option (required name).Value) : Settings :=
  let standard : Settings := {}
  { profile := values .profile
    loops := (values .loops).getD standard.loops
    deepest := (values .deepest).getD standard.deepest
    widest := (values .widest).getD standard.widest
    step := (values .step).getD standard.step }

/-- Does what a command line asks for. -/
def answer {m : Type → Type} [Monad m] (reader : Reader) (tick : m Int) (around : Surroundings)
    (words : List String) : m Outcome :=
  match reader.respond required (leadsTo around.toFiles) words with
  | .call values => run tick (.ofValues values) around
  | .exit code printed complaints =>
    return ⟨.exit code, printed, complaints, sortedNames around.existing, around.draws.used⟩

end XmlLayout.Check
