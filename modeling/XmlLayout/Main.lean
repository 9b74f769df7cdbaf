import XmlLayout.Check.Words

/-!
# The program

Reads the command line, looks which of the files that it mentions are there and what stands on the
way to them, does the check with the clock of the machine and with numbers that follow from a seed,
and prints what the check leaves behind. No tests come before it.
-/

namespace XmlLayout.Program

open Check

/-- The `i`-th number that follows from a seed. -/
def mixed (seed i : Nat) : Int :=
  let x := UInt64.ofNat (seed + (i + 1) * 0x9e3779b97f4a7c15)
  let y := (x ^^^ (x >>> 30)) * 0xbf58476d1ce4e5b9
  let z := (y ^^^ (y >>> 27)) * 0x94d049bb133111eb
  ((z ^^^ (z >>> 31)) >>> 11).toNat

/-- The reading of the machine's clock. -/
def tick : IO Int := do
  return (← IO.monoNanosNow : Nat)

/-- Whether a file can be opened. -/
def isThere (name : String) : IO Bool := do
  try
    let _ ← IO.FS.Handle.mk name .read
    return true
  catch _ => return false

/-- The paths that a command line may mention. -/
def mentioned (words : List String) : List String :=
  (words.flatMap fun word => [word, (splitWord word).2.getD "."]).map tidyPath

/-- What stands at a path, if there is anything. Behind a directory the path may go on. -/
def standing? (path : String) : IO (Option Standing) := do
  if ← isThere (path ++ "/.") then return some .directory
  else if ← isThere path then return some .file
  else return none

/-- What stands at the parts of a path under the root, from the root on. -/
def onTheWay (path : String) : IO (List (List String × Standing)) := do
  let parts := (meaningfulParts path.toList).map String.ofList
  (List.range parts.length).filterMapM fun i => do
    let way := parts.take (i + 1)
    return (← standing? ("/" ++ "/".intercalate way)).map (way, ·)

/-- What is there of the paths that a command line mentions. -/
def filesFor (words : List String) : IO Files := do
  let (outside, inside) := (mentioned words).partition (·.startsWith "/")
  return { existing := ← inside.filterM isThere, rooted := (← outside.mapM onTheWay).flatten }

/-- Does what a command line asks for, prints what it says, and makes the files that it makes. -/
def runWords (words : List String) : IO UInt32 := do
  let files ← filesFor words
  let seed ← IO.rand 0 (Nat.pow 2 62)
  let around : Surroundings := ⟨files, 0, ⟨mixed seed, 0⟩⟩
  let outcome ← answer wordReader tick around words
  IO.print outcome.printed
  IO.eprint outcome.complaints
  for file in outcome.files do
    if file ∉ files.existing then
      IO.FS.writeFile file ("numbers drawn: " ++ toString outcome.drawn ++ "\n")
  match outcome.ending with
  | .exit code => return code.toUInt32
  | .raised cause =>
    IO.eprintln cause.message
    return 1

end XmlLayout.Program

def main (words : List String) : IO UInt32 :=
  XmlLayout.Program.runWords words
