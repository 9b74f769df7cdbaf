import XmlLayout.Error

/-!
# File names

A file is named by a path. Empty parts and single points in a path mean nothing, and a path of
nothing else names the directory itself. Two points mean the directory above; the one above the
root is the root. A path leads from part to part, and only a directory leads on (`leadsTo`). Which
files are in the directory itself, and what stands under the root, is told by `Files`.
-/

namespace XmlLayout.Check

/-- The parts of a path between its slashes. -/
def pathParts (path : List Char) : List (List Char) :=
  path.foldr (fun c parts =>
    if c = '/' then [] :: parts
    else match parts with
      | [] => [[c]]
      | part :: others => (c :: part) :: others) [[]]

/-- The root that a path starts from, if it does not start from the directory itself. Two slashes
are a root of their own, and more are one. -/
def pathRoot : List Char → List Char
  | '/' :: '/' :: '/' :: _ => ['/']
  | '/' :: '/' :: _ => ['/', '/']
  | '/' :: _ => ['/']
  | _ => []

/-- The parts of a path that mean something. -/
def meaningfulParts (path : List Char) : List (List Char) :=
  (pathParts path).filter fun part => part ≠ [] ∧ part ≠ ['.']

/-- A path without the parts that mean nothing. -/
def tidyPath (path : String) : String :=
  let tidied := pathRoot path.toList ++
    List.intercalate ['/'] (meaningfulParts path.toList)
  if tidied = [] then "." else String.ofList tidied

/-! ## What a path leads to -/

/-- What can stand under the root. A device can be written to, but is no file. -/
inductive Standing where
  | directory | file | device
  deriving DecidableEq, Repr

/-- What is there before a check begins. -/
structure Files where
  /-- The files in the directory itself. -/
  existing : List String
  /-- What stands under the root, by its parts. -/
  rooted : List (List String × Standing) := []

/-- The largest number of bytes of a part of a path. -/
def largestPart : Nat := 255

/-- The largest number of bytes of a path. -/
def largestPath : Nat := 4095

/-- What a path leads to. -/
inductive Place where
  /-- The directory itself. -/
  | here
  /-- A directory above it. -/
  | above
  /-- A directory under the root, by its parts, the last one first. -/
  | rooted (parts : List String)
  | file
  /-- Something that can be written to but is neither a file nor a directory. -/
  | device
  deriving DecidableEq

/-- Why a path leads to nothing. -/
inductive Gap where
  /-- Nothing has the name of its last part. -/
  | noFile
  /-- Nothing has the name of a part in front of the last. -/
  | noDirectory
  /-- Something in front of the last part is no directory. -/
  | notDirectory
  | tooLong
  /-- There is a null character in it, which no name has. -/
  | null
  deriving DecidableEq

/-- The place that a part of a path leads to from a place. -/
def Place.next (files : Files) (place : Place) (part : String) : Except Gap Place :=
  match place with
  | .file => .error .notDirectory
  | .device => .error .notDirectory
  | .here =>
    if part = ".." then .ok .above
    else if largestPart < part.utf8ByteSize then .error .tooLong
    else if part ∈ files.existing.map tidyPath then .ok .file
    else .error .noFile
  | .above =>
    if part = ".." then .ok .above
    else if largestPart < part.utf8ByteSize then .error .tooLong
    else .error .noFile
  | .rooted parts =>
    if part = ".." then .ok (.rooted parts.tail)
    else if largestPart < part.utf8ByteSize then .error .tooLong
    else match files.rooted.lookup (part :: parts).reverse with
      | some .directory => .ok (.rooted (part :: parts))
      | some .file => .ok .file
      | some .device => .ok .device
      | none => .error .noFile

/-- The place that the parts of a path lead to from a place. -/
def Place.follow (files : Files) : Place → List String → Except Gap Place
  | place, [] => .ok place
  | place, part :: rest => match place.next files part with
    | .ok inner => inner.follow files rest
    | .error .noFile => .error (if rest = [] then .noFile else .noDirectory)
    | .error gap => .error gap

/-- What a path leads to. What lies above the directory, or further down, is taken for nothing. -/
def leadsTo (files : Files) (path : String) : Except Gap Place :=
  let start : Place := if pathRoot path.toList = [] then .here else .rooted []
  if '\x00' ∈ path.toList then .error .null
  else if largestPath < (tidyPath path).utf8ByteSize then .error .tooLong
  else if tidyPath path ∈ files.existing.map tidyPath then .ok .file
  else start.follow files ((meaningfulParts path.toList).map String.ofList)

/-- Why the file of a path cannot be made, if it is not there. -/
def makingFault? (files : Files) (path : String) : Option Error :=
  match leadsTo files path with
  | .ok _ => none
  | .error .noFile => none
  | .error .noDirectory => some (.noSuchFile (tidyPath path))
  | .error .notDirectory => some (.notDirectory (tidyPath path))
  | .error .tooLong => some (.nameTooLong (tidyPath path))
  | .error .null => some .nullInFileName

/-- Whether a path names a file in the directory itself. -/
def isInside (path : String) : Bool :=
  '/' ∉ (tidyPath path).toList

/-- The names of files in order of their characters, each once. -/
def sortedNames (names : List String) : List String :=
  (names.map tidyPath).eraseDups.mergeSort fun a b => !decide (b < a)

end XmlLayout.Check
