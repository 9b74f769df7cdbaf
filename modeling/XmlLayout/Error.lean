import XmlLayout.Value

/-!
# What can go wrong

The causes of failure, from the store of indents to the reading of markup, and their wording.
Malformed markup is one cause: where it is malformed is not told.
-/

namespace XmlLayout

inductive Error where
  /-- A store of indents was asked for with fewer than no slots. -/
  | negativeSize
  /-- A slot below the first was to be filled. -/
  | negativeSlot
  /-- More levels were closed than opened, where this is refused. -/
  | belowDocument
  /-- A store of indents was asked for with more slots than can be counted. -/
  | sizeTooLarge
  /-- A width that does not fit the machine, be it told or written. -/
  | widthTooLarge
  /-- A number that had to fit the machine and does not. -/
  | numberTooLarge
  /-- Something that would take more memory than there is. -/
  | outOfMemory
  /-- A position before the start of a buffer. -/
  | negativePosition (position : Int)
  /-- What is written would end at a position that does not fit the machine. -/
  | endTooLarge
  /-- What is written would need a longer buffer than there can be. -/
  | bufferTooLarge
  | illegalElementName (name : String)
  | illegalAttributeName (name : String)
  /-- An element's text was given both on its own and among the attributes. -/
  | textTwice
  /-- An attribute has the name of something that an element is made from. -/
  | argumentTwice (name : String)
  /-- Something that is no element stands where an element belongs. -/
  | notElement (kind : Kind)
  | textAndChildren (name : String)
  /-- There is no child at an index. -/
  | noChildAt
  /-- There is no child at an index that does not even fit the machine. -/
  | indexTooLarge
  /-- There is no child to take out. -/
  | noChildren
  /-- There is no child to take out at an index. -/
  | noChildToTake
  /-- No child is equal to the one that was to be taken out. -/
  | noEqualChild
  /-- No child is equal to the one looked for, which is shown as `shown`. -/
  | notAmongChildren (shown : String)
  /-- An attribute that is not there was to be taken away. -/
  | noAttribute (key : String)
  /-- Markup that is not well formed. -/
  | malformed
  /-- A number below a bound that admits none was to be drawn. -/
  | emptyRange
  /-- A quotient past the largest floating-point number. -/
  | quotientTooLarge
  /-- A file name with a null character in it. -/
  | nullInFileName
  /-- A file was to be made in a directory that is not there. -/
  | noSuchFile (name : String)
  /-- A file was to be made in something that is no directory. -/
  | notDirectory (name : String)
  /-- A file name with more bytes than a file name may have. -/
  | nameTooLong (name : String)
  deriving DecidableEq, Repr

def Error.message : Error → String
  | negativeSize => "cache size can't be negative"
  | negativeSlot => "cache index can't be negative"
  | belowDocument => "indent can't go negative"
  | sizeTooLarge => "cannot fit 'int' into an index-sized integer"
  | widthTooLarge => "cannot fit 'int' into an index-sized integer"
  | numberTooLarge => "Python int too large to convert to C ssize_t"
  | outOfMemory => ""
  | negativePosition position => "Negative seek position " ++ toString position
  | endTooLarge => "new position too large"
  | bufferTooLarge => "new buffer size too large"
  | illegalElementName name => "illegal element name: " ++ Text.quoted name
  | illegalAttributeName name => "illegal attribute name: " ++ Text.quoted name
  | textTwice => "indenter.markup.Element() got multiple values for keyword argument 'text'"
  | argumentTwice name => "Element.__init__() got multiple values for argument '" ++ name ++ "'"
  | notElement kind => "unexpected type: <class '" ++ kind.name ++ "'>"
  | textAndChildren name => "text and children in element: " ++ name
  | noChildAt => "list index out of range"
  | indexTooLarge => "cannot fit 'int' into an index-sized integer"
  | noChildren => "pop from empty list"
  | noChildToTake => "pop index out of range"
  | noEqualChild => "list.remove(x): x not in list"
  | notAmongChildren shown => shown ++ " is not in list"
  | noAttribute key => Text.quoted key
  | malformed => "not well-formed"
  | emptyRange => "empty range for randrange()"
  | quotientTooLarge => "integer division result too large for a float"
  | nullInFileName => "embedded null byte"
  | noSuchFile name => "[Errno 2] No such file or directory: " ++ Text.quoted name
  | notDirectory name => "[Errno 20] Not a directory: " ++ Text.quoted name
  | nameTooLong name => "[Errno 36] File name too long: " ++ Text.quoted name

end XmlLayout
