import XmlLayout.Writing.Encoding

/-!
# Rendering a tree without a stack

The same layout as a function of the tree and its depth alone: every indent is computed from the
depth of its element, and nothing is remembered. Only trees that can be written have a rendering
that means anything; a plain value renders as nothing.
-/

namespace XmlLayout.Writing

open Document Indent

/-- The indent in front of the opening tag of an element at a depth. -/
def openingIndent (step : Int) (depth : Nat) : String :=
  if step ≤ 0 ∨ depth = 0 then "" else indentText (depth * step)

/-- The indent in front of the closing tag of an element with children at a depth. -/
def closingIndent (step : Int) (depth : Nat) : String :=
  if step ≤ 0 then "" else indentText (depth * step)

mutual

def render (step : Int) (depth : Nat) : Node → String
  | .foreign _ => ""
  | .element tag children =>
    openingIndent step depth ++ openingText tag ++
      if children.isEmpty && tag.text.isNone then "/>"
      else
        ">" ++ contentText tag ++ renderAll step (depth + 1) children ++
          (if children.isEmpty then "" else closingIndent step depth) ++ closingText tag

def renderAll (step : Int) (depth : Nat) : List Node → String
  | [] => ""
  | node :: rest => render step depth node ++ renderAll step depth rest

end

end XmlLayout.Writing
