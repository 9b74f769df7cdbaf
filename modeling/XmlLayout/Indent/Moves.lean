import XmlLayout.Indent.Stack

/-!
# Runs of a stack

A run is a list of moves, made one after the other. A run goes on behind a refused move.
-/

namespace XmlLayout.Indent

inductive Move where
  | push | pop | reset
  deriving DecidableEq, Repr

inductive Reply where
  /-- An indent. -/
  | text (s : String)
  /-- The stack went back to the document level. -/
  | done
  /-- The move was refused. -/
  | refused (cause : Error)
  deriving DecidableEq

namespace Stack

/-- An indent and the stack afterwards, as the reply to a move. -/
def answered : Except Error String × Stack → Reply × Stack
  | (.ok text, after) => (.text text, after)
  | (.error cause, after) => (.refused cause, after)

def move (s : Stack) : Move → Reply × Stack
  | .push => answered s.push
  | .pop => answered s.pop
  | .reset => (.done, s.reset)

def run (s : Stack) : List Move → List (Reply × Stack)
  | [] => []
  | m :: moves => s.move m :: (s.move m).2.run moves

def after (s : Stack) (moves : List Move) : Stack :=
  moves.foldl (fun t m => (t.move m).2) s

/-- The moves of a run, each made on two stacks: both replies and both stacks. -/
def runBoth (s t : Stack) : List Move → List ((Reply × Stack) × (Reply × Stack))
  | [] => []
  | m :: moves => (s.move m, t.move m) :: (s.move m).2.runBoth (t.move m).2 moves

end Stack

end XmlLayout.Indent
