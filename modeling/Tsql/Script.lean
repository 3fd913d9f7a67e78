import Tsql.Structure

/-!
# Scripts

A script as read: its tokens, closed by an empty end-of-file token, and
the problems found in it. A text that cannot be cut into tokens has one
problem and no tokens.
-/

namespace Tsql

/-- The tokens of a text and what is wrong with it. -/
structure Script where
  /-- Ends in an end-of-file token, or is empty if the text could not be
  read -/
  tokens : List Token
  problems : List Problem
  deriving DecidableEq, Repr

namespace Script

/-- The end-of-file token of a text: it stands behind the last token, and
nowhere if there is none. -/
def endToken (source : Text) : Token :=
  ⟨.endOfFile, [], if source = [] then none else some (Position.start.after source)⟩

/-- Reads a text and checks its structure. -/
def parse (level : Level) (source : Text) : Script :=
  match tokensFrom .start source with
  | .error problem => ⟨[], [problem]⟩
  | .ok raw =>
    let body := markBatches true raw
    ⟨body ++ [endToken source], Structure.problems level body⟩

/-- All tokens but the end-of-file token. -/
def body (s : Script) : List Token := s.tokens.dropLast

def errors (s : Script) : List String := s.problems.map Problem.text

end Script

end Tsql
