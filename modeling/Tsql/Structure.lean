import Tsql.Level
import Tsql.Lexer

/-!
# Structure of a script

The checks made on a script's tokens before any pass runs: parentheses
and `BEGIN`/`CASE` blocks must pair up within each batch, and a called
built-in must exist at the level. Statements are not parsed. White space
and comments play no part.
-/

namespace Tsql

namespace Structure

/-- A construct that awaits its closing token. -/
structure Opening where
  position : Position
  text : Text
  deriving DecidableEq, Repr

/-- What is open at some point of a batch, innermost first, and the
problems found so far, latest first. -/
structure State where
  parens : List Opening
  blocks : List Opening
  found : List Problem
  deriving DecidableEq, Repr

def State.start : State := ⟨[], [], []⟩

/-- Whether the word after `BEGIN` makes it a statement of its own rather
than a block closed by `END`. -/
def beginsStatement (next : Token) : Bool :=
  ["TRAN", "TRANSACTION", "DISTRIBUTED", "DIALOG", "CONVERSATION"].any next.isWord

/-- The end of a batch: whatever is still open is reported. -/
def State.closeBatch (s : State) : State :=
  let parens := s.parens.reverse.map fun o => (⟨o.position, .near o.text⟩ : Problem)
  let blocks := s.blocks.reverse.map fun o => (⟨o.position, .expectingEnd o.text⟩ : Problem)
  ⟨[], [], (parens ++ blocks).reverse ++ s.found⟩

/-- A closing token: it takes the innermost opening of its sort, or is
reported. -/
def closeWith (opens : List Opening) (here : Opening) (found : List Problem) :
    List Opening × List Problem :=
  match opens with
  | [] => ([], ⟨here.position, .near here.text⟩ :: found)
  | _ :: rest => (rest, found)

/-- One token, with the token after it. -/
def State.step (level : Level) (s : State) (t : Token) (next : Option Token) : State :=
  let here : Opening := ⟨t.position.getD .start, t.text⟩
  if t.kind = .leftParen then { s with parens := here :: s.parens }
  else if t.kind = .rightParen then
    let (parens, found) := closeWith s.parens here s.found
    { s with parens, found }
  else if t.isKeyword "BEGIN" then
    if next.any beginsStatement then s else { s with blocks := here :: s.blocks }
  else if t.isKeyword "CASE" then { s with blocks := here :: s.blocks }
  else if t.isKeyword "END" then
    if next.any (·.isWord "CONVERSATION") then s
    else
      let (blocks, found) := closeWith s.blocks here s.found
      { s with blocks, found }
  else if t.kind = .batchSeparator then s.closeBatch
  else if t.kind = .identifier ∧ level.lacksBuiltin t.text then
    if next.any (·.kind = .leftParen) then
      { s with found := ⟨here.position, .unknownFunction t.text⟩ :: s.found }
    else s
  else s

def State.run (level : Level) (s : State) : List Token → State
  | [] => s
  | t :: ts => (s.step level t ts.head?).run level ts

/-- Whether the checks look at a token. -/
def isSignificant (t : Token) : Bool := !t.isWhitespace && !t.isComment

/-- The problems of a token sequence, in reading order. -/
def problems (level : Level) (tokens : List Token) : List Problem :=
  let final := (State.start.run level (tokens.filter isSignificant)).closeBatch
  final.found.reverse.mergeSort fun p q => p.position.le q.position

end Structure

end Tsql
