import Tsql.Lexeme

/-!
# Reading a script into tokens

`tokensFrom` cuts a text into lexemes and gives each its position; the
texts of the tokens are consecutive pieces of the script by construction.
`markBatches` then tells a batch separator from the identifier `GO` by
the line it stands on.
-/

namespace Tsql

/-! ## Problems -/

/-- What is wrong with a script. -/
inductive Problem.Cause where
  /-- No token could be read -/
  | unreadable (fault : Lexeme.Fault)
  /-- A closing parenthesis or `END` without partner, or a parenthesis
  left open -/
  | near (text : Text)
  /-- A block left open -/
  | expectingEnd (text : Text)
  /-- A call of a function that the level lacks -/
  | unknownFunction (text : Text)
  deriving DecidableEq, Repr

def Problem.Cause.message : Problem.Cause → String
  | .unreadable fault => fault.message
  | .near text => "Incorrect syntax near '" ++ String.ofList text ++ "'."
  | .expectingEnd text =>
    "Incorrect syntax near '" ++ String.ofList text ++ "'. Expecting END."
  | .unknownFunction text =>
    "'" ++ String.ofList text ++ "' is not a recognized built-in function name."

/-- Something wrong with a script, and where. -/
structure Problem where
  position : Position
  cause : Problem.Cause
  deriving DecidableEq, Repr

/-- `line:column: message` -/
def Problem.text (p : Problem) : String := p.position.text ++ ": " ++ p.cause.message

/-! ## Tokens of a text -/

/-- The tokens of a text that begins at `p`, `GO` not yet told apart. -/
def tokensFrom (p : Position) : Text → Except Problem (List Token)
  | [] => .ok []
  | c :: cs =>
    match Lexeme.scan c cs with
    | .fault fault offset =>
      .error ⟨p.after ((c :: cs).take offset), .unreadable fault⟩
    | .lexeme kind extent => do
      let text := c :: cs.take extent
      let more ← tokensFrom (p.after text) (cs.drop extent)
      return ⟨kind, text, some p⟩ :: more
termination_by cs => cs.length
decreasing_by simp only [List.length_drop, List.length_cons]; omega

/-! ## Batch separators -/

/-- Turns the word `GO` into a batch separator where only white space and
comments stand before it on its line. `lineStart` says whether that holds
at the first token. -/
def markBatches (lineStart : Bool) : List Token → List Token
  | [] => []
  | t :: ts =>
    if t.isWhitespace || t.isComment then
      t :: markBatches (lineStart || t.text.contains '\n') ts
    else if lineStart && t.isWord "GO" then
      { t with kind := .batchSeparator } :: markBatches false ts
    else t :: markBatches false ts

end Tsql
