import Tsql.Cursor

/-!
# Function headers

What sort of function a header declares, told from the tokens that begin
with its parameter list: `RETURNS` and a type, `RETURNS TABLE`, or
`RETURNS` and a table variable.
-/

namespace Tsql

/-- The sort of function a header declares. -/
inductive Signature where
  | scalar
  | inlineTable
  | multiStatementTable
  /-- The tokens are no function header -/
  | invalid
  deriving DecidableEq, Repr

namespace Signature

def isValid (s : Signature) : Bool := s != .invalid

/-- What stands behind the parenthesis that closes a list; `depth` counts
the inner ones still open. -/
def afterParameters (depth : Nat) : List Token → Option (List Token)
  | [] => none
  | t :: ts =>
    if t.kind = .leftParen then afterParameters (depth + 1) ts
    else if t.kind = .rightParen then
      match depth with
      | 0 => some ts
      | d + 1 => afterParameters d ts
    else afterParameters depth ts

/-- The sort of function told by what follows the parameter list. -/
def ofReturns : List Token → Signature
  | [] => .invalid
  | returns :: result =>
    if !returns.isWord "RETURNS" then .invalid
    else match result with
      | [] => .scalar
      | t :: ts =>
        if t.isKeyword "TABLE" then .inlineTable
        else if t.kind = .atName ∧ ts.head?.any (·.isKeyword "TABLE") then
          .multiStatementTable
        else .scalar

/-- The sort of function declared by a token sequence, white space left
out, that begins with the parameter list. -/
def classify : List Token → Signature
  | [] => .invalid
  | t :: ts =>
    if t.kind = .leftParen then
      match afterParameters 0 ts with
      | some rest => ofReturns rest
      | none => .invalid
    else .invalid

/-- The sort of function whose parameter list is seen from an offset. -/
def peek (c : Cursor) (offset : Nat) : Signature := classify (c.view offset)

end Signature

end Tsql
