import Tsql.Token

/-!
# Cursors

A place in a token sequence from which one can look ahead past white
space and move on. Only white space is skipped: comments count. A cursor
keeps the tokens from its place on, so that looking and moving never
start again from the front.
-/

namespace Tsql

/-- A place in a token sequence. -/
structure Cursor where
  /-- Number of tokens in the sequence -/
  size : Nat
  /-- Number of tokens before the place; larger than `size` only if the
  cursor was put there -/
  position : Nat
  /-- The tokens from the place on -/
  ahead : List Token
  /-- What was reported on the way -/
  diagnostics : List String
  deriving DecidableEq, Repr

namespace Cursor

/-- A cursor on the token with the given index. -/
def seek (tokens : List Token) (position : Nat) : Cursor :=
  ⟨tokens.length, position, tokens.drop position, []⟩

def start (tokens : List Token) : Cursor := seek tokens 0

def current (c : Cursor) : Option Token := c.ahead.head?

def atEnd (c : Cursor) : Bool := c.ahead.isEmpty

/-- The tokens other than white space after the place. -/
def upcoming (c : Cursor) : List Token := c.ahead.tail.filter (!·.isWhitespace)

/-- The tokens seen from an offset on: from 0 the current token, whatever
it is, and then the upcoming ones. -/
def view (c : Cursor) : Nat → List Token
  | 0 => c.ahead.take 1 ++ c.upcoming
  | n + 1 => c.upcoming.drop n

/-- The `n`-th upcoming token; the current token for 0. -/
def peek (c : Cursor) : Nat → Option Token
  | 0 => c.current
  | n + 1 => c.upcoming[n]?

/-- Moves by one token, white space included. -/
def advance (c : Cursor) : Cursor :=
  match c.ahead with
  | [] => c
  | _ :: ts => { c with position := c.position + 1, ahead := ts }

/-- Moves to the next token that is not white space, or to the end. -/
def consume (c : Cursor) : Cursor :=
  let skipped := c.ahead.tail.takeWhile (·.isWhitespace)
  match c.ahead.tail.dropWhile (·.isWhitespace) with
  | [] => { c with position := c.size, ahead := [] }
  | t :: ts => { c with position := c.position + 1 + skipped.length, ahead := t :: ts }

/-- Moves to the `n`-th upcoming token, or to the end. -/
def consumeN (c : Cursor) : Nat → Cursor
  | 0 => c
  | n + 1 => c.consume.consumeN n

def report (c : Cursor) (messages : List String) : Cursor :=
  { c with diagnostics := c.diagnostics ++ messages }

end Cursor

end Tsql
