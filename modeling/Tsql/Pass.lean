import Tsql.Cursor
import Tsql.Render
import Tsql.Script

/-!
# Passes

A pass goes over the tokens of a script once, from left to right, and
puts zero or more tokens in the place of each. It may look ahead and take
further tokens with the one it is asked about; those are not offered to
it again.

What a pass does at a token is a `Decision`. It says how many upcoming
tokens it takes rather than where it goes, so a pass can only move
forward and every run ends. It also lists what was asked of the mapping
or predicate the pass is made from, since the answers alone do not show
which questions were put.
-/

namespace Tsql

namespace Pass

/-- A question put to the mapping or predicate of a pass. -/
inductive Question where
  /-- About a name by itself -/
  | name (name : Text)
  /-- About an object in a schema -/
  | object (schema name : Text)
  deriving DecidableEq, Repr

/-- Why a pass gives up. -/
inductive Error where
  | mismatchedComment (comment : Text)
  | badTemplate (comment : Text) (cause : Template.Error)
  deriving DecidableEq, Repr

/-- The wording of an error, without its cause. -/
def Error.message : Error → String
  | mismatchedComment comment =>
    "Found errors in conditional comment '" ++ String.ofList comment ++ "': " ++
      Template.mismatchedMessage
  | badTemplate comment _ =>
    "Failed to expand conditional comment '" ++ String.ofList comment ++ "'"

/-- What a pass does at a token. -/
structure Decision where
  /-- The tokens in its place -/
  emitted : List Token
  /-- How many upcoming tokens are taken with it -/
  consumed : Nat := 0
  /-- What the caller is told -/
  reports : List String := []
  /-- What was asked of the mapping or predicate, in order -/
  asked : List Question := []
  deriving DecidableEq, Repr

def Decision.keep (t : Token) : Decision := { emitted := [t] }

/-- Where a decision leaves a cursor. -/
def Decision.move (d : Decision) (c : Cursor) : Cursor :=
  (c.consumeN d.consumed).report d.reports

end Pass

/-- A pass over the tokens of a script. -/
structure Pass where
  name : String
  /-- What to do at a token, with the cursor on it -/
  step : Token → Cursor → Except Pass.Error Pass.Decision

/-! ## Cursors only go forward -/

namespace Cursor

@[simp] theorem ahead_advance (c : Cursor) : c.advance.ahead = c.ahead.tail := by
  unfold advance
  split <;> simp_all

@[simp] theorem ahead_report (c : Cursor) (messages : List String) :
    (c.report messages).ahead = c.ahead := rfl

theorem ahead_consume (c : Cursor) :
    c.consume.ahead = c.ahead.tail.dropWhile (·.isWhitespace) := by
  unfold consume
  split <;> simp_all

theorem length_consume_le (c : Cursor) : c.consume.ahead.length ≤ c.ahead.length := by
  have := (List.dropWhile_suffix (·.isWhitespace) (l := c.ahead.tail)).length_le
  rw [ahead_consume]
  simp only [List.length_tail] at this
  omega

theorem length_consumeN_le (c : Cursor) (n : Nat) :
    (c.consumeN n).ahead.length ≤ c.ahead.length := by
  induction n generalizing c with
  | zero => exact Nat.le_refl _
  | succ n ih => exact Nat.le_trans (ih c.consume) (length_consume_le c)

end Cursor

namespace Pass

theorem length_move_le (d : Decision) (c : Cursor) :
    (d.move c).ahead.length ≤ c.ahead.length :=
  Cursor.length_consumeN_le c d.consumed

/-! ## Running a pass -/

/-- What a pass did over a token sequence. -/
structure Trace where
  /-- The tokens put in place, in order -/
  emitted : List Token
  /-- The questions, in order -/
  asked : List Question
  /-- The reports, in order -/
  reports : List String
  deriving DecidableEq, Repr

/-- Runs a pass from a cursor on. -/
def traceFrom (pass : Pass) (c : Cursor) : Except Error Trace :=
  match _h : c.ahead with
  | [] => .ok ⟨[], [], c.diagnostics⟩
  | t :: _ => do
    let d ← pass.step t c
    let rest ← traceFrom pass (d.move c).advance
    return ⟨d.emitted ++ rest.emitted, d.asked ++ rest.asked, rest.reports⟩
termination_by c.ahead.length
decreasing_by
  have := length_move_le d c
  simp only [Cursor.ahead_advance, List.length_tail]
  rw [_h] at *
  simp only [List.length_cons] at *
  omega

/-- What became of a script. -/
structure Outcome where
  /-- The new text, or the old one if there are problems -/
  output : Text
  /-- What is wrong with the script -/
  problems : List Problem
  /-- What the passes reported, in order -/
  diagnostics : List String
  /-- What the passes asked, in order -/
  asked : List Question
  deriving DecidableEq, Repr

namespace Outcome

/-- A script to which nothing was done yet. -/
def start (script : Text) : Outcome := ⟨script, [], [], []⟩

def isOk (o : Outcome) : Bool := o.problems.isEmpty

def errors (o : Outcome) : List String := o.problems.map Problem.text

/-- The outcome of a pass, after what earlier passes reported and
asked. -/
def andThen (o next : Outcome) : Outcome :=
  { next with
    diagnostics := o.diagnostics ++ next.diagnostics
    asked := o.asked ++ next.asked }

end Outcome

/-- Runs a pass over a script. A script with problems comes back as it
is, and the pass is not consulted. -/
def run (pass : Pass) (level : Level) (script : Text) : Except Error Outcome :=
  let parsed := Script.parse level script
  if parsed.problems = [] then do
    let trace ← pass.traceFrom (.start parsed.body)
    return ⟨Token.textOf trace.emitted, [], trace.reports, trace.asked⟩
  else .ok ⟨script, parsed.problems, [], []⟩

/-- Runs passes one after the other, each on the text of the one before,
up to the first that finds problems. -/
def runAllFrom (level : Level) (o : Outcome) : List Pass → Except Error Outcome
  | [] => .ok o
  | pass :: more => do
    let next ← pass.run level o.output
    let next := o.andThen next
    if next.isOk then runAllFrom level next more else return next

/-- Runs passes over a script, one after the other. -/
def runAll (passes : List Pass) (level : Level) (script : Text) : Except Error Outcome :=
  runAllFrom level (.start script) passes

def identity : Pass where
  name := "identity"
  step t _ := .ok (.keep t)

end Pass

end Tsql
