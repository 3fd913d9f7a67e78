import Tsql.Pass

/-!
# Expanding conditional comments

A block comment with tags in it is a template; its text takes the place
of the comment. It is read as a script of its own and its tokens are put
in, unless it opens or closes a comment without the other half: then it
stays one token, to pair with the mark of another conditional comment.
A text that cannot be read is left out and reported.
-/

namespace Tsql

namespace Pass

/-- A comment without its marks. -/
def commentBody (comment : Text) : Text := (comment.drop 2).dropLast.dropLast

/-- Whether a text holds exactly one of the comment marks. -/
def hasUnpairedMark (t : Text) : Bool :=
  t.has CommentMark.opening.text != t.has CommentMark.closing.text

/-- What is said of a text that cannot be read. -/
def droppedMessage (expanded : Text) : String :=
  "Error parsing '" ++ String.ofList expanded ++ "' into TSQL"

/-- The tokens of an expanded text. -/
def splice (level : Level) (expanded : Text) : Decision :=
  let parsed := Script.parse level expanded
  if parsed.body = [] ∧ parsed.problems ≠ [] then
    { emitted := [], reports := droppedMessage expanded :: parsed.errors }
  else { emitted := parsed.body }

/-- The text in the place of a template comment. -/
def expandedDecision (level : Level) (expanded : Text) : Decision :=
  if hasUnpairedMark expanded then { emitted := [.synthetic .blockComment expanded] }
  else splice level expanded

/-- Expands the conditional comments of a script; `level` is the one the
expanded texts are read at. -/
def expandComments (registry : Registry) (env : Environment) (level : Level) : Pass where
  name := "conditional-comments"
  step t _ :=
    if t.kind = .blockComment then
      match Template.detect t.text with
      | .plain => .ok (.keep t)
      | .mismatched => .error (.mismatchedComment t.text)
      | .template =>
        match Template.expand registry env (commentBody t.text) with
        | .error cause => .error (.badTemplate t.text cause)
        | .ok expanded => .ok (expandedDecision level expanded)
    else .ok (.keep t)

end Pass

end Tsql
