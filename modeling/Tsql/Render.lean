import Tsql.Environment
import Tsql.Template

/-!
# Rendering templates

A template is rendered part by part. Names are looked up when they are
reached: the conditions of a conditional in order up to the first true
one, then the body taken. What is not reached need not exist.
-/

namespace Tsql

namespace Template

/-- The value of a name. -/
def resolveName (env : Environment) (name : Text) (position : Position) : Except Error Json :=
  match env.lookup name with
  | some value => .ok value
  | none => .error (.unknownVariable name position)

def Argument.resolve (env : Environment) : Argument → Except Error Json
  | .literal value => .ok value
  | .variableName path position => resolveName env path position

def resolveAll (env : Environment) : List Argument → Except Error (List Json)
  | [] => .ok []
  | a :: more => do
    let value ← a.resolve env
    let values ← resolveAll env more
    return value :: values

/-- A value in place of a placeholder: a string as it is, nothing for
null, and the JSON text of anything else. -/
def shown : Json → Text
  | .null => []
  | .string s => s
  | other => other.text

/-- A tag applied to its arguments. A template rendered with another
registry than it was read with may lack the tag; there is no place to
report then. -/
def renderTag (env : Environment) (registry : Registry) (name : Text)
    (arguments : List Argument) : Except Error Text :=
  match registry.find? name with
  | none => .error (.unknownTag name ⟨0, 0⟩)
  | some tag => do
    let values ← resolveAll env arguments
    return tag.render values

mutual

def Node.render (env : Environment) (registry : Registry) : Node → Except Error Text
  | .text content => .ok content
  | .placeholder path position => do
    let value ← resolveName env path position
    return shown value
  | .conditional arms none => do
    let taken ← renderArms env registry arms
    return taken.getD []
  | .conditional arms (some body) => do
    let taken ← renderArms env registry arms
    match taken with
    | some text => return text
    | none => renderNodes env registry body
  | .tag name arguments => renderTag env registry name arguments

/-- The body of the first arm whose condition is true. -/
def renderArms (env : Environment) (registry : Registry) :
    List (Argument × List Node) → Except Error (Option Text)
  | [] => .ok none
  | (condition, body) :: more => do
    let value ← condition.resolve env
    if value.isTruthy then
      let text ← renderNodes env registry body
      return some text
    else renderArms env registry more

/-- The texts of the parts, put together. -/
def renderNodes (env : Environment) (registry : Registry) : List Node → Except Error Text
  | [] => .ok []
  | node :: more => do
    let text ← node.render env registry
    let rest ← renderNodes env registry more
    return text ++ rest

end

def render (t : Template) (env : Environment) (registry : Registry) : Except Error Text :=
  renderNodes env registry t.nodes

/-- Reads and renders a template with one registry. -/
def expand (registry : Registry) (env : Environment) (source : Text) : Except Error Text := do
  let template ← compile registry source
  template.render env registry

/-! ## Conditional comments -/

/-- What a comment is to a template reader. -/
inductive Detection where
  /-- No mark of a tag -/
  | plain
  /-- An opening and a closing mark -/
  | template
  /-- One of them only -/
  | mismatched
  deriving DecidableEq, Repr

/-- What is said of a comment with one of the marks only. -/
def mismatchedMessage : String :=
  "Found a conditional comment with mismatched \x7b\x7b \x7d\x7d tags"

/-- Tells a comment by the marks in it. -/
def detect (comment : Text) : Detection :=
  match comment.has openMark, comment.has closeMark with
  | true, true => .template
  | false, false => .plain
  | _, _ => .mismatched

end Template

end Tsql
