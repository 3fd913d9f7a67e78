import Tsql.CharClass
import Tsql.Tag

/-!
# Templates

A template is text with tags between double braces: a name is a
placeholder, `#if`, `#elif`, `#elseif`, `#else` and `/if` make up a
conditional, and any other name after a number sign is a tag of the
registry. Text outside tags is copied as it is.

Reading goes in two steps. `segmentsFrom` cuts the source into text and
tags; `Builder.step` takes one segment at a time and keeps the
conditionals still open on a stack, so that the block structure of a
template is a fold over its segments.
-/

namespace Tsql

namespace Template

/-! ## Parts -/

/-- What a tag is applied to: a name to look up, or a value. -/
inductive Argument where
  | variableName (path : Text) (position : Position)
  | literal (value : Json)
  deriving Repr

/-- A part of a template. -/
inductive Node where
  | text (content : Text)
  | placeholder (path : Text) (position : Position)
  /-- The arms are tried in order; the last body is for when none is
  taken -/
  | conditional (arms : List (Argument × List Node)) (otherwise : Option (List Node))
  | tag (name : Text) (arguments : List Argument)
  deriving Repr

/-- Why a template cannot be read or rendered. -/
inductive Error where
  | unknownVariable (name : Text) (position : Position)
  | unterminatedTag (position : Position)
  | unknownTag (name : Text) (position : Position)
  | argumentCount (tag : Text) (expected found : Nat)
  | unexpectedTag (tag : Text) (position : Position)
  | unclosedBlock (tag : Text) (position : Position)
  deriving DecidableEq, Repr

def Error.message : Error → String
  | unknownVariable name position =>
    "unknown variable '" ++ String.ofList name ++ "' at " ++ position.text
  | unterminatedTag position =>
    "unterminated tag at " ++ position.text ++ ": missing '\x7d\x7d'"
  | unknownTag name position =>
    "unknown tag '" ++ String.ofList name ++ "' at " ++ position.text
  | argumentCount tag expected found =>
    "tag '" ++ String.ofList tag ++ "' expects " ++ toString expected ++
      " argument(s), found " ++ toString found
  | unexpectedTag tag position =>
    "unexpected '" ++ String.ofList tag ++ "' at " ++ position.text
  | unclosedBlock tag position =>
    "'" ++ String.ofList tag ++ "' block opened at " ++ position.text ++ " is never closed"

/-! ## Tags as written -/

def openMark : Text := ['\x7b', '\x7b']

def closeMark : Text := ['\x7d', '\x7d']

/-- The sign before a tag's name. -/
inductive Sign where
  | plain
  | opening
  | closing
  deriving DecidableEq, Repr

/-- A tag as it stands in the source. -/
structure WrittenTag where
  sign : Sign
  name : Text
  arguments : List Argument
  /-- Where its braces open -/
  position : Position
  deriving Repr

/-- A tag as it is named in a message. -/
def WrittenTag.label (w : WrittenTag) : Text :=
  match w.sign with
  | .plain => w.name
  | .opening => '#' :: w.name
  | .closing => '/' :: w.name

def isNameStart (c : Char) : Bool := c.isAlpha || c = '_' || c = '@'

def isNamePart (c : Char) : Bool := c.isAlphanum || c = '_' || c = '.' || c = '@'

/-- A quoted argument whose opening quote `c` is read: its inside and
what follows it. Without a closing quote there is none. -/
def quotedArgument? (c : Char) (cs : Text) : Option (Text × Text) :=
  if c = '\'' ∨ c = '"' then cs.cut [c] else none

/-- An argument that is no quoted text: a number if it reads as one, else
a name. -/
def wordArgument (word : Text) (position : Position) : Argument :=
  match Number.read? word with
  | some n => .literal (.number n)
  | none => .variableName word position

theorem length_lt_of_quotedArgument {c : Char} {cs inner rest : Text}
    (h : quotedArgument? c cs = some (inner, rest)) : rest.length < cs.length := by
  unfold quotedArgument? at h
  split at h
  · exact Text.length_lt_of_cut (by simp) h
  · cases h

/-- The arguments in a text that begins at `p`, between white space. -/
def argumentsFrom (p : Position) : Text → List Argument
  | [] => []
  | c :: cs =>
    if isBlank c then argumentsFrom (p.next c) cs
    else match _h : quotedArgument? c cs with
      | some (inner, rest) =>
        .literal (.string inner) :: argumentsFrom (p.after (c :: inner ++ [c])) rest
      | none =>
        let more := (cs.takeWhile (!isBlank ·)).length
        let word := c :: cs.take more
        wordArgument word p :: argumentsFrom (p.after word) (cs.drop more)
termination_by cs => cs.length
decreasing_by
  · simp
  · have := length_lt_of_quotedArgument _h
    simp only [List.length_cons]
    omega
  · simp only [List.length_drop, List.length_cons]
    omega

/-- The sign at the front of a tag's content, white space around it
skipped, and what follows. -/
def takeSigns (content : Text) : Sign × Text :=
  match content.dropWhile isBlank with
  | '#' :: cs => (.opening, cs.dropWhile isBlank)
  | '/' :: cs => (.closing, cs.dropWhile isBlank)
  | cs => (.plain, cs)

/-- The tag whose braces open at `position` around `content`. -/
def WrittenTag.read (position : Position) (content : Text) : Except Error WrittenTag :=
  let (sign, named) := takeSigns content
  if named.head?.any isNameStart then
    let name := named.takeWhile isNamePart
    let rest := named.drop name.length
    let lead := content.take (content.length - rest.length)
    let arguments := argumentsFrom (position.after (openMark ++ lead)) rest
    .ok ⟨sign, name, arguments, position⟩
  else .error (.unknownTag content.trim position)

/-! ## Segments -/

/-- A piece of the source. -/
inductive Segment where
  | text (content : Text)
  | tag (written : WrittenTag)
  deriving Repr

/-- A piece of text, unless it is empty. -/
def Segment.ofText (content : Text) : List Segment :=
  if content = [] then [] else [.text content]

/-- The segments of a source that begins at `p`. Each tag reaches to the
first closing mark behind its opening one. -/
def segmentsFrom (p : Position) (source : Text) : Except Error (List Segment) :=
  match _h₁ : source.cut openMark with
  | none => .ok (Segment.ofText source)
  | some (before, inner) =>
    let opened := p.after before
    match _h₂ : inner.cut closeMark with
    | none => .error (.unterminatedTag opened)
    | some (content, rest) => do
      let written ← WrittenTag.read opened content
      let more ← segmentsFrom (opened.after (openMark ++ content ++ closeMark)) rest
      return Segment.ofText before ++ .tag written :: more
termination_by source.length
decreasing_by
  have := Text.length_lt_of_cut (by decide) _h₁
  have := Text.length_lt_of_cut (by decide) _h₂
  omega

/-! ## Blocks -/

/-- A conditional being read. -/
structure Frame where
  /-- Where it was opened -/
  opened : Position
  /-- The nodes before it, latest first -/
  before : List Node
  /-- The arms read, latest first -/
  arms : List (Argument × List Node)
  /-- The condition of the arm being read; none in the last part -/
  condition : Option Argument

/-- A template being read: the nodes of the innermost block, latest
first, and the conditionals around it, innermost first. -/
structure Builder where
  nodes : List Node
  frames : List Frame

namespace Builder

def start : Builder := ⟨[], []⟩

def push (b : Builder) (node : Node) : Builder := { b with nodes := node :: b.nodes }

def unexpected (w : WrittenTag) : Error := .unexpectedTag w.label w.position

def onlyArgument (w : WrittenTag) : Except Error Argument :=
  match w.arguments with
  | [a] => .ok a
  | arguments => .error (.argumentCount w.name 1 arguments.length)

/-- A placeholder takes no arguments. -/
def placeholder (b : Builder) (w : WrittenTag) : Except Error Builder :=
  match w.arguments with
  | [] => .ok (b.push (.placeholder w.name w.position))
  | arguments => .error (.argumentCount w.name 0 arguments.length)

def openIf (b : Builder) (w : WrittenTag) : Except Error Builder := do
  let condition ← onlyArgument w
  return ⟨[], ⟨w.position, b.nodes, [], some condition⟩ :: b.frames⟩

/-- The next arm of the innermost conditional. -/
def nextArm (b : Builder) (w : WrittenTag) : Except Error Builder :=
  match b.frames with
  | [] => .error (unexpected w)
  | f :: fs =>
    match f.condition with
    | none => .error (unexpected w)
    | some condition => do
      let next ← onlyArgument w
      let arms := (condition, b.nodes.reverse) :: f.arms
      return ⟨[], { f with arms := arms, condition := some next } :: fs⟩

/-- The last part of the innermost conditional. -/
def otherwise (b : Builder) (w : WrittenTag) : Except Error Builder :=
  match b.frames with
  | [] => .error (unexpected w)
  | f :: fs =>
    match f.condition, w.arguments with
    | none, _ => .error (unexpected w)
    | some condition, [] =>
      let arms := (condition, b.nodes.reverse) :: f.arms
      .ok ⟨[], { f with arms := arms, condition := none } :: fs⟩
    | some _, arguments => .error (.argumentCount w.name 0 arguments.length)

/-- The node of a conditional that ends with the given body. -/
def closed (f : Frame) (body : List Node) : Node :=
  match f.condition with
  | some condition => .conditional (f.arms.reverse ++ [(condition, body)]) none
  | none => .conditional f.arms.reverse (some body)

/-- The innermost conditional ends; its closing tag may have arguments,
which mean nothing. -/
def close (b : Builder) (w : WrittenTag) : Except Error Builder :=
  match b.frames with
  | [] => .error (unexpected w)
  | f :: fs =>
    if w.name = "if".toList then .ok ⟨closed f b.nodes.reverse :: f.before, fs⟩
    else .error (unexpected w)

/-- A tag of the registry, with as many arguments as it has parameters. -/
def custom (registry : Registry) (b : Builder) (w : WrittenTag) : Except Error Builder :=
  match registry.find? w.name with
  | none => .error (.unknownTag w.name w.position)
  | some tag =>
    if w.arguments.length = tag.parameters.length then .ok (b.push (.tag w.name w.arguments))
    else .error (.argumentCount w.name tag.parameters.length w.arguments.length)

def step (registry : Registry) (b : Builder) : Segment → Except Error Builder
  | .text content => .ok (b.push (.text content))
  | .tag w =>
    match w.sign with
    | .plain => b.placeholder w
    | .closing => b.close w
    | .opening =>
      if w.name = "if".toList then b.openIf w
      else if w.name = "elif".toList ∨ w.name = "elseif".toList then b.nextArm w
      else if w.name = "else".toList then b.otherwise w
      else b.custom registry w

/-- The nodes, once every conditional is closed. -/
def finish (b : Builder) : Except Error (List Node) :=
  match b.frames with
  | [] => .ok b.nodes.reverse
  | f :: _ => .error (.unclosedBlock "if".toList f.opened)

end Builder

end Template

/-- A template that was read. -/
structure Template where
  nodes : List Template.Node
  deriving Repr

/-- Reads a template that may use the tags of a registry. -/
def Template.compile (registry : Registry) (source : Text) : Except Template.Error Template := do
  let segments ← segmentsFrom .start source
  let final ← segments.foldlM (Builder.step registry) Builder.start
  let nodes ← final.finish
  return ⟨nodes⟩

end Tsql
