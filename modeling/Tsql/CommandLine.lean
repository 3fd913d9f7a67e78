import Tsql.CharClass
import Tsql.Level

/-!
# The command line

A command, its flags and its inputs, in any order after the command. A
flag's value stands behind it or is attached with an equals sign; letters
of one-letter flags may be run together. Arguments are taken from left to
right. A value that stands apart is checked only when the next argument
comes, so an unknown flag right behind it is reported first.
-/

namespace Tsql

/-! ## Commands and flags -/

/-- What the program is asked to do. -/
inductive Command where
  | idempotent
  | renameIdentifiers
  | renameProcedures
  | expand
  | check
  deriving DecidableEq, Repr

/-- What a command can be told. -/
inductive Flag where
  | outDir
  | compat
  | lineEnding
  | verbose
  | only
  | before
  | behind
  | map
  | schemaMap
  | env
  | assign
  deriving DecidableEq, Repr

namespace Command

/-- The name by which a command is given. -/
def name : Command → String
  | idempotent => "idempotent"
  | renameIdentifiers => "rename-identifiers"
  | renameProcedures => "rename-procedures"
  | expand => "expand"
  | check => "check"

def all : List Command := [idempotent, renameIdentifiers, renameProcedures, expand, check]

/-- The command of that exact name. -/
def ofName? (name : Text) : Option Command := all.find? (·.name.toList = name)

def flags (c : Command) : List Flag :=
  [.outDir, .compat, .lineEnding, .verbose] ++
    match c with
    | idempotent => [.only]
    | renameIdentifiers => [.before, .behind, .map]
    | renameProcedures => [.before, .schemaMap]
    | expand => [.env, .assign]
    | check => []

end Command

namespace Flag

def name : Flag → String
  | outDir => "out-dir"
  | compat => "compat"
  | lineEnding => "line-ending"
  | verbose => "verbose"
  | only => "include"
  | before => "prefix"
  | behind => "suffix"
  | map => "map"
  | schemaMap => "schema-map"
  | env => "env"
  | assign => "set"

def letter? : Flag → Option Char
  | outDir => some 'o'
  | verbose => some 'v'
  | _ => none

def takesValue (f : Flag) : Bool := f ≠ .verbose

/-- Whether a flag may be given more than once. -/
def isRepeatable : Flag → Bool
  | only => true
  | map => true
  | schemaMap => true
  | assign => true
  | _ => false

/-- A flag as it is named in a message. -/
def label (f : Flag) : String :=
  let value := f.name.toList.map fun c => if c = '-' then '_' else c.toUpper
  "--" ++ f.name ++ if f.takesValue then " <" ++ String.ofList value ++ ">" else ""

end Flag

/-! ## Errors -/

/-- Why a command line is refused. -/
inductive UsageError where
  | noCommand
  | unknownCommand (name : Text)
  | unexpected (argument : Text)
  | missingInputs
  | missingValue (label : String)
  | repeated (label : String)
  | invalidValue (value : Text) (label : String) (reason : Option String)
  | unexpectedValue (value : Text) (label : String)
  deriving DecidableEq, Repr

def UsageError.message : UsageError → String
  | noCommand => "Token-level T-SQL script rewriter"
  | unknownCommand name => "error: unrecognized subcommand '" ++ String.ofList name ++ "'"
  | unexpected argument =>
    "error: unexpected argument '" ++ String.ofList argument ++ "' found"
  | missingInputs => "error: the following required arguments were not provided:"
  | missingValue label =>
    "error: a value is required for '" ++ label ++ "' but none was supplied"
  | repeated label => "error: the argument '" ++ label ++ "' cannot be used multiple times"
  | invalidValue value label reason =>
    "error: invalid value '" ++ String.ofList value ++ "' for '" ++ label ++ "'" ++
      match reason with
      | some reason => ": " ++ reason
      | none => ""
  | unexpectedValue value label =>
    "error: unexpected value '" ++ String.ofList value ++ "' for '" ++ label ++
      "' found; no more were expected"

/-! ## Values -/

/-- The two sides of a pair, white space around them left out; the key
may not be empty. -/
def readMapping? (pair : Text) : Option (Text × Text) :=
  match pair.cut ['='] with
  | some (key, value) => if key.trim = [] then none else some (key.trim, value.trim)
  | none => none

/-- Why a flag does not take a value, if it does not. -/
def Flag.refuses? (f : Flag) (value : Text) : Option UsageError :=
  match f with
  | .outDir | .env => if value = [] then some (.missingValue f.label) else none
  | .compat =>
    match Level.ofName? value with
    | some _ => none
    | none => some (.invalidValue value f.label (some (Level.unknownMessage value)))
  | .lineEnding =>
    match LineEnding.ofName? value with
    | some _ => none
    | none =>
      if value = [] then some (.missingValue f.label)
      else some (.invalidValue value f.label none)
  | .map | .schemaMap =>
    match readMapping? value with
    | some _ => none
    | none =>
      let reason := "expected KEY=VALUE, found '" ++ String.ofList value ++ "'"
      some (.invalidValue value f.label (some reason))
  | _ => none

/-! ## Reading -/

/-- A command line taken apart. -/
structure Invocation where
  command : Command
  inputs : List Text
  /-- The flags with their values, in order -/
  given : List (Flag × Text)
  deriving DecidableEq, Repr

namespace Invocation

/-- What was read and is not checked yet. -/
inductive Pending where
  | nothing
  /-- A flag, and its value if that has come -/
  | flag (f : Flag) (value : Option Text)
  | inputs (paths : List Text)
  deriving DecidableEq, Repr

/-- A command line being read. -/
structure Draft where
  inputs : List Text := []
  given : List (Flag × Text) := []
  pending : Pending := .nothing
  /-- Whether only inputs may follow -/
  inputsOnly : Bool := false
  deriving DecidableEq, Repr

/-- The inputs as they are named in a message. -/
def inputsLabel : String := "<INPUTS>..."

namespace Draft

def record (d : Draft) (f : Flag) (value : Text) : Except UsageError Draft :=
  if !f.isRepeatable && d.given.any (·.1 = f) then .error (.repeated f.label)
  else match f.refuses? value with
    | some error => .error error
    | none => .ok { d with given := d.given ++ [(f, value)] }

def settle (d : Draft) : Except UsageError Draft :=
  let settled := { d with pending := .nothing }
  match d.pending with
  | .nothing => .ok d
  | .flag f none => .error (.missingValue f.label)
  | .flag f (some value) => settled.record f value
  | .inputs paths =>
    if paths.any (·.isEmpty) then .error (.missingValue inputsLabel)
    else .ok { settled with inputs := d.inputs ++ paths }

/-- A flag, with the value attached to it if there is one. -/
def takeFlag (d : Draft) (f : Flag) (attached : Option Text) : Except UsageError Draft := do
  if f.takesValue then
    let d ← d.settle
    match attached with
    | some value => d.record f value
    | none => return { d with pending := .flag f none }
  else
    match attached with
    | some value => throw (.unexpectedValue value f.label)
    | none =>
      let d ← d.settle
      d.record f []

/-- An argument of one-letter flags, its dash read. The first flag that
takes a value takes the rest of the argument. -/
def takeLetters (flags : List Flag) (d : Draft) : Text → Except UsageError Draft
  | [] => .ok d
  | c :: cs =>
    match flags.find? (·.letter? = some c) with
    | none => .error (.unexpected ['-', c])
    | some f =>
      if f.takesValue then
        let attached := if cs.head? = some '=' then cs.tail else cs
        d.takeFlag f (if cs = [] then none else some attached)
      else
        match d.takeFlag f none with
        | .ok d => takeLetters flags d cs
        | .error error => .error error

/-- An argument of a long flag, its dashes read. -/
def takeLong (flags : List Flag) (d : Draft) (body : Text) : Except UsageError Draft :=
  let (name, attached) :=
    match body.cut ['='] with
    | some (name, value) => (name, some value)
    | none => (body, none)
  match flags.find? (·.name.toList = name) with
  | some f => d.takeFlag f attached
  | none => .error (.unexpected ('-' :: '-' :: name))

def takeInput (d : Draft) (path : Text) : Except UsageError Draft :=
  match d.pending with
  | .inputs paths => .ok { d with pending := .inputs (paths ++ [path]) }
  | _ =>
    match d.settle with
    | .ok d => .ok { d with pending := .inputs [path] }
    | .error error => .error error

/-- An argument that is no flag: the value a flag waits for, or an
input. -/
def takePlain (d : Draft) (argument : Text) : Except UsageError Draft :=
  match d.pending with
  | .flag f none => .ok { d with pending := .flag f (some argument) }
  | _ => d.takeInput argument

def take (flags : List Flag) (d : Draft) (argument : Text) : Except UsageError Draft :=
  if d.inputsOnly then d.takeInput argument
  else match argument with
    | '-' :: '-' :: [] => .ok { d with inputsOnly := true }
    | '-' :: '-' :: body => d.takeLong flags body
    | '-' :: c :: cs => d.takeLetters flags (c :: cs)
    | _ => d.takePlain argument

end Draft

def read : List Text → Except UsageError Invocation
  | [] => .error .noCommand
  | name :: arguments =>
    match Command.ofName? name with
    | none =>
      match name with
      | '-' :: _ :: _ => .error (.unexpected name)
      | _ => .error (.unknownCommand name)
    | some command => do
      let draft ← arguments.foldlM (Draft.take command.flags) {}
      let draft ← draft.settle
      if draft.inputs = [] then throw .missingInputs
      return ⟨command, draft.inputs, draft.given⟩

/-! ## What was said -/

/-- All values of a flag, in order. -/
def values (inv : Invocation) (f : Flag) : List Text :=
  (inv.given.filter (·.1 = f)).map (·.2)

def value? (inv : Invocation) (f : Flag) : Option Text := (inv.values f).getLast?

def level (inv : Invocation) : Level := ((inv.value? .compat).bind Level.ofName?).getD .default

def ending (inv : Invocation) : LineEnding :=
  ((inv.value? .lineEnding).bind LineEnding.ofName?).getD .crlf

/-- The mapping that the pairs of a flag write, the last of a key
counting. -/
def mapping (inv : Invocation) (f : Flag) (key : Text) : Option Text :=
  ((inv.values f).filterMap readMapping?).reverse.lookup key

end Invocation

end Tsql
