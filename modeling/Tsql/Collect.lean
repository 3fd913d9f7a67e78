import Tsql.Tree

/-!
# Finding scripts

The scripts that inputs stand for: a file stands for itself, a folder for
every script below it that lies in no folder of build output.
-/

namespace Tsql

/-- A script that was found. -/
structure ScriptFile where
  path : Text
  /-- The path below the input, or the name of an input that is a file -/
  relative : Text
  deriving DecidableEq, Repr

/-- An input or script that cannot be read. -/
structure ReadError where
  path : Text
  cause : FileError
  deriving DecidableEq, Repr

/-- The wording of an error, without its cause. -/
def ReadError.message (e : ReadError) : String :=
  "Failed to read SQL file: " ++ String.ofList e.path

namespace Collect

/-- Whether a folder of this name holds build output. -/
def isBuildOutput (name : Text) : Bool := name = "bin".toList || name = "obj".toList

/-- Whether a file of this name is a script. -/
def isScriptName (name : Text) : Bool :=
  (Path.extension? name).any fun ext => ext.sameFold "sql".toList

mutual

/-- The scripts among the entries of a folder, each as the names that
lead to it. -/
def scriptsIn {α : Type} : List (Text × Tree α) → List (List Text)
  | [] => []
  | (name, entry) :: more => scriptsAt name entry ++ scriptsIn more

/-- The scripts at an entry of this name. -/
def scriptsAt {α : Type} (name : Text) : Tree α → List (List Text)
  | .file _ => if isScriptName name then [[name]] else []
  | .folder entries =>
    if isBuildOutput name then [] else (scriptsIn entries).map (name :: ·)

end

/-- Order of paths, name by name. -/
def pathLe (a b : List Text) : Bool := !decide (b < a)

/-- The scripts that one input stands for. -/
def fromInput {α : Type} (input : Text) : Tree α → List ScriptFile
  | .file _ => [⟨input, (Path.fileName? input).getD input⟩]
  | .folder entries =>
    if (Path.fileName? input).any isBuildOutput then []
    else ((scriptsIn entries).mergeSort pathLe).map fun names =>
      let relative := Text.joinWith ['/'] names
      ⟨Path.join input relative, relative⟩

/-- The scripts that inputs stand for, input by input; `look` says what a
path leads to. The first input that leads nowhere is an error. -/
def scripts {α : Type} (look : Text → Option (Tree α)) :
    List Text → Except ReadError (List ScriptFile)
  | [] => .ok []
  | input :: more =>
    match look input with
    | none => .error ⟨input, .noInput⟩
    | some entry => do
      let rest ← scripts look more
      return fromInput input entry ++ rest

end Collect

end Tsql
