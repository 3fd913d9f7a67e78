import Tsql.Collect
import Tsql.CommandLine
import Tsql.Encoding
import Tsql.Glob
import Tsql.Pass.Expand
import Tsql.Pass.Guard
import Tsql.Pass.Rename

/-!
# Running a command

What a command does with the scripts it finds. Everything is decided
before anything is written: the pass is prepared, the scripts are found,
read and treated, and the result is a plan, a list of effects followed by
a failure if there is one. Carrying out a plan can only fail where the
file system refuses.

`runIn` carries the plan out on a tree of files; the program itself
carries it out on the disk.
-/

namespace Tsql

/-! ## Failures -/

/-- Why a run fails, and what caused that. -/
structure Failure where
  message : String
  causes : List String := []
  deriving DecidableEq, Repr

/-- The lines of a cause, those after the first indented by `width`. -/
def indentLines (width : Nat) (cause : String) : Text :=
  Text.joinWith ('\n' :: List.replicate width ' ') (Text.split '\n' cause.toList)

def numbered (index : Nat) : List String → Text
  | [] => []
  | cause :: more =>
    let number := toString index
    List.replicate (5 - number.length) ' ' ++ number.toList ++ ": ".toList ++
      indentLines 7 cause ++ '\n' :: numbered (index + 1) more

/-- A failure as it is shown: a single cause by itself, several with
numbers. -/
def Failure.report (f : Failure) : Text :=
  "Error: ".toList ++ f.message.toList ++ ['\n'] ++
    match f.causes with
    | [] => []
    | [cause] => "\nCaused by:\n    ".toList ++ indentLines 4 cause ++ ['\n']
    | causes => "\nCaused by:\n".toList ++ numbered 0 causes

def ReadError.failure (e : ReadError) : Failure := ⟨e.message, [e.cause.message]⟩

/-- The wording of an error and of what caused it. -/
def Pass.Error.chain (e : Pass.Error) : List String :=
  match e with
  | .mismatchedComment _ => [e.message]
  | .badTemplate _ cause => [e.message, cause.message]

/-! ## Preparing the pass -/

/-- The name by which patterns know an object: a name that gives no
schema by itself, a schema by itself, and others with a dot. -/
def patternKey (schema name : Text) : Text :=
  if schema = [] then name
  else if name = [] then schema
  else schema ++ '.' :: name

namespace Invocation

/-- The patterns that name what is to be guarded. -/
def patterns (inv : Invocation) : Except Failure (List Glob) :=
  (inv.values .only).mapM fun pattern =>
    (Glob.read pattern).mapError fun error =>
      ⟨"Invalid --include pattern: " ++ String.ofList pattern, [error.message]⟩

/-- Whether an object is to be guarded: without patterns every one is. -/
def accepts (patterns : List Glob) (schema name : Text) : Bool :=
  patterns.isEmpty || patterns.any (·.isMatch (patternKey schema name))

/-- The environment of a run: a file, and pairs over it. -/
def environment (inv : Invocation) (read : Text → Except FileError ByteArray) :
    Except Failure Environment := do
  let base ←
    match inv.value? .env with
    | none => pure .empty
    | some path =>
      let failed (error : FileError) : Failure :=
        ⟨"Failed to read environment file: " ++ String.ofList path, [error.message]⟩
      let bytes ← (read path).mapError failed
      match Encoding.utf8? bytes with
      | none => throw (failed .notUtf8)
      | some text => (Environment.ofJson text).mapError fun error => ⟨error.message, []⟩
  let top ← (Environment.ofPairs (inv.values .assign)).mapError fun error => ⟨error.message, []⟩
  return base.merge top

def pass (inv : Invocation) (read : Text → Except FileError ByteArray) : Except Failure Pass :=
  match inv.command with
  | .idempotent => do
    let patterns ← inv.patterns
    return .guardCreates (accepts patterns) inv.ending
  | .renameIdentifiers =>
    let before := (inv.value? .before).getD []
    let behind := (inv.value? .behind).getD []
    .ok (.renameIdentifiers fun name =>
      (inv.mapping .map name).getD (before ++ name ++ behind))
  | .renameProcedures =>
    let before := (inv.value? .before).getD []
    .ok (.renameProcedures fun schema name =>
      ((inv.mapping .schemaMap schema).getD schema, before ++ name))
  | .expand => do
    let env ← inv.environment read
    return .expandComments .standard env inv.level
  | .check => .ok .identity

/-- Whether the command puts out the texts it makes. -/
def emits (inv : Invocation) : Bool := inv.command ≠ .check

/-- Whether there are scripts, and not too many to print. -/
def checkScripts (inv : Invocation) (scripts : List ScriptFile) : Except Failure Unit :=
  if scripts = [] then .error { message := "No .sql files found" }
  else if inv.emits ∧ inv.value? .outDir = none ∧ 1 < scripts.length then
    .error {
      message := toString scripts.length ++
        " scripts found; use --out-dir to rewrite more than one" }
  else .ok ()

end Invocation

/-! ## Plans -/

/-- One thing a run does. -/
inductive Effect where
  /-- A line about a problem -/
  | complain (line : Text)
  | print (text : Text)
  /-- Writes a file, making the folders above it -/
  | save (path : Text) (text : Text)
  deriving DecidableEq, Repr

/-- What a run does, and how it fails. -/
structure Plan where
  effects : List Effect
  failure : Option Failure
  deriving DecidableEq, Repr

def Plan.after (p : Plan) (effects : List Effect) : Plan :=
  { p with effects := effects ++ p.effects }

/-- Treats a script whose bytes were read. -/
def treat (pass : Pass) (level : Level) (script : ScriptFile)
    (bytes : Except FileError ByteArray) : Except Failure Pass.Outcome := do
  let bytes ← bytes.mapError fun error => ReadError.failure ⟨script.path, error⟩
  match Encoding.script? bytes with
  | none => throw (ReadError.failure ⟨script.path, .unreadableText⟩)
  | some text =>
    (pass.run level text).mapError fun error =>
      ⟨"Failed to rewrite " ++ String.ofList script.path, error.chain⟩

/-- The line about a problem of a script. -/
def complaint (script : ScriptFile) (problem : Problem) : Effect :=
  .complain (script.path ++ ':' :: problem.text.toList)

/-- What is done with the text made of a script. -/
def Invocation.emission (inv : Invocation) (script : ScriptFile) (text : Text) : List Effect :=
  if inv.emits then
    match inv.value? .outDir with
    | some folder => [.save (Path.join folder script.relative) text]
    | none => [.print text]
  else []

/-- The plan for the scripts in order; `failed` of those before had
problems. A script that cannot be treated ends it. -/
def Invocation.planFrom (inv : Invocation) (failed : Nat) :
    List (ScriptFile × Except Failure Pass.Outcome) → Plan
  | [] =>
    if failed = 0 then ⟨[], none⟩
    else ⟨[], some { message := toString failed ++ " script(s) have parse errors" }⟩
  | (_, .error failure) :: _ => ⟨[], some failure⟩
  | (script, .ok outcome) :: more =>
    if outcome.isOk then
      (inv.planFrom failed more).after (inv.emission script outcome.output)
    else (inv.planFrom (failed + 1) more).after (outcome.problems.map (complaint script))

/-- The plan for scripts whose bytes were read. -/
def Invocation.plan (inv : Invocation) (pass : Pass)
    (scripts : List (ScriptFile × Except FileError ByteArray)) : Plan :=
  inv.planFrom 0 <| scripts.map fun (script, bytes) =>
    (script, treat pass inv.level script bytes)

/-! ## Running in a tree of files -/

/-- The state of the surroundings of a run. -/
structure World where
  files : Tree ByteArray
  /-- The names that lead to the working folder -/
  here : List Text
  stdout : Text
  stderr : Text

namespace World

def apply (w : World) : Effect → Except Failure World
  | .complain line => .ok { w with stderr := w.stderr ++ line ++ ['\n'] }
  | .print text => .ok { w with stdout := w.stdout ++ text }
  | .save path text => do
    let folder := Path.parent path
    let files ← (w.files.makeFolders folder w.here).mapError fun error =>
      ⟨"Failed to create directory: " ++ String.ofList folder, [error.message]⟩
    let files ← (files.write path (Encoding.bytesOf text) w.here).mapError fun error =>
      ⟨"Failed to write " ++ String.ofList path, [error.message]⟩
    return { w with files }

/-- Carries out effects up to the first that fails. -/
def applyAll (w : World) : List Effect → World × Option Failure
  | [] => (w, none)
  | effect :: more =>
    match w.apply effect with
    | .ok w => w.applyAll more
    | .error failure => (w, some failure)

/-- The plan of a command, as the files stand. -/
def planOf (files : Tree ByteArray) (here : List Text) (inv : Invocation) :
    Except Failure Plan := do
  let pass ← inv.pass fun path => files.read path here
  let look (path : Text) : Option (Tree ByteArray) := (files.find path here).toOption
  let scripts ← (Collect.scripts look inv.inputs).mapError ReadError.failure
  inv.checkScripts scripts
  return inv.plan pass (scripts.map fun script => (script, files.read script.path here))

end World

/-- The exit codes of a run. -/
inductive Exit where
  | success
  | failure
  | usage
  deriving DecidableEq, Repr

def Exit.code : Exit → Nat
  | success => 0
  | failure => 1
  | usage => 2

/-- Runs a command line in a folder. -/
def runIn (files : Tree ByteArray) (arguments : List Text) (here : List Text := []) :
    Exit × World :=
  match Invocation.read arguments with
  | .error error => (.usage, ⟨files, here, [], error.message.toList ++ ['\n']⟩)
  | .ok inv =>
    let (world, failure) :=
      match World.planOf files here inv with
      | .error failure => (World.mk files here [] [], some failure)
      | .ok plan =>
        match World.applyAll ⟨files, here, [], []⟩ plan.effects with
        | (world, some failure) => (world, some failure)
        | (world, none) => (world, plan.failure)
    match failure with
    | none => (.success, world)
    | some failure => (.failure, { world with stderr := world.stderr ++ failure.report })

end Tsql
