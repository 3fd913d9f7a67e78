import Tsql.Run

/-!
# The program

Reads what the command line names from the disk, has everything decided
by the library, and carries out the plan.
-/

namespace Tsql

namespace Disk

/-- A failure of the system in the terms of the library. -/
def fileError : IO.Error → FileError
  | .noFileOrDirectory .. => .notFound
  | .alreadyExists .. => .alreadyExists
  | .inappropriateType _ 20 _ => .notFolder
  | .inappropriateType _ 21 _ => .isFolder
  | error => .other (toString error)

/-- What a path leads to, without the contents of files. -/
partial def look (path : String) : IO (Option (Tree Unit)) := do
  let entry := (← IO.currentDir) / path
  if path.isEmpty then return none
  else if ← entry.isDir then
    let mut entries := #[]
    for child in ← entry.readDir do
      match ← look (String.ofList (Path.join path.toList child.fileName.toList)) with
      | some tree => entries := entries.push (child.fileName.toList, tree)
      | none => pure ()
    return some (.folder entries.toList)
  else if ← entry.pathExists then return some (.file ())
  else return none

def read (path : String) : IO (Except FileError ByteArray) := do
  try
    let bytes ← IO.FS.readBinFile path
    return .ok bytes
  catch error => return .error (fileError error)

/-- Makes one folder, unless it is there. -/
def makeFolder (path : String) : IO (Option FileError) := do
  try
    IO.FS.createDir path
    return none
  catch error =>
    if ← ((← IO.currentDir) / path).isDir then return none
    else return some (fileError error)

/-- Makes a folder and those above it that are missing; `back` is its
path below `root`, last part first. -/
def makeFoldersFrom (root : Text) : (back : List Text) → IO (Option FileError)
  | [] => return none
  | part :: above => do
    let path := String.ofList (root ++ Text.joinWith ['/'] (part :: above).reverse)
    match ← makeFolder path with
    | some .notFound =>
      match ← makeFoldersFrom root above with
      | some error => return some error
      | none => makeFolder path
    | result => return result

/-- Makes a folder and those above it that are missing. -/
def makeFolders (path : Text) : IO (Option FileError) :=
  makeFoldersFrom (path.takeWhile (· = '/')) (Path.parts path).reverse

def apply : Effect → IO (Option Failure)
  | .complain line => do
    IO.eprintln (String.ofList line)
    return none
  | .print text => do
    IO.print (String.ofList text)
    return none
  | .save path text => do
    let folder := Path.parent path
    match ← makeFolders folder with
    | some error =>
      return some ⟨"Failed to create directory: " ++ String.ofList folder, [error.message]⟩
    | none =>
      let target := String.ofList path
      try
        IO.FS.writeBinFile target (Encoding.bytesOf text)
        return none
      catch error =>
        return some ⟨"Failed to write " ++ target, [(fileError error).message]⟩

/-- Carries out effects up to the first that fails. -/
def applyAll : List Effect → IO (Option Failure)
  | [] => return none
  | effect :: more => do
    match ← apply effect with
    | some failure => return some failure
    | none => applyAll more

/-- Runs a command; the failure if there is one. -/
def run (inv : Invocation) : IO (Option Failure) := do
  let envFile ← (inv.value? .env).mapM fun path => read (String.ofList path)
  match inv.pass fun _ => envFile.getD (.error .notFound) with
  | .error failure => return some failure
  | .ok pass =>
    let found ← inv.inputs.mapM fun input => return (input, ← look (String.ofList input))
    match Collect.scripts (fun path => (found.lookup path).join) inv.inputs with
    | .error error => return some error.failure
    | .ok scripts =>
      match inv.checkScripts scripts with
      | .error failure => return some failure
      | .ok () =>
        let contents ← scripts.mapM fun script =>
          return (script, ← read (String.ofList script.path))
        let plan := inv.plan pass contents
        match ← applyAll plan.effects with
        | some failure => return some failure
        | none => return plan.failure

end Disk

end Tsql

open Tsql in
def main (arguments : List String) : IO UInt32 := do
  match Invocation.read (arguments.map String.toList) with
  | .error error =>
    IO.eprintln error.message
    return UInt32.ofNat Exit.usage.code
  | .ok inv =>
    match ← Disk.run inv with
    | none => return UInt32.ofNat Exit.success.code
    | some failure =>
      IO.eprint (String.ofList failure.report)
      return UInt32.ofNat Exit.failure.code
