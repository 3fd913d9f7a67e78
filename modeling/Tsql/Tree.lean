import Tsql.Path

/-!
# Folders and files

All files as a tree, from the root on: what a path leads to, and what
making a folder or writing a file does. A path is followed from the root
if it begins with a slash, else from the working folder, which is known by
the names that lead to it. Failures are the ones a file system reports.
-/

namespace Tsql

/-- Why a file operation fails. -/
inductive FileError where
  | notFound
  /-- An input that is neither a file nor a folder -/
  | noInput
  | alreadyExists
  | notFolder
  | isFolder
  /-- Text in no known encoding -/
  | unreadableText
  /-- Text that has to be UTF-8 and is not -/
  | notUtf8
  /-- Anything else, in the words of the system -/
  | other (message : String)
  deriving DecidableEq, Repr

def FileError.message : FileError → String
  | notFound => "No such file or directory (os error 2)"
  | noInput => "No such file or directory"
  | alreadyExists => "File exists (os error 17)"
  | notFolder => "Not a directory (os error 20)"
  | isFolder => "Is a directory (os error 21)"
  | unreadableText => "File contains invalid characters"
  | notUtf8 => "stream did not contain valid UTF-8"
  | other message => message

/-- A file with its content, or a folder with its entries by name. -/
inductive Tree (α : Type) where
  | file (content : α)
  | folder (entries : List (Text × Tree α))

namespace Tree

variable {α : Type}

def isFolder : Tree α → Bool
  | folder _ => true
  | file _ => false

def get? (t : Tree α) : List Text → Option (Tree α)
  | [] => some t
  | name :: names =>
    match t with
    | folder entries => (entries.lookup name).bind (get? · names)
    | file _ => none

/-- Puts an entry under names whose folders exist. -/
def put (new : Tree α) : List Text → Tree α → Tree α
  | [], _ => new
  | _ :: _, file content => file content
  | [name], folder entries =>
    if (entries.lookup name).isSome then
      folder (entries.map fun (n, t) => if n = name then (n, new) else (n, t))
    else folder (entries ++ [(name, new)])
  | name :: names, folder entries =>
    folder (entries.map fun (n, t) => if n = name then (n, put new names t) else (n, t))

/-! ## Following a path -/

/-- Where one part of a path leads from the names that were passed, the
last of them first. Above the root is the root. -/
def follow (done : List Text) (part : Text) : List Text :=
  if Path.isDot part then done
  else if Path.isDotDot part then done.tail
  else part :: done

/-- The names that a path leads through, dots followed. Every part before
the last has to be a folder; `done` are the names passed, last first. -/
def locateFrom (t : Tree α) (done : List Text) : List Text → Except FileError (List Text)
  | [] => .ok done.reverse
  | part :: parts =>
    match t.get? done.reverse with
    | none => .error .notFound
    | some (file _) => .error .notFolder
    | some (folder _) => locateFrom t (follow done part) parts

/-- The names that a path starts from, last first: none at the root, else
those of the working folder. -/
def origin (here : List Text) (path : Text) : List Text :=
  if path.head? = some '/' then [] else here.reverse

/-- The names that a path leads to. -/
def locate (t : Tree α) (path : Text) (here : List Text := []) : Except FileError (List Text) :=
  if path = [] then .error .notFound
  else t.locateFrom (origin here path) (Path.parts path)

def find (t : Tree α) (path : Text) (here : List Text := []) : Except FileError (Tree α) := do
  let names ← t.locate path here
  match t.get? names with
  | some entry => return entry
  | none => throw .notFound

def read (t : Tree α) (path : Text) (here : List Text := []) : Except FileError α := do
  match ← t.find path here with
  | file content => return content
  | folder _ => throw .isFolder

/-! ## Changes -/

/-- Makes one folder in an existing one. -/
def makeFolder (t : Tree α) (start parts : List Text) : Except FileError (Tree α) := do
  let names ← t.locateFrom start parts
  match t.get? names with
  | some _ => throw .alreadyExists
  | none => return put (folder []) names t

/-- Whether parts of a path lead to a folder. -/
def hasFolder (t : Tree α) (start parts : List Text) : Bool :=
  match t.locateFrom start parts with
  | .ok names => (t.get? names).any isFolder
  | .error _ => false

/-- Makes a folder and those above it that are missing; `back` is its
path, last part first. -/
def makeFoldersFrom (t : Tree α) (start : List Text) : List Text → Except FileError (Tree α)
  | [] => .ok t
  | part :: above =>
    let parts := (part :: above).reverse
    match t.makeFolder start parts with
    | .ok t => .ok t
    | .error .notFound => do
      let t ← t.makeFoldersFrom start above
      match t.makeFolder start parts with
      | .ok t => .ok t
      | .error error => if t.hasFolder start parts then .ok t else .error error
    | .error error => if t.hasFolder start parts then .ok t else .error error

/-- Makes a folder and those above it that are missing. -/
def makeFolders (t : Tree α) (path : Text) (here : List Text := []) : Except FileError (Tree α) :=
  t.makeFoldersFrom (origin here path) (Path.parts path).reverse

/-- Writes a file into an existing folder. -/
def write (t : Tree α) (path : Text) (content : α) (here : List Text := []) :
    Except FileError (Tree α) := do
  let names ← t.locate path here
  match t.get? names with
  | some (folder _) => throw .isFolder
  | _ => return put (file content) names t

end Tree

end Tsql
