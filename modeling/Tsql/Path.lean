import Tsql.Text

/-!
# Paths

Paths are written with slashes. Repeated slashes and single dots inside a
path mean nothing; two dots lead to the folder above.
-/

namespace Tsql

namespace Path

def isDot (part : Text) : Bool := part == ['.']

def isDotDot (part : Text) : Bool := part == ['.', '.']

/-- What stands between the slashes, empty parts left out. A slash at the
end asks for a folder, as a dot would. -/
def parts (path : Text) : List Text :=
  (path.split '/').filter (· ≠ []) ++ if path.getLast? = some '/' then [['.']] else []

/-- The name a path ends in; dots are none, though dots after it do not
hide it. -/
def fileName? (path : Text) : Option Text :=
  match ((path.split '/').filter fun part => part ≠ [] ∧ !isDot part).getLast? with
  | some name => if isDotDot name then none else some name
  | none => none

/-- What follows the last dot of a name, unless that dot is its first
character. -/
def extension? (name : Text) : Option Text :=
  match (name.split '.').reverse with
  | last :: before :: more =>
    if before = [] ∧ more = [] then none else some last
  | _ => none

def join (folder path : Text) : Text :=
  if folder = [] ∨ folder.getLast? = some '/' then folder ++ path
  else folder ++ '/' :: path

/-- A path, read from its end, without slashes and dots at that end. -/
def dropEnd : Text → Text
  | '/' :: cs => if cs = [] then ['/'] else dropEnd cs
  | '.' :: '/' :: cs => dropEnd ('/' :: cs)
  | cs => cs

/-- The path of the folder that holds the last part of a path. -/
def parent (path : Text) : Text :=
  let back := dropEnd path.reverse
  (dropEnd (back.dropWhile (· ≠ '/'))).reverse

end Path

end Tsql
