import Tsql.Json
import Tsql.Listing

/-!
# Template tags

A tag is written into a template by name, with arguments and without a
body, and puts a text in its place. A registry holds the tags a template
may use. The four comment tags open or close a comment of the script
depending on a condition, which is how a template comments a region out
or in.
-/

namespace Tsql

/-- A tag by name, with the names of its arguments and the text it
gives for their values. -/
structure Tag where
  name : Text
  parameters : List Text
  render : List Json → Text

/-! ## Comment tags -/

/-- A comment mark of the script. -/
inductive CommentMark where
  | opening
  | closing
  deriving DecidableEq, Repr

def CommentMark.text : CommentMark → Text
  | opening => ['/', '*']
  | closing => ['*', '/']

namespace Tag

/-- A tag that gives a comment mark when the truth of its condition is
`emitWhen`. A missing condition is false. -/
def comment (name : Text) (mark : CommentMark) (emitWhen : Bool) : Tag where
  name := name
  parameters := ["condition".toList]
  render arguments :=
    if arguments.head?.any Json.isTruthy == emitWhen then mark.text else []

/-- Opens and closes a comment under a condition, and likewise under its
opposite. -/
def commentTags : List Tag :=
  [comment "comment_if".toList .opening true,
   comment "end_comment_if".toList .closing true,
   comment "uncomment_if".toList .opening false,
   comment "end_uncomment_if".toList .closing false]

end Tag

/-! ## Registries -/

/-- The tags a template may use, each name once. -/
structure Registry where
  tags : List Tag

namespace Registry

def empty : Registry := ⟨[]⟩

def find? (r : Registry) (name : Text) : Option Tag := r.tags.find? (·.name = name)

/-- Adds a tag in place of any other of its name. -/
def register (r : Registry) (tag : Tag) : Registry :=
  ⟨tag :: r.tags.filter (·.name ≠ tag.name)⟩

def registerAll (r : Registry) (tags : List Tag) : Registry := tags.foldl register r

/-- The registry of the four comment tags. -/
def standard : Registry := empty.registerAll Tag.commentTags

def names (r : Registry) : List Text := (r.tags.map Tag.name).mergeSort Text.le

/-- The registry as it is shown to people. -/
def listing (r : Registry) : Text :=
  "TagRegistry \x7b tags: ".toList ++ Listing.text r.names ++ " \x7d".toList

end Registry

end Tsql
