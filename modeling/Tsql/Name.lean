import Tsql.Cursor
import Tsql.Quote

/-!
# Object names

A name of one to three parts: `name`, `schema.name`, `database..name`
(where the schema is the default one) or `database.schema.name`. White
space may stand around the dots; each part may be quoted.
-/

namespace Tsql

/-- The schema of a name that gives none. -/
def defaultSchema : Text := "dbo".toList

/-- One part of a name, without its quotes but knowing them. -/
structure NamePart where
  value : Text
  quote : Option Quote
  deriving DecidableEq, Repr

namespace NamePart

/-- The part a token stands for. -/
def ofToken (t : Token) : NamePart := ⟨unquoteName t.text, t.quote?⟩

def text (p : NamePart) : Text := quoteName p.value p.quote

/-- Another value in the quotes of this part. -/
def requoted (p : NamePart) (value : Text) : Text := quoteName value p.quote

end NamePart

/-- An object name. -/
structure QualifiedName where
  database : Option NamePart
  schema : Option NamePart
  object : NamePart
  deriving DecidableEq, Repr

namespace QualifiedName

/-! ## Reading -/

/-- The name at the front of a token sequence without white space, and
the number of tokens it takes. A name is read as far as its dots go, up
to three parts; one whose dots lead nowhere is no name. -/
def read : List Token → Option (QualifiedName × Nat)
  | [] => none
  | t₀ :: rest =>
    if !t₀.isIdentifier then none
    else match rest with
      | [] => some (⟨none, none, .ofToken t₀⟩, 1)
      | t₁ :: rest =>
        if t₁.kind ≠ .dot then some (⟨none, none, .ofToken t₀⟩, 1)
        else match rest with
          | [] => none
          | t₂ :: rest =>
            if t₂.kind = .dot then
              match rest with
              | t₃ :: _ =>
                if t₃.isIdentifier then
                  some (⟨some (.ofToken t₀), some ⟨defaultSchema, none⟩, .ofToken t₃⟩, 4)
                else none
              | [] => none
            else if !t₂.isIdentifier then none
            else match rest with
              | [] => some (⟨none, some (.ofToken t₀), .ofToken t₂⟩, 3)
              | t₃ :: rest =>
                if t₃.kind ≠ .dot then
                  some (⟨none, some (.ofToken t₀), .ofToken t₂⟩, 3)
                else match rest with
                  | t₄ :: _ =>
                    if t₄.isIdentifier then
                      some (⟨some (.ofToken t₀), some (.ofToken t₂), .ofToken t₄⟩, 5)
                    else none
                  | [] => none

/-- The name seen from an offset on, and the number of tokens it takes. -/
def peek (c : Cursor) (offset : Nat) : Option (QualifiedName × Nat) :=
  read (c.view offset)

/-- The name after the current token, and the cursor on its last token. -/
def consume (c : Cursor) : Option (QualifiedName × Cursor) :=
  (peek c 1).map fun (name, span) => (name, c.consumeN span)

/-! ## Parts -/

/-- The schema, empty if the name gives none. -/
def schemaName (n : QualifiedName) : Text :=
  match n.schema with
  | some s => s.value
  | none => []

/-- The schema, the default one if the name gives none. -/
def schemaOrDefault (n : QualifiedName) : Text :=
  match n.schema with
  | some s => s.value
  | none => defaultSchema

def isSinglePart (n : QualifiedName) : Bool := n.database.isNone && n.schema.isNone

/-! ## Writing -/

/-- The name as it is written, all parts. -/
def text (n : QualifiedName) : Text :=
  Text.joinWith ['.'] ((n.database.toList ++ n.schema.toList ++ [n.object]).map NamePart.text)

/-- The name as it is written, without its database. -/
def schemaText (n : QualifiedName) : Text :=
  Text.joinWith ['.'] ((n.schema.toList ++ [n.object]).map NamePart.text)

end QualifiedName

end Tsql
