import Tsql.Token

/-!
# Quoting names and literals

A name is written bare, in brackets or in double quotes; the closing
delimiter is doubled inside. Passes work on names without their quotes
and put the quotes of the source back.
-/

namespace Tsql

/-- The delimiters around a quoted name. -/
inductive Quote where
  | bracket
  | double
  deriving DecidableEq, Repr

namespace Quote

def opener : Quote → Char
  | bracket => '['
  | double => '"'

/-- The closing delimiter, which is doubled inside the name. -/
def closer : Quote → Char
  | bracket => ']'
  | double => '"'

/-- Whether a text is at least two characters long and stands between the
delimiters. -/
def delimits (q : Quote) (text : Text) : Bool :=
  2 ≤ text.length && text.head? = some q.opener && text.getLast? = some q.closer

/-- The delimiters around a text, if there are any. -/
def of? (text : Text) : Option Quote :=
  if bracket.delimits text then some bracket
  else if double.delimits text then some double
  else none

end Quote

/-! ## Doubling -/

/-- Every `c` written twice. -/
def doubled (c : Char) : Text → Text
  | [] => []
  | d :: ds => if d = c then c :: c :: doubled c ds else d :: doubled c ds

/-- Every pair of `c`, read from the left, written once. -/
def undoubled (c : Char) : Text → Text
  | [] => []
  | [d] => [d]
  | d :: e :: ds =>
    if d = c ∧ e = c then c :: undoubled c ds else d :: undoubled c (e :: ds)

/-! ## Names -/

/-- A name between delimiters, or bare. -/
def quoteName (name : Text) : Option Quote → Text
  | some q => q.opener :: (doubled q.closer name ++ [q.closer])
  | none => name

/-- The name a text stands for: what is between its delimiters, if it has
any. -/
def unquoteName (text : Text) : Text :=
  match Quote.of? text with
  | some q => undoubled q.closer text.tail.dropLast
  | none => text

/-- The quotes of a token: only a quoted identifier has any. -/
def Token.quote? (t : Token) : Option Quote :=
  if t.kind = .quotedIdentifier then Quote.of? t.text else none

/-- A name token that was not read from a script. -/
def Token.ofName (name : Text) (quote : Option Quote) : Token :=
  .synthetic (if quote.isSome then .quotedIdentifier else .identifier) (quoteName name quote)

/-- Another name in the quotes of a token. -/
def Token.renamed (t : Token) (name : Text) : Token := .ofName name t.quote?

/-! ## Literals -/

def stringLiteral (text : Text) : Text := '\'' :: (doubled '\'' text ++ ['\''])

end Tsql
