import Tsql.Keyword
import Tsql.Token

/-!
# Lexemes

What begins at a given character of a script. Every reader here answers
with a *count* of characters, never with a piece of text: the lexer takes
that many characters and goes on behind them, so nothing of a script can
be lost, doubled or changed by reading it.

`scan` is the whole table, in the order in which the rules apply. A rule
that needs a closing mark fails when the script ends first; the fault
says how far into the lexeme it is reported.
-/

namespace Tsql

namespace Lexeme

/-! ## Faults -/

/-- Why no lexeme could be read. -/
inductive Fault where
  | unclosedString
  | unclosedEncodedString
  | unclosedName (close : Char)
  | unclosedComment
  | unclosedDollar
  | unclosedTaggedDollar
  deriving DecidableEq, Repr

def Fault.message : Fault → String
  | unclosedString => "Unterminated string literal"
  | unclosedEncodedString => "Unterminated encoded string literal"
  | unclosedName close =>
    "Expected close delimiter '" ++ String.ofList [close] ++ "' before EOF."
  | unclosedComment => "Unexpected EOF while in a multi-line comment"
  | unclosedDollar => "Unterminated dollar-quoted string"
  | unclosedTaggedDollar => "Unterminated dollar-quoted, expected $"

/-- What begins at a character: a lexeme reaching `extent` characters
past it, or a fault reported `offset` characters from it. -/
inductive Scan where
  | lexeme (kind : Kind) (extent : Nat)
  | fault (fault : Fault) (offset : Nat)
  deriving DecidableEq, Repr

/-- A lexeme if its closing mark was found, else a fault. -/
def Scan.ofExtent (kind : Kind) (fault : Fault) (offset : Nat) (skipped : Nat) :
    Option Nat → Scan
  | some n => .lexeme kind (skipped + n)
  | none => .fault fault offset

/-! ## Closing marks

Each function counts the characters up to and including the closing
mark, the opening one being read already. -/

/-- A mark of one character, which stands for itself when doubled. -/
def closeExtent (close : Char) : Text → Option Nat
  | [] => none
  | [c] => if c = close then some 1 else none
  | c :: d :: cs =>
    if c = close then
      if d = close then (closeExtent close cs).map (· + 2) else some 1
    else (closeExtent close (d :: cs)).map (· + 1)

/-- A single quote, where a backslash makes the next character plain. -/
def escapedExtent : Text → Option Nat
  | [] => none
  | [c] => if c = '\'' then some 1 else none
  | c :: d :: cs =>
    if c = '\\' then (escapedExtent cs).map (· + 2)
    else if c = '\'' then
      if d = '\'' then (escapedExtent cs).map (· + 2) else some 1
    else (escapedExtent (d :: cs)).map (· + 1)

/-- The mark that closes a block comment. Comments nest; `last` is the
character before, `depth` the number of inner comments still open. One
character can end a mark and begin the next. -/
def commentExtent (last : Char) (depth : Nat) : Text → Option Nat
  | [] => none
  | c :: cs =>
    if last = '/' ∧ c = '*' then (commentExtent c (depth + 1) cs).map (· + 1)
    else if last = '*' ∧ c = '/' then
      match depth with
      | 0 => some 1
      | d + 1 => (commentExtent c d cs).map (· + 1)
    else (commentExtent c depth cs).map (· + 1)

/-- The rest of the line, its line feed included. -/
def lineExtent : Text → Nat
  | [] => 0
  | c :: cs => if c = '\n' then 1 else lineExtent cs + 1

/-- Two dollar signs in a row; `seen` says whether the character before
was one. -/
def dollarExtent (seen : Bool) : Text → Option Nat
  | [] => none
  | c :: cs =>
    if seen && c = '$' then some 1
    else (dollarExtent (c = '$') cs).map (· + 1)

/-- The tag between two dollar signs. `none` looks for the first sign,
`some rest` has `rest` of the tag still to match; a character that
differs from the tag is passed over, whatever it is. -/
def taggedExtent (tag : Text) : Option Text → Text → Option Nat
  | _, [] => none
  | none, c :: cs =>
    (taggedExtent tag (if c = '$' then some tag else none) cs).map (· + 1)
  | some [], c :: cs =>
    if c = '$' then some 1 else (taggedExtent tag none cs).map (· + 1)
  | some (t :: ts), c :: cs =>
    (taggedExtent tag (if c = t then some ts else none) cs).map (· + 1)

/-! ## Encoded strings -/

/-- The scalar value written by hexadecimal digits, a plus sign before
them allowed. U+0000 does not count. -/
def scalarOk (digits : Text) : Bool :=
  let digits := if digits.head? = some '+' then digits.tail else digits
  !digits.isEmpty && match numeral? 16 digits with
    | some n => n != 0 && decide n.isValidChar
    | none => false

/-- The characters an escape takes after its backslash, if it is a valid
one: a scalar value after `u` or `U`, up to two hexadecimal digits after
`x`, up to three octal digits, or any other character. The byte values
must be ASCII and not zero. -/
def escapeExtent : Text → Option Nat
  | [] => none
  | c :: cs =>
    if c = 'u' then
      if 4 ≤ cs.length ∧ scalarOk (cs.take 4) then some 5 else none
    else if c = 'U' then
      if 8 ≤ cs.length ∧ scalarOk (cs.take 8) then some 9 else none
    else if c = 'x' then
      let digits := (cs.take 2).takeWhile fun d => (digit? 16 d).isSome
      if digits = [] then some 1 else byteOk (numeral? 16 digits) (1 + digits.length)
    else if (digit? 8 c).isSome then
      let digits := c :: (cs.take 2).takeWhile fun d => (digit? 8 d).isSome
      byteOk (numeral? 8 digits) digits.length
    else if c = Char.ofNat 0 then none
    else some 1
where
  byteOk (value : Option Nat) (extent : Nat) : Option Nat :=
    match value with
    | some n => if n % 256 ≠ 0 ∧ n % 256 ≤ 127 then some extent else none
    | none => none

/-- The closing quote of an encoded string. `skip` counts characters that
belong to an escape or a doubled quote already seen. -/
def encodedExtent : Nat → Text → Option Nat
  | _, [] => none
  | skip + 1, _ :: cs => (encodedExtent skip cs).map (· + 1)
  | 0, c :: cs =>
    if c = '\'' then
      if cs.head? = some '\'' then (encodedExtent 1 cs).map (· + 1) else some 1
    else if c = '\\' then
      match escapeExtent cs with
      | some n => (encodedExtent n cs).map (· + 1)
      | none => none
    else (encodedExtent 0 cs).map (· + 1)

/-! ## Words, numbers, operators -/

/-- The characters at the front that satisfy `p`. -/
def runExtent (p : Char → Bool) (cs : Text) : Nat := (cs.takeWhile p).length

def wordKind (word : Text) : Kind :=
  if word.head? = some '@' then .atName
  else if isReserved word then .keyword
  else .identifier

/-- A word that begins with `c` and takes `forced` further characters
before its identifier characters. -/
def scanWord (c : Char) (forced : Nat) (cs : Text) : Scan :=
  let extent := forced + runExtent isIdentifierPart (cs.drop forced)
  .lexeme (wordKind (c :: cs.take extent)) extent

/-- An exponent: the letter, a sign if any, and at least one digit. -/
def exponentExtent : Text → Nat
  | e :: cs =>
    if e = 'e' ∨ e = 'E' then
      let signed := cs.head? = some '+' ∨ cs.head? = some '-'
      let lead := if signed then 2 else 1
      match runExtent Char.isDigit (cs.drop (lead - 1)) with
      | 0 => 0
      | n + 1 => lead + (n + 1)
    else 0
  | [] => 0

/-- What may follow the digits of a number: an exponent, then the letter
`L`. -/
def numberTail (cs : Text) : Nat :=
  let e := exponentExtent cs
  e + if (cs.drop e).head? = some 'L' then 1 else 0

/-- A number that begins with the digit `c`, or a binary literal. -/
def scanNumber (c : Char) (cs : Text) : Scan :=
  let whole := runExtent Char.isDigit cs
  let rest := cs.drop whole
  if c = '0' ∧ rest.head? = some 'x' ∧ whole = 0 then
    .lexeme .stringLiteral
      (1 + runExtent (fun d => (digit? 16 d).isSome) rest.tail)
  else
    let part := whole +
      if rest.head? = some '.' then 1 + runExtent Char.isDigit rest.tail else 0
    .lexeme .numberLiteral (part + numberTail (cs.drop part))

/-- A dot, which begins a number if a digit follows. -/
def scanDot (cs : Text) : Scan :=
  match runExtent Char.isDigit cs with
  | 0 => .lexeme .dot 0
  | n + 1 => .lexeme .numberLiteral (n + 1 + numberTail (cs.drop (n + 1)))

/-- The operators of more than one character, and those characters that
are an operator on their own. -/
def operators : List String :=
  ["-", "->", "->>", "/", "+", "*", "%", "|", "|/", "||", "||/", "=", "=>", "==",
   "!", "!=", "!!", "!~", "!~*", "!~~", "!~~*", "<", "<=", "<=>", "<>", "<<", "<@",
   ">", ">=", ">>", ":", "::", ":=", "\\", "]", "&", "&&", "^", "^@", "\x7b", "\x7d",
   "~", "~*", "~~", "~~*"]

/-- The longest operator at the front of a text. -/
def operatorLength (t : Text) : Nat :=
  operators.foldl (fun n o => if o.toList.isPrefixOf t then max n o.length else n) 0

/-- A number sign: an operator, or the first character of a word whose
second one may be anything. -/
def scanHash (cs : Text) : Scan :=
  match cs with
  | [] => .lexeme .symbol 0
  | d :: ds =>
    if d = '-' then .lexeme .symbol 1
    else if d = '>' then .lexeme .symbol (if ds.head? = some '>' then 2 else 1)
    else if d = ' ' then .lexeme .symbol 0
    else scanWord '#' 1 cs

/-- An at sign: an operator, or the beginning of a variable whose next
character may be anything. -/
def scanAt (cs : Text) : Scan :=
  match cs with
  | [] => .lexeme .symbol 0
  | d :: ds =>
    if d = '>' ∨ d = '?' then .lexeme .symbol 1
    else if d = '@' then
      if ds = [] ∨ ds.head? = some ' ' then .lexeme .symbol 1
      else scanWord '@' 2 cs
    else if d = ' ' then .lexeme .symbol 0
    else scanWord '@' 1 cs

/-- A dollar sign: a quoted block between tags, or a placeholder. -/
def scanDollar (cs : Text) : Scan :=
  if cs.head? = some '$' then
    .ofExtent .symbol .unclosedDollar (1 + cs.length) 1 (dollarExtent false cs.tail)
  else
    let tag := cs.takeWhile fun c => isAlphabetic c || isNumeric c || c = '_'
    let rest := cs.drop tag.length
    if rest.head? = some '$' then
      .ofExtent .symbol .unclosedTaggedDollar (1 + cs.length) (tag.length + 1)
        (taggedExtent tag none rest.tail)
    else .lexeme .symbol tag.length

/-! ## The table -/

/-- What begins at the character `c`, before the characters `cs`. -/
def scan (c : Char) (cs : Text) : Scan :=
  if c = ' ' ∨ c = '\t' ∨ c = '\n' then .lexeme .whitespace 0
  else if c = '\r' then
    .lexeme .whitespace (if cs.head? = some '\n' then 1 else 0)
  else if (c = 'N' ∨ c = 'n' ∨ c = 'X' ∨ c = 'x') ∧ cs.head? = some '\'' then
    .ofExtent .stringLiteral .unclosedString 1 1 (escapedExtent cs.tail)
  else if (c = 'E' ∨ c = 'e') ∧ cs.head? = some '\'' then
    .ofExtent .symbol .unclosedEncodedString 0 1 (encodedExtent 0 cs.tail)
  else if c = '\'' then
    .ofExtent .stringLiteral .unclosedString 0 0 (closeExtent '\'' cs)
  else if c = '"' then
    .ofExtent .quotedIdentifier (.unclosedName '"') 0 0 (closeExtent '"' cs)
  else if c = '[' then
    .ofExtent .quotedIdentifier (.unclosedName ']') 0 0 (closeExtent ']' cs)
  else if c.isDigit then scanNumber c cs
  else if c = '.' then scanDot cs
  else if c = '(' then .lexeme .leftParen 0
  else if c = ')' then .lexeme .rightParen 0
  else if c = ',' then .lexeme .comma 0
  else if c = ';' then .lexeme .semicolon 0
  else if c = '-' ∧ cs.head? = some '-' then
    .lexeme .lineComment (1 + lineExtent cs.tail)
  else if c = '/' ∧ cs.head? = some '*' then
    .ofExtent .blockComment .unclosedComment (1 + cs.length) 1
      (commentExtent ' ' 0 cs.tail)
  else if 0 < operatorLength (c :: cs) then
    .lexeme .symbol (operatorLength (c :: cs) - 1)
  else if c = '#' then scanHash cs
  else if c = '@' then scanAt cs
  else if c = '?' then .lexeme .symbol (runExtent isNumeric cs)
  else if isAlphabetic c ∨ c = '_' then scanWord c 0 cs
  else if c = '$' then scanDollar cs
  else if isBlank c then .lexeme .whitespace 0
  else .lexeme .symbol 0

end Lexeme

end Tsql
