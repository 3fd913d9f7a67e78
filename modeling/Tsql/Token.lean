import Tsql.Text

/-!
# Tokens

A script is read as a sequence of tokens. Each keeps the exact text it
was read from, quotes and comment marks included, so that the texts of a
script's tokens put together again are the script. Tokens made by a pass
carry no position.
-/

namespace Tsql

/-- Lexical class of a token. -/
inductive Kind where
  /-- A reserved word, unquoted -/
  | keyword
  /-- Any other bare word -/
  | identifier
  /-- A name in brackets or double quotes -/
  | quotedIdentifier
  /-- A word that begins with an at sign: a variable -/
  | atName
  | stringLiteral
  | numberLiteral
  | leftParen
  | rightParen
  | dot
  | comma
  | semicolon
  /-- Any other operator or punctuation -/
  | symbol
  /-- The word `GO` where it comes first on its line -/
  | batchSeparator
  /-- A comment to the end of the line, its line feed included -/
  | lineComment
  /-- A comment between marks -/
  | blockComment
  | whitespace
  /-- The empty token that ends a script -/
  | endOfFile
  deriving DecidableEq, Repr

/-- A piece of a script. -/
structure Token where
  kind : Kind
  /-- The exact text, delimiters included -/
  text : Text
  /-- Where the text begins, if the token was read from a script -/
  position : Option Position
  deriving DecidableEq, Repr

namespace Token

/-- A token that was not read from a script. -/
def synthetic (kind : Kind) (text : Text) : Token := ⟨kind, text, none⟩

def isSynthetic (t : Token) : Bool := t.position.isNone

/-- White space in the strict sense: a comment is none. -/
def isWhitespace (t : Token) : Bool := t.kind == .whitespace

def isComment (t : Token) : Bool :=
  t.kind == .lineComment || t.kind == .blockComment

/-- A name, bare or quoted. -/
def isIdentifier (t : Token) : Bool :=
  t.kind == .identifier || t.kind == .quotedIdentifier

/-- The given reserved word, in any case. -/
def isKeyword (t : Token) (word : String) : Bool :=
  t.kind == .keyword && t.text.sameFold word.toList

/-- The given bare word, reserved or not, in any case. -/
def isWord (t : Token) (word : String) : Bool :=
  (t.kind == .keyword || t.kind == .identifier) && t.text.sameFold word.toList

/-- The texts of the tokens, put together. -/
def textOf (tokens : List Token) : Text := tokens.flatMap Token.text

@[simp] theorem textOf_nil : textOf [] = [] := rfl

@[simp] theorem textOf_cons (t : Token) (ts : List Token) :
    textOf (t :: ts) = t.text ++ textOf ts := rfl

@[simp] theorem textOf_append (ts us : List Token) :
    textOf (ts ++ us) = textOf ts ++ textOf us := List.flatMap_append ..

end Token

end Tsql
