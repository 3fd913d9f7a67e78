/-!
# Text

Scripts, templates, names and paths are all handled as sequences of
characters, so that every statement about them is a statement about
lists. This file holds the operations the rest of the library shares:
cutting at a mark, splitting at a separator, ASCII case folding and the
line/column positions of a text.
-/

namespace Tsql

/-- A piece of script, template or path text. -/
abbrev Text := List Char

namespace Text

/-! ## Comparison -/

/-- ASCII letters in upper case, everything else as it is. -/
def upper (t : Text) : Text := t.map Char.toUpper

/-- Equality up to the case of ASCII letters. -/
def sameFold (a b : Text) : Bool := a.upper == b.upper

/-- Code-point order, the order in which names and keys are listed. -/
def le (a b : Text) : Bool := !decide (b < a)

/-! ## Cutting -/

/-- What stands before the first occurrence of `mark`, and what stands
after it. -/
def cut (t mark : Text) : Option (Text × Text) :=
  match t with
  | [] => none
  | c :: cs =>
    if mark.isPrefixOf (c :: cs) then some ([], (c :: cs).drop mark.length)
    else (cut cs mark).map fun (before, after) => (c :: before, after)

/-- Whether `mark` occurs in the text. -/
def has (t mark : Text) : Bool := (t.cut mark).isSome

/-- The pieces between the occurrences of `sep`; always at least one. -/
def split (sep : Char) : Text → List Text
  | [] => [[]]
  | c :: cs =>
    if c = sep then [] :: split sep cs
    else match split sep cs with
      | [] => [[c]]
      | piece :: more => (c :: piece) :: more

def joinWith (sep : Text) : List Text → Text
  | [] => []
  | [t] => t
  | t :: u :: more => t ++ sep ++ joinWith sep (u :: more)

/-- The text without the characters satisfying `p` at either end. -/
def trimBy (p : Char → Bool) (t : Text) : Text :=
  ((t.dropWhile p).reverse.dropWhile p).reverse

/-- Cutting loses only the mark. -/
theorem cut_eq_some {t mark before after : Text} (h : t.cut mark = some (before, after)) :
    t = before ++ mark ++ after := by
  induction t generalizing before with
  | nil => simp [cut] at h
  | cons c cs ih =>
    rw [cut] at h
    split at h
    · rename_i hp
      obtain ⟨rest, hrest⟩ := List.isPrefixOf_iff_prefix.mp hp
      simp only [Option.some.injEq, Prod.mk.injEq] at h
      obtain ⟨rfl, rfl⟩ := h
      simp [← hrest]
    · cases hc : cut cs mark with
      | none => simp [hc] at h
      | some ba =>
        obtain ⟨b, a⟩ := ba
        simp only [hc, Option.map_some, Option.some.injEq, Prod.mk.injEq] at h
        obtain ⟨rfl, rfl⟩ := h
        simpa using ih hc

/-- What stands after a non-empty mark is shorter than the text. -/
theorem length_lt_of_cut {t mark before after : Text} (hm : mark ≠ [])
    (h : t.cut mark = some (before, after)) : after.length < t.length := by
  have := List.length_pos_iff.mpr hm
  have := congrArg List.length (cut_eq_some h)
  simp only [List.length_append] at this
  omega

end Text

/-! ## Digits -/

/-- The digit a character stands for in a base up to 16. -/
def digit? (base : Nat) (c : Char) : Option Nat :=
  let n :=
    if c.isDigit then c.toNat - '0'.toNat
    else if 'a' ≤ c ∧ c ≤ 'f' then c.toNat - 'a'.toNat + 10
    else if 'A' ≤ c ∧ c ≤ 'F' then c.toNat - 'A'.toNat + 10
    else 16
  if n < base then some n else none

/-- The number written by digits of a base. -/
def numeral? (base : Nat) : Text → Option Nat :=
  List.foldlM (fun n c => (digit? base c).map (base * n + ·)) 0

/-! ## Positions -/

/-- A place in a text: lines end at a line feed, columns count
characters, both from 1. -/
structure Position where
  line : Nat
  column : Nat
  deriving DecidableEq, Repr

namespace Position

def start : Position := ⟨1, 1⟩

def next (p : Position) (c : Char) : Position :=
  if c = '\n' then ⟨p.line + 1, 1⟩ else ⟨p.line, p.column + 1⟩

/-- The place after a piece of text that starts at `p`. -/
def after (p : Position) (t : Text) : Position := t.foldl next p

/-- Reading order. -/
def le (p q : Position) : Bool :=
  p.line < q.line || (p.line == q.line && p.column ≤ q.column)

/-- `line:column` -/
def text (p : Position) : String := toString p.line ++ ":" ++ toString p.column

@[simp] theorem after_nil (p : Position) : p.after [] = p := rfl

@[simp] theorem after_cons (p : Position) (c : Char) (t : Text) :
    p.after (c :: t) = (p.next c).after t := rfl

@[simp] theorem after_append (p : Position) (t u : Text) :
    p.after (t ++ u) = (p.after t).after u := List.foldl_append ..

end Position

end Tsql
