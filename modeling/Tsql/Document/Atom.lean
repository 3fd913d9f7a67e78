import Tsql.Document.Fault
import Tsql.Number

/-!
# Names, numerals and strings of a JSON text

The parts of a JSON text that hold no others. Each reader takes its part
from the front of a text and gives what follows, which is never longer
than the text it was given; the loop over a whole text ends by that.
-/

namespace Tsql

namespace Document

/-- What a text is read for: its form alone, or the value it writes. A
value has its numbers in range and its surrogates in pairs. -/
inductive Purpose where
  | form
  | value
  deriving DecidableEq, Repr

/-! ## Names -/

def takeName : Text → Text → Except Stop Text
  | [], cs => .ok cs
  | _ :: _, [] => .error (.atEnd .endInValue)
  | w :: ws, c :: cs => if c = w then takeName ws cs else .error (.within .noName (c :: cs))

theorem length_takeName {name cs rest : Text} (h : takeName name cs = .ok rest) :
    rest.length ≤ cs.length := by
  induction name generalizing cs with
  | nil => simp_all [takeName]
  | cons w ws ih =>
    cases cs with
    | nil => simp [takeName] at h
    | cons c cs =>
      by_cases hc : c = w
      · have := ih (by simpa [takeName, hc] using h)
        simp only [List.length_cons]
        omega
      · simp [takeName, hc] at h

/-! ## Numerals -/

/-- Takes digits, at least one. -/
def takeDigits : Text → Except Stop (Text × Text)
  | [] => .error (.atEnd .endInValue)
  | c :: cs =>
    if c.isDigit then .ok ((c :: cs).takeWhile Char.isDigit, (c :: cs).dropWhile Char.isDigit)
    else .error (.within .badNumber (c :: cs))

/-- Takes the digits before the point: a zero, or digits that do not
begin with one. -/
def takeWhole : Text → Except Stop (Text × Text)
  | '0' :: cs =>
    if cs.head?.any Char.isDigit then .error (.within .badNumber cs) else .ok (['0'], cs)
  | cs => takeDigits cs

/-- Takes a point and the digits after it, if there is a point. -/
def takeFraction : Text → Except Stop (Option Text × Text)
  | '.' :: cs =>
    match takeDigits cs with
    | .error stop => .error stop
    | .ok (digits, rest) => .ok (some digits, rest)
  | cs => .ok (none, cs)

/-- Takes an exponent, if there is one: whether it is negative, and its
digits. -/
def takeExponent : Text → Except Stop (Option (Bool × Text) × Text)
  | [] => .ok (none, [])
  | e :: cs =>
    if e = 'e' ∨ e = 'E' then
      match takeDigits (takeSign cs).2 with
      | .error stop => .error stop
      | .ok (digits, rest) => .ok (some ((takeSign cs).1, digits), rest)
    else .ok (none, e :: cs)

def takeUnsigned (negative : Bool) (cs : Text) : Except Stop (Numeral × Text) := do
  let (whole, cs) ← takeWhole cs
  let (fraction, cs) ← takeFraction cs
  let (exponent, cs) ← takeExponent cs
  return (⟨negative, whole, fraction, exponent⟩, cs)

def takeNumeral : Text → Except Stop (Numeral × Text)
  | '-' :: cs => takeUnsigned true cs
  | cs => takeUnsigned false cs

/-- The digits of an exponent behind the one that makes it too large. -/
def excessDigits (exponent : Nat) : Text → Text
  | [] => []
  | c :: cs =>
    let next := 10 * exponent + (c.toNat - '0'.toNat)
    if Numeral.maxPower < next then cs else excessDigits next cs

/-- Where the reading of a numeral that is out of range stops: behind it,
or behind the digit that makes its exponent too large. -/
def rangeStop (n : Numeral) (rest : Text) : Stop :=
  match n.exponent with
  | none => .before .outOfRange rest
  | some (_, digits) => .before .outOfRange (excessDigits 0 digits ++ rest)

/-- Takes a number. It is `none` if it is read for its form and is out of
range. -/
def takeNumber (p : Purpose) (cs : Text) : Except Stop (Option Number × Text) :=
  match takeNumeral cs with
  | .error stop => .error stop
  | .ok (n, rest) =>
    if p = .value ∧ n.number? = none then .error (rangeStop n rest) else .ok (n.number?, rest)

theorem length_takeDigits {cs digits rest : Text} (h : takeDigits cs = .ok (digits, rest)) :
    rest.length < cs.length := by
  unfold takeDigits at h
  split at h
  · simp at h
  · rename_i c cs
    split at h
    · rename_i hc
      have := (List.dropWhile_suffix Char.isDigit (l := cs)).length_le
      simp only [Except.ok.injEq, Prod.mk.injEq, List.dropWhile_cons_of_pos hc] at h
      simp only [← h.2, List.length_cons]
      omega
    · simp at h

theorem length_takeWhole {cs whole rest : Text} (h : takeWhole cs = .ok (whole, rest)) :
    rest.length < cs.length := by
  unfold takeWhole at h
  split at h <;> grind [→ length_takeDigits]

theorem length_takeFraction {cs rest : Text} {fraction : Option Text}
    (h : takeFraction cs = .ok (fraction, rest)) : rest.length ≤ cs.length := by
  unfold takeFraction at h
  split at h <;> grind [→ length_takeDigits]

theorem length_takeSign (cs : Text) : (takeSign cs).2.length ≤ cs.length := by
  unfold takeSign
  split <;> simp

theorem length_takeExponent {cs rest : Text} {exponent : Option (Bool × Text)}
    (h : takeExponent cs = .ok (exponent, rest)) : rest.length ≤ cs.length := by
  unfold takeExponent at h
  split at h <;> grind [→ length_takeDigits, length_takeSign]

theorem length_takeUnsigned {negative : Bool} {cs rest : Text} {n : Numeral}
    (h : takeUnsigned negative cs = .ok (n, rest)) : rest.length < cs.length := by
  simp only [takeUnsigned, bind, Except.bind, pure, Except.pure] at h
  grind [→ length_takeWhole, → length_takeFraction, → length_takeExponent]

theorem length_takeNumeral {cs rest : Text} {n : Numeral}
    (h : takeNumeral cs = .ok (n, rest)) : rest.length < cs.length := by
  unfold takeNumeral at h
  split at h <;> grind [→ length_takeUnsigned]

theorem length_takeNumber {p : Purpose} {cs rest : Text} {n : Option Number}
    (h : takeNumber p cs = .ok (n, rest)) : rest.length < cs.length := by
  unfold takeNumber at h
  grind [→ length_takeNumeral]

/-! ## Strings -/

/-- What a short escape stands for. -/
def escaped? (c : Char) : Option Nat :=
  if c = '"' ∨ c = '\\' ∨ c = '/' then some c.toNat
  else if c = 'b' then some 8
  else if c = 'f' then some 12
  else if c = 'n' then some 10
  else if c = 'r' then some 13
  else if c = 't' then some 9
  else none

/-- Takes four hexadecimal digits. Where they are not, four bytes were
looked at. -/
def takeHex (cs : Text) : Except Stop (Nat × Text) :=
  match cs with
  | a :: b :: c :: d :: rest =>
    match numeral? 16 [a, b, c, d] with
    | some n => .ok (n, rest)
    | none => .error ⟨.badEscape, cs, 4⟩
  | short =>
    if (Encoding.bytesOf short).size < 4 then .error (.atEnd .endInString)
    else .error ⟨.badEscape, cs, 4⟩

/-- Takes the low surrogate that must follow a high one. -/
def takeLow : Text → Except Stop (Nat × Text)
  | [] => .error (.atEnd .endInString)
  | '\\' :: [] => .error (.atEnd .endInString)
  | '\\' :: c :: cs =>
    if c = 'u' then
      match takeHex cs with
      | .error stop => .error stop
      | .ok (n, rest) =>
        if Utf16.isLowSurrogate n then .ok (n, rest) else .error (.before .loneSurrogate rest)
    else .error (.within .brokenPair (c :: cs))
  | cs => .error (.within .brokenPair cs)

/-- Takes what follows the backslash of an escape, as UTF-16 units. -/
def takeEscape (p : Purpose) : Text → Except Stop (List Nat × Text)
  | [] => .error (.atEnd .endInString)
  | e :: cs =>
    if e = 'u' then
      match takeHex cs with
      | .error stop => .error stop
      | .ok (n, rest) =>
        if p = .form then .ok ([n], rest)
        else if Utf16.isLowSurrogate n then .error (.before .loneSurrogate rest)
        else if Utf16.isHighSurrogate n then
          match takeLow rest with
          | .error stop => .error stop
          | .ok (m, rest) => .ok ([n, m], rest)
        else .ok ([n], rest)
    else
      match escaped? e with
      | some n => .ok ([n], cs)
      | none => .error (.within .badEscape (e :: cs))

theorem length_takeHex {cs rest : Text} {n : Nat} (h : takeHex cs = .ok (n, rest)) :
    rest.length ≤ cs.length := by
  unfold takeHex at h
  split at h <;> grind

theorem length_takeLow {cs rest : Text} {n : Nat} (h : takeLow cs = .ok (n, rest)) :
    rest.length ≤ cs.length := by
  unfold takeLow at h
  split at h <;> grind [→ length_takeHex]

theorem length_takeEscape {p : Purpose} {cs rest : Text} {units : List Nat}
    (h : takeEscape p cs = .ok (units, rest)) : rest.length ≤ cs.length := by
  unfold takeEscape at h
  split at h <;> grind [→ length_takeHex, → length_takeLow]

/-- Takes the rest of a string and the quote that ends it, as units;
`units` are those before, the latest first. Characters beyond U+FFFF
stand as one number, and control characters must be escaped. -/
def takeUnits (p : Purpose) (units : List Nat) (cs : Text) : Except Stop (List Nat × Text) :=
  match cs with
  | [] => .error (.atEnd .endInString)
  | c :: cs =>
    if c = '"' then .ok (units.reverse, cs)
    else if c = '\\' then
      match _h : takeEscape p cs with
      | .error stop => .error stop
      | .ok (more, rest) => takeUnits p (more.reverse ++ units) rest
    else if c.toNat < 32 then .error (.within .controlCharacter (c :: cs))
    else takeUnits p (c.toNat :: units) cs
termination_by cs.length
decreasing_by
  · have := length_takeEscape _h
    simp only [List.length_cons]
    omega
  · simp

theorem length_takeUnits {p : Purpose} {before units : List Nat} {cs rest : Text}
    (h : takeUnits p before cs = .ok (units, rest)) : rest.length ≤ cs.length := by
  fun_induction takeUnits p before cs <;> grind [→ length_takeEscape]

/-- Takes what follows the opening quote of a string. It is `none` if it
is read for its form and a surrogate lacks its partner. -/
def takeString (p : Purpose) (cs : Text) : Except Stop (Option Text × Text) :=
  match takeUnits p [] cs with
  | .error stop => .error stop
  | .ok (units, rest) => .ok (Utf16.decode? units, rest)

theorem length_takeString {p : Purpose} {cs rest : Text} {s : Option Text}
    (h : takeString p cs = .ok (s, rest)) : rest.length ≤ cs.length := by
  unfold takeString at h
  grind [→ length_takeUnits]

end Document

end Tsql
