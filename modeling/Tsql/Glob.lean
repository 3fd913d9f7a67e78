import Tsql.Text

/-!
# Name patterns

Patterns over names: `?` for one character, `*` for any sequence, classes
in brackets, and two stars as a whole part between slashes for any number
of parts. A pattern matches a whole name, letters as they are.
-/

namespace Tsql

namespace Glob

/-- A part of a pattern. -/
inductive Piece where
  | char (c : Char)
  | any
  | sequence
  /-- Any number of parts, each with its slash -/
  | parts
  | oneOf (ranges : List (Char × Char))
  | noneOf (ranges : List (Char × Char))
  deriving DecidableEq, Repr

/-! ## Reading -/

/-- What is wrong with a pattern. -/
inductive Fault where
  | tooManyStars
  | starsInPart
  | badClass
  deriving DecidableEq, Repr

/-- A fault and the index it is reported at. -/
structure Error where
  index : Nat
  fault : Fault
  deriving DecidableEq, Repr

def Fault.message : Fault → String
  | tooManyStars => "wildcards are either regular `*` or recursive `**`"
  | starsInPart => "recursive wildcards must form a single path component"
  | badClass => "invalid range pattern"

def Error.message (e : Error) : String :=
  "Pattern syntax error near position " ++ toString e.index ++ ": " ++ e.fault.message

/-- The ranges of a class, wherever three characters can be one. -/
def ranges : Text → List (Char × Char)
  | a :: '-' :: b :: cs => (a, b) :: ranges cs
  | a :: cs => (a, a) :: ranges cs
  | [] => []

/-- A class whose bracket is read: the piece, and what follows it. The
first character of a class may be its closing bracket. -/
def class? : Text → Option (Piece × Text)
  | '!' :: c :: cs =>
    (Text.cut cs [']']).map fun (inner, rest) => (.noneOf (ranges (c :: inner)), rest)
  | c :: cs =>
    if c = '!' then none
    else (Text.cut cs [']']).map fun (inner, rest) => (.oneOf (ranges (c :: inner)), rest)
  | [] => none

theorem length_lt_of_class {cs rest : Text} {piece : Piece}
    (h : class? cs = some (piece, rest)) : rest.length < cs.length := by
  unfold class? at h
  split at h
  · rename_i c cs'
    cases hc : Text.cut cs' [']'] with
    | none => simp [hc] at h
    | some ir =>
      obtain ⟨inner, r⟩ := ir
      simp only [hc, Option.map_some, Option.some.injEq, Prod.mk.injEq] at h
      have := Text.length_lt_of_cut (by simp) hc
      simp only [List.length_cons, ← h.2]
      omega
  · rename_i c cs' _
    split at h
    · cases h
    · cases hc : Text.cut cs' [']'] with
      | none => simp [hc] at h
      | some ir =>
        obtain ⟨inner, r⟩ := ir
        simp only [hc, Option.map_some, Option.some.injEq, Prod.mk.injEq] at h
        have := Text.length_lt_of_cut (by simp) hc
        simp only [List.length_cons, ← h.2]
        omega
  · cases h

/-- The pieces of a pattern; `index` characters are read, `last` is the
one before. -/
def piecesFrom (index : Nat) (last : Option Char) : Text → Except Error (List Piece)
  | [] => .ok []
  | c :: cs =>
    if c = '?' then do
      let more ← piecesFrom (index + 1) c cs
      return .any :: more
    else if c = '*' then
      match cs with
      | '*' :: '*' :: _ => .error ⟨index + 2, .tooManyStars⟩
      | '*' :: rest =>
        if last = none ∨ last = some '/' then
          match rest with
          | [] => .ok [.parts]
          | d :: rest =>
            if d = '/' then do
              let more ← piecesFrom (index + 3) d rest
              return .parts :: more
            else .error ⟨index + 2, .starsInPart⟩
        else .error ⟨index - 1, .starsInPart⟩
      | rest => do
        let more ← piecesFrom (index + 1) c rest
        return .sequence :: more
    else if c = '[' then
      match _h : class? cs with
      | none => .error ⟨index, .badClass⟩
      | some (piece, rest) => do
        let more ← piecesFrom (index + 1 + (cs.length - rest.length)) ']' rest
        return piece :: more
    else do
      let more ← piecesFrom (index + 1) c cs
      return .char c :: more
termination_by cs => cs.length
decreasing_by
  all_goals simp only [List.length_cons]
  · omega
  · omega
  · omega
  · have := length_lt_of_class _h
    omega
  · omega

/-! ## Matching -/

def inRanges (rs : List (Char × Char)) (c : Char) : Bool :=
  rs.any fun (lo, hi) => lo ≤ c && c ≤ hi

/-- A text and all its ends. -/
def ends : Text → List Text
  | [] => [[]]
  | c :: cs => (c :: cs) :: ends cs

/-- The ends of a text that follow a slash. -/
def afterSlashes : Text → List Text
  | [] => []
  | c :: cs => if c = '/' then cs :: afterSlashes cs else afterSlashes cs

/-- Whether one character satisfies a piece for one character. -/
def Piece.admits : Piece → Char → Bool
  | .char c, d => c == d
  | .any, _ => true
  | .oneOf rs, d => inRanges rs d
  | .noneOf rs, d => !inRanges rs d
  | .sequence, _ => false
  | .parts, _ => false

def piecesMatch : List Piece → Text → Bool
  | [], t => t.isEmpty
  | .sequence :: ps, t => (ends t).any (piecesMatch ps)
  | .parts :: ps, t =>
    ps.isEmpty || piecesMatch ps t || (afterSlashes t).any (piecesMatch ps)
  | _ :: _, [] => false
  | p :: ps, c :: cs => p.admits c && piecesMatch ps cs

end Glob

/-- A pattern over names. -/
structure Glob where
  pieces : List Glob.Piece
  deriving DecidableEq, Repr

namespace Glob

def read (pattern : Text) : Except Error Glob := do
  let pieces ← piecesFrom 0 none pattern
  return ⟨pieces⟩

def isMatch (g : Glob) (name : Text) : Bool := piecesMatch g.pieces name

end Glob

end Tsql
