import Tsql.Name
import Tsql.Proofs.Quoting

/-!
# The forms of an object name

`QualifiedName.read` tells four forms apart by looking ahead. `Reads` lists
them, one constructor for each, with the tokens a form takes and what may
not follow it, and `read_eq_some_iff` says that there are no others. The
two short forms end where no dot follows; the two long ones have all their
parts and end whatever follows.

A name is told by kinds and texts alone (`read_congr`), and nothing behind
the first token that is neither name nor dot has a say in it
(`read_append_stop`).

A part that was read from a script can be written and read again:
`NamePart.Legible` is what that takes.
-/

namespace Tsql

open Lexeme

/-! ## Forms -/

/-- A name or a dot: what names are made of. -/
def Token.inName (t : Token) : Bool := t.isIdentifier || t.kind == .dot

theorem Token.isIdentifier_iff {t : Token} :
    t.isIdentifier = true ↔ t.kind = .identifier ∨ t.kind = .quotedIdentifier := by
  simp [isIdentifier]

theorem Token.kind_ne_dot {t : Token} (h : t.isIdentifier = true) : t.kind ≠ .dot := by
  rcases isIdentifier_iff.mp h with hkind | hkind <;>
    · rw [hkind]
      decide

theorem Token.inName_iff {t : Token} :
    t.inName = true ↔ t.kind = .identifier ∨ t.kind = .quotedIdentifier ∨ t.kind = .dot := by
  simp [inName, isIdentifier, or_assoc]

theorem Token.inName_of_isIdentifier {t : Token} (h : t.isIdentifier = true) :
    t.inName = true := by
  rw [inName, h]
  rfl

theorem Token.inName_of_dot {t : Token} (h : t.kind = .dot) : t.inName = true :=
  inName_iff.mpr (Or.inr (Or.inr h))

/-- What names are made of is neither blank nor a separator of
batches. -/
theorem Token.of_inName {t : Token} (h : t.inName = true) :
    t.isBlank = false ∧ t.unmarked = t := by
  rcases inName_iff.mp h with hkind | hkind | hkind <;>
    · rw [isBlank, isWhitespace, isComment, unmarked, hkind]
      exact ⟨rfl, rfl⟩

theorem Token.isWhitespace_of_inName {t : Token} (h : t.inName = true) :
    t.isWhitespace = false := by
  have hblank := (of_inName h).1
  rw [isBlank, Bool.or_eq_false_iff] at hblank
  exact hblank.1

namespace QualifiedName

/-- The name at the front of the tokens, and the number of tokens it
takes. -/
inductive Reads : List Token → QualifiedName → Nat → Prop where
  | object {t : Token} {rest : List Token} (object : t.isIdentifier = true)
      (ends : ∀ u ∈ rest.head?, u.kind ≠ .dot) :
      Reads (t :: rest) ⟨none, none, .ofToken t⟩ 1
  | schema {s d t : Token} {rest : List Token} (schema : s.isIdentifier = true)
      (dot : d.kind = .dot) (object : t.isIdentifier = true)
      (ends : ∀ u ∈ rest.head?, u.kind ≠ .dot) :
      Reads (s :: d :: t :: rest) ⟨none, some (.ofToken s), .ofToken t⟩ 3
  | emptySchema {b d e t : Token} {rest : List Token} (database : b.isIdentifier = true)
      (dot : d.kind = .dot) (second : e.kind = .dot) (object : t.isIdentifier = true) :
      Reads (b :: d :: e :: t :: rest)
        ⟨some (.ofToken b), some ⟨defaultSchema, none⟩, .ofToken t⟩ 4
  | database {b d s e t : Token} {rest : List Token} (database : b.isIdentifier = true)
      (dot : d.kind = .dot) (schema : s.isIdentifier = true) (second : e.kind = .dot)
      (object : t.isIdentifier = true) :
      Reads (b :: d :: s :: e :: t :: rest)
        ⟨some (.ofToken b), some (.ofToken s), .ofToken t⟩ 5

theorem Reads.read_eq {ts : List Token} {name : QualifiedName} {span : Nat}
    (h : Reads ts name span) : read ts = some (name, span) := by
  cases h with
  | @object t rest object ends =>
      cases rest with
      | nil => simp [read, object]
      | cons u us => simp [read, object, ends u rfl]
  | @schema s d t rest schema dot object ends =>
      have ht := Token.kind_ne_dot object
      cases rest with
      | nil => simp [read, schema, dot, object, ht]
      | cons u us => simp [read, schema, dot, object, ht, ends u rfl]
  | emptySchema database dot second object => simp [read, database, dot, second, object]
  | database database dot schema second object =>
      simp [read, database, dot, schema, Token.kind_ne_dot schema, second, object]

theorem reads_of_read {ts : List Token} {name : QualifiedName} {span : Nat}
    (h : read ts = some (name, span)) : Reads ts name span := by
  have hform : ∀ {name' : QualifiedName} {span' : Nat}, Reads ts name' span' →
      Reads ts name span := by
    intro name' span' hreads
    obtain ⟨rfl, rfl⟩ := Prod.mk.inj (Option.some.inj (hreads.read_eq.symm.trans h))
    exact hreads
  -- the cases are the branches of `read`, and there is a name in six of them
  fun_cases read ts with
  | case3 t h₀ => exact hform (.object (by simpa using h₀) (by simp))
  | case4 t h₀ u rest hu => exact hform (.object (by simpa using h₀) (by simpa using hu))
  | case6 b h₀ d h₁ e h₂ t rest h₃ =>
      exact hform (.emptySchema (by simpa using h₀) (by simpa using h₁) h₂ h₃)
  | case10 s h₀ d h₁ t _ h₂ =>
      exact hform (.schema (by simpa using h₀) (by simpa using h₁) (by simpa using h₂) (by simp))
  | case11 s h₀ d h₁ t _ h₂ u rest hu =>
      exact hform (.schema (by simpa using h₀) (by simpa using h₁) (by simpa using h₂)
        (by simpa using hu))
  | case12 b h₀ d h₁ s _ h₂ e h₃ t rest h₄ =>
      exact hform (.database (by simpa using h₀) (by simpa using h₁) (by simpa using h₂)
        (by simpa using h₃) h₄)
  | _ => simp_all [read]

theorem read_eq_some_iff {ts : List Token} {name : QualifiedName} {span : Nat} :
    read ts = some (name, span) ↔ Reads ts name span :=
  ⟨reads_of_read, Reads.read_eq⟩

/-- A name without a database is read as far as its dots go. -/
theorem Reads.ends {ts : List Token} {name : QualifiedName} {span : Nat} (h : Reads ts name span)
    (hdatabase : name.database = none) : ∀ u ∈ (ts.drop span).head?, u.kind ≠ .dot := by
  cases h with
  | object _ ends => exact ends
  | schema _ _ _ ends => exact ends
  | emptySchema => cases hdatabase
  | database => cases hdatabase

/-- The tokens of a name are names and dots, and the last is its
object. -/
theorem Reads.tokens {ts : List Token} {name : QualifiedName} {span : Nat}
    (h : Reads ts name span) :
    ∃ front t, ts.take span = front ++ [t] ∧ front.length + 1 = span ∧
      (∀ u ∈ front, u.inName = true) ∧ t.isIdentifier = true ∧ name.object = .ofToken t := by
  have hname := @Token.inName_of_isIdentifier
  have hdot := @Token.inName_of_dot
  cases h with
  | @object t rest object _ => exact ⟨[], t, rfl, rfl, by simp, object, rfl⟩
  | @schema s d t rest schema dot object _ =>
      exact ⟨[s, d], t, rfl, rfl, by simp [hname schema, hdot dot], object, rfl⟩
  | @emptySchema b d e t rest database dot second object =>
      exact ⟨[b, d, e], t, rfl, rfl, by simp [hname database, hdot dot, hdot second], object, rfl⟩
  | @database b d s e t rest database dot schema second object =>
      exact ⟨[b, d, s, e], t, rfl, rfl,
        by simp [hname database, hdot dot, hname schema, hdot second], object, rfl⟩

/-- Each part of a name is that of a token, but for the schema that is
left empty. -/
theorem Reads.parts {ts : List Token} {name : QualifiedName} {span : Nat} (h : Reads ts name span)
    {p : NamePart} (hp : some p = name.database ∨ some p = name.schema) :
    p = ⟨defaultSchema, none⟩ ∨ ∃ t ∈ ts, t.isIdentifier = true ∧ p = .ofToken t := by
  cases h with
  | object => rcases hp with hp | hp <;> cases hp
  | @schema s d t rest schema =>
      rcases hp with hp | hp
      · cases hp
      · exact Or.inr ⟨s, by simp, schema, Option.some.inj hp⟩
  | @emptySchema b d e t rest database =>
      rcases hp with hp | hp
      · exact Or.inr ⟨b, by simp, database, Option.some.inj hp⟩
      · exact Or.inl (Option.some.inj hp)
  | @database b d s e t rest database dot schema =>
      rcases hp with hp | hp
      · exact Or.inr ⟨b, by simp, database, Option.some.inj hp⟩
      · exact Or.inr ⟨s, by simp, schema, Option.some.inj hp⟩

/-! ## What a name depends on -/

/-- Names are told by kinds and texts. -/
theorem read_congr {ts us : List Token} (h : ts.map Token.face = us.map Token.face) :
    read ts = read us := by
  -- a token without its place is made from its face, and the place is never looked at
  have hplaceless : ∀ vs : List Token, read vs =
      read ((vs.map Token.face).map fun face => ⟨face.1, face.2, none⟩) := by
    intro vs
    match vs with
    | [] | [_] | [_, _] | [_, _, _] | [_, _, _, _] | _ :: _ :: _ :: _ :: _ :: _ => rfl
  rw [hplaceless ts, hplaceless us, h]

/-- Nothing behind a token that is neither name nor dot has a say in what
stands before it. -/
theorem read_append_stop {k : Token} (hk : k.inName = false) (front xs ys : List Token) :
    read (front ++ k :: xs) = read (front ++ k :: ys) := by
  simp only [Token.inName, Bool.or_eq_false_iff, beq_eq_false_iff_ne] at hk
  match front with
  | [] | [_] | [_, _] | [_, _, _] | [_, _, _, _] | _ :: _ :: _ :: _ :: _ :: _ =>
      simp [read, hk]

end QualifiedName

/-! ## Parts that can be read again -/

namespace NamePart

/-- The part as a token of its own. -/
def token (p : NamePart) : Token := .ofName p.value p.quote

/-- A part that is read as one token, and as the same part. -/
structure Legible (p : NamePart) : Prop where
  cuts : Cuts p.token.kind p.token.text []
  part : ofToken p.token = p

theorem isIdentifier_token (p : NamePart) : p.token.isIdentifier = true := by
  rw [Token.isIdentifier_iff, token, Token.ofName]
  cases p.quote with
  | none => exact Or.inl rfl
  | some q => exact Or.inr rfl

/-- A part read from a token is written as that token. -/
theorem face_token_ofToken {t : Token} {rest : Text} (hcuts : Cuts t.kind t.text rest)
    (hname : t.isIdentifier = true) : (ofToken t).token.face = t.face :=
  face_ofName hcuts hname

theorem ofToken_congr {t u : Token} (h : t.face = u.face) : ofToken t = ofToken u := by
  obtain ⟨hkind, htext⟩ := Prod.mk.inj h
  rw [ofToken, ofToken, Token.quote?, Token.quote?, hkind, htext]

theorem legible_ofToken {t : Token} {rest : Text} (hcuts : Cuts t.kind t.text rest)
    (hname : t.isIdentifier = true) : (ofToken t).Legible := by
  have hface := face_token_ofToken hcuts hname
  refine ⟨?_, ofToken_congr hface⟩
  obtain ⟨hkind, htext⟩ := Prod.mk.inj hface
  rw [hkind, htext]
  exact ((cuts_iff _ _ _).mp hcuts).1

theorem legible_default : Legible ⟨defaultSchema, none⟩ := ⟨by decide +kernel, by decide⟩

/-- A name does not begin with a digit. -/
theorem not_digit_of_cuts {t : Token} {rest : Text} (hcuts : Cuts t.kind t.text rest)
    (hname : t.isIdentifier = true) : t.text.head?.any Char.isDigit = false := by
  cases htext : t.text with
  | nil => rfl
  | cons c cs =>
      rw [List.head?_cons, Option.any_some, ← Bool.not_eq_true]
      intro hdigit
      rw [htext, Cuts, scan_digit hdigit, scanNumber] at hcuts
      dsimp only at hcuts
      rcases Token.isIdentifier_iff.mp hname with hkind | hkind <;>
        · rw [hkind] at hcuts
          split at hcuts <;> cases hcuts

end NamePart

end Tsql
