import Tsql.Proofs.GuardText
import Tsql.Proofs.Trace

/-!
# Guards in a script

`guardedAt` says which definitions are guarded, and `guardChoice_eq` that
the pass decides by it: a guard is put in the place of the verb, or the
token stays. Where no schema is guarded, `guarded` is the script that comes
out and `reread` are the tokens it is read as; `GuardPieces` proves so.
-/

namespace Tsql

open Lexeme

namespace Pass

variable {accepts : Text → Text → Bool} {ending : LineEnding} {level : Level}

/-! ## Which definitions are guarded -/

/-- The definition that begins at the first of the tokens, if it is
guarded. -/
def guardedAt (accepts : Text → Text → Bool) : List Token → Option Guarded
  | [] => none
  | t :: ts =>
    let c := Cursor.start (t :: ts)
    if t.isKeyword "CREATE" || t.isKeyword "ALTER" then
      match c.peek 1, QualifiedName.peek c 2 with
      | some object, some (name, span) =>
        let accepted := accepts name.schemaName name.object.value
        if object.isKeyword "PROCEDURE" || object.isKeyword "PROC" then
          if accepted then some (.procedure name) else none
        else if object.isKeyword "SCHEMA" && t.isKeyword "CREATE" && name.isSinglePart then
          if accepts name.object.value [] then
            some (.schema name.object.value (schemaOwner? c))
          else none
        else if object.isKeyword "FUNCTION" then
          if (Signature.peek c (2 + span)).isValid && accepted then some (.function name) else none
        else if object.isKeyword "VIEW" then
          if accepted then some (.view name) else none
        else none
      | _, _ => none
    else none

theorem verb_of_guardedAt {t : Token} {ts : List Token} {g : Guarded}
    (h : guardedAt accepts (t :: ts) = some g) :
    t.isKeyword "CREATE" = true ∨ t.isKeyword "ALTER" = true := by
  unfold guardedAt at h
  dsimp only at h
  split at h
  · rename_i hverb
    simpa using hverb
  · cases h

def guardChoice (accepts : Text → Text → Bool) (ending : LineEnding) :
    List Token → Except Error Decision
  | [] => .ok { emitted := [] }
  | t :: ts => (guardCreates accepts ending).step t (.start (t :: ts))

theorem guardCreates_sees :
    (guardCreates accepts ending).Sees (guardChoice accepts ending) := by
  intro c t ts h
  obtain ⟨size, position, ahead, diagnostics⟩ := c
  subst h
  rfl

/-- Guarding puts a guard in the place of a verb, or leaves the token. -/
theorem guardChoice_eq (accepts : Text → Text → Bool) (ending : LineEnding) (t : Token)
    (ts : List Token) :
    ∃ d, guardChoice accepts ending (t :: ts) = .ok d ∧
      (guardedAt accepts (t :: ts) = none ∧ d.emitted = [t] ∧ d.consumed = 0 ∨
        ∃ g, guardedAt accepts (t :: ts) = some g ∧ d.emitted = g.tokens ending ∧
          d.consumed = g.taken) := by
  simp only [guardChoice, guardCreates, guardedAt]
  by_cases hverb : (t.isKeyword "CREATE" || t.isKeyword "ALTER") = true
  · rw [if_pos hverb, if_pos hverb]
    cases hobject : (Cursor.start (t :: ts)).peek 1 with
    | none => exact ⟨_, rfl, Or.inl ⟨rfl, rfl, rfl⟩⟩
    | some object =>
        cases hname : QualifiedName.peek (Cursor.start (t :: ts)) 2 with
        | none => exact ⟨_, rfl, Or.inl ⟨rfl, rfl, rfl⟩⟩
        | some found =>
            obtain ⟨name, span⟩ := found
            refine ⟨_, rfl, ?_⟩
            dsimp only [guardDecision]
            by_cases hprocedure : (object.isKeyword "PROCEDURE" || object.isKeyword "PROC") = true
            · rw [if_pos hprocedure, if_pos hprocedure]
              cases accepts name.schemaName name.object.value with
              | true => exact Or.inr ⟨_, rfl, rfl, rfl⟩
              | false => exact Or.inl ⟨rfl, rfl, rfl⟩
            rw [if_neg hprocedure, if_neg hprocedure]
            by_cases hschema : (object.isKeyword "SCHEMA" && t.isKeyword "CREATE" &&
                name.isSinglePart) = true
            · rw [if_pos hschema, if_pos hschema]
              cases accepts name.object.value [] with
              | true => exact Or.inr ⟨_, rfl, rfl, rfl⟩
              | false => exact Or.inl ⟨rfl, rfl, rfl⟩
            rw [if_neg hschema, if_neg hschema]
            by_cases hfunction : object.isKeyword "FUNCTION" = true
            · rw [if_pos hfunction, if_pos hfunction]
              cases (Signature.peek (Cursor.start (t :: ts)) (2 + span)).isValid with
              | true =>
                  cases accepts name.schemaName name.object.value with
                  | true => exact Or.inr ⟨_, rfl, rfl, rfl⟩
                  | false => exact Or.inl ⟨rfl, rfl, rfl⟩
              | false => exact Or.inl ⟨rfl, rfl, rfl⟩
            rw [if_neg hfunction, if_neg hfunction]
            by_cases hview : object.isKeyword "VIEW" = true
            · rw [if_pos hview, if_pos hview]
              cases accepts name.schemaName name.object.value with
              | true => exact Or.inr ⟨_, rfl, rfl, rfl⟩
              | false => exact Or.inl ⟨rfl, rfl, rfl⟩
            rw [if_neg hview, if_neg hview]
            exact Or.inl ⟨rfl, rfl, rfl⟩
  · rw [if_neg hverb, if_neg hverb]
    exact ⟨_, rfl, Or.inl ⟨rfl, rfl, rfl⟩⟩

/-! ## The guarded script -/

def guarded (accepts : Text → Text → Bool) (ending : LineEnding) : List Token → List Token
  | [] => []
  | t :: ts =>
    (match guardedAt accepts (t :: ts) with
      | none => [t]
      | some g => g.tokens ending) ++ guarded accepts ending ts

/-- The tokens of the guarded script as they are read. -/
def reread (accepts : Text → Text → Bool) (ending : LineEnding) : List Token → List Token
  | [] => []
  | t :: ts =>
    (match guardedAt accepts (t :: ts) with
      | none => [t]
      | some g => g.written ending) ++ reread accepts ending ts

/-- The guarded definitions among the tokens, in order. -/
def guards (accepts : Text → Text → Bool) : List Token → List Guarded
  | [] => []
  | t :: ts => (guardedAt accepts (t :: ts)).toList ++ guards accepts ts

theorem mem_guards_of_guardedAt (pre : List Token) {post : List Token} {t : Token} {g : Guarded}
    (h : guardedAt accepts (t :: post) = some g) : g ∈ guards accepts (pre ++ t :: post) := by
  induction pre with
  | nil => simp [guards, h]
  | cons u us ih => exact List.mem_append_right _ ih

theorem tail_guards {p : Guarded → Prop} {t : Token} {ts : List Token}
    (h : ∀ g ∈ guards accepts (t :: ts), p g) : ∀ g ∈ guards accepts ts, p g :=
  fun g hg => h g (List.mem_append_right _ hg)

theorem head_guards {p : Guarded → Prop} {t : Token} {ts : List Token} {g : Guarded}
    (h : ∀ g ∈ guards accepts (t :: ts), p g) (hguard : guardedAt accepts (t :: ts) = some g) :
    p g :=
  h g (mem_guards_of_guardedAt [] hguard)

/-! ## Texts and verbs -/

theorem textOf_settled (t : Token) : Token.textOf t.settled = t.text := by
  unfold Token.settled
  split
  · induction t.text with
    | nil => rfl
    | cons c cs ih => rw [List.map_cons, Token.textOf_cons, ih]; rfl
  · simp

theorem textOf_flatMap_settled (ts : List Token) :
    Token.textOf (ts.flatMap Token.settled) = Token.textOf ts := by
  induction ts with
  | nil => rfl
  | cons t ts ih => rw [List.flatMap_cons, Token.textOf_append, ih, textOf_settled]; rfl

theorem textOf_written (ending : LineEnding) (g : Guarded) :
    Token.textOf (g.written ending) = Token.textOf (g.tokens ending) :=
  textOf_flatMap_settled _

theorem textOf_reread (accepts : Text → Text → Bool) (ending : LineEnding) (ts : List Token) :
    Token.textOf (reread accepts ending ts) = Token.textOf (guarded accepts ending ts) := by
  induction ts with
  | nil => rfl
  | cons t ts ih =>
      rw [reread, guarded, Token.textOf_append, Token.textOf_append, ih]
      cases guardedAt accepts (t :: ts) with
      | none => rfl
      | some g => rw [textOf_written]

theorem kind_of_verb {t : Token}
    (h : t.isKeyword "CREATE" = true ∨ t.isKeyword "ALTER" = true) : t.kind = .keyword := by
  rcases h with h | h <;> exact kind_of_isKeyword h

theorem initial_of_verb {t : Token}
    (h : t.isKeyword "CREATE" = true ∨ t.isKeyword "ALTER" = true) :
    ∃ c r, t.text = c :: r ∧ isVerbInitial c = true := by
  rcases h with h | h
  · obtain ⟨c, r, htext, hc, -⟩ := List.map_eq_cons_iff.mp (upper_of_isKeyword h)
    rcases eq_or_eq_of_toUpper (u := 'C') (l := 'c') hc (by decide) with rfl | rfl <;>
      exact ⟨_, r, htext, by decide⟩
  · obtain ⟨c, r, htext, hc, -⟩ := List.map_eq_cons_iff.mp (upper_of_isKeyword h)
    rcases eq_or_eq_of_toUpper (u := 'A') (l := 'a') hc (by decide) with rfl | rfl <;>
      exact ⟨_, r, htext, by decide⟩

end Pass

end Tsql
