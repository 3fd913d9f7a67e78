import Tsql.Proofs.GuardPieces

/-!
# The tokens of a guarded script, white space joined

A guard indents its lines by a token of several blanks, and a script is
read with every blank a token of its own. `joined` takes no notice of
that: it puts white space in a row together and leaves all other tokens as
they are.

`guards_reread_iff` compares the script that comes out with the tokens
that were put in place, white space joined. They agree for every script
and for whatever stands in a name, as long as no name breaks out of its
national literal; and one that does is enough for them to differ.
-/

namespace Tsql

open Lexeme (Cuts)

/-! ## White space in a row -/

/-- White space put before the pieces of a text, as one piece with that
which is there. -/
def glue (text : Text) : List (Kind × Text) → List (Kind × Text)
  | (.whitespace, more) :: pieces => (.whitespace, text ++ more) :: pieces
  | pieces => (.whitespace, text) :: pieces

/-- Kinds and texts of the tokens, white space in a row as one piece. -/
def joined : List Token → List (Kind × Text)
  | [] => []
  | t :: ts => if t.isWhitespace then glue t.text (joined ts) else t.face :: joined ts

theorem glue_glue (a b : Text) (pieces : List (Kind × Text)) :
    glue a (glue b pieces) = glue (a ++ b) pieces := by
  rcases pieces with _ | ⟨⟨kind, text⟩, pieces⟩
  · rfl
  · cases kind with
    | whitespace => simp [glue]
    | _ => rfl

theorem mem_glue_iff {kind : Kind} (hkind : kind ≠ .whitespace) (a text : Text)
    (pieces : List (Kind × Text)) : (kind, text) ∈ glue a pieces ↔ (kind, text) ∈ pieces := by
  rcases pieces with _ | ⟨⟨k, u⟩, pieces⟩
  · simp [glue, hkind]
  · cases k with
    | whitespace => simp [glue, hkind]
    | _ => simp [glue, hkind]

/-- Joining keeps every token that is no white space. -/
theorem mem_joined_iff {kind : Kind} (hkind : kind ≠ .whitespace) {text : Text}
    {ts : List Token} : (kind, text) ∈ joined ts ↔ ∃ t ∈ ts, t.face = (kind, text) := by
  induction ts with
  | nil => simp [joined]
  | cons t ts ih =>
      rw [joined]
      split
      · rename_i hblank
        have hne : t.face ≠ (kind, text) := by
          intro hface
          apply hkind
          rw [← (Prod.mk.inj hface).1]
          simpa [Token.isWhitespace] using hblank
        rw [mem_glue_iff hkind, ih]
        simp [hne]
      · rw [List.mem_cons, ih, eq_comm]
        simp

/-- Joining sees kinds and texts only. -/
theorem joined_congr {ts us : List Token} (h : ts.map Token.face = us.map Token.face) :
    joined ts = joined us := by
  induction ts generalizing us with
  | nil =>
      obtain rfl := List.map_eq_nil_iff.mp h.symm
      rfl
  | cons t ts ih =>
      cases us with
      | nil => cases h
      | cons u us =>
          obtain ⟨hface, hmore⟩ := List.cons.inj h
          obtain ⟨hkind, htext⟩ := Prod.mk.inj hface
          rw [joined, joined, ih hmore, hface, htext, Token.isWhitespace, Token.isWhitespace, hkind]

theorem joined_append_congr (front : List Token) {ts us : List Token}
    (h : joined ts = joined us) : joined (front ++ ts) = joined (front ++ us) := by
  induction front with
  | nil => exact h
  | cons t front ih => rw [List.cons_append, List.cons_append, joined, joined, ih]

/-- Blanks that are tokens of their own join again. -/
theorem joined_settled_append {t : Token} (ht : t.isWhitespace = true → t.text ≠ [])
    (ts : List Token) : joined (t.settled ++ ts) = joined (t :: ts) := by
  unfold Token.settled
  split
  · rename_i hblank
    obtain ⟨hkind, -⟩ := hblank
    have hwhite : t.isWhitespace = true := by simp [Token.isWhitespace, hkind]
    have hsingles : ∀ c cs, joined ((c :: cs).map (fun d => ⟨.whitespace, [d], t.position⟩) ++ ts) =
        glue (c :: cs) (joined ts) := by
      intro c cs
      induction cs generalizing c with
      | nil => rfl
      | cons d ds ih =>
          rw [List.map_cons, List.cons_append, joined, ih]
          exact glue_glue [c] (d :: ds) (joined ts)
    obtain ⟨c, cs, htext⟩ := List.exists_cons_of_ne_nil (ht hwhite)
    rw [joined, if_pos hwhite, htext]
    exact hsingles c cs
  · rfl

theorem joined_flatMap_settled {ts : List Token}
    (h : ∀ t ∈ ts, t.isWhitespace = true → t.text ≠ []) (us : List Token) :
    joined (ts.flatMap Token.settled ++ us) = joined (ts ++ us) := by
  induction ts with
  | nil => rfl
  | cons t ts ih =>
      have hmore := ih fun u hu => h u (List.mem_cons_of_mem t hu)
      rw [List.flatMap_cons, List.append_assoc,
        joined_settled_append (h t List.mem_cons_self), joined, hmore, List.cons_append, joined]

/-! ## Guards -/

namespace Pass

variable {accepts : Text → Text → Bool} {ending : LineEnding} {level : Level}

theorem blanks_of_guard (g : Guarded) (ending : LineEnding) :
    ∀ t ∈ g.tokens ending, t.isWhitespace = true → t.text ≠ [] := by
  have hall : (g.tokens ending).all (fun t => !t.isWhitespace || !t.text.isEmpty) = true := by
    cases g <;> cases ending <;> rfl
  intro t ht hwhite
  have hthis := List.all_eq_true.mp hall t ht
  simpa [hwhite] using hthis

theorem joined_reread (accepts : Text → Text → Bool) (ending : LineEnding) (ts : List Token) :
    joined (reread accepts ending ts) = joined (guarded accepts ending ts) := by
  induction ts with
  | nil => rfl
  | cons t ts ih =>
      rw [reread, guarded]
      cases guardedAt accepts (t :: ts) with
      | none => exact joined_append_congr [t] ih
      | some g =>
          dsimp only
          rw [Guarded.written, joined_flatMap_settled (blanks_of_guard g ending)]
          exact joined_append_congr _ ih

/-- What is read from a text is cut off there. -/
theorem cuts_of_mem_body {source : Text} {t : Token} (ht : t ∈ (Script.parse level source).body)
    (hmark : t.kind ≠ .batchSeparator) : ∃ rest, Cuts t.kind t.text rest := by
  rw [Script.body_parse] at ht
  cases hraw : tokensFrom .start source with
  | error e =>
      rw [hraw] at ht
      cases ht
  | ok raw =>
      rw [hraw] at ht
      have hcuts := (ReadAs.of_tokensFrom hraw).reads.cuts (List.mem_map_of_mem ht)
      rwa [unmarked_eq_self hmark] at hcuts

/-- The literal of a name that breaks out is none of the tokens that are
read. -/
theorem joined_ne_of_breaksOut {body : List Token} {source : Text} {g : Guarded}
    (hg : g ∈ guards accepts body) (hbreaks : g.breaksOut = true) :
    joined (Script.parse level source).body ≠ joined (guarded accepts ending body) := by
  intro h
  obtain ⟨t, ht, hkind, hbroken⟩ := Guarded.exists_broken hbreaks ending
  have hliteral : t.kind ≠ .whitespace := by
    rw [hkind]
    decide
  obtain ⟨u, hu, hmark⟩ := List.mem_map.mp (mem_reread_of_mem_guards hg ht)
  have hself : u.face = t.face := by
    rw [← hmark, unmarked_eq_self]
    intro hsep
    rw [← hmark, Token.unmarked, if_pos hsep] at hkind
    cases hkind
  have hmem : (t.kind, t.text) ∈ joined (guarded accepts ending body) := by
    rw [← joined_reread]
    exact (mem_joined_iff hliteral).mpr ⟨u, hu, hself⟩
  rw [← h] at hmem
  obtain ⟨v, hv, hface⟩ := (mem_joined_iff hliteral).mp hmem
  obtain ⟨hvkind, hvtext⟩ := Prod.mk.inj hface
  obtain ⟨rest, hcuts⟩ := cuts_of_mem_body hv (by rw [hvkind, hkind]; decide)
  rw [hvkind, hvtext] at hcuts
  exact hbroken ((Lexeme.cuts_iff _ _ _).mp hcuts).1

/-! ## Scripts -/

/-- A script without problems, its procedures, functions and views
guarded, is read as the tokens that were put in place, white space joined,
if no name breaks out of its national literal, and only then. -/
theorem guards_reread_iff {script : Text}
    (hproblems : (Script.parse level script).problems = [])
    (hschema : ∀ g ∈ guards accepts (Script.parse level script).body, g.isSchema = false)
    (ending : LineEnding) (inner : Level) :
    ∃ trace outcome,
      (guardCreates accepts ending).traceFrom (.start (Script.parse level script).body) =
        .ok trace ∧
      (guardCreates accepts ending).run level script = .ok outcome ∧
      outcome.output = Token.textOf trace.emitted ∧
      (joined (Script.parse inner outcome.output).body = joined trace.emitted ↔
        ∀ g ∈ guards accepts (Script.parse level script).body, g.breaksOut = false) := by
  have hread := Script.readAs hproblems
  obtain ⟨ps, trace, outcome, hlaid, hsource, htrace, hemitted, hrun, houtput⟩ :=
    run_guardCreates_pieces accepts hproblems ending
  have hguarded : trace.emitted =
      guarded accepts ending (Script.parse level script).body := by
    rw [hemitted, (pieces_of_not_schema hlaid (by rwa [hsource]) ending).1, hsource]
  refine ⟨trace, outcome, htrace, hrun, houtput, fun hjoined g hg => ?_, fun hnames => ?_⟩
  · rw [← Bool.not_eq_true]
    intro hbreaks
    rw [hguarded] at hjoined
    exact joined_ne_of_breaksOut hg hbreaks hjoined
  · rw [houtput, hguarded, ← joined_reread]
    exact joined_congr ((body_guarded_iff hread hschema inner ending).mpr hnames)

/-- A view whose name holds both delimiters, a quote and a `GO` on a line
of its own. -/
def awkwardView : Text := "CREATE VIEW [a]]'\nGO\n\"b] AS SELECT 1".toList

/-- A function with a backslash before a quote in its name. -/
def escapedQuoteFunction : Text :=
  "CREATE FUNCTION [a\\'b]() RETURNS INT AS BEGIN RETURN 1 END".toList

/-- The awkward name is read back, the one that breaks out is not. -/
theorem guards_reread_awkward_escapedQuote :
    (∃ trace outcome, (guardCreates (fun _ _ => true) .lf).traceFrom
        (.start (Script.parse .sql110 awkwardView).body) = .ok trace ∧
      (guardCreates (fun _ _ => true) .lf).run .sql110 awkwardView = .ok outcome ∧
      outcome.output = Token.textOf trace.emitted ∧
      joined (Script.parse .sql110 outcome.output).body = joined trace.emitted) ∧
    ∃ trace outcome, (guardCreates (fun _ _ => true) .crlf).traceFrom
        (.start (Script.parse .sql110 escapedQuoteFunction).body) = .ok trace ∧
      (guardCreates (fun _ _ => true) .crlf).run .sql110 escapedQuoteFunction = .ok outcome ∧
      outcome.output = Token.textOf trace.emitted ∧
      joined (Script.parse .sql110 outcome.output).body ≠ joined trace.emitted := by
  constructor
  · have hproblems : (Script.parse .sql110 awkwardView).problems = [] := by decide +kernel
    have hschema : ∀ g ∈ guards (fun _ _ => true) (Script.parse .sql110 awkwardView).body,
        g.isSchema = false := by
      decide +kernel
    obtain ⟨trace, outcome, htrace, hrun, houtput, hiff⟩ :=
      guards_reread_iff hproblems hschema .lf .sql110
    exact ⟨trace, outcome, htrace, hrun, houtput, hiff.mpr (by decide +kernel)⟩
  · have hproblems : (Script.parse .sql110 escapedQuoteFunction).problems = [] := by
      decide +kernel
    have hschema : ∀ g ∈ guards (fun _ _ => true)
        (Script.parse .sql110 escapedQuoteFunction).body, g.isSchema = false := by
      decide +kernel
    obtain ⟨trace, outcome, htrace, hrun, houtput, hiff⟩ :=
      guards_reread_iff hproblems hschema .crlf .sql110
    refine ⟨trace, outcome, htrace, hrun, houtput, fun hjoined => ?_⟩
    have hnames := hiff.mp hjoined
    revert hnames
    decide +kernel

end Pass

end Tsql
