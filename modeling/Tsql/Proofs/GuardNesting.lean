import Tsql.Proofs.GuardPieces
import Tsql.Proofs.Nesting

/-!
# What the checks find in a guarded script

A guard opens and closes what it needs, and then ends the batch. So it is
harmless where nothing is open, and where something is, the end of the
batch is where it is found. `passes_reread_iff` follows a script and its
guarded form side by side: as long as every guard so far was met with
nothing open, the two are in like states.

`guarded_problems_iff` is the result on scripts. A name that breaks out
of its literal is left aside: behind it the text is read as something
else altogether.
-/

namespace Tsql

open Lexeme Structure

namespace Pass

variable {accepts : Text → Text → Bool} {ending : LineEnding} {level : Level}

/-! ## At one guard -/

/-- A guard leaves what is open as it was and then closes the batch. -/
theorem runBefore_written {g : Guarded} (hg : g.isSchema = false) (ending : LineEnding)
    (s : State) (next : Option Token) :
    s.runBefore level next ((g.written ending).filter isSignificant) = s.closeBatch := by
  cases g with
  | procedure name => cases ending <;> rfl
  | function name => cases ending <;> rfl
  | view name => cases ending <;> rfl
  | schema name owner => cases hg

theorem head_written {g : Guarded} (hg : g.isSchema = false) (ending : LineEnding) :
    ((g.written ending).filter isSignificant).head? = some (Guard.keyword "IF") := by
  cases g with
  | procedure name => rfl
  | function name => rfl
  | view name => rfl
  | schema name owner => cases hg

theorem upper_of_verb {t : Token}
    (h : t.isKeyword "CREATE" = true ∨ t.isKeyword "ALTER" = true) :
    t.text.upper = "CREATE".toList ∨ t.text.upper = "ALTER".toList := by
  rcases h with h | h
  · exact Or.inl (upper_of_isKeyword h)
  · exact Or.inr (upper_of_isKeyword h)

theorem isSignificant_of_verb {t : Token}
    (h : t.isKeyword "CREATE" = true ∨ t.isKeyword "ALTER" = true) : isSignificant t = true := by
  simp only [isSignificant, Token.isWhitespace, Token.isComment, kind_of_verb h]
  rfl

theorem step_verb {t : Token} (h : t.isKeyword "CREATE" = true ∨ t.isKeyword "ALTER" = true)
    (s : State) (next : Option Token) : s.step level t next = s := by
  rcases h with h | h <;> exact step_of_isKeyword h (by decide) s next

/-- Before a verb the checks expect nothing in particular. -/
theorem lookahead_verb {t : Token}
    (h : t.isKeyword "CREATE" = true ∨ t.isKeyword "ALTER" = true) :
    lookahead (some t) = lookahead (some (Guard.keyword "IF")) := by
  have hword : ∀ word ∈ ["TRAN", "TRANSACTION", "DISTRIBUTED", "DIALOG", "CONVERSATION"],
      t.isWord word = false := by
    intro word hword
    unfold Token.isWord Text.sameFold
    rcases upper_of_verb h with hupper | hupper <;>
      · rw [hupper, kind_of_verb h]
        revert word
        decide
  have hverb : lookahead (some t) = (false, false, false) := by
    simp only [List.mem_cons, List.not_mem_nil, or_false] at hword
    simp [lookahead, beginsStatement, hword, kind_of_verb h]
  rw [hverb]
  decide

/-! ## Side by side -/

/-- The first token that the checks see is the same, or a verb has given
way to an `IF`. -/
theorem lookahead_reread {ts : List Token}
    (hschema : ∀ g ∈ guards accepts ts, g.isSchema = false) (ending : LineEnding) :
    lookahead ((reread accepts ending ts).filter isSignificant).head? =
      lookahead (ts.filter isSignificant).head? := by
  induction ts with
  | nil => rfl
  | cons t ts ih =>
      rw [reread, List.filter_append, List.head?_append]
      cases hguard : guardedAt accepts (t :: ts) with
      | some g =>
          have hverb := verb_of_guardedAt hguard
          dsimp only
          rw [head_written (head_guards hschema hguard), List.filter_cons_of_pos
            (isSignificant_of_verb hverb), List.head?_cons, lookahead_verb hverb]
          rfl
      | none =>
          dsimp only
          by_cases hsignificant : isSignificant t = true
          · simp [hsignificant]
          · simpa [hsignificant] using ih (tail_guards hschema)

/-- The state behind the first token of a list. -/
def stateBehind (level : Level) (s : State) (t : Token) (ts : List Token) : State :=
  if isSignificant t then s.step level t (ts.filter isSignificant).head? else s

theorem passes_cons_iff (s : State) (t : Token) (ts : List Token) :
    Passes level s (t :: ts) ↔ Passes level (stateBehind level s t ts) ts := by
  unfold Passes stateBehind
  by_cases hsignificant : isSignificant t = true
  · rw [List.filter_cons_of_pos hsignificant, if_pos hsignificant]
    rfl
  · rw [List.filter_cons_of_neg hsignificant, if_neg hsignificant]

/-- Every guard is met with nothing open. -/
def MetClosed (accepts : Text → Text → Bool) (level : Level) (s : State) (ts : List Token) : Prop :=
  ∀ pre t post, ts = pre ++ t :: post → (guardedAt accepts (t :: post)).isSome →
    (s.runBefore level (some t) (pre.filter isSignificant)).parens = [] ∧
      (s.runBefore level (some t) (pre.filter isSignificant)).blocks = []

theorem runBefore_cons_filter {t u : Token} (hu : isSignificant u = true) (s : State)
    (pre post : List Token) :
    s.runBefore level (some u) ((t :: pre).filter isSignificant) =
      (stateBehind level s t (pre ++ u :: post)).runBefore level (some u)
        (pre.filter isSignificant) := by
  have hhead : ((pre ++ u :: post).filter isSignificant).head? =
      (pre.filter isSignificant).head?.or (some u) := by
    rw [List.filter_append, List.filter_cons_of_pos hu, List.head?_append, List.head?_cons]
  unfold stateBehind
  by_cases ht : isSignificant t = true
  · rw [List.filter_cons_of_pos ht, if_pos ht, State.runBefore, hhead]
  · rw [List.filter_cons_of_neg ht, if_neg ht]

theorem metClosed_cons_iff (s : State) (t : Token) (ts : List Token) :
    MetClosed accepts level s (t :: ts) ↔
      ((guardedAt accepts (t :: ts)).isSome → s.parens = [] ∧ s.blocks = []) ∧
        MetClosed accepts level (stateBehind level s t ts) ts := by
  have hbehind : ∀ {pre post : List Token} {u : Token},
      (guardedAt accepts (u :: post)).isSome = true →
      s.runBefore level (some u) ((t :: pre).filter isSignificant) =
        (stateBehind level s t (pre ++ u :: post)).runBefore level (some u)
          (pre.filter isSignificant) := by
    intro pre post u hsome
    obtain ⟨g, hg⟩ := Option.isSome_iff_exists.mp hsome
    exact runBefore_cons_filter (isSignificant_of_verb (verb_of_guardedAt hg)) s pre post
  constructor
  · intro h
    refine ⟨fun hsome => h [] t ts rfl hsome, fun pre u post heq hsome => ?_⟩
    subst heq
    have hthere := h (t :: pre) u post rfl hsome
    rw [hbehind hsome] at hthere
    exact hthere
  · rintro ⟨hhere, hmore⟩ pre u post heq hsome
    cases pre with
    | nil =>
        obtain ⟨rfl, rfl⟩ := List.cons.inj heq
        exact hhere hsome
    | cons v pre =>
        obtain ⟨rfl, rfl⟩ := List.cons.inj heq
        rw [hbehind hsome]
        exact hmore pre u post rfl hsome

theorem passes_written_append_iff {g : Guarded} (hg : g.isSchema = false) (ending : LineEnding)
    (s : State) (ts : List Token) :
    Passes level s (g.written ending ++ ts) ↔ Passes level s.closeBatch ts := by
  unfold Passes
  rw [List.filter_append, run_append, runBefore_written hg]

/-- The checks pass over a guarded script if every guard is met with
nothing open, and only then. -/
theorem passes_reread_iff {ts : List Token}
    (hschema : ∀ g ∈ guards accepts ts, g.isSchema = false) (ending : LineEnding) {s s' : State}
    (halike : s.Alike s') (hpasses : Passes level s ts) :
    Passes level s' (reread accepts ending ts) ↔ MetClosed accepts level s ts := by
  induction ts generalizing s s' with
  | nil =>
      refine ⟨fun _ pre t post heq => ?_, fun _ => (passes_congr halike rfl).mp hpasses⟩
      simp at heq
  | cons t ts ih =>
      rw [metClosed_cons_iff]
      rw [passes_cons_iff] at hpasses
      rw [reread]
      cases hguard : guardedAt accepts (t :: ts) with
      | none =>
          have hbehind : (stateBehind level s t ts).Alike
              (stateBehind level s' t (reread accepts ending ts)) := by
            unfold stateBehind
            split
            · exact halike.step rfl (lookahead_reread (tail_guards hschema) ending).symm
            · exact halike
          dsimp only
          rw [List.singleton_append, passes_cons_iff, ih (tail_guards hschema) hbehind hpasses]
          simp
      | some g =>
          have hverb := verb_of_guardedAt hguard
          have hself : stateBehind level s t ts = s := by
            rw [stateBehind, if_pos (isSignificant_of_verb hverb), step_verb hverb]
          rw [hself] at hpasses ⊢
          dsimp only
          rw [passes_written_append_iff (head_guards hschema hguard)]
          by_cases hopen : s.parens = [] ∧ s.blocks = []
          · -- nothing is open, so closing the batch changes nothing that counts
            have hclosed : s.Alike s'.closeBatch := by
              refine ⟨by rw [hopen.1]; rfl, by rw [hopen.2]; rfl, ?_⟩
              rw [closeBatch_found_iff, ← halike.parens_eq_nil, ← halike.blocks_eq_nil,
                ← halike.found]
              simp [hopen]
            rw [ih (tail_guards hschema) hclosed hpasses]
            simp [hopen]
          · refine ⟨fun h => absurd ?_ hopen, fun h => absurd (h.1 rfl) hopen⟩
            obtain ⟨hparens, hblocks, -⟩ := (closeBatch_found_iff s').mp h.found
            exact ⟨halike.parens_eq_nil.mpr hparens, halike.blocks_eq_nil.mpr hblocks⟩

/-! ## Scripts -/

/-- A script without problems, its procedures, functions and views
guarded, is read as it was written unless a name breaks out of its
literal. Then it has problems exactly if some verb was met with a
parenthesis or a block open in its batch. -/
theorem guarded_problems_iff {script : Text}
    (hproblems : (Script.parse level script).problems = [])
    (hschema : ∀ g ∈ guards accepts (Script.parse level script).body, g.isSchema = false)
    (ending : LineEnding) :
    ∃ outcome, (guardCreates accepts ending).run level script = .ok outcome ∧
      ((Script.parse level outcome.output).body.map Token.face =
          (reread accepts ending (Script.parse level script).body).map Token.face ↔
        ∀ g ∈ guards accepts (Script.parse level script).body, g.breaksOut = false) ∧
      ((∀ g ∈ guards accepts (Script.parse level script).body, g.breaksOut = false) →
        ((Script.parse level outcome.output).problems = [] ↔
          ∀ pre t post, (Script.parse level script).body = pre ++ t :: post →
            (guardedAt accepts (t :: post)).isSome →
            (stateAt level pre t).parens = [] ∧ (stateAt level pre t).blocks = [])) := by
  have hread := Script.readAs hproblems
  obtain ⟨outcome, hrun, houtput⟩ := run_guardCreates hproblems hschema ending
  refine ⟨outcome, hrun, ?_, fun hnames => ?_⟩
  · rw [houtput]
    exact body_guarded_iff hread hschema level ending
  · obtain ⟨raw, hraw, hface⟩ := tokensFrom_guarded hread hschema hnames ending
    have hpasses : Passes level .start (Script.parse level script).body := by
      obtain ⟨original, horiginal, hbody⟩ := Script.tokensFrom_of_problems hproblems
      rw [hbody, ← problems_eq_nil_iff, ← parse_problems horiginal, hproblems]
    rw [houtput, parse_problems hraw, problems_eq_nil_iff, passes_congr (.refl .start) hface]
    exact passes_reread_iff hschema ending (.refl .start) hpasses

def viewInBlock : Text := "BEGIN CREATE VIEW v AS SELECT 1 END".toList

/-- A view with a backslash before a quote in its name. -/
def escapedQuoteView : Text := "CREATE VIEW [a\\'b] AS SELECT 1".toList

/-- The block is still open where the guard ends the batch. The other
view has nothing open around it, and yet its guard is not read as it was
written, for the name has broken out. -/
theorem guarded_problems_inBlock_escapedQuote :
    (∃ outcome, (guardCreates (fun _ _ => true) .crlf).run .sql110 viewInBlock = .ok outcome ∧
      (Script.parse .sql110 outcome.output).problems ≠ []) ∧
    ∃ outcome, (guardCreates (fun _ _ => true) .crlf).run .sql110 escapedQuoteView = .ok outcome ∧
      (Script.parse .sql110 outcome.output).body.map Token.face ≠
        (reread (fun _ _ => true) .crlf (Script.parse .sql110 escapedQuoteView).body).map
          Token.face ∧
      (Script.parse .sql110 outcome.output).problems ≠ [] ∧
      ∀ pre t post, (Script.parse .sql110 escapedQuoteView).body = pre ++ t :: post →
        (guardedAt (fun _ _ => true) (t :: post)).isSome →
        (stateAt .sql110 pre t).parens = [] ∧ (stateAt .sql110 pre t).blocks = [] := by
  constructor
  · have hbody : (Script.parse .sql110 viewInBlock).body =
        (Script.parse .sql110 viewInBlock).body.take 2 ++
          ⟨.keyword, "CREATE".toList, some ⟨1, 7⟩⟩ ::
            (Script.parse .sql110 viewInBlock).body.drop 3 := by
      decide +kernel
    have hproblems : (Script.parse .sql110 viewInBlock).problems = [] := by decide +kernel
    have hschema : ∀ g ∈ guards (fun _ _ => true) (Script.parse .sql110 viewInBlock).body,
        g.isSchema = false := by
      decide +kernel
    obtain ⟨outcome, hrun, -, hiff⟩ := guarded_problems_iff hproblems hschema .crlf
    refine ⟨outcome, hrun, fun hnone => ?_⟩
    have hopen := ((hiff (by decide +kernel)).mp hnone _ _ _ hbody (by decide +kernel)).2
    revert hopen
    decide +kernel
  · have hproblems : (Script.parse .sql110 escapedQuoteView).problems = [] := by decide +kernel
    have hschema : ∀ g ∈ guards (fun _ _ => true) (Script.parse .sql110 escapedQuoteView).body,
        g.isSchema = false := by
      decide +kernel
    obtain ⟨outcome, hrun, hread, -⟩ := guarded_problems_iff hproblems hschema .crlf
    refine ⟨outcome, hrun, fun hface => ?_, ?_, ?_⟩
    · have hnames := hread.mp hface
      revert hnames
      decide +kernel
    · have hsome : ((guardCreates (fun _ _ => true) .crlf).run .sql110
          escapedQuoteView).toOption.all fun o =>
            (Script.parse .sql110 o.output).problems ≠ [] := by
        decide +kernel
      rw [hrun] at hsome
      simpa [Except.toOption] using hsome
    · intro pre t post hbody hguard
      have hfirst : ∀ n < (Script.parse .sql110 escapedQuoteView).body.length,
          (guardedAt (fun _ _ => true)
            ((Script.parse .sql110 escapedQuoteView).body.drop n)).isSome → n = 0 := by
        decide +kernel
      have hlen := hfirst pre.length (by rw [hbody]; simp)
        (by rw [hbody, List.drop_left]; exact hguard)
      obtain rfl := List.length_eq_zero_iff.mp hlen
      exact ⟨rfl, rfl⟩

end Pass

end Tsql
