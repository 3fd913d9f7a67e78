import Mathlib.Data.List.Basic
import Tsql.Pass.Expand
import Tsql.Pass.Rename
import Tsql.Proofs.Trace

/-!
# Passes one after the other

Each pass of a sequence reads the text that the one before it made. It can
fail, find problems and leave the text as it is, or go through; only after
the last does another pass follow. What was reported and asked is carried
along.

What a sequence does from some outcome on is what it does from its text
on, behind that outcome (`runAllFrom_eq_map`); so a sequence can be taken
apart anywhere (`runAll_append`). Where problems come up, the text of the
pass that found them is still there, and since every pass would have been
told of the same problems, it does not matter which passes were left
(`runAllFrom_of_problems`).
-/

namespace Tsql

namespace Pass

namespace Outcome

theorem andThen_assoc (o next last : Outcome) :
    (o.andThen next).andThen last = o.andThen (next.andThen last) := by
  simp [andThen]

/-- Nothing was done to the text yet. -/
theorem andThen_start {o : Outcome} (h : o.problems = []) : o.andThen (start o.output) = o := by
  obtain ⟨output, problems, diagnostics, asked⟩ := o
  obtain rfl : problems = [] := h
  simp [andThen, start]

/-- The outcome, once its text was found to have problems. -/
def stopped (level : Level) (o : Outcome) : Outcome :=
  { o with problems := (Script.parse level o.output).problems }

end Outcome

variable {level : Level}

/-! ## Taking a sequence apart -/

theorem runAllFrom_eq_map (passes : List Pass) {o : Outcome} (h : o.problems = []) :
    runAllFrom level o passes = (runAll passes level o.output).map o.andThen := by
  induction passes generalizing o with
  | nil =>
      rw [runAll, runAllFrom, runAllFrom, Except.map, Outcome.andThen_start h]
  | cons pass more ih =>
      rw [runAll]
      cases hrun : pass.run level o.output with
      | error e => simp [runAllFrom, Outcome.start, hrun, bind, Except.bind, Except.map]
      | ok next =>
          have hstart : (Outcome.start o.output).andThen next = next := rfl
          have houtput : (o.andThen next).output = next.output := rfl
          rw [runAllFrom_cons hrun, runAllFrom_cons (o := .start o.output) hrun, hstart]
          by_cases hclean : next.problems = []
          · rw [if_pos hclean, if_pos hclean, ih (o := o.andThen next) hclean, ih hclean,
              houtput]
            cases runAll more level next.output with
            | error e => rfl
            | ok last => exact congrArg Except.ok (Outcome.andThen_assoc ..)
          · rw [if_neg hclean, if_neg hclean]
            rfl

theorem runAllFrom_append (first second : List Pass) {o : Outcome} (h : o.problems = []) :
    runAllFrom level o (first ++ second) = do
      let reached ← runAllFrom level o first
      if reached.problems = [] then runAllFrom level reached second else return reached := by
  induction first generalizing o with
  | nil => simp [runAllFrom, bind, Except.bind, h]
  | cons pass more ih =>
      cases hrun : pass.run level o.output with
      | error e => simp [runAllFrom, hrun, bind, Except.bind]
      | ok next =>
          rw [List.cons_append, runAllFrom_cons hrun, runAllFrom_cons hrun]
          by_cases hclean : next.problems = []
          · rw [if_pos hclean, if_pos hclean, ih (o := o.andThen next) hclean]
          · have hbad : (o.andThen next).problems ≠ [] := hclean
            rw [if_neg hclean, if_neg hclean]
            simp [bind, Except.bind, hbad, pure, Except.pure]

theorem runAll_append (first second : List Pass) (level : Level) (script : Text) :
    runAll (first ++ second) level script =
      match runAll first level script with
      | .error e => .error e
      | .ok o =>
        if o.problems = [] then (runAll second level o.output).map o.andThen else .ok o := by
  rw [runAll, runAllFrom_append first second rfl, ← runAll]
  cases runAll first level script with
  | error e => rfl
  | ok o =>
      by_cases hclean : o.problems = []
      · simp only [bind, Except.bind, if_pos hclean, runAllFrom_eq_map second hclean]
      · simp only [bind, Except.bind, if_neg hclean, pure, Except.pure]

/-! ## Where problems come up -/

/-- Problems are the same for every pass, and the first that is told of
them is the last. -/
theorem runAllFrom_of_problems {o : Outcome}
    (h : (Script.parse level o.output).problems ≠ []) {passes : List Pass} (hsome : passes ≠ []) :
    runAllFrom level o passes = .ok (o.stopped level) := by
  obtain ⟨pass, more, rfl⟩ := List.exists_cons_of_ne_nil hsome
  rw [runAllFrom_cons (run_of_problems h), if_neg h]
  simp [Outcome.andThen, Outcome.stopped]

/-- A run that ends in problems went through up to some pass, which found
them in the text it was given. -/
theorem exists_stop {passes : List Pass} {o last : Outcome} (hclean : o.problems = [])
    (hrun : runAllFrom level o passes = .ok last) (hproblems : last.problems ≠ []) :
    ∃ before pass behind reached, passes = before ++ pass :: behind ∧
      runAllFrom level o before = .ok reached ∧ reached.problems = [] ∧
      (Script.parse level reached.output).problems ≠ [] := by
  induction passes generalizing o with
  | nil =>
      obtain rfl := Except.ok.inj hrun
      exact absurd hclean hproblems
  | cons pass more ih =>
      by_cases htext : (Script.parse level o.output).problems = []
      · rw [runAllFrom] at hrun
        obtain ⟨next, hnext, hmore⟩ := bind_eq_ok_iff.mp hrun
        obtain ⟨trace, -, rfl⟩ := (run_eq_ok_iff htext).mp hnext
        obtain ⟨before, stop, behind, reached, rfl, hbefore, hreached⟩ := ih rfl hmore
        refine ⟨pass :: before, stop, behind, reached, rfl, ?_, hreached⟩
        rw [runAllFrom_cons hnext, if_pos rfl, hbefore]
      · exact ⟨[], pass, more, o, rfl, rfl, hclean, htext⟩

/-- Up to the pass that finds problems the parts of a sequence are clean,
and no further. -/
theorem clean_take_iff {level : Level} {script : Text} {before behind : List Pass} {pass : Pass}
    {reached last : Outcome} (hbefore : runAll before level script = .ok reached)
    (hclean : reached.problems = []) (hproblems : last.problems ≠ [])
    (hothers : ∀ others : List Pass, others ≠ [] →
      runAll (before ++ others) level script = .ok last)
    (n : Nat) :
    (∃ o, runAll ((before ++ pass :: behind).take n) level script = .ok o ∧ o.problems = []) ↔
      n ≤ before.length := by
  constructor
  · rintro ⟨o, ho, hok⟩
    by_contra hlong
    have hsome : (pass :: behind).take (n - before.length) ≠ [] := by
      rw [Ne, List.take_eq_nil_iff]
      rintro (hzero | hnil)
      · omega
      · cases hnil
    rw [List.take_append, List.take_of_length_le (by omega), hothers _ hsome] at ho
    obtain rfl := Except.ok.inj ho
    exact hproblems hok
  · intro hshort
    have hsplit := runAll_append (before.take n) (before.drop n) level script
    rw [List.take_append_drop, hbefore] at hsplit
    rw [List.take_append_of_le_length hshort]
    cases hpart : runAll (before.take n) level script with
    | error e =>
        rw [hpart] at hsplit
        cases hsplit
    | ok o =>
        refine ⟨o, rfl, ?_⟩
        by_contra hbad
        rw [hpart] at hsplit
        simp only [if_neg hbad, Except.ok.injEq] at hsplit
        exact hbad (hsplit ▸ hclean)

/-- A sequence of passes does what its first part does, and then, unless
that fails or ends in problems, what its second part does with the text.

A run that ends in problems has the text that the pass which found them
was given: the output of the longest first part that found none. That pass
and those behind it were not consulted. Any others in their place come to
the same outcome, with nothing reported and nothing asked beyond what was
before. -/
theorem runAll_composes (level : Level) (script : Text) :
    (∀ first second : List Pass,
      runAll (first ++ second) level script =
        match runAll first level script with
        | .error e => .error e
        | .ok o =>
          if o.problems = [] then (runAll second level o.output).map o.andThen else .ok o) ∧
    ∀ (passes : List Pass) (last : Outcome),
      runAll passes level script = .ok last → last.problems ≠ [] →
      ∃ before pass behind reached, passes = before ++ pass :: behind ∧
        runAll before level script = .ok reached ∧ reached.problems = [] ∧
        (∀ n ≤ passes.length,
          (∃ o, runAll (passes.take n) level script = .ok o ∧ o.problems = []) ↔
            n ≤ before.length) ∧
        last = ⟨reached.output, (Script.parse level reached.output).problems,
          reached.diagnostics, reached.asked⟩ ∧
        ∀ others : List Pass, others ≠ [] →
          runAll (before ++ others) level script = .ok last := by
  refine ⟨fun first second => runAll_append first second level script, ?_⟩
  intro passes last hrun hproblems
  obtain ⟨before, pass, behind, reached, rfl, hbefore, hclean, htext⟩ :=
    exists_stop rfl hrun hproblems
  rw [← runAll] at hbefore
  have hothers : ∀ others : List Pass, others ≠ [] →
      runAll (before ++ others) level script = .ok (reached.stopped level) := by
    intro others hsome
    rw [runAll, runAllFrom_append before others rfl, ← runAll, hbefore]
    simp only [bind, Except.bind, if_pos hclean, runAllFrom_of_problems htext hsome]
  obtain rfl : reached.stopped level = last :=
    Except.ok.inj ((hothers (pass :: behind) (List.cons_ne_nil _ _)).symm.trans hrun)
  exact ⟨before, pass, behind, reached, rfl, hbefore, hclean,
    fun n _ => clean_take_iff hbefore hclean hproblems hothers n, rfl, hothers⟩

/-- A comment that is expanded to a parenthesis, which nothing closes. -/
def openedByExpansion : Text := "SELECT /*\x7b\x7bOPEN\x7d\x7d*/ a".toList

def openingEnvironment : Environment := ⟨[("OPEN".toList, .string ['('])]⟩

/-- Three passes, of which the second finds the parenthesis. -/
def openingPasses : List Pass :=
  [.expandComments .standard openingEnvironment .sql110, .renameIdentifiers id, .identity]

/-- What is left when the second pass has found it. -/
def openedOutcome : Outcome := ⟨"SELECT ( a".toList, [⟨⟨1, 8⟩, .near ['(']⟩], [], []⟩

theorem runAll_composes_openedByExpansion :
    runAll openingPasses .sql110 openedByExpansion = .ok openedOutcome ∧
    openedOutcome.problems ≠ [] ∧
    ∃ before : List Pass, before.length = 1 ∧ ∀ others : List Pass, others ≠ [] →
      runAll (before ++ others) .sql110 openedByExpansion = .ok openedOutcome := by
  have hrun : runAll openingPasses .sql110 openedByExpansion = .ok openedOutcome := by
    decide +kernel
  have hproblems : openedOutcome.problems ≠ [] := by decide
  have hfirst : runAll (openingPasses.take 1) .sql110 openedByExpansion =
      .ok (.start openedOutcome.output) := by decide +kernel
  have hsecond : runAll (openingPasses.take 2) .sql110 openedByExpansion = .ok openedOutcome := by
    decide +kernel
  obtain ⟨before, pass, behind, reached, -, -, -, hlongest, -, hothers⟩ :=
    (runAll_composes .sql110 openedByExpansion).2 openingPasses openedOutcome hrun hproblems
  refine ⟨hrun, hproblems, before, Nat.le_antisymm ?_ ?_, hothers⟩
  · by_contra hlong
    obtain ⟨o, ho, hok⟩ := (hlongest 2 (by decide)).mpr (by omega)
    obtain rfl := Except.ok.inj (hsecond.symm.trans ho)
    exact hproblems hok
  · exact (hlongest 1 (by decide)).mp ⟨_, hfirst, rfl⟩

end Pass

end Tsql
