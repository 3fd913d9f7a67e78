import Mathlib.Data.List.Forall2
import Tsql.Pass

/-!
# Passes that take one token at a time

Most decisions of a pass take no token but the one they are made at. Over
a stretch of such decisions a run is a plain recursion on the tokens:
`decisions` lists what was decided at each of them, and
`traceFrom_eq_decisions` says that the run is that list, put together.

A pass sees the tokens from its place on and nothing else of its cursor;
`Sees` says with which function of these tokens it decides.
-/

namespace Tsql

namespace Pass

/-- The pass decides by the tokens from its place on. -/
def Sees (pass : Pass) (choose : List Token → Except Error Decision) : Prop :=
  ∀ (c : Cursor) (t : Token) (ts : List Token), c.ahead = t :: ts →
    pass.step t c = choose (t :: ts)

/-- What is decided at each of the tokens. -/
def decisions (choose : List Token → Except Error Decision) :
    List Token → Except Error (List Decision)
  | [] => .ok []
  | t :: ts => do
    let d ← choose (t :: ts)
    let more ← decisions choose ts
    return d :: more

theorem bind_eq_ok_iff {ε α β : Type} {x : Except ε α} {f : α → Except ε β} {b : β} :
    (x >>= f) = .ok b ↔ ∃ a, x = .ok a ∧ f a = .ok b := by
  cases x with
  | error e => simp [bind, Except.bind]
  | ok a => simp [bind, Except.bind]

theorem eq_ok_of_toOption {ε α : Type} {x : Except ε α} {a : α} (h : x.toOption = some a) :
    x = .ok a := by
  cases x with
  | error e => cases h
  | ok b =>
      cases h
      rfl

theorem decisions_cons_eq_ok_iff {choose : List Token → Except Error Decision} {t : Token}
    {ts : List Token} {ds : List Decision} :
    decisions choose (t :: ts) = .ok ds ↔
      ∃ d more, choose (t :: ts) = .ok d ∧ decisions choose ts = .ok more ∧ d :: more = ds := by
  simp only [decisions, bind_eq_ok_iff, pure, Except.pure, Except.ok.injEq, exists_and_left]

/-! ## One step of a run -/

theorem traceFrom_nil {pass : Pass} {c : Cursor} (h : c.ahead = []) :
    pass.traceFrom c = .ok ⟨[], [], c.diagnostics⟩ := by
  rw [traceFrom]
  split
  · rfl
  · rename_i hcons
    rw [h] at hcons
    cases hcons

theorem traceFrom_cons {pass : Pass} {c : Cursor} {t : Token} {ts : List Token}
    (h : c.ahead = t :: ts) :
    pass.traceFrom c = do
      let d ← pass.step t c
      let rest ← pass.traceFrom (d.move c).advance
      return ⟨d.emitted ++ rest.emitted, d.asked ++ rest.asked, rest.reports⟩ := by
  rw [traceFrom]
  split
  · rename_i hnil
    rw [h] at hnil
    cases hnil
  · rename_i u us hcons
    obtain ⟨rfl, rfl⟩ := List.cons.inj (h.symm.trans hcons)
    rfl

theorem diagnostics_consumeN (c : Cursor) (n : Nat) :
    (c.consumeN n).diagnostics = c.diagnostics := by
  induction n generalizing c with
  | zero => rfl
  | succ n ih =>
      rw [Cursor.consumeN, ih, Cursor.consume]
      split <;> rfl

theorem diagnostics_advance (c : Cursor) : c.advance.diagnostics = c.diagnostics := by
  rw [Cursor.advance]
  split <;> rfl

theorem diagnostics_move_advance (d : Decision) (c : Cursor) :
    (d.move c).advance.diagnostics = c.diagnostics ++ d.reports := by
  rw [diagnostics_advance, Decision.move, Cursor.report, diagnostics_consumeN]

/-- A run in which every decision takes its own token only. -/
theorem traceFrom_eq_decisions {pass : Pass} {choose : List Token → Except Error Decision}
    (hsees : pass.Sees choose) (c : Cursor)
    (hone : ∀ pre t post d, c.ahead = pre ++ t :: post → choose (t :: post) = .ok d →
      d.consumed = 0) :
    pass.traceFrom c = (decisions choose c.ahead).map fun ds =>
      ⟨ds.flatMap Decision.emitted, ds.flatMap Decision.asked,
        c.diagnostics ++ ds.flatMap Decision.reports⟩ := by
  generalize htokens : c.ahead = tokens at hone ⊢
  induction tokens generalizing c with
  | nil =>
      rw [traceFrom_nil htokens]
      simp [decisions, Except.map]
  | cons t ts ih =>
      rw [traceFrom_cons htokens, hsees c t ts htokens, decisions]
      cases hd : choose (t :: ts) with
      | error e => rfl
      | ok d =>
          have hzero := hone [] t ts d rfl hd
          have hmove : d.move c = c.report d.reports := by
            rw [Decision.move, hzero]
            rfl
          have hahead : (d.move c).advance.ahead = ts := by
            rw [hmove, Cursor.ahead_advance, Cursor.ahead_report, htokens]
            rfl
          have hrest := ih (d.move c).advance hahead
            fun pre u post e heq => hone (t :: pre) u post e (by rw [heq]; rfl)
          rw [diagnostics_move_advance] at hrest
          simp only [bind, Except.bind, hrest]
          cases decisions choose ts with
          | error e => rfl
          | ok more => simp [Except.map, pure, Except.pure]

/-! ## Decisions by the token alone -/

section OneToken

variable {choose : List Token → Except Error Decision} {verdict : Token → Except Error Decision}

theorem decisions_eq_ok_iff (halone : ∀ t ts, choose (t :: ts) = verdict t) {ts : List Token}
    {ds : List Decision} :
    decisions choose ts = .ok ds ↔ List.Forall₂ (fun t d => verdict t = .ok d) ts ds := by
  induction ts generalizing ds with
  | nil =>
      rw [decisions, List.forall₂_nil_left_iff, Except.ok.injEq]
      exact eq_comm
  | cons t ts ih =>
      rw [decisions_cons_eq_ok_iff, halone]
      constructor
      · rintro ⟨d, more, hd, hmore, rfl⟩
        exact .cons hd (ih.mp hmore)
      · rintro (_ | ⟨hd, hmore⟩)
        exact ⟨_, _, hd, ih.mpr hmore, rfl⟩

/-- The error is that of the first token at which there is one. -/
theorem decisions_eq_error_iff (halone : ∀ t ts, choose (t :: ts) = verdict t) {ts : List Token}
    {e : Error} :
    decisions choose ts = .error e ↔
      ∃ pre t post, ts = pre ++ t :: post ∧ (∀ u ∈ pre, ∀ e', verdict u ≠ .error e') ∧
        verdict t = .error e := by
  induction ts with
  | nil =>
      constructor
      · intro h
        cases h
      · rintro ⟨pre, t, post, heq, -⟩
        simp at heq
  | cons t ts ih =>
      rw [decisions, halone]
      cases ht : verdict t with
      | error e' =>
          constructor
          · intro h
            cases h
            exact ⟨[], t, ts, rfl, by simp, ht⟩
          · rintro ⟨pre, u, post, heq, hpre, hu⟩
            cases pre with
            | nil =>
                obtain ⟨rfl, rfl⟩ := List.cons.inj heq
                obtain rfl := Except.error.inj (ht.symm.trans hu)
                rfl
            | cons v pre =>
                obtain ⟨rfl, -⟩ := List.cons.inj heq
                exact absurd ht (hpre t List.mem_cons_self e')
      | ok d =>
          have hmore : (do
              let d ← Except.ok d
              let more ← decisions choose ts
              return d :: more : Except Error (List Decision)) = .error e ↔
              decisions choose ts = .error e := by
            cases decisions choose ts <;> simp [bind, Except.bind, pure, Except.pure]
          rw [hmore, ih]
          constructor
          · rintro ⟨pre, u, post, rfl, hpre, hu⟩
            refine ⟨t :: pre, u, post, rfl, ?_, hu⟩
            rintro v hv e'
            rcases List.mem_cons.mp hv with rfl | hv
            · rw [ht]
              simp
            · exact hpre v hv e'
          · rintro ⟨pre, u, post, heq, hpre, hu⟩
            cases pre with
            | nil =>
                obtain ⟨rfl, rfl⟩ := List.cons.inj heq
                rw [ht] at hu
                cases hu
            | cons v pre =>
                obtain ⟨rfl, rfl⟩ := List.cons.inj heq
                exact ⟨pre, u, post, rfl, fun w hw => hpre w (List.mem_cons_of_mem _ hw), hu⟩

end OneToken

/-! ## A script under such a pass -/

theorem run_of_problems {pass : Pass} {level : Level} {script : Text}
    (h : (Script.parse level script).problems ≠ []) :
    pass.run level script = .ok ⟨script, (Script.parse level script).problems, [], []⟩ := by
  unfold run
  simp only [if_neg h]

/-- Over a script without problems the outcome is that of the trace. -/
theorem run_eq_map {pass : Pass} {level : Level} {script : Text}
    (h : (Script.parse level script).problems = []) :
    pass.run level script =
      (pass.traceFrom (.start (Script.parse level script).body)).map fun trace =>
        ⟨Token.textOf trace.emitted, [], trace.reports, trace.asked⟩ := by
  unfold run
  simp only [if_pos h]
  cases pass.traceFrom (.start (Script.parse level script).body) <;> rfl

theorem run_eq_ok_iff {pass : Pass} {level : Level} {script : Text} {outcome : Outcome}
    (h : (Script.parse level script).problems = []) :
    pass.run level script = .ok outcome ↔
      ∃ trace, pass.traceFrom (.start (Script.parse level script).body) = .ok trace ∧
        ⟨Token.textOf trace.emitted, [], trace.reports, trace.asked⟩ = outcome := by
  rw [run_eq_map h]
  cases pass.traceFrom (.start (Script.parse level script).body) <;> simp [Except.map]

theorem run_eq_error_iff {pass : Pass} {level : Level} {script : Text} {e : Error}
    (h : (Script.parse level script).problems = []) :
    pass.run level script = .error e ↔
      pass.traceFrom (.start (Script.parse level script).body) = .error e := by
  rw [run_eq_map h]
  cases pass.traceFrom (.start (Script.parse level script).body) <;> simp [Except.map]

theorem trace_eq_ok_iff {pass : Pass} {choose : List Token → Except Error Decision}
    (hsees : pass.Sees choose) {tokens : List Token}
    (hone : ∀ pre t post d, tokens = pre ++ t :: post → choose (t :: post) = .ok d →
      d.consumed = 0) {trace : Trace} :
    pass.traceFrom (.start tokens) = .ok trace ↔
      ∃ ds, decisions choose tokens = .ok ds ∧
        ⟨ds.flatMap Decision.emitted, ds.flatMap Decision.asked,
          ds.flatMap Decision.reports⟩ = trace := by
  rw [traceFrom_eq_decisions hsees (.start tokens) hone]
  simp only [Cursor.start, Cursor.seek, List.drop_zero]
  cases decisions choose tokens <;> simp [Except.map]

theorem trace_eq_error_iff {pass : Pass} {choose : List Token → Except Error Decision}
    (hsees : pass.Sees choose) {tokens : List Token}
    (hone : ∀ pre t post d, tokens = pre ++ t :: post → choose (t :: post) = .ok d →
      d.consumed = 0) {e : Error} :
    pass.traceFrom (.start tokens) = .error e ↔ decisions choose tokens = .error e := by
  rw [traceFrom_eq_decisions hsees (.start tokens) hone]
  simp only [Cursor.start, Cursor.seek, List.drop_zero]
  cases decisions choose tokens <;> simp [Except.map]

/-- One pass of several. -/
theorem runAllFrom_cons {pass : Pass} {more : List Pass} {level : Level} {o next : Outcome}
    (h : pass.run level o.output = .ok next) :
    runAllFrom level o (pass :: more) =
      if next.problems = [] then runAllFrom level (o.andThen next) more
      else .ok (o.andThen next) := by
  have hok : (o.andThen next).isOk = true ↔ next.problems = [] := List.isEmpty_iff
  rw [runAllFrom, h]
  simp only [bind, Except.bind, hok]
  rfl

/-- Two passes, where the first finds no problems. -/
theorem runAll_pair {first second : Pass} {level : Level} {script : Text} {o next : Outcome}
    (hfirst : first.run level script = .ok o) (hclean : o.problems = [])
    (hsecond : second.run level o.output = .ok next) :
    runAll [first, second] level script = .ok (o.andThen next) := by
  have hstart : (Outcome.start script).andThen o = o := rfl
  rw [runAll, runAllFrom_cons hfirst, if_pos hclean, hstart, runAllFrom_cons hsecond, runAllFrom]
  split <;> rfl

end Pass

end Tsql
