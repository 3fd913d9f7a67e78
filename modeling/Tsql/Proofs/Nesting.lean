import Tsql.Proofs.Reading

/-!
# What the checks of a script depend on

The checks go over the tokens with two stacks of what is open. Whether
they find anything depends on little: on the heights of the stacks, on
kind and text of each token, and on three questions about the next one
(`lookahead`). Positions and texts are kept for the wording only. Two
states that differ in nothing else are `Alike`, and stay so.

What was found is never forgotten, so a run that ends without finding
anything found nothing on the way.
-/

namespace Tsql

namespace Structure

variable {level : Level}

/-! ## Runs in parts -/

/-- All tokens in order, with `next` behind them. -/
def State.runBefore (level : Level) (s : State) (next : Option Token) : List Token → State
  | [] => s
  | t :: ts => (s.step level t (ts.head?.or next)).runBefore level next ts

theorem run_append (s : State) (ts us : List Token) :
    s.run level (ts ++ us) = (s.runBefore level us.head? ts).run level us := by
  induction ts generalizing s with
  | nil => rfl
  | cons t ts ih =>
      rw [List.cons_append, State.run, State.runBefore, ih, List.head?_append]

/-- The state in which a token is met. -/
def stateAt (level : Level) (before : List Token) (t : Token) : State :=
  State.start.runBefore level (some t) (before.filter isSignificant)

/-! ## The next token -/

/-- What is asked about the next token. -/
def lookahead (next : Option Token) : Bool × Bool × Bool :=
  (next.any beginsStatement, next.any (·.isWord "CONVERSATION"),
    next.any (·.kind = .leftParen))

theorem step_lookahead (s : State) (t : Token) {next next' : Option Token}
    (h : lookahead next = lookahead next') : s.step level t next = s.step level t next' := by
  obtain ⟨hbegin, hmore⟩ := Prod.mk.inj h
  obtain ⟨hend, hparen⟩ := Prod.mk.inj hmore
  unfold State.step
  rw [hbegin, hend, hparen]

theorem lookahead_face {t u : Token} (h : t.face = u.face) :
    lookahead (some t) = lookahead (some u) := by
  obtain ⟨hkind, htext⟩ := Prod.mk.inj h
  simp only [lookahead, Option.any_some, beginsStatement, List.any_cons, List.any_nil,
    Token.isWord, hkind, htext]

/-- Three keywords open and close blocks; the others leave everything as
it is. -/
theorem step_of_isKeyword {t : Token} {word : String} (h : t.isKeyword word = true)
    (hword : ∀ other ∈ ["BEGIN", "CASE", "END"],
      word.toList.map Char.toUpper ≠ other.toList.map Char.toUpper)
    (s : State) (next : Option Token) : s.step level t next = s := by
  have hother : ∀ other ∈ ["BEGIN", "CASE", "END"], t.isKeyword other = false :=
    fun other hmem => not_isKeyword_of_isKeyword h (hword other hmem)
  simp [State.step, kind_of_isKeyword h, hother]

/-! ## States that differ in wording only -/

/-- The same number of things open, and something found in both or
neither. -/
structure State.Alike (s s' : State) : Prop where
  parens : s.parens.length = s'.parens.length
  blocks : s.blocks.length = s'.blocks.length
  found : s.found = [] ↔ s'.found = []

theorem State.Alike.refl (s : State) : s.Alike s := ⟨rfl, rfl, Iff.rfl⟩

theorem State.Alike.parens_eq_nil {s s' : State} (h : s.Alike s') :
    s.parens = [] ↔ s'.parens = [] := by
  rw [← List.length_eq_zero_iff, h.parens, List.length_eq_zero_iff]

theorem State.Alike.blocks_eq_nil {s s' : State} (h : s.Alike s') :
    s.blocks = [] ↔ s'.blocks = [] := by
  rw [← List.length_eq_zero_iff, h.blocks, List.length_eq_zero_iff]

theorem closeWith_alike (here here' : Opening) {opens opens' : List Opening}
    {found found' : List Problem} (hopens : opens.length = opens'.length)
    (hfound : found = [] ↔ found' = []) :
    (closeWith opens here found).1.length = (closeWith opens' here' found').1.length ∧
      ((closeWith opens here found).2 = [] ↔ (closeWith opens' here' found').2 = []) := by
  cases opens with
  | nil =>
      obtain rfl := List.length_eq_zero_iff.mp hopens.symm
      simp [closeWith]
  | cons o os =>
      cases opens' with
      | nil => cases hopens
      | cons o' os' => exact ⟨Nat.succ.inj hopens, hfound⟩

theorem closeBatch_found_iff (s : State) :
    s.closeBatch.found = [] ↔ s.parens = [] ∧ s.blocks = [] ∧ s.found = [] := by
  simp [State.closeBatch, and_left_comm]

theorem State.Alike.closeBatch {s s' : State} (h : s.Alike s') :
    s.closeBatch.Alike s'.closeBatch := by
  refine ⟨rfl, rfl, ?_⟩
  rw [closeBatch_found_iff, closeBatch_found_iff, h.parens_eq_nil, h.blocks_eq_nil, h.found]

theorem State.Alike.step {s s' : State} (h : s.Alike s') {t t' : Token} (hface : t.face = t'.face)
    {next next' : Option Token} (hnext : lookahead next = lookahead next') :
    (s.step level t next).Alike (s'.step level t' next') := by
  rw [step_lookahead s t hnext]
  obtain ⟨hkind, htext⟩ := Prod.mk.inj hface
  have hkeyword : ∀ word, t.isKeyword word = t'.isKeyword word := by
    intro word
    simp only [Token.isKeyword, hkind, htext]
  have hopened : ∀ (o o' : Opening), (o :: s.blocks).length = (o' :: s'.blocks).length := by
    intro o o'
    rw [List.length_cons, List.length_cons, h.blocks]
  unfold State.step
  dsimp only
  rw [hkind, hkeyword, hkeyword, hkeyword]
  by_cases hleft : t'.kind = .leftParen
  · rw [if_pos hleft, if_pos hleft]
    exact ⟨by rw [List.length_cons, List.length_cons, h.parens], h.blocks, h.found⟩
  rw [if_neg hleft, if_neg hleft]
  by_cases hright : t'.kind = .rightParen
  · rw [if_pos hright, if_pos hright]
    have hclose := closeWith_alike ⟨t.position.getD .start, t.text⟩
      ⟨t'.position.getD .start, t'.text⟩ h.parens h.found
    exact ⟨hclose.1, h.blocks, hclose.2⟩
  rw [if_neg hright, if_neg hright]
  by_cases hbegin : t'.isKeyword "BEGIN" = true
  · rw [if_pos hbegin, if_pos hbegin]
    split
    · exact h
    · exact ⟨h.parens, hopened _ _, h.found⟩
  rw [if_neg hbegin, if_neg hbegin]
  by_cases hcase : t'.isKeyword "CASE" = true
  · rw [if_pos hcase, if_pos hcase]
    exact ⟨h.parens, hopened _ _, h.found⟩
  rw [if_neg hcase, if_neg hcase]
  by_cases hend : t'.isKeyword "END" = true
  · rw [if_pos hend, if_pos hend]
    split
    · exact h
    · have hclose := closeWith_alike ⟨t.position.getD .start, t.text⟩
        ⟨t'.position.getD .start, t'.text⟩ h.blocks h.found
      exact ⟨h.parens, hclose.1, hclose.2⟩
  rw [if_neg hend, if_neg hend]
  by_cases hsep : t'.kind = .batchSeparator
  · rw [if_pos hsep, if_pos hsep]
    exact h.closeBatch
  rw [if_neg hsep, if_neg hsep, htext]
  split
  · split
    · exact ⟨h.parens, h.blocks, by simp⟩
    · exact h
  · exact h

theorem lookahead_head_congr {ts us : List Token} (h : ts.map Token.face = us.map Token.face) :
    lookahead ts.head? = lookahead us.head? := by
  cases ts with
  | nil =>
      obtain rfl := List.map_eq_nil_iff.mp h.symm
      rfl
  | cons t ts =>
      cases us with
      | nil => cases h
      | cons u us => exact lookahead_face (List.cons.inj h).1

theorem State.Alike.run {s s' : State} (h : s.Alike s') {ts us : List Token}
    (hface : ts.map Token.face = us.map Token.face) :
    (s.run level ts).Alike (s'.run level us) := by
  induction ts generalizing s s' us with
  | nil =>
      obtain rfl := List.map_eq_nil_iff.mp hface.symm
      exact h
  | cons t ts ih =>
      cases us with
      | nil => cases hface
      | cons u us =>
          obtain ⟨hhere, hmore⟩ := List.cons.inj hface
          exact ih (h.step hhere (lookahead_head_congr hmore)) hmore

/-! ## What was found stays found -/

theorem found_of_step {s : State} {t : Token} {next : Option Token}
    (h : (s.step level t next).found = []) : s.found = [] := by
  have hclose : ∀ {opens : List Opening} {here : Opening},
      (closeWith opens here s.found).2 = [] → s.found = [] := by
    intro opens here hfound
    cases opens with
    | nil => cases hfound
    | cons o os => exact hfound
  unfold State.step at h
  dsimp only at h
  split at h
  · exact h
  split at h
  · exact hclose h
  split at h
  · split at h <;> exact h
  split at h
  · exact h
  split at h
  · split at h
    · exact h
    · exact hclose h
  split at h
  · exact ((closeBatch_found_iff s).mp h).2.2
  split at h
  · split at h
    · cases h
    · exact h
  · exact h

theorem found_of_run {s : State} {ts : List Token} (h : (s.run level ts).found = []) :
    s.found = [] := by
  induction ts generalizing s with
  | nil => exact h
  | cons t ts ih => exact found_of_step (ih h)

/-! ## The checks as a whole -/

/-- Whether the checks find nothing from a state on. -/
def Passes (level : Level) (s : State) (tokens : List Token) : Prop :=
  ((s.run level (tokens.filter isSignificant)).closeBatch).found = []

theorem problems_eq_nil_iff (tokens : List Token) :
    problems level tokens = [] ↔ Passes level .start tokens := by
  unfold problems Passes
  dsimp only
  rw [← List.length_eq_zero_iff, List.length_mergeSort, List.length_reverse,
    List.length_eq_zero_iff]

theorem Passes.found {s : State} {tokens : List Token} (h : Passes level s tokens) :
    s.found = [] :=
  found_of_run ((closeBatch_found_iff _).mp h).2.2

theorem filter_isSignificant_congr {ts us : List Token}
    (h : ts.map Token.face = us.map Token.face) :
    (ts.filter isSignificant).map Token.face = (us.filter isSignificant).map Token.face := by
  refine filter_congr_face (fun t u hface => ?_) h
  simp only [isSignificant, Token.isWhitespace, Token.isComment, (Prod.mk.inj hface).1]

/-- The checks see kinds and texts only. -/
theorem passes_congr {s s' : State} (h : s.Alike s') {ts us : List Token}
    (hface : ts.map Token.face = us.map Token.face) :
    Passes level s ts ↔ Passes level s' us :=
  (h.run (filter_isSignificant_congr hface)).closeBatch.found

/-- The problems of a script that was read are those of its structure. -/
theorem parse_problems {source : Text} {raw : List Token}
    (h : tokensFrom .start source = .ok raw) :
    (Script.parse level source).problems = problems level (markBatches true raw) := by
  rw [Script.parse, h]

theorem passes_body {source : Text} (h : (Script.parse level source).problems = []) :
    Passes level .start (Script.parse level source).body := by
  obtain ⟨raw, hraw, hbody⟩ := Script.tokensFrom_of_problems h
  rw [hbody, ← problems_eq_nil_iff, ← parse_problems hraw, h]

end Structure

end Tsql
