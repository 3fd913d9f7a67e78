import Tsql.Pass.Rename
import Tsql.Proofs.NameForms
import Tsql.Proofs.Taking

/-!
# Procedure names in a script

`procedureAt` says behind which keywords the name of a procedure is found.
`Renames` relates the tokens of a script to what the pass makes of them:
one constructor for a token that stays, one for a keyword with its name.
`run_renameProcedures` says that a run of the pass is such a derivation, so
that what holds of a run is proved by induction on it.

The name that is taken ends where its dots end, as long as it has at most
two parts and no comment stands before the next dot
(`short_name_whole`). A comment counts as a token here, and a dot behind
it is not seen.
-/

namespace Tsql

namespace Pass

variable {f : Text → Text → Text × Text} {level : Level}

/-! ## Where a name is found -/

/-- The name of a procedure behind the first of the tokens, and the number
of its tokens. -/
def procedureAt : List Token → Option (QualifiedName × Nat)
  | [] => none
  | t :: ts =>
    if introducesProcedure t then QualifiedName.read (ts.filter (!·.isWhitespace)) else none

theorem procedureAt_eq_some_iff {t : Token} {ts : List Token} {name : QualifiedName} {span : Nat} :
    procedureAt (t :: ts) = some (name, span) ↔
      introducesProcedure t = true ∧
        QualifiedName.Reads (ts.filter (!·.isWhitespace)) name span := by
  rw [procedureAt, ← QualifiedName.read_eq_some_iff]
  split <;> simp_all

/-- A keyword and the name behind it, under the name that the mapping
gives. -/
def renamedCall (f : Text → Text → Text × Text) (keyword : Token) (old : QualifiedName) :
    List Token :=
  let new := f old.schemaOrDefault old.object.value
  keyword :: .synthetic .whitespace [' '] :: renamedProcedure old new.1 new.2

/-- What is asked about a name. -/
def procedureQuestion (old : QualifiedName) : Question :=
  .object old.schemaOrDefault old.object.value

def procedureChoice (f : Text → Text → Text × Text) : List Token → Except Error Decision
  | [] => .ok { emitted := [] }
  | t :: ts => (renameProcedures f).step t (.start (t :: ts))

theorem renameProcedures_sees (f : Text → Text → Text × Text) :
    (renameProcedures f).Sees (procedureChoice f) := by
  intro c t ts h
  obtain ⟨size, position, ahead, diagnostics⟩ := c
  subst h
  rfl

theorem procedureChoice_of_none {t : Token} {ts : List Token} (h : procedureAt (t :: ts) = none) :
    procedureChoice f (t :: ts) = .ok (.keep t) := by
  have hread : introducesProcedure t = true →
      QualifiedName.peek (.start (t :: ts)) 1 = none := by
    intro hkeyword
    rwa [procedureAt, if_pos hkeyword] at h
  simp only [procedureChoice, renameProcedures]
  split
  · rename_i hkeyword
    rw [hread hkeyword]
  · rfl

theorem procedureChoice_of_some {t : Token} {ts : List Token} {old : QualifiedName} {span : Nat}
    (h : procedureAt (t :: ts) = some (old, span)) :
    procedureChoice f (t :: ts) =
      .ok { emitted := renamedCall f t old
            consumed := span
            asked := [procedureQuestion old] } := by
  have hkeyword : introducesProcedure t = true := (procedureAt_eq_some_iff.mp h).1
  have hread : QualifiedName.peek (.start (t :: ts)) 1 = some (old, span) := by
    rwa [procedureAt, if_pos hkeyword] at h
  simp only [procedureChoice, renameProcedures, if_pos hkeyword, hread]
  rfl

/-! ## Runs -/

/-- What the pass makes of the tokens, and what it asks on the way. -/
inductive Renames (f : Text → Text → Text × Text) :
    List Token → List Token → List Question → Prop where
  | nil : Renames f [] [] []
  | kept {t : Token} {ts us : List Token} {asked : List Question}
      (here : procedureAt (t :: ts) = none) (more : Renames f ts us asked) :
      Renames f (t :: ts) (t :: us) asked
  | named {t : Token} {ts us : List Token} {asked : List Question} {old : QualifiedName}
      {span : Nat} (here : procedureAt (t :: ts) = some (old, span))
      (more : Renames f (behind span ts) us asked) :
      Renames f (t :: ts) (renamedCall f t old ++ us) (procedureQuestion old :: asked)

theorem exists_renames (f : Text → Text → Text × Text) (ts : List Token) :
    ∃ us asked, Renames f ts us asked := by
  induction hn : ts.length using Nat.strongRecOn generalizing ts with
  | ind n ih =>
      cases ts with
      | nil => exact ⟨[], [], .nil⟩
      | cons t ts =>
          have hshorter : ∀ m, (behind m ts).length < n := by
            intro m
            have := length_behind_le m ts
            rw [List.length_cons] at hn
            omega
          cases hname : procedureAt (t :: ts) with
          | none =>
              obtain ⟨us, asked, hmore⟩ := ih _ (hshorter 0) _ rfl
              rw [behind_zero] at hmore
              exact ⟨t :: us, asked, .kept hname hmore⟩
          | some found =>
              obtain ⟨old, span⟩ := found
              obtain ⟨us, asked, hmore⟩ := ih _ (hshorter span) _ rfl
              exact ⟨_, _, .named hname hmore⟩

theorem Renames.passed {ts us : List Token} {asked : List Question} (h : Renames f ts us asked) :
    ∃ ds, Passed (procedureChoice f) ts ds ∧ ds.flatMap Decision.emitted = us ∧
      ds.flatMap Decision.asked = asked ∧ ds.flatMap Decision.reports = [] := by
  induction h with
  | nil => exact ⟨[], .nil, rfl, rfl, rfl⟩
  | @kept t ts us asked hhere _ ih =>
      obtain ⟨ds, hpassed, rfl, rfl, hreports⟩ := ih
      refine ⟨.keep t :: ds, .cons (procedureChoice_of_none hhere) ?_, rfl, rfl, hreports⟩
      rw [show (Decision.keep t).consumed = 0 from rfl, behind_zero]
      exact hpassed
  | named hhere _ ih =>
      obtain ⟨ds, hpassed, rfl, rfl, hreports⟩ := ih
      exact ⟨_ :: ds, .cons (procedureChoice_of_some hhere) hpassed, rfl, rfl, hreports⟩

theorem Renames.trace {ts us : List Token} {asked : List Question} (h : Renames f ts us asked) :
    (renameProcedures f).traceFrom (.start ts) = .ok ⟨us, asked, []⟩ := by
  obtain ⟨ds, hpassed, rfl, rfl, hreports⟩ := h.passed
  rw [traceFrom_of_passed (renameProcedures_sees f) hpassed (.start ts) rfl, hreports]
  rfl

theorem Renames.run {script : Text} {us : List Token} {asked : List Question}
    (hproblems : (Script.parse level script).problems = [])
    (h : Renames f (Script.parse level script).body us asked) :
    (renameProcedures f).run level script = .ok ⟨Token.textOf us, [], [], asked⟩ :=
  (run_eq_ok_iff hproblems).mpr ⟨_, h.trace, rfl⟩

/-- The pass comes to an end with every script, and reports nothing. -/
theorem run_renameProcedures (f : Text → Text → Text × Text) {script : Text}
    (hproblems : (Script.parse level script).problems = []) :
    ∃ us asked, Renames f (Script.parse level script).body us asked ∧
      (renameProcedures f).run level script = .ok ⟨Token.textOf us, [], [], asked⟩ := by
  obtain ⟨us, asked, h⟩ := exists_renames f (Script.parse level script).body
  exact ⟨us, asked, h, h.run hproblems⟩

/-! ## Where a name ends -/

/-- The token behind a name of one or two parts is no dot. -/
theorem not_dot_behind {t : Token} {ts : List Token} {old : QualifiedName} {span : Nat}
    (h : procedureAt (t :: ts) = some (old, span)) (hdatabase : old.database = none) :
    ∀ u ∈ ((behind span ts).filter (!·.isWhitespace)).head?, u.kind ≠ .dot := by
  rw [(filter_header_behind span ts).2]
  exact (procedureAt_eq_some_iff.mp h).2.ends hdatabase

/-- The pass takes names of one or two parts whole. Behind a name without
a database that is renamed, the next token but for white space is no dot;
so if it is no comment either, no dot follows behind comments. -/
theorem short_name_whole (f : Text → Text → Text × Text) {script : Text}
    (hproblems : (Script.parse level script).problems = []) :
    ∃ trace outcome,
      (renameProcedures f).traceFrom (.start (Script.parse level script).body) = .ok trace ∧
      (renameProcedures f).run level script = .ok outcome ∧
      outcome.output = Token.textOf trace.emitted ∧
      Renames f (Script.parse level script).body trace.emitted trace.asked ∧
      ∀ pre t post old span, (Script.parse level script).body = pre ++ t :: post →
        procedureAt (t :: post) = some (old, span) → old.database = none →
        (∀ u ∈ ((behind span post).filter (!·.isWhitespace)).head?, u.kind ≠ .dot) ∧
        ((∀ u ∈ ((behind span post).filter (!·.isWhitespace)).head?, u.isComment = false) →
          ∀ u ∈ ((behind span post).filter Structure.isSignificant).head?, u.kind ≠ .dot) := by
  obtain ⟨us, asked, hrenames, hrun⟩ := run_renameProcedures f hproblems
  refine ⟨_, _, hrenames.trace, hrun, rfl, hrenames, ?_⟩
  intro pre t post old span _ hname hdatabase
  have hdot := not_dot_behind hname hdatabase
  refine ⟨hdot, fun hcomment => ?_⟩
  rw [head?_filter_isSignificant hcomment]
  exact hdot

/-- White space around the dots, and a number that begins with one behind
the name. -/
def spacedCall : Text := "EXEC a . [b] .5".toList

theorem short_name_whole_spacedCall :
    (Script.parse .sql110 spacedCall).problems = [] ∧
    ∃ outcome, (renameProcedures fun s n => (s, "x_".toList ++ n)).run .sql110 spacedCall =
        .ok outcome ∧
      outcome.output = "EXEC a.[x_b] .5".toList ∧
      ∃ pre t post old span, (Script.parse .sql110 spacedCall).body = pre ++ t :: post ∧
        procedureAt (t :: post) = some (old, span) ∧ old.database = none ∧
        ∀ u ∈ ((behind span post).filter Structure.isSignificant).head?, u.kind ≠ .dot := by
  have hproblems : (Script.parse .sql110 spacedCall).problems = [] := by decide +kernel
  refine ⟨hproblems, ?_⟩
  obtain ⟨trace, outcome, -, hrun, -, -, hwhole⟩ :=
    short_name_whole (fun s n => (s, "x_".toList ++ n)) hproblems
  have hbody : (Script.parse .sql110 spacedCall).body =
      [] ++ ⟨.keyword, "EXEC".toList, some ⟨1, 1⟩⟩ ::
        (Script.parse .sql110 spacedCall).body.tail := by
    decide +kernel
  have hname : procedureAt (⟨.keyword, "EXEC".toList, some ⟨1, 1⟩⟩ ::
      (Script.parse .sql110 spacedCall).body.tail) =
        some (⟨none, some ⟨['a'], none⟩, ⟨['b'], some .bracket⟩⟩, 3) := by
    decide +kernel
  have hresult : (renameProcedures fun s n => (s, "x_".toList ++ n)).run .sql110 spacedCall =
      .ok ⟨"EXEC a.[x_b] .5".toList, [], [], [.object ['a'] ['b']]⟩ := by
    decide +kernel
  obtain rfl := Except.ok.inj (hrun.symm.trans hresult)
  exact ⟨_, hrun, rfl, _, _, _, _, _, hbody, hname, rfl,
    (hwhole _ _ _ _ _ hbody hname rfl).2 (by decide +kernel)⟩

def commentBeforeDot : Text := "EXEC dbo/* c */.p".toList

/-- A dot behind a comment is not seen: the schema is taken for the
procedure. -/
theorem commentBeforeDot_renames_schema :
    (Script.parse .sql110 commentBeforeDot).problems = [] ∧
    (renameProcedures fun s n => (s, "x_".toList ++ n)).run .sql110 commentBeforeDot =
      .ok ⟨"EXEC dbo.x_dbo/* c */.p".toList, [], [], [.object "dbo".toList "dbo".toList]⟩ ∧
    ¬ ∀ pre t post old span, (Script.parse .sql110 commentBeforeDot).body = pre ++ t :: post →
      procedureAt (t :: post) = some (old, span) →
      ∀ u ∈ ((behind span post).filter Structure.isSignificant).head?, u.kind ≠ .dot := by
  refine ⟨by decide +kernel, by decide +kernel, fun hall => ?_⟩
  have hbody : (Script.parse .sql110 commentBeforeDot).body =
      [] ++ ⟨.keyword, "EXEC".toList, some ⟨1, 1⟩⟩ ::
        (Script.parse .sql110 commentBeforeDot).body.tail := by
    decide +kernel
  exact hall _ _ _ ⟨none, none, ⟨"dbo".toList, none⟩⟩ 1 hbody (by decide +kernel)
    ⟨.dot, ['.'], some ⟨1, 16⟩⟩ (by decide +kernel) rfl

end Pass

end Tsql
