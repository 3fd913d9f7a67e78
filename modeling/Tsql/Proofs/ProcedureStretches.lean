import Tsql.Proofs.ProcedureNormal

/-!
# The calls of a script, one by one

A run of `renameProcedures` cuts the tokens of a script into stretches: a
token that is kept, or a keyword with the name of a procedure behind it.
`Stretch.Standing` says where each sort is found, and `NameChange` what is
put in the place of a name, form by form: the keyword stays, and behind it
come one space and the new name, each part in the quotes of the old one.

The stretches of a run are those of its derivation
(`Renames.stretches`). What a name takes with it is white space alone, so
that all other tokens are in the new script as they were in the old one
(`Renames.filter_isFixed`).
-/

namespace Tsql

/-- A token that is neither white space nor part of a name. -/
def Token.isFixed (t : Token) : Bool := !t.isWhitespace && !t.inName

theorem Token.isFixed_of_inName {t : Token} (h : t.inName = true) : t.isFixed = false := by
  rw [isFixed, h]
  exact Bool.and_false _

theorem Token.isFixed_of_keyword {t : Token} (h : t.kind = .keyword) : t.isFixed = true := by
  rw [isFixed, isWhitespace, inName, isIdentifier, h]
  rfl

namespace Pass

variable {f : Text → Text → Text × Text} {level : Level}

/-! ## Names and what becomes of them -/

/-- The tokens of a name, those that are put in its place, and what the
mapping is asked. A schema that is not there, or left empty between two
dots, is the default one, and the new one is written bare. -/
inductive NameChange (f : Text → Text → Text × Text) :
    List Token → List Token → Question → Prop where
  | object {t : Token} {schema name : Text} (object : t.isIdentifier = true)
      (new : f defaultSchema (unquoteName t.text) = (schema, name)) :
      NameChange f [t] [.ofName schema none, dotToken, t.renamed name]
        (.object defaultSchema (unquoteName t.text))
  | schema {s d t : Token} {schema name : Text} (first : s.isIdentifier = true)
      (dot : d.kind = .dot) (object : t.isIdentifier = true)
      (new : f (unquoteName s.text) (unquoteName t.text) = (schema, name)) :
      NameChange f [s, d, t] [s.renamed schema, dotToken, t.renamed name]
        (.object (unquoteName s.text) (unquoteName t.text))
  | emptySchema {b d e t : Token} {schema name : Text} (first : b.isIdentifier = true)
      (dot : d.kind = .dot) (second : e.kind = .dot) (object : t.isIdentifier = true)
      (new : f defaultSchema (unquoteName t.text) = (schema, name)) :
      NameChange f [b, d, e, t]
        [b.renamed (unquoteName b.text), dotToken, .ofName schema none, dotToken, t.renamed name]
        (.object defaultSchema (unquoteName t.text))
  | database {b d s e t : Token} {schema name : Text} (first : b.isIdentifier = true)
      (dot : d.kind = .dot) (between : s.isIdentifier = true) (second : e.kind = .dot)
      (object : t.isIdentifier = true)
      (new : f (unquoteName s.text) (unquoteName t.text) = (schema, name)) :
      NameChange f [b, d, s, e, t]
        [b.renamed (unquoteName b.text), dotToken, s.renamed schema, dotToken, t.renamed name]
        (.object (unquoteName s.text) (unquoteName t.text))

/-- The pass changes a name in the way of its form. -/
theorem nameChange_of_reads {ts : List Token} {old : QualifiedName} {span : Nat}
    (h : QualifiedName.Reads ts old span) {schema name : Text}
    (hnew : f old.schemaOrDefault old.object.value = (schema, name)) :
    NameChange f (ts.take span) (renamedProcedure old schema name) (procedureQuestion old) := by
  cases h with
  | object object _ => exact .object object hnew
  | schema first dot object _ => exact .schema first dot object hnew
  | emptySchema first dot second object => exact .emptySchema first dot second object hnew
  | database first dot between second object => exact .database first dot between second object hnew

/-! ## Stretches -/

/-- A stretch of a script as the pass goes over it. -/
inductive Stretch where
  | kept (t : Token)
  /-- A keyword and the tokens up to the end of the name behind it, what is
  put in the place of the name, and the question about it -/
  | call (keyword : Token) (name new : List Token) (question : Question)

namespace Stretch

def source : Stretch → List Token
  | kept t => [t]
  | call keyword name _ _ => keyword :: name

def emitted : Stretch → List Token
  | kept t => [t]
  | call keyword _ new _ => keyword :: .synthetic .whitespace [' '] :: new

def asked : Stretch → List Question
  | kept _ => []
  | call _ _ _ question => [question]

/-- Where a stretch is found, before the tokens `rest`. A token is kept
unless it is a keyword with a name behind it. A name is read as far as it
goes, white space apart, and the stretch ends with it. -/
def Stands (f : Text → Text → Text × Text) (rest : List Token) : Stretch → Prop
  | kept t => introducesProcedure t = true →
      QualifiedName.read (rest.filter (!·.isWhitespace)) = none
  | call keyword name new question => introducesProcedure keyword = true ∧
      (∃ old, QualifiedName.read ((name ++ rest).filter (!·.isWhitespace)) =
        some (old, (name.filter (!·.isWhitespace)).length)) ∧
      NameChange f (name.filter (!·.isWhitespace)) new question ∧
      ∃ last, name.getLast? = some last ∧ last.isWhitespace = false

/-- Each of the stretches is found before those behind it. -/
def Standing (f : Text → Text → Text × Text) : List Stretch → Prop
  | [] => True
  | s :: ss => s.Stands f (ss.flatMap source) ∧ Standing f ss

end Stretch

/-- A run goes over a script in stretches. -/
theorem Renames.stretches {ts us : List Token} {asked : List Question}
    (h : Renames f ts us asked) :
    ∃ ss : List Stretch, Stretch.Standing f ss ∧ ss.flatMap Stretch.source = ts ∧
      ss.flatMap Stretch.emitted = us ∧ ss.flatMap Stretch.asked = asked := by
  induction h with
  | nil => exact ⟨[], trivial, rfl, rfl, rfl⟩
  | @kept t ts us asked hhere _ ih =>
      obtain ⟨ss, hstanding, rfl, rfl, rfl⟩ := ih
      refine ⟨.kept t :: ss, ⟨fun hkeyword => ?_, hstanding⟩, rfl, rfl, rfl⟩
      rwa [procedureAt, if_pos hkeyword] at hhere
  | @named t ts us asked old span hhere _ ih =>
      obtain ⟨ss, hstanding, hsource, rfl, rfl⟩ := ih
      obtain ⟨hkeyword, hreads⟩ := procedureAt_eq_some_iff.mp hhere
      obtain ⟨front, o, hname, hlast, -, ho, -⟩ := header_of_procedureAt hhere
      have hall : header span ts ++ ss.flatMap Stretch.source = ts := by
        rw [hsource, header_append_behind]
      have htake : (header span ts).filter (!·.isWhitespace) =
          (ts.filter (!·.isWhitespace)).take span := (filter_header_behind span ts).1
      have hspan : ((header span ts).filter (!·.isWhitespace)).length = span := by
        obtain ⟨front', o', htokens, hlength, -⟩ := hreads.tokens
        rw [htake, htokens, List.length_append, List.length_singleton, hlength]
      let new := f old.schemaOrDefault old.object.value
      refine ⟨.call t (header span ts) (renamedProcedure old new.1 new.2)
        (procedureQuestion old) :: ss, ⟨⟨hkeyword, ⟨old, ?_⟩, ?_, o, hlast, ?_⟩, hstanding⟩,
        congrArg (t :: ·) hall, rfl, rfl⟩
      · rw [hall, hspan]
        exact hreads.read_eq
      · rw [htake]
        exact nameChange_of_reads hreads rfl
      · exact Token.isWhitespace_of_inName (Token.inName_of_isIdentifier ho)

/-! ## What a name does not take with it -/

theorem isFixed_of_mem_renamedProcedure {old : QualifiedName} {schema name : Text} {t : Token}
    (ht : t ∈ renamedProcedure old schema name) : t.isFixed = false := by
  have hname : ∀ value quote, (Token.ofName value quote).isFixed = false := fun value quote =>
    Token.isFixed_of_inName
      (Token.inName_of_isIdentifier (NamePart.isIdentifier_token ⟨value, quote⟩))
  have hdot : dotToken.isFixed = false := rfl
  rw [renamedProcedure] at ht
  cases hdatabase : old.database with
  | none =>
      simp only [hdatabase, List.nil_append, List.mem_cons, List.not_mem_nil, or_false] at ht
      rcases ht with rfl | rfl | rfl
      · exact hname _ _
      · exact hdot
      · exact hname _ _
  | some database =>
      simp only [hdatabase, List.cons_append, List.nil_append, List.mem_cons, List.not_mem_nil,
        or_false] at ht
      rcases ht with rfl | rfl | rfl | rfl | rfl
      · exact hname _ _
      · exact hdot
      · exact hname _ _
      · exact hdot
      · exact hname _ _

theorem filter_isFixed_header {t : Token} {ts : List Token} {old : QualifiedName} {span : Nat}
    (h : procedureAt (t :: ts) = some (old, span)) :
    (header span ts).filter Token.isFixed = [] := by
  obtain ⟨front, o, hname, -, hfront, ho, -⟩ := header_of_procedureAt h
  refine List.filter_eq_nil_iff.mpr fun u hu => ?_
  cases hwhite : u.isWhitespace with
  | true => simp [Token.isFixed, hwhite]
  | false =>
      have hmem : u ∈ front ++ [o] := by
        rw [← hname]
        exact List.mem_filter.mpr ⟨hu, by simp [hwhite]⟩
      have hin : u.inName = true := by
        rcases List.mem_append.mp hmem with hu | hu
        · exact hfront u hu
        · obtain rfl := List.mem_singleton.mp hu
          exact Token.inName_of_isIdentifier ho
      simp [Token.isFixed_of_inName hin]

theorem Renames.filter_isFixed {ts us : List Token} {asked : List Question}
    (h : Renames f ts us asked) : us.filter Token.isFixed = ts.filter Token.isFixed := by
  induction h with
  | nil => rfl
  | @kept t ts us asked _ _ ih => rw [List.filter_cons, List.filter_cons, ih]
  | @named t ts us asked old span hhere _ ih =>
      have hkeyword : t.isFixed = true :=
        Token.isFixed_of_keyword (kind_of_introduces (procedureAt_eq_some_iff.mp hhere).1)
      have hnew : (renamedCall f t old).filter Token.isFixed = [t] := by
        rw [renamedCall, List.filter_cons_of_pos hkeyword, List.filter_cons_of_neg (by decide),
          List.filter_eq_nil_iff.mpr fun u hu => by
            simp [isFixed_of_mem_renamedProcedure hu]]
      rw [List.filter_append, hnew, ih, List.filter_cons_of_pos hkeyword, List.singleton_append]
      nth_rewrite 2 [← header_append_behind span ts]
      rw [List.filter_append, filter_isFixed_header hhere, List.nil_append]

/-! ## The result -/

/-- Over every script without problems the pass comes to an end. Its tokens
are cut into stretches that follow one another: tokens that are kept as
they are, and keywords with a name, for which come the keyword, one space
and the new name. The mapping is asked once for each name, in order. All
that is neither white space nor part of a name is in the new script as it
was in the old one. -/
theorem renameProcedures_stretches (f : Text → Text → Text × Text) {script : Text}
    (hproblems : (Script.parse level script).problems = []) :
    ∃ (ss : List Stretch) (trace : Trace) (outcome : Outcome),
      (renameProcedures f).traceFrom (.start (Script.parse level script).body) = .ok trace ∧
      (renameProcedures f).run level script = .ok outcome ∧
      outcome = ⟨Token.textOf trace.emitted, [], [], trace.asked⟩ ∧
      ss.flatMap Stretch.source = (Script.parse level script).body ∧
      ss.flatMap Stretch.emitted = trace.emitted ∧
      ss.flatMap Stretch.asked = trace.asked ∧
      Stretch.Standing f ss ∧
      trace.emitted.filter Token.isFixed =
        (Script.parse level script).body.filter Token.isFixed := by
  obtain ⟨us, asked, hrenames, hrun⟩ := run_renameProcedures f hproblems
  obtain ⟨ss, hstanding, hsource, hemitted, hasked⟩ := hrenames.stretches
  exact ⟨ss, _, _, hrenames.trace, hrun, rfl, hsource, hemitted, hasked, hstanding,
    hrenames.filter_isFixed⟩

/-- A name with white space between its dots, and one with a comment before
it. -/
def callsInPieces : Text := "EXEC Db .\n. [p] @x--c\nEXEC/**/q".toList

theorem renameProcedures_stretches_callsInPieces :
    (Script.parse .sql110 callsInPieces).problems = [] ∧
    ∃ (ss : List Stretch) (trace : Trace),
      (renameProcedures fun s n => (s, "x_".toList ++ n)).run .sql110 callsInPieces =
        .ok ⟨"EXEC Db.dbo.[x_p] @x--c\nEXEC/**/q".toList, [], [], [.object "dbo".toList ['p']]⟩ ∧
      ss.flatMap Stretch.source = (Script.parse .sql110 callsInPieces).body ∧
      ss.flatMap Stretch.asked = [.object "dbo".toList ['p']] ∧
      Stretch.Standing (fun s n => (s, "x_".toList ++ n)) ss ∧
      trace.emitted.filter Token.isFixed =
        (Script.parse .sql110 callsInPieces).body.filter Token.isFixed := by
  obtain ⟨hproblems, hresult⟩ : (Script.parse .sql110 callsInPieces).problems = [] ∧
      (renameProcedures fun s n => (s, "x_".toList ++ n)).run .sql110 callsInPieces =
        .ok ⟨"EXEC Db.dbo.[x_p] @x--c\nEXEC/**/q".toList, [], [],
          [.object "dbo".toList ['p']]⟩ := by
    decide +kernel
  obtain ⟨ss, trace, outcome, -, hrun, rfl, hsource, -, hasked, hstanding, hfixed⟩ :=
    renameProcedures_stretches (fun s n => (s, "x_".toList ++ n)) hproblems
  obtain ⟨-, -, -, hquestions⟩ := Outcome.mk.inj (Except.ok.inj (hrun.symm.trans hresult))
  exact ⟨hproblems, ss, trace, hresult, hsource, hasked.trans hquestions, hstanding, hfixed⟩

end Pass

end Tsql
