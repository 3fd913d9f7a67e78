import Tsql.Pass.Expand
import Tsql.Proofs.Reading
import Tsql.Proofs.Trace

/-!
# What expanding conditional comments does to the text

Expanding puts the text of each conditional comment where the comment
stood. The text is read by itself, but what later passes read is the
output as a whole, and there the text has neighbours.

`rereads_iff` says what comes of that: the output is read as the tokens
that were put together if the seams hold, and only then. Only the seams
that expanding made can fail to. A token that has the same three
characters behind it as where it was read (`emissions` keeps what was
there) is read again whatever else has changed; a word `GO` separates
batches as its line in the output says.
-/

namespace Tsql

open Lexeme (Cuts stops)

namespace Pass

variable {registry : Registry} {env : Environment} {level inner : Level}

/-! ## At one token -/

/-- A conditional comment, and the text it gives. -/
structure Renders (registry : Registry) (env : Environment) (t : Token) (expanded : Text) :
    Prop where
  comment : t.kind = .blockComment
  template : Template.detect t.text = .template
  text : Template.expand registry env (commentBody t.text) = .ok expanded

def isConditional (t : Token) : Bool :=
  t.kind = .blockComment && Template.detect t.text = .template

def expandChoice (registry : Registry) (env : Environment) (level : Level) :
    List Token → Except Error Decision
  | [] => .ok { emitted := [] }
  | t :: ts => (expandComments registry env level).step t (.start (t :: ts))

theorem expandComments_sees :
    (expandComments registry env level).Sees (expandChoice registry env level) := by
  intro c t ts _
  rfl

theorem expandChoice_cons (t : Token) (ts : List Token) :
    expandChoice registry env level (t :: ts) = expandChoice registry env level [t] := rfl

/-- Expanding keeps a token or puts in the text of a comment. -/
theorem expandChoice_cases {t : Token} {ts : List Token} {d : Decision}
    (h : expandChoice registry env level (t :: ts) = .ok d) :
    (isConditional t = false ∧ d = .keep t) ∨
      (isConditional t = true ∧ ∃ expanded, Renders registry env t expanded ∧
        d = expandedDecision level expanded) := by
  simp only [expandChoice, expandComments] at h
  by_cases hkind : t.kind = .blockComment
  · rw [if_pos hkind] at h
    cases hdetect : Template.detect t.text with
    | plain =>
        rw [hdetect] at h
        cases h
        exact Or.inl ⟨by simp [isConditional, hdetect], rfl⟩
    | mismatched =>
        rw [hdetect] at h
        cases h
    | template =>
        rw [hdetect] at h
        cases hexpand : Template.expand registry env (commentBody t.text) with
        | error cause =>
            rw [hexpand] at h
            cases h
        | ok expanded =>
            rw [hexpand] at h
            cases h
            exact Or.inr ⟨by simp [isConditional, hkind, hdetect], expanded,
              ⟨hkind, hdetect, hexpand⟩, rfl⟩
  · rw [if_neg hkind] at h
    cases h
    exact Or.inl ⟨by simp [isConditional, hkind], rfl⟩

theorem expandChoice_of_renders {t : Token} {expanded : Text}
    (h : Renders registry env t expanded) (ts : List Token) :
    expandChoice registry env level (t :: ts) = .ok (expandedDecision level expanded) := by
  simp only [expandChoice, expandComments, if_pos h.comment, h.template, h.text]

/-- Whether or not a text is left out, its tokens are put in. -/
theorem splice_emitted (level : Level) (expanded : Text) :
    (splice level expanded).emitted = (Script.parse level expanded).body := by
  unfold splice
  dsimp only
  split
  · rename_i h
    exact h.1.symm
  · rfl

theorem expandedDecision_emitted (level : Level) (expanded : Text) :
    (expandedDecision level expanded).emitted =
      if hasUnpairedMark expanded then [.synthetic .blockComment expanded]
      else (Script.parse level expanded).body := by
  unfold expandedDecision
  split
  · rfl
  · exact splice_emitted level expanded

theorem expandedDecision_consumed (level : Level) (expanded : Text) :
    (expandedDecision level expanded).consumed = 0 := by
  unfold expandedDecision splice
  dsimp only
  split
  · rfl
  · split <;> rfl

theorem expandChoice_consumed {ts : List Token} {d : Decision}
    (h : expandChoice registry env level ts = .ok d) : d.consumed = 0 := by
  cases ts with
  | nil =>
      cases h
      rfl
  | cons t ts =>
      rcases expandChoice_cases h with ⟨-, rfl⟩ | ⟨-, expanded, -, rfl⟩
      · rfl
      · exact expandedDecision_consumed level expanded

/-! ## Over a script -/

/-- What is put in the place of the tokens. -/
def expandedTokens (registry : Registry) (env : Environment) (level : Level) (ts : List Token) :
    Except Error (List Token) :=
  (decisions (expandChoice registry env level) ts).map (·.flatMap Decision.emitted)

theorem expandedTokens_nil : expandedTokens registry env level [] = .ok [] := rfl

theorem expandedTokens_eq_ok_iff {ts vs : List Token} :
    expandedTokens registry env level ts = .ok vs ↔
      ∃ ds, decisions (expandChoice registry env level) ts = .ok ds ∧
        ds.flatMap Decision.emitted = vs := by
  unfold expandedTokens
  cases decisions (expandChoice registry env level) ts <;> simp [Except.map]

theorem expandedTokens_cons_eq_ok_iff {t : Token} {ts vs : List Token} :
    expandedTokens registry env level (t :: ts) = .ok vs ↔
      ∃ d more, expandChoice registry env level [t] = .ok d ∧
        expandedTokens registry env level ts = .ok more ∧ d.emitted ++ more = vs := by
  simp only [expandedTokens_eq_ok_iff, decisions_cons_eq_ok_iff, expandChoice_cons t ts]
  constructor
  · rintro ⟨_, ⟨d, ds, hd, hds, rfl⟩, rfl⟩
    exact ⟨d, _, hd, ⟨ds, hds, rfl⟩, rfl⟩
  · rintro ⟨d, _, hd, ⟨ds, hds, rfl⟩, rfl⟩
    exact ⟨d :: ds, ⟨d, ds, hd, hds, rfl⟩, rfl⟩

theorem expandedTokens_append_eq_ok_iff {ts us vs : List Token} :
    expandedTokens registry env level (ts ++ us) = .ok vs ↔
      ∃ before after, expandedTokens registry env level ts = .ok before ∧
        expandedTokens registry env level us = .ok after ∧ before ++ after = vs := by
  induction ts generalizing vs with
  | nil => simp [expandedTokens_nil]
  | cons t ts ih =>
      rw [List.cons_append, expandedTokens_cons_eq_ok_iff]
      constructor
      · rintro ⟨d, more, hd, hmore, rfl⟩
        obtain ⟨before, after, hbefore, hafter, rfl⟩ := ih.mp hmore
        exact ⟨d.emitted ++ before, after,
          expandedTokens_cons_eq_ok_iff.mpr ⟨d, before, hd, hbefore, rfl⟩, hafter,
          List.append_assoc ..⟩
      · rintro ⟨before, after, hbefore, hafter, rfl⟩
        obtain ⟨d, more, hd, hmore, rfl⟩ := expandedTokens_cons_eq_ok_iff.mp hbefore
        exact ⟨d, more ++ after, hd, ih.mpr ⟨more, after, hmore, hafter, rfl⟩,
          (List.append_assoc ..).symm⟩

theorem run_expandComments {script : Text} {outcome : Outcome}
    (hproblems : (Script.parse level script).problems = [])
    (hrun : (expandComments registry env inner).run level script = .ok outcome) :
    ∃ trace,
      (expandComments registry env inner).traceFrom (.start (Script.parse level script).body) =
        .ok trace ∧
      expandedTokens registry env inner (Script.parse level script).body = .ok trace.emitted ∧
      outcome.output = Token.textOf trace.emitted := by
  obtain ⟨trace, htrace, rfl⟩ := (run_eq_ok_iff hproblems).mp hrun
  obtain ⟨ds, hds, hemitted⟩ := (trace_eq_ok_iff expandComments_sees
    (fun _ _ _ _ _ hd => expandChoice_consumed hd)).mp htrace
  refine ⟨trace, htrace, expandedTokens_eq_ok_iff.mpr ⟨ds, hds, ?_⟩, rfl⟩
  rw [← hemitted]

/-! ## Seams -/

def withBehind : List Token → List (Token × Text)
  | [] => []
  | t :: ts => (t, Token.textOf ts) :: withBehind ts

/-- What is put in the place of the tokens, each token with the text that
was behind it where it was read: the rest of the script, or of the text
of its comment. -/
def emissions (registry : Registry) (env : Environment) (level : Level) :
    List Token → Except Error (List (Token × Text))
  | [] => .ok []
  | t :: ts => do
    let d ← expandChoice registry env level [t]
    let more ← emissions registry env level ts
    return (if isConditional t then withBehind d.emitted else [(t, Token.textOf ts)]) ++ more

/-- The seams that expanding made leave the tokens before them as they
are, and each `GO` is marked as its new line says. -/
structure SeamsHold (pieces : List (Token × Text)) : Prop where
  stops : ∀ pre t behind post, pieces = pre ++ (t, behind) :: post →
    behind.take 3 ≠ (Token.textOf (post.map Prod.fst)).take 3 →
    stops t.unmarked.kind t.text (Token.textOf (post.map Prod.fst)) = true
  separators : ∀ pre t behind post, pieces = pre ++ (t, behind) :: post → t.isGo →
    (t.kind = .batchSeparator ↔ opensLine (pre.map Prod.fst))

@[simp] theorem map_fst_withBehind (ts : List Token) : (withBehind ts).map Prod.fst = ts := by
  induction ts with
  | nil => rfl
  | cons t ts ih => simp [withBehind, ih]

theorem emissions_of_expandedTokens {ts emitted : List Token}
    (h : expandedTokens registry env level ts = .ok emitted) :
    ∃ pieces, emissions registry env level ts = .ok pieces ∧ pieces.map Prod.fst = emitted := by
  induction ts generalizing emitted with
  | nil =>
      cases h
      exact ⟨[], rfl, rfl⟩
  | cons t ts ih =>
      obtain ⟨d, more, hd, hmore, rfl⟩ := expandedTokens_cons_eq_ok_iff.mp h
      obtain ⟨pieces, hpieces, rfl⟩ := ih hmore
      refine ⟨(if isConditional t then withBehind d.emitted else [(t, Token.textOf ts)]) ++ pieces,
        ?_, ?_⟩
      · rw [emissions, hd, hpieces]
        rfl
      · rcases expandChoice_cases hd with ⟨hkeep, rfl⟩ | ⟨hcomment, -⟩
        · simp [hkeep, Decision.keep]
        · simp [hcomment]

/-- A token with the text behind it where it was read. -/
structure WasRead (piece : Token × Text) : Prop where
  cuts : Cuts piece.1.unmarked.kind piece.1.text piece.2
  separator : piece.1.kind = .batchSeparator → piece.1.isGo

theorem wasRead_withBehind {ts : List Token} (hreads : ReadsBefore (ts.map Token.unmarked) [])
    (hsep : ∀ t ∈ ts, t.kind = .batchSeparator → t.isGo) :
    ∀ piece ∈ withBehind ts, WasRead piece := by
  induction ts with
  | nil =>
      intro piece hpiece
      cases hpiece
  | cons t ts ih =>
      obtain ⟨hcuts, hmore⟩ := hreads
      rw [List.append_nil, textOf_map_unmarked, Token.text_unmarked] at hcuts
      intro piece hpiece
      rcases List.mem_cons.mp hpiece with rfl | hpiece
      · exact ⟨hcuts, hsep t List.mem_cons_self⟩
      · exact ih hmore (fun u hu => hsep u (List.mem_cons_of_mem _ hu)) piece hpiece

/-- What could be read from a text was read there; what could not is no
token. -/
theorem wasRead_body (level : Level) (source : Text) :
    ∀ piece ∈ withBehind (Script.parse level source).body, WasRead piece := by
  rw [Script.body_parse]
  cases hraw : tokensFrom .start source with
  | error e =>
      intro piece hpiece
      cases hpiece
  | ok raw =>
      have hread := ReadAs.of_tokensFrom hraw
      exact wasRead_withBehind hread.reads hread.separator

theorem wasRead_emissions {ts : List Token} {pieces : List (Token × Text)}
    (h : emissions registry env level ts = .ok pieces)
    (hread : ∀ piece ∈ withBehind ts, WasRead piece)
    (hpaired : ∀ t ∈ ts, ∀ expanded, Renders registry env t expanded →
      hasUnpairedMark expanded = false) : ∀ piece ∈ pieces, WasRead piece := by
  induction ts generalizing pieces with
  | nil =>
      cases h
      intro piece hpiece
      cases hpiece
  | cons t ts ih =>
      simp only [emissions, bind_eq_ok_iff] at h
      obtain ⟨d, hd, more, hmore, hpieces⟩ := h
      cases hpieces
      have hrest := ih hmore (fun piece hp => hread piece (List.mem_cons_of_mem _ hp))
        (fun u hu => hpaired u (List.mem_cons_of_mem _ hu))
      intro piece hpiece
      rcases List.mem_append.mp hpiece with hpiece | hpiece
      · rcases expandChoice_cases hd with ⟨hkeep, -⟩ | ⟨hcomment, expanded, hrenders, rfl⟩
        · simp only [hkeep, Bool.false_eq_true, if_false, List.mem_singleton] at hpiece
          subst hpiece
          exact hread _ List.mem_cons_self
        · rw [if_pos hcomment, expandedDecision_emitted,
            hpaired t List.mem_cons_self expanded hrenders] at hpiece
          exact wasRead_body level expanded piece hpiece
      · exact hrest piece hpiece

theorem readsBefore_pieces_iff (pieces : List (Token × Text)) :
    ReadsBefore ((pieces.map Prod.fst).map Token.unmarked) [] ↔
      ∀ pre t behind post, pieces = pre ++ (t, behind) :: post →
        Cuts t.unmarked.kind t.text (Token.textOf (post.map Prod.fst)) := by
  induction pieces with
  | nil => simp [ReadsBefore]
  | cons piece pieces ih =>
      rw [List.map_cons, List.map_cons, ReadsBefore, ih, List.append_nil, textOf_map_unmarked,
        Token.text_unmarked]
      constructor
      · rintro ⟨hcuts, hmore⟩ pre t behind post heq
        cases pre with
        | nil =>
            obtain ⟨rfl, rfl⟩ := List.cons.inj heq
            exact hcuts
        | cons p pre =>
            obtain ⟨-, htail⟩ := List.cons.inj heq
            exact hmore pre t behind post htail
      · intro hall
        refine ⟨hall [] piece.1 piece.2 pieces rfl, fun pre t behind post heq => ?_⟩
        exact hall (piece :: pre) t behind post (by rw [heq]; rfl)

theorem pieces_split {pieces : List (Token × Text)} {pre post : List Token} {t : Token}
    (h : pieces.map Prod.fst = pre ++ t :: post) :
    ∃ pre' behind post', pieces = pre' ++ (t, behind) :: post' ∧ pre'.map Prod.fst = pre := by
  obtain ⟨pre', rest, rfl, hpre, hrest⟩ := List.map_eq_append_iff.mp h
  obtain ⟨piece, post', rfl, rfl, -⟩ := List.map_eq_cons_iff.mp hrest
  exact ⟨pre', piece.2, post', rfl, hpre⟩

/-- Tokens that were read somewhere are read again where they are if the
seams hold, and only then. -/
theorem readAs_iff_seamsHold {pieces : List (Token × Text)}
    (hread : ∀ piece ∈ pieces, WasRead piece) :
    ReadAs (Token.textOf (pieces.map Prod.fst)) (pieces.map Prod.fst) ↔ SeamsHold pieces := by
  constructor
  · intro h
    have hcuts := (readsBefore_pieces_iff pieces).mp h.reads
    constructor
    · intro pre t behind post heq _
      exact ((Lexeme.cuts_iff _ _ _).mp (hcuts pre t behind post heq)).2
    · intro pre t behind post heq hgo
      exact h.marks (pre.map Prod.fst) t (post.map Prod.fst) (by rw [heq]; simp) hgo
  · intro h
    refine ⟨rfl, (readsBefore_pieces_iff pieces).mpr ?_, ?_, ?_⟩
    · intro pre t behind post heq
      have hwas := (hread (t, behind) (by rw [heq]; simp)).cuts
      -- the same three characters behind it leave a token as it was
      by_cases htake : behind.take 3 = (Token.textOf (post.map Prod.fst)).take 3
      · exact Lexeme.cuts_of_take_three hwas htake
      · exact (Lexeme.cuts_iff _ _ _).mpr
          ⟨((Lexeme.cuts_iff _ _ _).mp hwas).1, h.stops pre t behind post heq htake⟩
    · intro pre t post heq hgo
      obtain ⟨pre', behind, post', hpieces, rfl⟩ := pieces_split heq
      exact h.separators pre' t behind post' hpieces hgo
    · intro t ht hkind
      obtain ⟨piece, hpiece, rfl⟩ := List.mem_map.mp ht
      exact (hread piece hpiece).separator hkind

/-- The output is read as the tokens that expanding put together if the
seams that it made hold, and only then. -/
theorem rereads_iff {script : Text} {outcome : Outcome}
    (hproblems : (Script.parse level script).problems = [])
    (hrun : (expandComments registry env inner).run level script = .ok outcome)
    (hpaired : ∀ t ∈ (Script.parse level script).body, ∀ expanded,
      Renders registry env t expanded → hasUnpairedMark expanded = false) (again : Level) :
    ∃ trace pieces,
      (expandComments registry env inner).traceFrom (.start (Script.parse level script).body) =
        .ok trace ∧
      outcome.output = Token.textOf trace.emitted ∧
      emissions registry env inner (Script.parse level script).body = .ok pieces ∧
      pieces.map Prod.fst = trace.emitted ∧
      ((Script.parse again outcome.output).body.map Token.face = trace.emitted.map Token.face ↔
        SeamsHold pieces) := by
  obtain ⟨trace, htrace, hemitted, houtput⟩ := run_expandComments hproblems hrun
  obtain ⟨pieces, hpieces, hfst⟩ := emissions_of_expandedTokens hemitted
  refine ⟨trace, pieces, htrace, houtput, hpieces, hfst, ?_⟩
  rw [houtput, Script.body_face_iff, ← hfst]
  exact readAs_iff_seamsHold (wasRead_emissions hpieces (wasRead_body level script) hpaired)

/-! ## One seam that holds, one that does not -/

/-- Whether no conditional comment among the tokens gives a text with one
sort of comment mark only. -/
def allPaired (registry : Registry) (env : Environment) (ts : List Token) : Bool :=
  ts.all fun t => !isConditional t ||
    (Template.expand registry env (commentBody t.text)).toOption.all (!hasUnpairedMark ·)

theorem paired_of_allPaired {ts : List Token} (h : allPaired registry env ts = true) :
    ∀ t ∈ ts, ∀ expanded, Renders registry env t expanded →
      hasUnpairedMark expanded = false := by
  intro t ht expanded hrenders
  have hthis := List.all_eq_true.mp h t ht
  have hcomment : isConditional t = true := by
    simp [isConditional, hrenders.comment, hrenders.template]
  simpa [hcomment, hrenders.text, Except.toOption] using hthis

def envX : Environment := ⟨[(['X'], .bool true)]⟩

def addedColumn : Text :=
  "SELECT a/*\x7b\x7b#if X\x7d\x7d, b\x7b\x7b/if\x7d\x7d*/ FROM t".toList

/-- A condition with nothing in it, between two words. -/
def emptyBetweenWords : Text :=
  "SELECT a/*\x7b\x7b#if X\x7d\x7d\x7b\x7b/if\x7d\x7d*/b".toList

theorem rereads_iff_addedColumn :
    ∃ trace pieces,
      (expandComments .standard envX .sql110).traceFrom
          (.start (Script.parse .sql110 addedColumn).body) = .ok trace ∧
      emissions .standard envX .sql110 (Script.parse .sql110 addedColumn).body = .ok pieces ∧
      ((Script.parse .sql110 "SELECT a, b FROM t".toList).body.map Token.face =
          trace.emitted.map Token.face ↔ SeamsHold pieces) := by
  have hproblems : (Script.parse .sql110 addedColumn).problems = [] := by decide +kernel
  have hrun : (expandComments .standard envX .sql110).run .sql110 addedColumn =
      .ok ⟨"SELECT a, b FROM t".toList, [], [], []⟩ := eq_ok_of_toOption (by decide +kernel)
  obtain ⟨trace, pieces, htrace, -, hpieces, -, hiff⟩ :=
    rereads_iff hproblems hrun (paired_of_allPaired (by decide +kernel)) .sql110
  exact ⟨trace, pieces, htrace, hpieces, hiff⟩

/-- With nothing between them, two words are read as one. -/
theorem emptyBetweenWords_joins :
    ∃ outcome trace,
      (expandComments .standard envX .sql110).run .sql110 emptyBetweenWords = .ok outcome ∧
      outcome.problems = [] ∧ outcome.diagnostics = [] ∧
      allPaired .standard envX (Script.parse .sql110 emptyBetweenWords).body = true ∧
      (expandComments .standard envX .sql110).traceFrom
          (.start (Script.parse .sql110 emptyBetweenWords).body) = .ok trace ∧
      (Script.parse .sql110 outcome.output).body.map Token.face ≠
        trace.emitted.map Token.face := by
  refine ⟨⟨"SELECT ab".toList, [], [], []⟩,
    ⟨[⟨.keyword, "SELECT".toList, some ⟨1, 1⟩⟩, ⟨.whitespace, [' '], some ⟨1, 7⟩⟩,
      ⟨.identifier, ['a'], some ⟨1, 8⟩⟩, ⟨.identifier, ['b'], some ⟨1, 29⟩⟩], [], []⟩,
    eq_ok_of_toOption ?_, rfl, rfl, ?_, eq_ok_of_toOption ?_, ?_⟩
  · decide +kernel
  · decide +kernel
  · decide +kernel
  · decide +kernel

end Pass

end Tsql
