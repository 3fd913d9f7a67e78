import Mathlib.Data.List.Induction
import Tsql.Proofs.GuardSeparators
import Tsql.Proofs.NameForms

/-!
# Guards inside statement heads

The pass decides at a verb by what stands behind it. In `CREATE OR ALTER`
the verb that is followed by an object is the `ALTER`; the guard takes its
place and comes to stand behind `CREATE OR`, so that the head is cut in
two.

`insideHead` says where a head is open. What stands before a guard in the
new script differs from what stood before the verb: earlier guards have
been put in, and some of them end in a `CREATE` of their own. Yet no head
is opened or closed by them (`heads_alike`), for the keyword of an object
stands behind such a `CREATE`. So the heads that are cut are those of the
script, and `heads_whole_iff` says so.
-/

namespace Tsql

open Structure (isSignificant)

namespace Pass

variable {accepts : Text → Text → Bool} {ending : LineEnding} {level : Level}

/-! ## Heads -/

/-- Whether the tokens end in `CREATE`, white space and comments apart. -/
def endsInCreate (before : List Token) : Bool :=
  (before.filter isSignificant).getLast?.any (·.isKeyword "CREATE")

/-- Whether the tokens end in `CREATE OR`, white space and comments
apart. -/
def insideHead (before : List Token) : Bool :=
  (before.filter isSignificant).getLast?.any (·.isKeyword "OR") &&
    (before.filter isSignificant).dropLast.getLast?.any (·.isKeyword "CREATE")

theorem filter_concat_of_isBlank {t : Token} (ht : t.isBlank = true) (ts : List Token) :
    (ts ++ [t]).filter isSignificant = ts.filter isSignificant := by
  rw [List.filter_append, List.filter_cons_of_neg (by simp [isSignificant_eq_not_isBlank, ht]),
    List.filter_nil, List.append_nil]

theorem filter_concat {t : Token} (ht : t.isBlank = false) (ts : List Token) :
    (ts ++ [t]).filter isSignificant = ts.filter isSignificant ++ [t] := by
  rw [List.filter_append, List.filter_cons_of_pos (by simp [isSignificant_eq_not_isBlank, ht]),
    List.filter_nil]

theorem endsInCreate_concat {t : Token} (ht : t.isBlank = false) (ts : List Token) :
    endsInCreate (ts ++ [t]) = t.isKeyword "CREATE" := by
  rw [endsInCreate, filter_concat ht, List.getLast?_concat, Option.any_some]

theorem insideHead_concat {t : Token} (ht : t.isBlank = false) (ts : List Token) :
    insideHead (ts ++ [t]) = (t.isKeyword "OR" && endsInCreate ts) := by
  rw [insideHead, filter_concat ht, List.getLast?_concat, Option.any_some, List.dropLast_concat]
  rfl

/-- The last token is not the `OR` of a head, nor its `CREATE` if the
tokens are `whole`. -/
def EndsOutside (whole : Bool) (ts : List Token) : Prop :=
  ∃ t, ts.getLast? = some t ∧ t.isBlank = false ∧ t.isKeyword "OR" = false ∧
    (whole = true → t.isKeyword "CREATE" = false)

theorem EndsOutside.insideHead {whole : Bool} {ts : List Token} (h : EndsOutside whole ts)
    (before : List Token) : insideHead (before ++ ts) = false := by
  obtain ⟨t, hlast, hblank, hor, -⟩ := h
  obtain ⟨front, rfl⟩ := List.getLast?_eq_some_iff.mp hlast
  rw [← List.append_assoc, insideHead_concat hblank, hor]
  rfl

theorem EndsOutside.endsInCreate {ts : List Token} (h : EndsOutside true ts)
    (before : List Token) : endsInCreate (before ++ ts) = false := by
  obtain ⟨t, hlast, hblank, -, hcreate⟩ := h
  obtain ⟨front, rfl⟩ := List.getLast?_eq_some_iff.mp hlast
  rw [← List.append_assoc, endsInCreate_concat hblank]
  exact hcreate rfl

/-! ## What a guard leaves behind -/

theorem endsOutside_tokens (g : Guarded) (ending : LineEnding) :
    EndsOutside g.isSchema (g.tokens ending) := by
  cases g with
  | procedure name | view name =>
      refine ⟨Guard.keyword "ALTER", ?_, rfl, by decide, fun h => by cases h⟩
      cases ending <;> rfl
  | function name =>
      refine ⟨Guard.keyword "CREATE", ?_, rfl, by decide, fun h => by cases h⟩
      cases ending <;> rfl
  | schema name owner =>
      refine ⟨Guard.separator, ?_, rfl, rfl, fun _ => rfl⟩
      cases ending <;> rfl

theorem endsOutside_source {g : Guarded} {verb : Token} {taken : List Token} {ps : List Piece}
    (hlaid : Laid accepts (.guard g verb taken :: ps)) :
    EndsOutside g.isSchema (verb :: taken) := by
  obtain ⟨hguard, hheader, -, -⟩ := hlaid
  cases g with
  | schema name owner =>
      obtain ⟨n, last, htaken, hget, hname, -⟩ := upcoming_of_schema hguard
      rw [htaken] at hheader
      have hlast := getLast?_header hget
      rw [hheader] at hlast
      have hkeyword : ∀ word, last.isKeyword word = false := by
        intro word
        rw [← Bool.not_eq_true]
        intro hword
        rw [Token.isIdentifier, kind_of_isKeyword hword] at hname
        cases hname
      refine ⟨last, ?_, (Token.of_inName (Token.inName_of_isIdentifier hname)).1, hkeyword "OR",
        fun _ => hkeyword "CREATE"⟩
      rw [List.getLast?_cons, hlast]
      rfl
  | _ =>
      rw [taken_of_not_schema rfl, header_zero] at hheader
      subst hheader
      have hverb := verb_of_guardedAt hguard
      refine ⟨verb, rfl, (Token.of_keyword (kind_of_verb hverb)).1, ?_, fun h => by cases h⟩
      rcases hverb with hverb | hverb <;> exact not_isKeyword_of_isKeyword hverb (by decide)

/-- Behind the verb of a definition stands the keyword of an object. -/
theorem object_of_guardedAt {t : Token} {ts : List Token} {g : Guarded}
    (h : guardedAt accepts (t :: ts) = some g) :
    ∃ object, (ts.filter (!·.isWhitespace)).head? = some object ∧
      ∃ word ∈ ["PROCEDURE", "PROC", "SCHEMA", "FUNCTION", "VIEW"],
        object.isKeyword word = true := by
  unfold guardedAt at h
  dsimp only at h
  split at h
  · split at h
    · rename_i object name span hobject _
      refine ⟨object, List.head?_eq_getElem?.trans hobject, ?_⟩
      split at h
      · rename_i hprocedure
        rcases Bool.or_eq_true_iff.mp hprocedure with hword | hword
        · exact ⟨"PROCEDURE", by simp, hword⟩
        · exact ⟨"PROC", by simp, hword⟩
      split at h
      · rename_i hschema
        simp only [Bool.and_eq_true] at hschema
        exact ⟨"SCHEMA", by simp, hschema.1.1⟩
      split at h
      · rename_i hfunction
        exact ⟨"FUNCTION", by simp, hfunction⟩
      split at h
      · rename_i hview
        exact ⟨"VIEW", by simp, hview⟩
      · cases h
    · cases h
  · cases h

/-- So no `OR` follows the verb. -/
theorem not_or_of_guardedAt {t : Token} {ts : List Token} {g : Guarded}
    (h : guardedAt accepts (t :: ts) = some g) :
    (ts.filter isSignificant).head?.any (·.isKeyword "OR") = false := by
  obtain ⟨object, hobject, word, hmem, hword⟩ := object_of_guardedAt h
  have hwords : ∀ word ∈ ["PROCEDURE", "PROC", "SCHEMA", "FUNCTION", "VIEW"],
      word.toList.map Char.toUpper ≠ "OR".toList.map Char.toUpper := by
    decide
  have hcomment : ∀ u ∈ (ts.filter (!·.isWhitespace)).head?, u.isComment = false := by
    intro u hu
    obtain rfl := Option.some.inj (hobject.symm.trans hu)
    rw [Token.isComment, kind_of_isKeyword hword]
    rfl
  rw [head?_filter_isSignificant hcomment, hobject, Option.any_some]
  exact not_isKeyword_of_isKeyword hword (hwords word hmem)

/-! ## Heads in the new script -/

theorem emittedOf_concat (ps : List Piece) (p : Piece) :
    emittedOf ending (ps ++ [p]) = emittedOf ending ps ++ p.emitted ending := by
  simp [emittedOf]

theorem sourceOf_concat (ps : List Piece) (p : Piece) :
    sourceOf (ps ++ [p]) = sourceOf ps ++ p.source := by
  simp [sourceOf]

/-- A head is open behind the pieces in the new script if it is in the old
one. A `CREATE` at their end may be one of the two scripts alone, but then
no `OR` follows. -/
theorem heads_alike {front rest : List Piece} (hlaid : Laid accepts (front ++ rest))
    (ending : LineEnding) :
    insideHead (emittedOf ending front) = insideHead (sourceOf front) ∧
      (((sourceOf rest).filter isSignificant).head?.any (·.isKeyword "OR") = true →
        endsInCreate (emittedOf ending front) = endsInCreate (sourceOf front)) := by
  -- from the back, since a head is told by the tokens at the end
  induction front using List.reverseRecOn generalizing rest with
  | nil => exact ⟨rfl, fun _ => rfl⟩
  | append_singleton front p ih =>
      rw [List.append_assoc, List.singleton_append] at hlaid
      obtain ⟨hhead, hcreate⟩ := ih hlaid
      rw [emittedOf_concat, sourceOf_concat]
      cases p with
      | kept t =>
          rw [sourceOf_kept] at hcreate
          rw [Piece.emitted, Piece.source]
          cases hblank : t.isBlank with
          | true =>
              rw [List.filter_cons_of_neg (by simp [isSignificant_eq_not_isBlank, hblank])]
                at hcreate
              rw [insideHead, insideHead, endsInCreate, endsInCreate,
                filter_concat_of_isBlank hblank, filter_concat_of_isBlank hblank]
              exact ⟨hhead, hcreate⟩
          | false =>
              rw [List.filter_cons_of_pos (by simp [isSignificant_eq_not_isBlank, hblank]),
                List.head?_cons, Option.any_some] at hcreate
              rw [insideHead_concat hblank, insideHead_concat hblank, endsInCreate_concat hblank,
                endsInCreate_concat hblank]
              refine ⟨?_, fun _ => rfl⟩
              cases hor : t.isKeyword "OR" with
              | true => rw [hcreate hor]
              | false => rfl
      | guard g verb taken =>
          have hguard := hlaid.drop
          have hsource := endsOutside_source hguard
          have htokens := endsOutside_tokens g ending
          rw [Piece.emitted, Piece.source, htokens.insideHead, hsource.insideHead]
          refine ⟨rfl, fun hor => ?_⟩
          cases hg : g.isSchema with
          | true =>
              rw [hg] at htokens hsource
              rw [htokens.endsInCreate, hsource.endsInCreate]
          | false =>
              -- the verb is the last of the piece, and the object follows it
              obtain ⟨hsome, hheader, -, -⟩ := hguard
              rw [taken_of_not_schema hg, header_zero] at hheader
              subst hheader
              have hnot := not_or_of_guardedAt hsome
              rw [List.nil_append, hor] at hnot
              cases hnot

/-! ## The result -/

theorem tokens_eq_if (g : Guarded) (ending : LineEnding) :
    g.tokens ending = [] ++ Guard.keyword "IF" :: (g.tokens ending).tail := by
  cases g <;> rfl

theorem if_not_mem_tail (g : Guarded) (ending : LineEnding) :
    Guard.keyword "IF" ∉ (g.tokens ending).tail := by
  have hall : ((g.tokens ending).tail.all fun t => t.kind ≠ .keyword || t.text ≠ "IF".toList) =
      true := by
    cases g <;> cases ending <;> rfl
  intro hmem
  exact absurd (List.all_eq_true.mp hall _ hmem) (by decide)

/-- The `IF` of a guard comes to stand behind `CREATE OR` if and only if a
verb that is guarded stands there in the script: apart from such verbs no
head is cut in two, and no head of a guard's own making is. -/
theorem heads_whole_iff {script : Text} (hproblems : (Script.parse level script).problems = [])
    (accepts : Text → Text → Bool) (ending : LineEnding) :
    ∃ trace outcome,
      (guardCreates accepts ending).traceFrom (.start (Script.parse level script).body) =
        .ok trace ∧
      (guardCreates accepts ending).run level script = .ok outcome ∧
      outcome.output = Token.textOf trace.emitted ∧
      ((∀ before after, trace.emitted = before ++ Guard.keyword "IF" :: after →
          insideHead before = false) ↔
        ∀ pre t post, (Script.parse level script).body = pre ++ t :: post →
          (guardedAt accepts (t :: post)).isSome → insideHead pre = false) := by
  obtain ⟨raw, hraw, hbody⟩ := Script.tokensFrom_of_problems hproblems
  have hplaced : ∀ t ∈ (Script.parse level script).body, t.position.isSome := by
    intro t ht
    rw [hbody] at ht
    exact isSome_position_of_mem_body hraw ht
  obtain ⟨ps, trace, outcome, hlaid, hsource, htrace, hemitted, hrun, houtput⟩ :=
    run_guardCreates_pieces accepts hproblems ending
  refine ⟨trace, outcome, htrace, hrun, houtput, ?_⟩
  rw [hemitted]
  rw [← hsource] at hplaced ⊢
  constructor
  · intro hall pre t post heq hguard
    obtain ⟨g, hg⟩ := Option.isSome_iff_exists.mp hguard
    obtain ⟨front, taken, back, rfl, rfl⟩ := piece_of_guardedAt hlaid heq hg
    rw [sourceOf_append, sourceOf_guard] at heq
    obtain rfl := List.append_cancel_right heq
    rw [← (heads_alike hlaid ending).1]
    refine hall _ ((g.tokens ending).tail ++ emittedOf ending back) ?_
    rw [emittedOf_append, emittedOf_guard, tokens_eq_if]
    rfl
  · intro hall before after hemit
    obtain ⟨front, g, verb, taken, back, rfl, rfl, -⟩ :=
      piece_of_mark rfl (fun g => tokens_eq_if g ending)
        (fun g => ⟨List.not_mem_nil, if_not_mem_tail g ending⟩) hplaced hemit
    rw [List.append_nil, (heads_alike hlaid ending).1]
    refine hall _ verb (taken ++ sourceOf back) (sourceOf_append _ _) ?_
    rw [hlaid.drop.1]
    rfl

def createOrAlter : Text := "CREATE OR ALTER PROCEDURE p AS SELECT 1".toList

/-- A comment is no part of a head. -/
def createCommentAlter : Text := "CREATE -- OR\nALTER VIEW v".toList

/-- The guard of the procedure stands behind `CREATE OR`; that of the view
does not. -/
theorem heads_whole_createOrAlter_comment :
    (∃ trace outcome,
      (guardCreates (fun _ _ => true) .crlf).traceFrom
        (.start (Script.parse .sql110 createOrAlter).body) = .ok trace ∧
      (guardCreates (fun _ _ => true) .crlf).run .sql110 createOrAlter = .ok outcome ∧
      outcome.output = Token.textOf trace.emitted ∧
      ∃ before after, trace.emitted = before ++ Guard.keyword "IF" :: after ∧
        insideHead before = true) ∧
    ∃ trace outcome,
      (guardCreates (fun _ _ => true) .crlf).traceFrom
        (.start (Script.parse .sql110 createCommentAlter).body) = .ok trace ∧
      (guardCreates (fun _ _ => true) .crlf).run .sql110 createCommentAlter = .ok outcome ∧
      outcome.output = Token.textOf trace.emitted ∧ Guard.keyword "IF" ∈ trace.emitted ∧
      ∀ before after, trace.emitted = before ++ Guard.keyword "IF" :: after →
        insideHead before = false := by
  constructor
  · have hproblems : (Script.parse .sql110 createOrAlter).problems = [] := by decide +kernel
    have hbody : (Script.parse .sql110 createOrAlter).body =
        (Script.parse .sql110 createOrAlter).body.take 4 ++
          ⟨.keyword, "ALTER".toList, some ⟨1, 11⟩⟩ ::
            (Script.parse .sql110 createOrAlter).body.drop 5 := by
      decide +kernel
    obtain ⟨trace, outcome, htrace, hrun, houtput, hiff⟩ :=
      heads_whole_iff hproblems (fun _ _ => true) .crlf
    refine ⟨trace, outcome, htrace, hrun, houtput, ?_⟩
    have hnot := mt hiff.mp fun hall =>
      absurd (hall _ _ _ hbody (by decide +kernel)) (by decide +kernel)
    simp only [Classical.not_forall, Bool.not_eq_false] at hnot
    obtain ⟨before, after, hemitted, hhead⟩ := hnot
    exact ⟨before, after, hemitted, hhead⟩
  · have hproblems : (Script.parse .sql110 createCommentAlter).problems = [] := by decide +kernel
    obtain ⟨trace, outcome, htrace, hrun, houtput, hiff⟩ :=
      heads_whole_iff hproblems (fun _ _ => true) .crlf
    refine ⟨trace, outcome, htrace, hrun, houtput, ?_, hiff.mpr ?_⟩
    · have hmem : ((guardCreates (fun _ _ => true) .crlf).traceFrom
          (.start (Script.parse .sql110 createCommentAlter).body)).toOption.all fun trace =>
            Guard.keyword "IF" ∈ trace.emitted := by
        decide +kernel
      rw [htrace] at hmem
      exact of_decide_eq_true hmem
    · intro pre t post hbody hguard
      have hcheck : ∀ n < (Script.parse .sql110 createCommentAlter).body.length,
          (guardedAt (fun _ _ => true)
            ((Script.parse .sql110 createCommentAlter).body.drop n)).isSome →
          insideHead ((Script.parse .sql110 createCommentAlter).body.take n) = false := by
        decide +kernel
      have hthis := hcheck pre.length (by rw [hbody]; simp)
      rw [hbody, List.drop_left, List.take_left] at hthis
      exact hthis hguard

end Pass

end Tsql
