import Tsql.Proofs.GuardReading
import Tsql.Proofs.Taking

/-!
# A guarded script, read again

A guard stands in the place of a verb, and a schema guard takes the rest of
the header with it. `Piece` cuts a script accordingly, into tokens that are
kept and headers that give way to a guard, and `run_guardCreates_pieces`
says that a run of the pass is such a cut.

`tokensFrom_emittedOf` says that the new text is read as the tokens that
were put in place. The guards are the business of `GuardText`; here it is
about the script around them. The tokens of the script were read before
other text: what stood behind some of them began with a verb and now begins
with a guard, and nothing else has changed. It takes that no name breaks
out of its literal and, since a schema guard ends in a word and not in a
line break, that what comes to stand behind it is no part of that word.

Where no schema is guarded, the pieces are the tokens themselves:
`tokensFrom_guarded` is that case, and `body_guarded_iff` adds that a name
that breaks out is never made good by what stands behind it.
-/

namespace Tsql

open Lexeme

/-! ## The text of a schema guard -/

namespace Guarded

variable {name : Text} {owner : Option Token} {ending : LineEnding}

theorem shape_schema (name : Text) (owner : Option Token) (ending : LineEnding) :
    ((schema name owner).raw ending).map Token.shape =
      ((schema [] none).raw ending).map Token.shape := by
  cases ending <;> rfl

theorem fits_schema (name : Text) (owner : Option Token) (ending : LineEnding) :
    fits ((schema name owner).raw ending) = true := by
  rw [← fits_map_shape, shape_schema]
  cases ending <;> decide +kernel

theorem filter_raw_schema (name : Text) (owner : Option Token) (ending : LineEnding) :
    ((schema name owner).raw ending).filter (·.kind = .stringLiteral) =
      [Guard.literal name, Guard.literal (Guard.schemaStatement name owner)] := by
  cases ending <;> rfl

/-- Plain literals read back, whatever the name and the owner. -/
theorem cuts_of_mem_schema {t : Token} (ht : t ∈ (schema name owner).raw ending) :
    Cuts t.kind t.text [] := by
  by_cases hkind : t.kind = .stringLiteral
  · have hmem : t ∈ ((schema name owner).raw ending).filter (·.kind = .stringLiteral) :=
      List.mem_filter.mpr ⟨ht, by simpa using hkind⟩
    rw [filter_raw_schema] at hmem
    simp only [List.mem_cons, List.not_mem_nil, or_false] at hmem
    rcases hmem with rfl | rfl <;> exact cuts_literal _ (by simp)
  · have halone : standsAlone (((schema [] none).raw ending).map Token.shape) = true := by
      cases ending <;> decide +kernel
    rw [← shape_schema name owner] at halone
    have hthis := List.all_eq_true.mp halone t.shape (List.mem_map_of_mem ht)
    rw [show t.shape = t from if_neg hkind] at hthis
    simpa [hkind] using hthis

/-- The text of a schema guard is read as its tokens, in front of whatever
may stand behind a word. -/
theorem readsBefore_schema {rest : Text} (hrest : rest.head?.any isIdentifierPart = false) :
    ReadsBefore ((schema name owner).raw ending) rest := by
  refine readsBefore_of_fits (fits_schema name owner ending) (fun t => cuts_of_mem_schema) ?_
  intro t ht
  have hlast : ((schema name owner).raw ending).getLast? = some Guard.separator.unmarked := by
    cases ending <;> rfl
  obtain rfl := Option.some.inj (hlast.symm.trans ht)
  simp [Guard.separator, Token.synthetic, Token.unmarked, stops, wordStops, hrest]

end Guarded

namespace Pass

variable {accepts : Text → Text → Bool} {ending : LineEnding} {level : Level}

theorem readsBefore_guard {g : Guarded} (hname : g.breaksOut = false) (ending : LineEnding)
    {rest : Text} (hrest : rest.head?.any isIdentifierPart = false) :
    ReadsBefore (g.raw ending) rest := by
  cases g with
  | schema name owner => exact Guarded.readsBefore_schema hrest
  | _ => exact Guarded.readsBefore_raw rfl hname ending hrest

theorem initial_of_guard (g : Guarded) (ending : LineEnding) :
    ∃ r, Token.textOf (g.written ending) = 'I' :: r := by
  cases g <;> exact ⟨_, rfl⟩

/-! ## The `GO` of a guard -/

/-- The tokens of a guard before its `GO`. -/
def lead (ending : LineEnding) (g : Guarded) : List Token :=
  (g.tokens ending).takeWhile (·.kind ≠ .batchSeparator)

/-- The tokens of a guard behind its `GO`. -/
def trail (ending : LineEnding) : Guarded → List Token
  | .procedure _ | .view _ => [Guard.newline ending, Guard.keyword "ALTER"]
  | .function _ => [Guard.newline ending, Guard.keyword "CREATE"]
  | .schema _ _ => []

theorem tokens_eq (g : Guarded) (ending : LineEnding) :
    g.tokens ending = lead ending g ++ Guard.separator :: trail ending g := by
  cases g <;> cases ending <;> rfl

theorem written_eq (g : Guarded) (ending : LineEnding) :
    g.written ending = (lead ending g).flatMap Token.settled ++
      Guard.separator :: (trail ending g).flatMap Token.settled := by
  have hsettled : Guard.separator.settled = [Guard.separator] := rfl
  rw [Guarded.written, tokens_eq, List.flatMap_append, List.flatMap_cons, hsettled,
    List.singleton_append]

theorem mem_settled {t u : Token} (h : u ∈ t.settled) : u = t ∨ u.kind = .whitespace := by
  rw [Token.settled] at h
  split at h
  · obtain ⟨c, -, rfl⟩ := List.mem_map.mp h
    exact Or.inr rfl
  · exact Or.inl (List.mem_singleton.mp h)

theorem kind_of_mem_guard {g : Guarded} {ending : LineEnding} {t : Token}
    (h : t ∈ lead ending g ++ trail ending g) : t.kind ≠ .batchSeparator := by
  rcases List.mem_append.mp h with hlead | htrail
  · simpa using List.all_eq_true.mp List.all_takeWhile t hlead
  · have hall : (trail ending g).all (·.kind ≠ .batchSeparator) = true := by cases g <;> rfl
    simpa using List.all_eq_true.mp hall t htrail

/-- Besides its `GO` a guard holds neither a mark nor a word to be marked. -/
theorem unmarked_of_mem_guard (g : Guarded) (ending : LineEnding) :
    ∀ u ∈ (lead ending g).flatMap Token.settled ++ (trail ending g).flatMap Token.settled,
      u.unmarked = u ∧ u.isWord "GO" = false := by
  have hwords : (g.tokens ending).all (!·.isWord "GO") = true := by cases g <;> rfl
  intro u hu
  rw [← List.flatMap_append] at hu
  obtain ⟨t, ht, hsettled⟩ := List.mem_flatMap.mp hu
  rcases mem_settled hsettled with rfl | hblank
  · have hmem : u ∈ g.tokens ending := by
      rw [tokens_eq]
      exact List.mem_append.mpr
        ((List.mem_append.mp ht).imp_right (List.mem_cons_of_mem Guard.separator))
    exact ⟨unmarked_eq_self (kind_of_mem_guard ht),
      by simpa using List.all_eq_true.mp hwords u hmem⟩
  · exact ⟨unmarked_eq_self (by simp [hblank]), by simp [Token.isWord, hblank]⟩

theorem raw_eq (g : Guarded) (ending : LineEnding) :
    g.raw ending = (lead ending g).flatMap Token.settled ++
      Guard.separator.unmarked :: (trail ending g).flatMap Token.settled := by
  obtain ⟨hlead, htrail⟩ := List.forall_mem_append.mp (unmarked_of_mem_guard g ending)
  rw [Guarded.raw, written_eq, List.map_append, List.map_cons,
    List.map_congr_left fun t ht => (hlead t ht).1, List.map_id',
    List.map_congr_left fun t ht => (htrail t ht).1, List.map_id']

/-- The line ends before the `GO` of a guard. -/
theorem lineStartAfter_lead (g : Guarded) (lineStart : Bool) (ending : LineEnding) :
    lineStartAfter lineStart ((lead ending g).flatMap Token.settled) = true := by
  have hlast : (lead ending g).getLast? = some (Guard.newline ending) := by cases g <;> rfl
  have hsettled : (Guard.newline ending).settled = [Guard.newline ending] := by
    cases ending <;> rfl
  have hnewline : (Guard.newline ending).isBlank = true ∧
      (Guard.newline ending).text.contains '\n' = true := by
    cases ending <;> exact ⟨rfl, rfl⟩
  obtain ⟨front, hfront⟩ := List.getLast?_eq_some_iff.mp hlast
  rw [hfront, List.flatMap_append, List.flatMap_singleton, hsettled, lineStartAfter_append,
    lineStartAfter, hnewline.1, hnewline.2, Bool.or_true]
  rfl

/-- The one `GO` of a guard opens a line. -/
theorem markBatches_guard (g : Guarded) (lineStart : Bool) (ending : LineEnding) :
    markBatches lineStart (g.raw ending) = g.written ending := by
  obtain ⟨hlead, htrail⟩ := List.forall_mem_append.mp (unmarked_of_mem_guard g ending)
  have hgo : Guard.separator.unmarked.markedAt true = Guard.separator := rfl
  rw [raw_eq, written_eq, markBatches_append, markBatches_of_no_go fun t ht => (hlead t ht).2,
    lineStartAfter_lead, markBatches_step, hgo, markBatches_of_no_go fun t ht => (htrail t ht).2]

theorem lineStartAfter_guard (g : Guarded) (lineStart : Bool) (ending : LineEnding) :
    lineStartAfter lineStart (g.raw ending) = false := by
  rw [raw_eq, lineStartAfter_append, lineStartAfter_lead]
  cases g <;> cases ending <;> rfl

/-! ## Headers of schemas -/

theorem isIdentifier_of_read {ts : List Token} {found : QualifiedName × Nat}
    (h : QualifiedName.read ts = some found) : ∃ t, ts[0]? = some t ∧ t.isIdentifier = true := by
  cases ts with
  | nil => cases h
  | cons t ts =>
      refine ⟨t, rfl, ?_⟩
      rw [← Bool.not_eq_false]
      intro hnot
      simp [QualifiedName.read, hnot] at h

theorem not_verb_of_isIdentifier {t : Token} (h : t.isIdentifier = true) :
    ¬ (t.isKeyword "CREATE" = true ∨ t.isKeyword "ALTER" = true) := by
  intro hverb
  rw [Token.isIdentifier, kind_of_verb hverb] at h
  cases h

theorem not_verb_of_isKeyword {t : Token} {word : String} (h : t.isKeyword word = true)
    (hword : word ∈ ["SCHEMA", "AUTHORIZATION"]) :
    ¬ (t.isKeyword "CREATE" = true ∨ t.isKeyword "ALTER" = true) := by
  have hother : ∀ word ∈ ["SCHEMA", "AUTHORIZATION"], ∀ verb ∈ ["CREATE", "ALTER"],
      word.toList.map Char.toUpper ≠ verb.toList.map Char.toUpper := by
    decide
  have hverb : ∀ verb ∈ ["CREATE", "ALTER"], t.isKeyword verb = false :=
    fun verb hmem => not_isKeyword_of_isKeyword h (hother word hword verb hmem)
  simp [hverb]

/-- The header of a guarded schema: the keyword, a name, and an owner if
the guard has one. -/
theorem header_of_schema {t : Token} {ts : List Token} {name : Text} {owner : Option Token}
    (h : guardedAt accepts (t :: ts) = some (.schema name owner)) :
    ∃ object found, (ts.filter (!·.isWhitespace))[0]? = some object ∧
      QualifiedName.read ((ts.filter (!·.isWhitespace)).drop 1) = some found ∧
      object.isKeyword "SCHEMA" = true ∧ owner = schemaOwner? (Cursor.start (t :: ts)) := by
  unfold guardedAt at h
  dsimp only at h
  split at h
  · split at h
    · rename_i object found span hobject hname
      split at h
      · split at h <;> cases h
      split at h
      · rename_i hschema
        simp only [Bool.and_eq_true] at hschema
        split at h
        · obtain ⟨-, rfl⟩ := Guarded.schema.inj (Option.some.inj h)
          exact ⟨object, (found, span), hobject, hname, hschema.1.1, rfl⟩
        · cases h
      split at h
      · split at h <;> cases h
      split at h
      · split at h <;> cases h
      · cases h
    · cases h
  · cases h

theorem clause_of_schemaOwner {t : Token} {ts : List Token} {owner : Token}
    (h : schemaOwner? (Cursor.start (t :: ts)) = some owner) :
    ∃ clause, (ts.filter (!·.isWhitespace))[2]? = some clause ∧
      (ts.filter (!·.isWhitespace))[3]? = some owner ∧
      clause.isKeyword "AUTHORIZATION" = true ∧ owner.isIdentifier = true := by
  unfold schemaOwner? at h
  split at h
  · rename_i clause found hclause hfound
    split at h
    · rename_i hboth
      simp only [Bool.and_eq_true] at hboth
      obtain rfl := Option.some.inj h
      exact ⟨clause, hclause, hfound, hboth⟩
    · cases h
  · cases h

/-- The tokens taken with the verb of a schema's definition: none is a
verb, and the last is a name. -/
theorem upcoming_of_schema {t : Token} {ts : List Token} {name : Text} {owner : Option Token}
    (h : guardedAt accepts (t :: ts) = some (.schema name owner)) :
    ∃ n last, (Guarded.schema name owner).taken = n + 1 ∧
      (ts.filter (!·.isWhitespace))[n]? = some last ∧ last.isIdentifier = true ∧
      ∀ i < n + 1, ∀ u, (ts.filter (!·.isWhitespace))[i]? = some u →
        ¬ (u.isKeyword "CREATE" = true ∨ u.isKeyword "ALTER" = true) := by
  obtain ⟨object, found, hobject, hname, hkeyword, howner⟩ := header_of_schema h
  obtain ⟨first, hfirst, hfirstName⟩ := isIdentifier_of_read hname
  rw [List.getElem?_drop, Nat.add_zero] at hfirst
  have hshort : ∀ i < 2, ∀ u, (ts.filter (!·.isWhitespace))[i]? = some u →
      ¬ (u.isKeyword "CREATE" = true ∨ u.isKeyword "ALTER" = true) := by
    intro i hi u hu
    match i, hi with
    | 0, _ =>
        obtain rfl := Option.some.inj (hobject.symm.trans hu)
        exact not_verb_of_isKeyword hkeyword (by simp)
    | 1, _ =>
        obtain rfl := Option.some.inj (hfirst.symm.trans hu)
        exact not_verb_of_isIdentifier hfirstName
  cases owner with
  | none => exact ⟨1, first, rfl, hfirst, hfirstName, hshort⟩
  | some o =>
      obtain ⟨clause, hclause, howner, hclauseKeyword, hownerName⟩ :=
        clause_of_schemaOwner howner.symm
      refine ⟨3, o, rfl, howner, hownerName, fun i hi u hu => ?_⟩
      match i, hi with
      | 0, _ => exact hshort 0 (by omega) u hu
      | 1, _ => exact hshort 1 (by omega) u hu
      | 2, _ =>
          obtain rfl := Option.some.inj (hclause.symm.trans hu)
          exact not_verb_of_isKeyword hclauseKeyword (by simp)
      | 3, _ =>
          obtain rfl := Option.some.inj (howner.symm.trans hu)
          exact not_verb_of_isIdentifier hownerName

theorem taken_of_not_schema {g : Guarded} (hg : g.isSchema = false) : g.taken = 0 := by
  cases g with
  | schema name owner => cases hg
  | _ => rfl

theorem not_verb_of_mem_header {t u : Token} {ts : List Token} {g : Guarded}
    (h : guardedAt accepts (t :: ts) = some g) (hu : u ∈ header g.taken ts) :
    ¬ (u.isKeyword "CREATE" = true ∨ u.isKeyword "ALTER" = true) := by
  cases g with
  | schema name owner =>
      obtain ⟨n, last, htaken, -, -, hnone⟩ := upcoming_of_schema h
      rw [htaken] at hu
      rcases mem_header hu with hblank | ⟨i, hi, hget⟩
      · intro hverb
        rw [Token.isWhitespace, kind_of_verb hverb] at hblank
        cases hblank
      · exact hnone i hi u hget
  | _ =>
      rw [taken_of_not_schema rfl, header_zero] at hu
      cases hu

/-- The verb and what is taken with it end in a word, so that no line
begins behind them. -/
theorem lineStartAfter_header {t : Token} {ts : List Token} {g : Guarded}
    (h : guardedAt accepts (t :: ts) = some g) (lineStart : Bool) :
    lineStartAfter lineStart ((t :: header g.taken ts).map Token.unmarked) = false := by
  have hblank : ∀ u : Token, u.kind = .keyword ∨ u.isIdentifier = true →
      u.unmarked.isBlank = false := by
    intro u hu
    rw [isBlank_unmarked, Token.isBlank, Token.isWhitespace, Token.isComment]
    rcases hu with hu | hu
    · rw [hu]
      rfl
    · simp only [Token.isIdentifier, Bool.or_eq_true, beq_iff_eq] at hu
      rcases hu with hu | hu <;>
        · rw [hu]
          rfl
  have hverb := hblank t (Or.inl (kind_of_verb (verb_of_guardedAt h)))
  cases g with
  | schema name owner =>
      obtain ⟨n, last, htaken, hget, hname, -⟩ := upcoming_of_schema h
      refine lineStartAfter_of_getLast? (t := last.unmarked) ?_ (hblank last (Or.inr hname)) _
      rw [htaken, List.getLast?_map, List.getLast?_cons, getLast?_header hget]
      rfl
  | _ =>
      rw [taken_of_not_schema rfl, header_zero]
      exact lineStartAfter_of_getLast? rfl hverb _

/-! ## The pieces of a script -/

/-- A piece of a script as the pass goes over it. -/
inductive Piece where
  | kept (t : Token)
  /-- A verb and the tokens taken with it, for which a guard is put -/
  | guard (g : Guarded) (verb : Token) (taken : List Token)

namespace Piece

def source : Piece → List Token
  | kept t => [t]
  | guard _ verb taken => verb :: taken

def emitted (ending : LineEnding) : Piece → List Token
  | kept t => [t]
  | guard g _ _ => g.tokens ending

/-- The tokens as they are read again. -/
def written (ending : LineEnding) : Piece → List Token
  | kept t => [t]
  | guard g _ _ => g.written ending

end Piece

def sourceOf (ps : List Piece) : List Token := ps.flatMap Piece.source

def emittedOf (ending : LineEnding) (ps : List Piece) : List Token :=
  ps.flatMap (Piece.emitted ending)

def writtenOf (ending : LineEnding) (ps : List Piece) : List Token :=
  ps.flatMap (Piece.written ending)

theorem sourceOf_kept (t : Token) (ps : List Piece) :
    sourceOf (.kept t :: ps) = t :: sourceOf ps := rfl

theorem sourceOf_guard (g : Guarded) (verb : Token) (taken : List Token) (ps : List Piece) :
    sourceOf (.guard g verb taken :: ps) = verb :: (taken ++ sourceOf ps) := rfl

theorem sourceOf_append (ps qs : List Piece) : sourceOf (ps ++ qs) = sourceOf ps ++ sourceOf qs :=
  List.flatMap_append

theorem emittedOf_append (ending : LineEnding) (ps qs : List Piece) :
    emittedOf ending (ps ++ qs) = emittedOf ending ps ++ emittedOf ending qs :=
  List.flatMap_append

theorem emittedOf_guard (ending : LineEnding) (g : Guarded) (verb : Token) (taken : List Token)
    (ps : List Piece) :
    emittedOf ending (.guard g verb taken :: ps) = g.tokens ending ++ emittedOf ending ps := rfl

/-- The pieces are those that the pass makes of their tokens. -/
def Laid (accepts : Text → Text → Bool) : List Piece → Prop
  | [] => True
  | .kept t :: ps => guardedAt accepts (t :: sourceOf ps) = none ∧ Laid accepts ps
  | .guard g verb taken :: ps =>
    guardedAt accepts (verb :: (taken ++ sourceOf ps)) = some g ∧
      header g.taken (taken ++ sourceOf ps) = taken ∧
      behind g.taken (taken ++ sourceOf ps) = sourceOf ps ∧ Laid accepts ps

theorem Laid.tail {p : Piece} {ps : List Piece} (h : Laid accepts (p :: ps)) : Laid accepts ps := by
  cases p with
  | kept t => exact h.2
  | guard g verb taken => exact h.2.2.2

theorem Laid.drop {pre ps : List Piece} (h : Laid accepts (pre ++ ps)) : Laid accepts ps := by
  induction pre with
  | nil => exact h
  | cons p pre ih => exact ih h.tail

theorem exists_pieces (accepts : Text → Text → Bool) (ending : LineEnding) (ts : List Token) :
    ∃ ps ds, Laid accepts ps ∧ sourceOf ps = ts ∧ Passed (guardChoice accepts ending) ts ds ∧
      ds.flatMap Decision.emitted = emittedOf ending ps := by
  induction hn : ts.length using Nat.strongRecOn generalizing ts with
  | ind n ih =>
      cases ts with
      | nil => exact ⟨[], [], trivial, rfl, .nil, rfl⟩
      | cons t ts =>
          obtain ⟨d, hd, hcases⟩ := guardChoice_eq accepts ending t ts
          have hshorter : (behind d.consumed ts).length < n := by
            have := length_behind_le d.consumed ts
            rw [List.length_cons] at hn
            omega
          obtain ⟨ps, ds, hlaid, hsource, hpassed, hemitted⟩ := ih _ hshorter _ rfl
          rcases hcases with ⟨hnone, hkeep, hzero⟩ | ⟨g, hsome, htokens, htaken⟩
          · rw [hzero, behind_zero] at hsource
            refine ⟨.kept t :: ps, d :: ds, ⟨hsource ▸ hnone, hlaid⟩, ?_, .cons hd hpassed, ?_⟩
            · rw [← hsource]
              rfl
            · rw [List.flatMap_cons, hkeep, hemitted]
              rfl
          · rw [htaken] at hsource
            have hall : header g.taken ts ++ sourceOf ps = ts := by
              rw [hsource, header_append_behind]
            refine ⟨.guard g t (header g.taken ts) :: ps, d :: ds, ?_, ?_, .cons hd hpassed, ?_⟩
            · refine ⟨?_, ?_, ?_, hlaid⟩ <;> rw [hall]
              · exact hsome
              · exact hsource.symm
            · exact congrArg (t :: ·) hall
            · rw [List.flatMap_cons, htokens, hemitted]
              rfl

/-- A run of the pass goes over a script in pieces. -/
theorem run_guardCreates_pieces (accepts : Text → Text → Bool) {script : Text}
    (hproblems : (Script.parse level script).problems = []) (ending : LineEnding) :
    ∃ ps trace outcome, Laid accepts ps ∧ sourceOf ps = (Script.parse level script).body ∧
      (guardCreates accepts ending).traceFrom (.start (Script.parse level script).body) =
        .ok trace ∧
      trace.emitted = emittedOf ending ps ∧
      (guardCreates accepts ending).run level script = .ok outcome ∧
      outcome.output = Token.textOf trace.emitted := by
  obtain ⟨ps, ds, hlaid, hsource, hpassed, hemitted⟩ :=
    exists_pieces accepts ending (Script.parse level script).body
  have htrace := traceFrom_of_passed guardCreates_sees hpassed (.start _) rfl
  exact ⟨ps, _, _, hlaid, hsource, htrace, hemitted,
    (run_eq_ok_iff hproblems).mpr ⟨_, htrace, rfl⟩, rfl⟩

/-! ## Reading the pieces again -/

theorem guards_append_right (ts : List Token) {us : List Token} {g : Guarded}
    (h : g ∈ guards accepts us) :
    g ∈ guards accepts (ts ++ us) := by
  induction ts with
  | nil => exact h
  | cons t ts ih => exact List.mem_append_right _ ih

theorem tail_names {p : Piece} {ps : List Piece} {q : Guarded → Prop}
    (h : ∀ g ∈ guards accepts (sourceOf (p :: ps)), q g) :
    ∀ g ∈ guards accepts (sourceOf ps), q g :=
  fun g hg => h g (guards_append_right p.source hg)

theorem textOf_writtenOf (ending : LineEnding) (ps : List Piece) :
    Token.textOf (writtenOf ending ps) = Token.textOf (emittedOf ending ps) := by
  induction ps with
  | nil => rfl
  | cons p ps ih =>
      rw [writtenOf, emittedOf, List.flatMap_cons, List.flatMap_cons, Token.textOf_append,
        Token.textOf_append]
      cases p with
      | kept t => exact congrArg (t.text ++ [] ++ ·) ih
      | guard g verb taken =>
          rw [Piece.written, Piece.emitted, textOf_written]
          exact congrArg _ ih

/-- Up to the first guard nothing has changed, and there a verb has given
way to an `IF`. -/
theorem textOf_writtenOf_cases {ps : List Piece} (hlaid : Laid accepts ps) (ending : LineEnding) :
    Token.textOf (writtenOf ending ps) = Token.textOf (sourceOf ps) ∨
      ∃ before c r r', isVerbInitial c = true ∧ Token.textOf (sourceOf ps) = before ++ c :: r ∧
        Token.textOf (writtenOf ending ps) = before ++ 'I' :: r' := by
  induction ps with
  | nil => exact Or.inl rfl
  | cons p ps ih =>
      cases p with
      | kept t =>
          have hwritten : writtenOf ending (.kept t :: ps) = t :: writtenOf ending ps := rfl
          rw [hwritten, sourceOf_kept, Token.textOf_cons, Token.textOf_cons]
          rcases ih hlaid.2 with hsame | ⟨before, c, r, r', hc, hts, hre⟩
          · exact Or.inl (by rw [hsame])
          · exact Or.inr ⟨t.text ++ before, c, r, r', hc, by rw [hts, List.append_assoc],
              by rw [hre, List.append_assoc]⟩
      | guard g verb taken =>
          have hwritten : writtenOf ending (.guard g verb taken :: ps) =
              g.written ending ++ writtenOf ending ps := rfl
          obtain ⟨c, r, htext, hc⟩ := initial_of_verb (verb_of_guardedAt hlaid.1)
          obtain ⟨r', hI⟩ := initial_of_guard g ending
          refine Or.inr ⟨[], c, r ++ Token.textOf (taken ++ sourceOf ps),
            r' ++ Token.textOf (writtenOf ending ps), hc, ?_, ?_⟩
          · rw [sourceOf_guard, Token.textOf_cons, htext]
            rfl
          · rw [hwritten, Token.textOf_append, hI]
            rfl

/-- What was cut off before the pieces is cut off before their new
form. -/
theorem cuts_writtenOf {ps : List Piece} (hlaid : Laid accepts ps) (ending : LineEnding)
    {kind : Kind} {text : Text} (h : Cuts kind text (Token.textOf (sourceOf ps))) :
    Cuts kind text (Token.textOf (writtenOf ending ps)) := by
  rcases textOf_writtenOf_cases hlaid ending with hsame | ⟨before, c, r, r', hc, hts, hre⟩
  · rw [hsame]
    exact h
  · rw [hts] at h
    rw [hre]
    exact cuts_append_initial hc h r'

/-- What comes to stand behind the `GO` of each schema guard may stand
behind a word. -/
def SeparatorsEnd (ending : LineEnding) (ps : List Piece) : Prop :=
  ∀ front name owner verb taken back, ps = front ++ .guard (.schema name owner) verb taken :: back →
    (Token.textOf (writtenOf ending back)).head?.any isIdentifierPart = false

theorem SeparatorsEnd.tail {p : Piece} {ps : List Piece} (h : SeparatorsEnd ending (p :: ps)) :
    SeparatorsEnd ending ps := by
  rintro front name owner verb taken back rfl
  exact h (p :: front) name owner verb taken back rfl

/-- What comes to stand behind any guard. -/
theorem head_writtenOf {g : Guarded} {verb : Token} {taken : List Token} {ps : List Piece}
    (hlaid : Laid accepts (.guard g verb taken :: ps))
    (hends : SeparatorsEnd ending (.guard g verb taken :: ps))
    (hreads : ReadsBefore ((sourceOf (.guard g verb taken :: ps)).map Token.unmarked) []) :
    (Token.textOf (writtenOf ending ps)).head?.any isIdentifierPart = false := by
  by_cases hschema : g.isSchema = true
  · cases g with
    | schema name owner => exact hends [] name owner verb taken ps rfl
    | _ => cases hschema
  · obtain ⟨hguard, hheader, -, hmore⟩ := hlaid
    rw [taken_of_not_schema (by simpa using hschema), header_zero] at hheader
    subst hheader
    have hverb := verb_of_guardedAt hguard
    rw [sourceOf_guard, List.nil_append] at hreads
    obtain ⟨hcuts, -⟩ := hreads
    rw [unmarked_eq_self (by rw [kind_of_verb hverb]; decide), List.append_nil,
      textOf_map_unmarked] at hcuts
    have hstops := ((cuts_iff _ _ _).mp (cuts_writtenOf hmore ending hcuts)).2
    rw [kind_of_verb hverb] at hstops
    simp only [stops, wordStops, Bool.and_eq_true, Bool.not_eq_true'] at hstops
    exact hstops.1

theorem readsBefore_writtenOf {ps : List Piece} (hlaid : Laid accepts ps)
    (hnames : ∀ g ∈ guards accepts (sourceOf ps), g.breaksOut = false)
    (hends : SeparatorsEnd ending ps)
    (hreads : ReadsBefore ((sourceOf ps).map Token.unmarked) []) :
    ReadsBefore ((writtenOf ending ps).map Token.unmarked) [] := by
  induction ps with
  | nil => exact trivial
  | cons p ps ih =>
      cases p with
      | kept t =>
          obtain ⟨hcuts, hmore⟩ := hreads
          refine ⟨?_, ih hlaid.2 (tail_names hnames) hends.tail hmore⟩
          rw [List.append_nil] at hcuts ⊢
          rw [textOf_map_unmarked] at hcuts ⊢
          exact cuts_writtenOf hlaid.2 ending hcuts
      | guard g verb taken =>
          have hhead := head_writtenOf hlaid hends hreads
          have hg : g.breaksOut = false :=
            hnames g (mem_guards_of_guardedAt [] hlaid.1)
          have hmore : ReadsBefore ((sourceOf ps).map Token.unmarked) [] := by
            rw [sourceOf_guard, ← List.cons_append, List.map_append, readsBefore_append] at hreads
            exact hreads.2
          have hwritten : (writtenOf ending (.guard g verb taken :: ps)).map Token.unmarked =
              g.raw ending ++ (writtenOf ending ps).map Token.unmarked :=
            List.map_append
          rw [hwritten, readsBefore_append, List.append_nil, textOf_map_unmarked]
          exact ⟨readsBefore_guard hg ending hhead,
            ih hlaid.tail (tail_names hnames) hends.tail hmore⟩

theorem markBatches_writtenOf {ps : List Piece} (hlaid : Laid accepts ps) {lineStart : Bool}
    (h : (markBatches lineStart ((sourceOf ps).map Token.unmarked)).map Token.face =
      (sourceOf ps).map Token.face) :
    (markBatches lineStart ((writtenOf ending ps).map Token.unmarked)).map Token.face =
      (writtenOf ending ps).map Token.face := by
  induction ps generalizing lineStart with
  | nil => rfl
  | cons p ps ih =>
      cases p with
      | kept t =>
          have hwritten : writtenOf ending (.kept t :: ps) = t :: writtenOf ending ps := rfl
          rw [sourceOf_kept, List.map_cons, markBatches_step, List.map_cons, List.map_cons] at h
          obtain ⟨hhere, hmore⟩ := List.cons.inj h
          rw [hwritten, List.map_cons, markBatches_step, List.map_cons, List.map_cons, hhere,
            ih hlaid.2 hmore]
      | guard g verb taken =>
          obtain ⟨hguard, hheader, -, hlaid⟩ := hlaid
          have hflag := lineStartAfter_header hguard lineStart
          rw [hheader] at hflag
          rw [sourceOf_guard, ← List.cons_append, List.map_append, markBatches_append, hflag,
            List.map_append, List.map_append] at h
          have hmore := (List.append_inj h (by simp [length_markBatches])).2
          have hwritten : writtenOf ending (.guard g verb taken :: ps) =
              g.written ending ++ writtenOf ending ps := rfl
          have hraw : (g.written ending).map Token.unmarked = g.raw ending := rfl
          rw [hwritten, List.map_append, hraw, markBatches_append, markBatches_guard,
            lineStartAfter_guard, List.map_append, List.map_append, ih hlaid hmore]

/-- The new script is read as the tokens of its pieces. -/
theorem tokensFrom_emittedOf {source : Text} {ps : List Piece} (hlaid : Laid accepts ps)
    (hread : ReadAs source (sourceOf ps))
    (hnames : ∀ g ∈ guards accepts (sourceOf ps), g.breaksOut = false)
    (hends : SeparatorsEnd ending ps) :
    ∃ raw, tokensFrom .start (Token.textOf (emittedOf ending ps)) = .ok raw ∧
      (markBatches true raw).map Token.face = (writtenOf ending ps).map Token.face := by
  rw [← textOf_writtenOf]
  exact tokensFrom_textOf (readsBefore_writtenOf hlaid hnames hends hread.reads)
    (markBatches_writtenOf hlaid hread.markBatches)

/-! ## Where no schema is guarded -/

theorem mem_guards_of_piece {front back : List Piece} {g : Guarded} {verb : Token}
    {taken : List Token} (hlaid : Laid accepts (front ++ .guard g verb taken :: back)) :
    g ∈ guards accepts (sourceOf (front ++ .guard g verb taken :: back)) := by
  rw [sourceOf_append]
  exact mem_guards_of_guardedAt (sourceOf front) hlaid.drop.1

theorem separatorsEnd_of_not_schema {ps : List Piece} (hlaid : Laid accepts ps)
    (hschema : ∀ g ∈ guards accepts (sourceOf ps), g.isSchema = false) :
    SeparatorsEnd ending ps := by
  rintro front name owner verb taken back rfl
  cases hschema _ (mem_guards_of_piece hlaid)

theorem pieces_of_not_schema {ps : List Piece} (hlaid : Laid accepts ps)
    (hschema : ∀ g ∈ guards accepts (sourceOf ps), g.isSchema = false) (ending : LineEnding) :
    emittedOf ending ps = guarded accepts ending (sourceOf ps) ∧
      writtenOf ending ps = reread accepts ending (sourceOf ps) := by
  induction ps with
  | nil => exact ⟨rfl, rfl⟩
  | cons p ps ih =>
      obtain ⟨hemitted, hwritten⟩ := ih hlaid.tail (tail_names hschema)
      cases p with
      | kept t =>
          rw [sourceOf_kept, guarded, reread, hlaid.1, ← hemitted, ← hwritten]
          exact ⟨rfl, rfl⟩
      | guard g verb taken =>
          obtain ⟨hguard, hheader, -, -⟩ := hlaid
          have hg : g.isSchema = false := hschema g (mem_guards_of_guardedAt [] hguard)
          rw [taken_of_not_schema hg, header_zero] at hheader
          subst hheader
          rw [List.nil_append] at hguard
          rw [sourceOf_guard, List.nil_append, guarded, reread, hguard, ← hemitted, ← hwritten]
          exact ⟨rfl, rfl⟩

/-- Guarding always comes to an end with a script, and what it gives is
the script with the guards in it. -/
theorem run_guardCreates {script : Text}
    (hproblems : (Script.parse level script).problems = [])
    (hschema : ∀ g ∈ guards accepts (Script.parse level script).body, g.isSchema = false)
    (ending : LineEnding) :
    ∃ outcome, (guardCreates accepts ending).run level script = .ok outcome ∧
      outcome.output = Token.textOf (guarded accepts ending (Script.parse level script).body) := by
  obtain ⟨ps, trace, outcome, hlaid, hsource, -, hemitted, hrun, houtput⟩ :=
    run_guardCreates_pieces accepts hproblems ending
  rw [← hsource] at hschema
  refine ⟨outcome, hrun, ?_⟩
  rw [houtput, hemitted, (pieces_of_not_schema hlaid hschema ending).1, hsource]

/-- The guarded script is read as the tokens it was made of. -/
theorem tokensFrom_guarded {source : Text} {body : List Token} (h : ReadAs source body)
    (hschema : ∀ g ∈ guards accepts body, g.isSchema = false)
    (hnames : ∀ g ∈ guards accepts body, g.breaksOut = false) (ending : LineEnding) :
    ∃ raw, tokensFrom .start (Token.textOf (guarded accepts ending body)) = .ok raw ∧
      (markBatches true raw).map Token.face = (reread accepts ending body).map Token.face := by
  obtain ⟨ps, -, hlaid, rfl, -, -⟩ := exists_pieces accepts ending body
  obtain ⟨hemitted, hwritten⟩ := pieces_of_not_schema hlaid hschema ending
  rw [← hemitted, ← hwritten]
  exact tokensFrom_emittedOf hlaid h hnames (separatorsEnd_of_not_schema hlaid hschema)

theorem mem_reread_of_mem_guards {ts : List Token} {g : Guarded} (hg : g ∈ guards accepts ts)
    {t : Token} (ht : t ∈ g.raw ending) : t ∈ (reread accepts ending ts).map Token.unmarked := by
  induction ts with
  | nil => cases hg
  | cons u us ih =>
      rw [reread, List.map_append, List.mem_append]
      rcases List.mem_append.mp hg with hhere | hmore
      · rw [Option.mem_toList.mp hhere]
        exact Or.inl ht
      · exact Or.inr (ih hmore)

/-- One name that breaks out is enough for the guarded script to be read
as something else. -/
theorem body_guarded_iff {source : Text} {body : List Token} (h : ReadAs source body)
    (hschema : ∀ g ∈ guards accepts body, g.isSchema = false) (level : Level)
    (ending : LineEnding) :
    (Script.parse level (Token.textOf (guarded accepts ending body))).body.map Token.face =
        (reread accepts ending body).map Token.face ↔
      ∀ g ∈ guards accepts body, g.breaksOut = false := by
  constructor
  · intro hface g hg
    rw [← textOf_reread, Script.body_face_iff] at hface
    rw [← Bool.not_eq_true]
    intro hbreaks
    obtain ⟨t, ht, -, hbroken⟩ := Guarded.exists_broken hbreaks ending
    obtain ⟨rest, hcuts⟩ := hface.reads.cuts (mem_reread_of_mem_guards hg ht)
    exact hbroken ((cuts_iff _ _ _).mp hcuts).1
  · intro hnames
    obtain ⟨raw, hraw, hface⟩ := tokensFrom_guarded h hschema hnames ending
    rw [Script.body_parse, hraw]
    exact hface

end Pass

end Tsql
