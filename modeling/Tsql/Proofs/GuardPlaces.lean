import Tsql.Proofs.GuardSeparators
import Tsql.Proofs.NameForms

/-!
# Where guards are put

`guardedAt` looks ahead from a verb. Here the same is said of the tokens
alone: `Head` is the head of a definition behind its verb, and `Guards`
has one constructor for each sort of object, with all that it takes for
the guard to be put. `guardedAt_eq_some_iff` says that there are no other
cases; its two halves are the two directions, and `guardedAt_of_head` is
what both go through.

`guardCreates_places` then describes the new script piece by piece: at
which verbs a guard is put, how far the tokens reach that it stands for
(`Takes`), and which verb stands behind it, so that the script is found
again in the pieces (`Piece.restored`).
-/

namespace Tsql

namespace Pass

variable {accepts : Text → Text → Bool} {ending : LineEnding} {level : Level}

/-! ## Heads of definitions -/

/-- The tokens behind a verb, white space apart, begin with the keyword
of an object and a name, and `rest` is behind the name. -/
def Head (ts : List Token) (object : Token) (name : QualifiedName) (rest : List Token) : Prop :=
  ∃ words, ts.filter (!·.isWhitespace) = object :: (words ++ rest) ∧
    QualifiedName.Reads (words ++ rest) name words.length

theorem Head.read {ts rest : List Token} {object : Token} {name : QualifiedName}
    (h : Head ts object name rest) :
    ∃ span, (ts.filter (!·.isWhitespace))[0]? = some object ∧
      QualifiedName.read ((ts.filter (!·.isWhitespace)).drop 1) = some (name, span) ∧
      (ts.filter (!·.isWhitespace)).drop (span + 1) = rest := by
  obtain ⟨words, htokens, hreads⟩ := h
  refine ⟨words.length, ?_, ?_, ?_⟩ <;> rw [htokens]
  · rfl
  · exact hreads.read_eq
  · rw [List.drop_succ_cons, List.drop_left]

theorem head_of_read {ts : List Token} {object : Token} {name : QualifiedName} {span : Nat}
    (hobject : (ts.filter (!·.isWhitespace))[0]? = some object)
    (hname : QualifiedName.read ((ts.filter (!·.isWhitespace)).drop 1) = some (name, span)) :
    Head ts object name ((ts.filter (!·.isWhitespace)).drop (span + 1)) := by
  cases hfilter : ts.filter (!·.isWhitespace) with
  | nil => simp [hfilter] at hobject
  | cons u us =>
      rw [hfilter] at hobject hname
      obtain rfl := Option.some.inj hobject
      have hreads := QualifiedName.reads_of_read hname
      rw [List.drop_succ_cons, List.drop_zero] at hreads
      obtain ⟨front, o, htake, hspan, -⟩ := hreads.tokens
      have hlength : (us.take span).length = span := by
        rw [htake, List.length_append, List.length_singleton, hspan]
      refine ⟨us.take span, ?_, ?_⟩ <;> rw [List.drop_succ_cons, List.take_append_drop]
      · exact hfilter
      · rwa [hlength]

/-- A name of one part is one token. -/
theorem Head.of_isSinglePart {ts rest : List Token} {object : Token} {name : QualifiedName}
    (h : Head ts object name rest) (hsingle : name.isSinglePart = true) :
    ∃ n, ts.filter (!·.isWhitespace) = object :: n :: rest ∧ n.isIdentifier = true ∧
      name.object.value = unquoteName n.text := by
  obtain ⟨words, htokens, hreads⟩ := h
  generalize htail : words ++ rest = tail at hreads
  generalize hlength : words.length = span at hreads
  cases hreads with
  | @object n more hn =>
      obtain ⟨w, rfl⟩ := List.length_eq_one_iff.mp hlength
      obtain ⟨rfl, -⟩ := List.cons.inj htail
      exact ⟨w, htokens, hn, rfl⟩
  | _ => cases hsingle

/-- The owner in an `AUTHORIZATION` clause, if the tokens begin with
one. -/
def ownerIn : List Token → Option Token
  | clause :: owner :: _ =>
    if clause.isKeyword "AUTHORIZATION" && owner.isIdentifier then some owner else none
  | _ => none

theorem ownerIn_eq_some {rest : List Token} {owner : Token} (h : ownerIn rest = some owner) :
    ∃ clause more, rest = clause :: owner :: more ∧ clause.isKeyword "AUTHORIZATION" = true ∧
      owner.isIdentifier = true := by
  unfold ownerIn at h
  split at h
  · rename_i clause found more
    split at h
    · rename_i hboth
      obtain rfl := Option.some.inj h
      rw [Bool.and_eq_true] at hboth
      exact ⟨clause, more, rfl, hboth⟩
    · cases h
  · cases h

theorem schemaOwner?_eq_ownerIn {t object n : Token} {ts rest : List Token}
    (h : ts.filter (!·.isWhitespace) = object :: n :: rest) :
    schemaOwner? (Cursor.start (t :: ts)) = ownerIn rest := by
  have hpeek : ∀ k, (Cursor.start (t :: ts)).peek (k + 3) = rest[k]? := by
    intro k
    change (ts.filter (!·.isWhitespace))[k + 2]? = rest[k]?
    rw [h]
    rfl
  rw [schemaOwner?, hpeek 0, hpeek 1]
  match rest with
  | [] | [_] | _ :: _ :: _ => rfl

/-! ## When a guard is put -/

/-- The definition that is guarded at a verb, by the tokens behind it. -/
inductive Guards (accepts : Text → Text → Bool) (t : Token) (ts : List Token) :
    Guarded → Prop where
  | procedure {object : Token} {name : QualifiedName} {rest : List Token}
      (verb : t.isKeyword "CREATE" = true ∨ t.isKeyword "ALTER" = true)
      (head : Head ts object name rest)
      (keyword : object.isKeyword "PROCEDURE" = true ∨ object.isKeyword "PROC" = true)
      (accepted : accepts name.schemaName name.object.value = true) :
      Guards accepts t ts (.procedure name)
  | view {object : Token} {name : QualifiedName} {rest : List Token}
      (verb : t.isKeyword "CREATE" = true ∨ t.isKeyword "ALTER" = true)
      (head : Head ts object name rest) (keyword : object.isKeyword "VIEW" = true)
      (accepted : accepts name.schemaName name.object.value = true) :
      Guards accepts t ts (.view name)
  | function {object : Token} {name : QualifiedName} {rest : List Token}
      (verb : t.isKeyword "CREATE" = true ∨ t.isKeyword "ALTER" = true)
      (head : Head ts object name rest) (keyword : object.isKeyword "FUNCTION" = true)
      (header : Signature.classify rest ≠ .invalid)
      (accepted : accepts name.schemaName name.object.value = true) :
      Guards accepts t ts (.function name)
  | schema {object : Token} {name : QualifiedName} {rest : List Token}
      (verb : t.isKeyword "CREATE" = true)
      (head : Head ts object name rest) (keyword : object.isKeyword "SCHEMA" = true)
      (single : name.isSinglePart = true) (accepted : accepts name.object.value [] = true) :
      Guards accepts t ts (.schema name.object.value (ownerIn rest))

/-- What is guarded before a head, without looking ahead. -/
theorem guardedAt_of_head {ts rest : List Token} {object : Token} {name : QualifiedName}
    (h : Head ts object name rest) (t : Token) :
    guardedAt accepts (t :: ts) =
      if t.isKeyword "CREATE" || t.isKeyword "ALTER" then
        if object.isKeyword "PROCEDURE" || object.isKeyword "PROC" then
          if accepts name.schemaName name.object.value then some (.procedure name) else none
        else if object.isKeyword "SCHEMA" && t.isKeyword "CREATE" && name.isSinglePart then
          if accepts name.object.value [] then
            some (.schema name.object.value (ownerIn rest))
          else none
        else if object.isKeyword "FUNCTION" then
          if (Signature.classify rest).isValid && accepts name.schemaName name.object.value then
            some (.function name)
          else none
        else if object.isKeyword "VIEW" then
          if accepts name.schemaName name.object.value then some (.view name) else none
        else none
      else none := by
  obtain ⟨span, hobject, hname, hrest⟩ := h.read
  have hpeek : (Cursor.start (t :: ts)).peek 1 = some object := hobject
  have hfound : QualifiedName.peek (Cursor.start (t :: ts)) 2 = some (name, span) := hname
  have hsort : Signature.peek (Cursor.start (t :: ts)) (2 + span) = Signature.classify rest := by
    rw [← hrest, Nat.add_comm]
    rfl
  rw [guardedAt]
  dsimp only
  rw [hpeek, hfound]
  dsimp only
  rw [hsort]
  -- the owner is looked for at a fixed offset, which is right for a name of one token
  by_cases hschema : (object.isKeyword "SCHEMA" && t.isKeyword "CREATE" &&
      name.isSinglePart) = true
  · obtain ⟨n, htokens, -⟩ := h.of_isSinglePart (Bool.and_eq_true_iff.mp hschema).2
    rw [schemaOwner?_eq_ownerIn htokens]
  · rw [if_neg hschema, if_neg hschema]

theorem head_of_guardedAt {t : Token} {ts : List Token} {g : Guarded}
    (h : guardedAt accepts (t :: ts) = some g) : ∃ object name rest, Head ts object name rest := by
  unfold guardedAt at h
  dsimp only at h
  split at h
  · split at h
    · rename_i object name span hobject hname
      exact ⟨object, name, _, head_of_read hobject hname⟩
    · cases h
  · cases h

theorem guards_of_guardedAt {t : Token} {ts : List Token} {g : Guarded}
    (h : guardedAt accepts (t :: ts) = some g) : Guards accepts t ts g := by
  have hverb := verb_of_guardedAt h
  obtain ⟨object, name, rest, hhead⟩ := head_of_guardedAt h
  rw [guardedAt_of_head hhead, if_pos (by simpa using hverb)] at h
  split at h
  · rename_i hprocedure
    obtain ⟨haccepted, hg⟩ := Option.ite_none_right_eq_some.mp h
    obtain rfl := Option.some.inj hg
    exact .procedure hverb hhead (Bool.or_eq_true_iff.mp hprocedure) haccepted
  split at h
  · rename_i hschema
    simp only [Bool.and_eq_true] at hschema
    obtain ⟨haccepted, hg⟩ := Option.ite_none_right_eq_some.mp h
    obtain rfl := Option.some.inj hg
    exact .schema hschema.1.2 hhead hschema.1.1 hschema.2 haccepted
  split at h
  · rename_i hfunction
    obtain ⟨hboth, hg⟩ := Option.ite_none_right_eq_some.mp h
    obtain rfl := Option.some.inj hg
    rw [Bool.and_eq_true] at hboth
    exact .function hverb hhead hfunction (by simpa [Signature.isValid] using hboth.1) hboth.2
  split at h
  · rename_i hview
    obtain ⟨haccepted, hg⟩ := Option.ite_none_right_eq_some.mp h
    obtain rfl := Option.some.inj hg
    exact .view hverb hhead hview haccepted
  · cases h

/-- A token is the keyword of one sort of object only. -/
theorem not_other_object {object : Token} {word : String} (h : object.isKeyword word = true)
    (hword : word ∈ ["SCHEMA", "FUNCTION", "VIEW"]) :
    ∀ other ∈ ["PROCEDURE", "PROC", "SCHEMA", "FUNCTION"], other ≠ word →
      object.isKeyword other = false := by
  have hapart : ∀ word ∈ ["SCHEMA", "FUNCTION", "VIEW"],
      ∀ other ∈ ["PROCEDURE", "PROC", "SCHEMA", "FUNCTION"], other ≠ word →
        word.toList.map Char.toUpper ≠ other.toList.map Char.toUpper := by
    decide
  exact fun other hother hne => not_isKeyword_of_isKeyword h (hapart word hword other hother hne)

theorem guardedAt_of_guards {t : Token} {ts : List Token} {g : Guarded}
    (h : Guards accepts t ts g) : guardedAt accepts (t :: ts) = some g := by
  cases h with
  | procedure hverb hhead hword haccepted =>
      rw [guardedAt_of_head hhead, if_pos (by simpa using hverb),
        if_pos (Bool.or_eq_true_iff.mpr hword), if_pos haccepted]
  | schema hverb hhead hword hsingle haccepted =>
      have hother := not_other_object hword (by decide)
      rw [guardedAt_of_head hhead, if_pos (by simp [hverb])]
      simp [hverb, hword, hsingle, haccepted, hother "PROCEDURE", hother "PROC"]
  | function hverb hhead hword hheader haccepted =>
      have hother := not_other_object hword (by decide)
      rw [guardedAt_of_head hhead, if_pos (by simpa using hverb)]
      simp [hword, Signature.isValid, hheader, haccepted, hother "PROCEDURE", hother "PROC",
        hother "SCHEMA"]
  | view hverb hhead hword haccepted =>
      have hother := not_other_object hword (by decide)
      rw [guardedAt_of_head hhead, if_pos (by simpa using hverb)]
      simp [hword, haccepted, hother "PROCEDURE", hother "PROC", hother "SCHEMA",
        hother "FUNCTION"]

theorem guardedAt_eq_some_iff {t : Token} {ts : List Token} {g : Guarded} :
    guardedAt accepts (t :: ts) = some g ↔ Guards accepts t ts g :=
  ⟨guards_of_guardedAt, guardedAt_of_guards⟩

/-! ## What a guard stands for -/

/-- The tokens that are taken with the verb of a guarded definition: for a
schema those up to the end of its name, or of the owner that the guard
names; for all else none. -/
inductive Takes : Guarded → List Token → Prop where
  | nothing {g : Guarded} (sort : g.isSchema = false) : Takes g []
  | name {object n : Token} {taken : List Token}
      (tokens : taken.filter (!·.isWhitespace) = [object, n])
      (keyword : object.isKeyword "SCHEMA" = true) (name : n.isIdentifier = true)
      (last : taken.getLast? = some n) : Takes (.schema (unquoteName n.text) none) taken
  | owner {object n clause o : Token} {taken : List Token}
      (tokens : taken.filter (!·.isWhitespace) = [object, n, clause, o])
      (keyword : object.isKeyword "SCHEMA" = true) (name : n.isIdentifier = true)
      (clause : clause.isKeyword "AUTHORIZATION" = true) (owner : o.isIdentifier = true)
      (last : taken.getLast? = some o) : Takes (.schema (unquoteName n.text) (some o)) taken

theorem takes_of_guardedAt {t : Token} {ts : List Token} {g : Guarded}
    (h : guardedAt accepts (t :: ts) = some g) : Takes g (header g.taken ts) := by
  cases guards_of_guardedAt h with
  | @schema object name rest _ hhead hword hsingle _ =>
      obtain ⟨n, htokens, hn, hvalue⟩ := hhead.of_isSinglePart hsingle
      rw [hvalue]
      cases howner : ownerIn rest with
      | none =>
          have htaken := (filter_header_behind 2 ts).1
          rw [htokens] at htaken
          exact .name htaken hword hn (getLast?_header (by rw [htokens]; rfl))
      | some o =>
          obtain ⟨clause, more, rfl, hclause, ho⟩ := ownerIn_eq_some howner
          have htaken := (filter_header_behind 4 ts).1
          rw [htokens] at htaken
          exact .owner htaken hword hn hclause ho (getLast?_header (by rw [htokens]; rfl))
  | _ =>
      rw [taken_of_not_schema rfl, header_zero]
      exact .nothing rfl

end Pass

namespace Guarded

deriving instance DecidableEq for Guarded

/-- The verb behind the guard, whatever the verb of the source is. -/
def newVerb : Guarded → Option Token
  | procedure _ | view _ => some (Guard.keyword "ALTER")
  | function _ => some (Guard.keyword "CREATE")
  | schema _ _ => none

/-- The guard without the verb behind it. -/
def preamble (ending : LineEnding) (g : Guarded) : List Token :=
  if g.isSchema then g.tokens ending else (g.tokens ending).dropLast

theorem preamble_append_newVerb (ending : LineEnding) (g : Guarded) :
    g.preamble ending ++ g.newVerb.toList = g.tokens ending := by
  cases g <;> rfl

end Guarded

namespace Pass

variable {accepts : Text → Text → Bool} {ending : LineEnding} {level : Level}

namespace Piece

/-- A piece in the new script. -/
def placed (ending : LineEnding) : Piece → List Token
  | kept t => [t]
  | guard g _ _ => g.preamble ending ++ g.newVerb.toList

/-- The same with the guard deleted and the verb of the source restored.
A schema guard leaves no verb, so that its header is put back. -/
def restored : Piece → List Token
  | kept t => [t]
  | guard g verb taken => if g.isSchema then verb :: taken else g.newVerb.toList.map fun _ => verb

end Piece

theorem flatMap_placed (ending : LineEnding) (ps : List Piece) :
    ps.flatMap (Piece.placed ending) = emittedOf ending ps := by
  refine congrArg List.flatten (List.map_congr_left fun p _ => ?_)
  cases p with
  | kept t => rfl
  | guard g verb taken => exact g.preamble_append_newVerb ending

theorem Laid.takes {ps : List Piece} (hlaid : Laid accepts ps) {g : Guarded} {verb : Token}
    {taken : List Token} (hmem : Piece.guard g verb taken ∈ ps) : Takes g taken := by
  obtain ⟨front, back, rfl⟩ := List.append_of_mem hmem
  obtain ⟨hguard, hheader, -, -⟩ := hlaid.drop
  rw [← hheader]
  exact takes_of_guardedAt hguard

theorem Takes.restored {g : Guarded} {taken : List Token} (h : Takes g taken) (verb : Token) :
    (Piece.guard g verb taken).restored = verb :: taken := by
  cases h with
  | nothing => cases g <;> rfl
  | name | owner => rfl

theorem Laid.flatMap_restored {ps : List Piece} (hlaid : Laid accepts ps) :
    ps.flatMap Piece.restored = sourceOf ps := by
  refine congrArg List.flatten (List.map_congr_left fun p hp => ?_)
  cases p with
  | kept t => rfl
  | guard g verb taken => exact (hlaid.takes hp).restored verb

/-- A guard is put at a verb if and only if the definition there is to be
guarded. -/
theorem Laid.guard_iff {ps : List Piece} (hlaid : Laid accepts ps) {pre post : List Token}
    {t : Token} (hsource : sourceOf ps = pre ++ t :: post) (g : Guarded) :
    (∃ front taken back, ps = front ++ .guard g t taken :: back ∧ sourceOf front = pre) ↔
      Guards accepts t post g := by
  rw [← guardedAt_eq_some_iff]
  constructor
  · rintro ⟨front, taken, back, rfl, rfl⟩
    rw [sourceOf_append, sourceOf_guard] at hsource
    obtain ⟨-, rfl⟩ := List.cons.inj (List.append_cancel_left hsource)
    exact hlaid.drop.1
  · intro hguard
    obtain ⟨front, taken, back, rfl, rfl⟩ := piece_of_guardedAt hlaid hsource hguard
    rw [sourceOf_append, sourceOf_guard] at hsource
    exact ⟨front, taken, back, rfl, List.append_cancel_right hsource⟩

/-! ## The result -/

/-- Over every script without problems the pass comes to an end. The new
script is the old one with guards in the place of verbs, at those verbs
and no others where a definition is to be guarded; what a guard stands for
is the verb alone or the header of a schema, and all else is kept. With the
guards deleted and the verbs restored it is the old script again. -/
theorem guardCreates_places (accepts : Text → Text → Bool) {script : Text}
    (hproblems : (Script.parse level script).problems = []) (ending : LineEnding) :
    ∃ (ps : List Piece) (trace : Trace) (outcome : Outcome),
      (guardCreates accepts ending).traceFrom (.start (Script.parse level script).body) =
        .ok trace ∧
      (guardCreates accepts ending).run level script = .ok outcome ∧
      outcome.output = Token.textOf trace.emitted ∧
      ps.flatMap Piece.source = (Script.parse level script).body ∧
      ps.flatMap (Piece.placed ending) = trace.emitted ∧
      ps.flatMap Piece.restored = (Script.parse level script).body ∧
      (∀ g verb taken, .guard g verb taken ∈ ps → Takes g taken) ∧
      ∀ pre t post g, (Script.parse level script).body = pre ++ t :: post →
        ((∃ front taken back, ps = front ++ .guard g t taken :: back ∧
            front.flatMap Piece.source = pre) ↔
          Guards accepts t post g) := by
  obtain ⟨ps, trace, outcome, hlaid, hsource, htrace, hemitted, hrun, houtput⟩ :=
    run_guardCreates_pieces accepts hproblems ending
  refine ⟨ps, trace, outcome, htrace, hrun, houtput, hsource, ?_, ?_, ?_, ?_⟩
  · rw [flatMap_placed, hemitted]
  · rw [hlaid.flatMap_restored, hsource]
  · exact fun g verb taken hmem => hlaid.takes hmem
  · intro pre t post g hbody
    exact hlaid.guard_iff (hsource.trans hbody) g

def ownedSchema : Text := "CREATE SCHEMA[s]AUTHORIZATION o".toList

/-- The guard stands for the whole of the header. -/
theorem guardCreates_places_ownedSchema :
    (Script.parse .sql110 ownedSchema).problems = [] ∧
    ∃ (ps : List Piece) (trace : Trace),
      ps.flatMap (Piece.placed .lf) = trace.emitted ∧
      ps.flatMap Piece.restored = (Script.parse .sql110 ownedSchema).body ∧
      ∃ front taken back, ps = front ++
        .guard (.schema ['s'] (some ⟨.identifier, ['o'], some ⟨1, 31⟩⟩))
          ⟨.keyword, "CREATE".toList, some ⟨1, 1⟩⟩ taken :: back ∧
        Takes (.schema ['s'] (some ⟨.identifier, ['o'], some ⟨1, 31⟩⟩)) taken := by
  obtain ⟨hproblems, hbody, hschema⟩ :
      (Script.parse .sql110 ownedSchema).problems = [] ∧
      (Script.parse .sql110 ownedSchema).body =
        [] ++ ⟨.keyword, "CREATE".toList, some ⟨1, 1⟩⟩ ::
          (Script.parse .sql110 ownedSchema).body.drop 1 ∧
      guardedAt (fun _ _ => true) (⟨.keyword, "CREATE".toList, some ⟨1, 1⟩⟩ ::
        (Script.parse .sql110 ownedSchema).body.drop 1) =
          some (.schema ['s'] (some ⟨.identifier, ['o'], some ⟨1, 31⟩⟩)) := by
    decide +kernel
  obtain ⟨ps, trace, -, -, -, -, -, hplaced, hrestored, htakes, hiff⟩ :=
    guardCreates_places (fun _ _ => true) hproblems .lf
  obtain ⟨front, taken, back, hps, -⟩ := (hiff _ _ _ _ hbody).mpr (guards_of_guardedAt hschema)
  exact ⟨hproblems, ps, trace, hplaced, hrestored, front, taken, back, hps,
    htakes _ _ _ (hps ▸ List.mem_append_right _ List.mem_cons_self)⟩

end Pass

end Tsql
