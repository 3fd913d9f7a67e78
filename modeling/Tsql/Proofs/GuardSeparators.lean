import Tsql.Proofs.GuardPieces
import Tsql.Proofs.SourceMap

/-!
# The batch separators of guards

Every guard ends a batch. A procedure, function or view guard puts its
`GO` between two line breaks; a schema guard has a line break before it
only, and what stands behind it is whatever stood behind the definition
that the guard replaced.

`separators_alone_iff` is the result: every `GO` of a guard is read as a
batch separator with its line to itself if and only if every header of a
guarded schema has nothing but white space and comments behind it on its
line.
-/

namespace Tsql

open Lexeme

/-- Whether nothing but white space and comments stands before the end of
the line. -/
def endsLine : List Token → Bool
  | [] => true
  | t :: ts => t.isBlank && (t.text.contains '\n' || endsLine ts)

theorem endsLine_congr {ts us : List Token} (h : ts.map Token.face = us.map Token.face) :
    endsLine ts = endsLine us := by
  induction ts generalizing us with
  | nil =>
      obtain rfl := List.map_eq_nil_iff.mp h.symm
      rfl
  | cons t ts ih =>
      cases us with
      | nil => cases h
      | cons u us =>
          obtain ⟨hface, hmore⟩ := List.cons.inj h
          obtain ⟨hkind, htext⟩ := Prod.mk.inj hface
          simp only [endsLine, Token.isBlank, Token.isWhitespace, Token.isComment, hkind, htext,
            ih hmore]

namespace Pass

variable {accepts : Text → Text → Bool} {ending : LineEnding} {level : Level}

/-! ## Where a guard's `GO` is found -/

theorem separator_not_mem (g : Guarded) (ending : LineEnding) :
    Guard.separator ∉ lead ending g ∧ Guard.separator ∉ trail ending g :=
  ⟨fun h => kind_of_mem_guard (List.mem_append_left _ h) rfl,
    fun h => kind_of_mem_guard (List.mem_append_right _ h) rfl⟩

theorem split_of_not_mem {xs ys before after : List Token} {s : Token}
    (h : xs ++ ys = before ++ s :: after) (hs : s ∉ xs) :
    ∃ more, before = xs ++ more ∧ ys = more ++ s :: after := by
  rcases List.append_eq_append_iff.mp h with ⟨more, hbefore, hys⟩ | ⟨more, hxs, hys⟩
  · exact ⟨more, hbefore, hys⟩
  · cases more with
    | nil => exact ⟨[], by rw [hxs, List.append_nil, List.append_nil], hys.symm⟩
    | cons u more =>
        obtain ⟨rfl, -⟩ := List.cons.inj hys
        exact absurd (by rw [hxs]; simp) hs

/-- Where a token that every guard has once stands among the tokens put in
place. The tokens of the script have places, so that none of them is taken
for it. -/
theorem piece_of_mark {mark : Token} (hmark : mark.position = none)
    {before after : Guarded → List Token}
    (htokens : ∀ g : Guarded, g.tokens ending = before g ++ mark :: after g)
    (honce : ∀ g, mark ∉ before g ∧ mark ∉ after g) {ps : List Piece} {xs ys : List Token}
    (hplaced : ∀ t ∈ sourceOf ps, t.position.isSome)
    (h : emittedOf ending ps = xs ++ mark :: ys) :
    ∃ front g verb taken back, ps = front ++ .guard g verb taken :: back ∧
      xs = emittedOf ending front ++ before g ∧ ys = after g ++ emittedOf ending back := by
  induction ps generalizing xs with
  | nil => simp [emittedOf] at h
  | cons p ps ih =>
      have hmore : ∀ t ∈ sourceOf ps, t.position.isSome := fun t ht =>
        hplaced t (List.mem_append_right p.source ht)
      cases p with
      | kept t =>
          have ht : mark ∉ [t] := by
            intro hmem
            have hsome := hplaced t List.mem_cons_self
            rw [← List.mem_singleton.mp hmem, hmark] at hsome
            cases hsome
          obtain ⟨more, rfl, hrest⟩ :=
            split_of_not_mem (show [t] ++ emittedOf ending ps = _ from h) ht
          obtain ⟨front, g, verb, taken, back, rfl, rfl, hafter⟩ := ih hmore hrest
          exact ⟨.kept t :: front, g, verb, taken, back, rfl, rfl, hafter⟩
      | guard g verb taken =>
          have hsplit : before g ++ (mark :: (after g ++ emittedOf ending ps)) =
              xs ++ mark :: ys := by
            rw [← h, ← List.cons_append, ← List.append_assoc, ← htokens]
            rfl
          obtain ⟨more, rfl, hrest⟩ := split_of_not_mem hsplit (honce g).1
          cases more with
          | nil =>
              exact ⟨[], g, verb, taken, ps, rfl, List.append_nil _, (List.cons.inj hrest).2.symm⟩
          | cons u more =>
              obtain ⟨rfl, hbehind⟩ := List.cons.inj hrest
              obtain ⟨more', rfl, hthere⟩ := split_of_not_mem hbehind (honce g).2
              obtain ⟨front, g', verb', taken', back, rfl, rfl, hafter⟩ := ih hmore hthere
              refine ⟨.guard g verb taken :: front, g', verb', taken', back, rfl, ?_, hafter⟩
              rw [emittedOf_guard, htokens]
              simp

theorem piece_of_separator {ps : List Piece} {before after : List Token}
    (hplaced : ∀ t ∈ sourceOf ps, t.position.isSome)
    (h : emittedOf ending ps = before ++ Guard.separator :: after) :
    ∃ front g verb taken back, ps = front ++ .guard g verb taken :: back ∧
      before = emittedOf ending front ++ lead ending g ∧
      after = trail ending g ++ emittedOf ending back :=
  piece_of_mark rfl (fun g => tokens_eq g ending) (fun g => separator_not_mem g ending) hplaced h

/-- A batch separator behind the text `before`, with its line to
itself. -/
def SeparatesAt (body : List Token) (before : Text) : Prop :=
  ∃ pre t post, body = pre ++ t :: post ∧ Token.textOf pre = before ∧
    t.kind = .batchSeparator ∧ t.text = "GO".toList ∧ endsLine post = true

/-- The tokens behind the `GO` of a guard, as they are read. -/
def writtenBehind (ending : LineEnding) (g : Guarded) (back : List Piece) : List Token :=
  (trail ending g).flatMap Token.settled ++ writtenOf ending back

theorem writtenOf_split (front : List Piece) (g : Guarded) (verb : Token) (taken : List Token)
    (back : List Piece) :
    writtenOf ending (front ++ .guard g verb taken :: back) =
      writtenOf ending front ++ (lead ending g).flatMap Token.settled ++
        Guard.separator :: writtenBehind ending g back := by
  have hwritten : writtenOf ending (front ++ .guard g verb taken :: back) =
      writtenOf ending front ++ (g.written ending ++ writtenOf ending back) :=
    List.flatMap_append
  rw [hwritten, written_eq, writtenBehind]
  simp

theorem textOf_split (front : List Piece) (g : Guarded) :
    Token.textOf (writtenOf ending front ++ (lead ending g).flatMap Token.settled) =
      Token.textOf (emittedOf ending front ++ lead ending g) := by
  rw [Token.textOf_append, Token.textOf_append, textOf_writtenOf, textOf_flatMap_settled]

theorem endsLine_writtenOf {ps : List Piece} (hlaid : Laid accepts ps) (ending : LineEnding) :
    endsLine (writtenOf ending ps) = endsLine (sourceOf ps) := by
  induction ps with
  | nil => rfl
  | cons p ps ih =>
      cases p with
      | kept t =>
          have hwritten : writtenOf ending (.kept t :: ps) = t :: writtenOf ending ps := rfl
          rw [hwritten, sourceOf_kept, endsLine, endsLine, ih hlaid.2]
      | guard g verb taken =>
          have hverb := (Token.of_keyword (kind_of_verb (verb_of_guardedAt hlaid.1))).1
          have hwritten : writtenOf ending (.guard g verb taken :: ps) =
              g.written ending ++ writtenOf ending ps := rfl
          have hguard : endsLine (g.written ending ++ writtenOf ending ps) = false := by
            cases g <;> rfl
          rw [hwritten, hguard, sourceOf_guard, endsLine, hverb]
          rfl

/-- Behind the other guards' `GO` the line ends at once. -/
theorem endsLine_writtenBehind {g : Guarded} {verb : Token} {taken : List Token}
    {back : List Piece} (hlaid : Laid accepts (.guard g verb taken :: back)) (ending : LineEnding) :
    endsLine (writtenBehind ending g back) = (!g.isSchema || endsLine (sourceOf back)) := by
  rw [← endsLine_writtenOf hlaid.tail ending]
  cases g with
  | schema name owner => rfl
  | _ => cases ending <;> rfl

/-- Tokens with texts are found by the text before them. -/
theorem face_behind {pre post xs ys : List Token} {t s : Token}
    (h : (pre ++ t :: post).map Token.face = (xs ++ s :: ys).map Token.face)
    (hne : ∀ u ∈ pre ++ t :: post, u.text ≠ []) (htext : Token.textOf pre = Token.textOf xs) :
    post.map Token.face = ys.map Token.face := by
  induction pre generalizing xs with
  | nil =>
      cases xs with
      | nil => exact (List.cons.inj h).2
      | cons x xs =>
          have hx : t.text = x.text := (Prod.mk.inj (List.cons.inj h).1).2
          rw [Token.textOf_cons, ← hx] at htext
          exact absurd (List.append_eq_nil_iff.mp htext.symm).1 (hne t List.mem_cons_self)
  | cons u pre ih =>
      cases xs with
      | nil =>
          rw [Token.textOf_cons] at htext
          exact absurd (List.append_eq_nil_iff.mp htext).1 (hne u List.mem_cons_self)
      | cons x xs =>
          obtain ⟨hface, hmore⟩ := List.cons.inj h
          rw [Token.textOf_cons, Token.textOf_cons, (Prod.mk.inj hface).2] at htext
          exact ih hmore (fun v hv => hne v (List.mem_cons_of_mem _ hv))
            (List.append_cancel_left htext)

/-- If the new script is read as it was written, a guard's `GO` stands
alone exactly if the line ends behind it. -/
theorem separatesAt_iff {body : List Token} {front : List Piece} {g : Guarded} {verb : Token}
    {taken : List Token} {back : List Piece} (hne : ∀ t ∈ body, t.text ≠ [])
    (hface : body.map Token.face =
      (writtenOf ending (front ++ .guard g verb taken :: back)).map Token.face) :
    SeparatesAt body (Token.textOf (emittedOf ending front ++ lead ending g)) ↔
      endsLine (writtenBehind ending g back) = true := by
  rw [writtenOf_split] at hface
  rw [← textOf_split]
  constructor
  · rintro ⟨pre, t, post, rfl, htext, -, -, hends⟩
    rw [← endsLine_congr (face_behind hface hne htext)]
    exact hends
  · intro hends
    rw [List.map_append, List.map_cons] at hface
    obtain ⟨pre, rest, rfl, hpre, hrest⟩ := List.map_eq_append_iff.mp hface
    obtain ⟨t, post, rfl, ht, hpost⟩ := List.map_eq_cons_iff.mp hrest
    obtain ⟨hkind, htext⟩ := Prod.mk.inj ht
    exact ⟨pre, t, post, rfl, textOf_congr hpre, hkind, htext, by rw [endsLine_congr hpost, hends]⟩

/-- White space and comments begin with no character of words. -/
theorem head_of_blank {t : Token} {rest : Text} (hcuts : Cuts t.kind t.text rest)
    (hblank : t.isBlank = true) : t.text.head?.any isIdentifierPart = false := by
  cases htext : t.text with
  | nil => rfl
  | cons c cs =>
      rw [htext] at hcuts
      rw [← Bool.not_eq_true]
      intro hpart
      have hkind := scan_part_hasKind hpart _ _ _ hcuts
      simp only [Token.isBlank, Token.isWhitespace, Token.isComment, Bool.or_eq_true,
        beq_iff_eq] at hblank
      rcases hblank with h | h | h <;>
        · rw [h] at hkind
          revert hkind
          decide

/-- Where the line ends, a word does. -/
theorem head_of_endsLine {ps : List Piece} (hlaid : Laid accepts ps) (ending : LineEnding)
    (hreads : ReadsBefore ((sourceOf ps).map Token.unmarked) [])
    (hends : endsLine (sourceOf ps) = true) :
    (Token.textOf (writtenOf ending ps)).head?.any isIdentifierPart = false := by
  cases ps with
  | nil => rfl
  | cons p ps =>
      cases p with
      | kept t =>
          have hwritten : writtenOf ending (.kept t :: ps) = t :: writtenOf ending ps := rfl
          rw [sourceOf_kept, endsLine, Bool.and_eq_true] at hends
          obtain ⟨hcuts, -⟩ := hreads
          have hhead := head_of_blank hcuts (by rw [isBlank_unmarked]; exact hends.1)
          have hne := hcuts.text_ne_nil
          rw [Token.text_unmarked] at hhead hne
          obtain ⟨c, cs, htext⟩ := List.exists_cons_of_ne_nil hne
          rw [hwritten, Token.textOf_cons, htext]
          rw [htext] at hhead
          exact hhead
      | guard g verb taken =>
          rw [← endsLine_writtenOf hlaid ending] at hends
          have hnot : endsLine (writtenOf ending (.guard g verb taken :: ps)) = false := by
            cases g <;> rfl
          rw [hnot] at hends
          cases hends

theorem emittedOf_split (front : List Piece) (g : Guarded) (verb : Token) (taken : List Token)
    (back : List Piece) :
    emittedOf ending (front ++ .guard g verb taken :: back) =
      emittedOf ending front ++ lead ending g ++
        Guard.separator :: (trail ending g ++ emittedOf ending back) := by
  rw [emittedOf_append, emittedOf_guard, tokens_eq]
  simp

/-- A `GO` that is read where a schema guard put it ends a word there. -/
theorem head_of_separatesAt {front : List Piece} {name : Text}
    {owner : Option Token} {verb : Token} {taken : List Token} {back : List Piece}
    (h : SeparatesAt
      (Script.parse level (Token.textOf
        (emittedOf ending (front ++ .guard (.schema name owner) verb taken :: back)))).body
      (Token.textOf (emittedOf ending front ++ lead ending (.schema name owner)))) :
    (Token.textOf (writtenOf ending back)).head?.any isIdentifierPart = false := by
  obtain ⟨pre, t, post, hbody, htext, hkind, hgo, -⟩ := h
  rw [Script.body_parse] at hbody
  split at hbody
  · rename_i raw hraw
    have hread := ReadAs.of_tokensFrom hraw
    rw [hbody] at hread
    have hpost : Token.textOf post = Token.textOf (writtenOf ending back) := by
      have hall := hread.text
      rw [emittedOf_split, Token.textOf_append, Token.textOf_append, htext] at hall
      have hrest := List.append_cancel_left hall
      rw [Token.textOf_cons, Token.textOf_cons, hgo] at hrest
      rw [textOf_writtenOf]
      exact List.append_cancel_left hrest
    have hreads := hread.reads
    rw [List.map_append, readsBefore_append] at hreads
    obtain ⟨hcuts, -⟩ := hreads.2
    rw [List.append_nil, textOf_map_unmarked, hpost, Token.unmarked, if_pos hkind] at hcuts
    have hstops := ((cuts_iff _ _ _).mp hcuts).2
    simp only [stops, wordStops, Bool.and_eq_true, Bool.not_eq_true'] at hstops
    exact hstops.1
  · simp at hbody

/-- A guarded definition is a piece: no verb is taken with another. -/
theorem piece_of_guardedAt {ps : List Piece} (hlaid : Laid accepts ps) {pre post : List Token}
    {t : Token} {g : Guarded} (heq : sourceOf ps = pre ++ t :: post)
    (hguard : guardedAt accepts (t :: post) = some g) :
    ∃ front taken back, ps = front ++ .guard g t taken :: back ∧ post = taken ++ sourceOf back := by
  induction ps generalizing pre with
  | nil => simp [sourceOf] at heq
  | cons p ps ih =>
      cases p with
      | kept u =>
          rw [sourceOf_kept] at heq
          cases pre with
          | nil =>
              obtain ⟨rfl, rfl⟩ := List.cons.inj heq
              cases hlaid.1.symm.trans hguard
          | cons v pre =>
              obtain ⟨front, taken, back, rfl, hpost⟩ := ih hlaid.2 (List.cons.inj heq).2
              exact ⟨.kept u :: front, taken, back, rfl, hpost⟩
      | guard g' verb taken =>
          obtain ⟨hsome, hheader, -, hmore⟩ := hlaid
          rw [sourceOf_guard] at heq
          cases pre with
          | nil =>
              obtain ⟨rfl, rfl⟩ := List.cons.inj heq
              obtain rfl := Option.some.inj (hsome.symm.trans hguard)
              exact ⟨[], taken, ps, rfl, rfl⟩
          | cons v pre =>
              have htail : taken ++ sourceOf ps = pre ++ t :: post := (List.cons.inj heq).2
              rcases List.append_eq_append_iff.mp htail with ⟨rest, rfl, hrest⟩ | ⟨rest, rfl, hrest⟩
              · obtain ⟨front, taken', back, rfl, hpost⟩ := ih hmore hrest
                exact ⟨.guard g' verb taken :: front, taken', back, rfl, hpost⟩
              · cases rest with
                | nil =>
                    obtain ⟨front, taken', back, rfl, hpost⟩ := ih hmore
                      (show sourceOf ps = [] ++ t :: post from hrest.symm)
                    exact ⟨_ :: front, taken', back, rfl, hpost⟩
                | cons w rest =>
                    obtain ⟨rfl, -⟩ := List.cons.inj hrest
                    refine absurd (verb_of_guardedAt hguard) (not_verb_of_mem_header hsome ?_)
                    rw [hheader]
                    simp

/-- The headers of guarded schemas end their lines, said of the pieces and
of the tokens. -/
theorem headers_end_iff {ps : List Piece} (hlaid : Laid accepts ps) :
    (∀ front name owner verb taken back,
      ps = front ++ .guard (.schema name owner) verb taken :: back →
      endsLine (sourceOf back) = true) ↔
    ∀ pre t post name owner, sourceOf ps = pre ++ t :: post →
      guardedAt accepts (t :: post) = some (.schema name owner) →
      endsLine (behind (Guarded.schema name owner).taken post) = true := by
  constructor
  · intro h pre t post name owner heq hguard
    obtain ⟨front, taken, back, rfl, rfl⟩ := piece_of_guardedAt hlaid heq hguard
    rw [hlaid.drop.2.2.1]
    exact h front name owner t taken back rfl
  · rintro h front name owner verb taken back rfl
    have hthere := hlaid.drop
    have hends := h (sourceOf front) verb (taken ++ sourceOf back) name owner
      (sourceOf_append _ _) hthere.1
    rw [hthere.2.2.1] at hends
    exact hends

/-- Every definition that is guarded ends its batch with a `GO`. Unless a
name breaks out of its literal, each of these is read as a batch separator
with its line to itself if and only if nothing but white space and comments
stands behind the header of any guarded schema on its line; with the other
guards it always is. -/
theorem separators_alone_iff {script : Text}
    (hproblems : (Script.parse level script).problems = [])
    (hnames : ∀ g ∈ guards accepts (Script.parse level script).body, g.breaksOut = false)
    (ending : LineEnding) :
    ∃ trace outcome,
      (guardCreates accepts ending).traceFrom (.start (Script.parse level script).body) =
        .ok trace ∧
      (guardCreates accepts ending).run level script = .ok outcome ∧
      outcome.output = Token.textOf trace.emitted ∧
      ((∀ before after, trace.emitted = before ++ Guard.separator :: after →
          SeparatesAt (Script.parse level outcome.output).body (Token.textOf before)) ↔
        ∀ pre t post name owner, (Script.parse level script).body = pre ++ t :: post →
          guardedAt accepts (t :: post) = some (.schema name owner) →
          endsLine (behind (Guarded.schema name owner).taken post) = true) := by
  have hread := Script.readAs hproblems
  obtain ⟨original, horiginal, hbody⟩ := Script.tokensFrom_of_problems hproblems
  have hplaced : ∀ t ∈ (Script.parse level script).body, t.position.isSome := by
    intro t ht
    obtain ⟨pre, post, hsplit⟩ := List.append_of_mem ht
    have hposition := placedFrom_body horiginal
    rw [← hbody, hsplit] at hposition
    rw [position_of_placedFrom hposition]
    rfl
  obtain ⟨ps, trace, outcome, hlaid, hsource, htrace, hemitted, hrun, houtput⟩ :=
    run_guardCreates_pieces accepts hproblems ending
  refine ⟨trace, outcome, htrace, hrun, houtput, ?_⟩
  rw [houtput, hemitted]
  rw [← hsource] at hread hnames hplaced ⊢
  rw [← headers_end_iff hlaid]
  -- behind the `GO` of a schema guard either the script goes on as it did, or it is not read
  have hreadable : SeparatorsEnd ending ps →
      ∀ {front g verb taken back}, ps = front ++ .guard g verb taken :: back →
      (SeparatesAt (Script.parse level (Token.textOf (emittedOf ending ps))).body
          (Token.textOf (emittedOf ending front ++ lead ending g)) ↔
        (!g.isSchema || endsLine (sourceOf back)) = true) := by
    intro hends front g verb taken back hps
    obtain ⟨raw, hraw, hface⟩ := tokensFrom_emittedOf hlaid hread hnames hends
    have hlaid' : Laid accepts (.guard g verb taken :: back) := by
      rw [hps] at hlaid
      exact hlaid.drop
    rw [Script.body_parse, hraw]
    dsimp only
    rw [separatesAt_iff (fun t ht => (mem_body hraw ht).2) (hps ▸ hface),
      endsLine_writtenBehind hlaid']
  constructor
  · intro hall
    have hends : SeparatorsEnd ending ps := by
      rintro front name owner verb taken back rfl
      exact head_of_separatesAt (hall _ _ (emittedOf_split _ _ _ _ _))
    rintro front name owner verb taken back rfl
    exact (hreadable hends rfl).mp (hall _ _ (emittedOf_split _ _ _ _ _))
  · intro hlines before after hemit
    have hends : SeparatorsEnd ending ps := by
      rintro front name owner verb taken back rfl
      have hreads := hread.reads
      rw [sourceOf_append, sourceOf_guard, ← List.cons_append, List.map_append, List.map_append,
        readsBefore_append, readsBefore_append] at hreads
      exact head_of_endsLine hlaid.drop.tail ending hreads.2.2
        (hlines front name owner verb taken back rfl)
    obtain ⟨front, g, verb, taken, back, rfl, rfl, -⟩ := piece_of_separator hplaced hemit
    rw [hreadable hends rfl]
    cases g with
    | schema name owner => exact hlines front name owner verb taken back rfl
    | _ => rfl

def schemaSemicolon : Text := "CREATE SCHEMA a;".toList

def schemaThenView : Text := "CREATE SCHEMA a --\nALTER VIEW v".toList

/-- A semicolon behind the header comes to stand behind the `GO`. A comment
may stand there, and the view's `GO` has a line break of its own. -/
theorem separators_alone_semicolon_comment :
    (∃ trace outcome,
      (guardCreates (fun _ _ => true) .crlf).traceFrom
        (.start (Script.parse .sql110 schemaSemicolon).body) = .ok trace ∧
      (guardCreates (fun _ _ => true) .crlf).run .sql110 schemaSemicolon = .ok outcome ∧
      ∃ before after, trace.emitted = before ++ Guard.separator :: after ∧
        ¬ SeparatesAt (Script.parse .sql110 outcome.output).body (Token.textOf before)) ∧
    ∃ trace outcome,
      (guardCreates (fun _ _ => true) .crlf).traceFrom
        (.start (Script.parse .sql110 schemaThenView).body) = .ok trace ∧
      (guardCreates (fun _ _ => true) .crlf).run .sql110 schemaThenView = .ok outcome ∧
      ∀ before after, trace.emitted = before ++ Guard.separator :: after →
        SeparatesAt (Script.parse .sql110 outcome.output).body (Token.textOf before) := by
  constructor
  · have hproblems : (Script.parse .sql110 schemaSemicolon).problems = [] := by decide +kernel
    have hbody : (Script.parse .sql110 schemaSemicolon).body =
        [] ++ ⟨.keyword, "CREATE".toList, some ⟨1, 1⟩⟩ ::
          [⟨.whitespace, [' '], some ⟨1, 7⟩⟩, ⟨.keyword, "SCHEMA".toList, some ⟨1, 8⟩⟩,
            ⟨.whitespace, [' '], some ⟨1, 14⟩⟩, ⟨.identifier, ['a'], some ⟨1, 15⟩⟩,
            ⟨.semicolon, [';'], some ⟨1, 16⟩⟩] := by
      decide +kernel
    obtain ⟨trace, outcome, htrace, hrun, -, hiff⟩ := separators_alone_iff hproblems
      (show ∀ g ∈ guards (fun _ _ => true) _, g.breaksOut = false by decide +kernel) .crlf
    refine ⟨trace, outcome, htrace, hrun, ?_⟩
    have hnot := mt hiff.mp fun hends =>
      absurd (hends _ _ _ ['a'] none hbody (by rfl)) (by decide)
    simp only [Classical.not_forall] at hnot
    obtain ⟨before, after, hemitted, hnot⟩ := hnot
    exact ⟨before, after, hemitted, hnot⟩
  · have hproblems : (Script.parse .sql110 schemaThenView).problems = [] := by decide +kernel
    obtain ⟨trace, outcome, htrace, hrun, -, hiff⟩ := separators_alone_iff hproblems
      (show ∀ g ∈ guards (fun _ _ => true) _, g.breaksOut = false by decide +kernel) .crlf
    refine ⟨trace, outcome, htrace, hrun, hiff.mpr fun pre t post name owner hbody hguard => ?_⟩
    have hcheck : ∀ n < (Script.parse .sql110 schemaThenView).body.length,
        (guardedAt (fun _ _ => true) ((Script.parse .sql110 schemaThenView).body.drop n)).all
          (fun g => !g.isSchema ||
            endsLine (behind g.taken ((Script.parse .sql110 schemaThenView).body.drop n).tail)) =
          true := by
      decide +kernel
    have hthis := hcheck pre.length (by rw [hbody]; simp)
    rw [hbody, List.drop_left, hguard] at hthis
    exact hthis

end Pass

end Tsql
