import Tsql.Proofs.CommentMarks
import Tsql.Proofs.Nesting

/-!
# What expanding conditional comments comes to

The whole of a run, told token by token and without the pass. A block
comment that has one of the marks of a tag, or both and a body that is no
good, cannot be expanded (`Unexpandable`), and the first such comment
gives the error. If there is none, each token gives way to a text and to
what is reported about it (`Replaced`), and the outcome is these put
together. `expandComments_outcome` says both, and that a run can end in
no other way.

The body of a comment is what stands between its two marks. The pass
drops two characters at either end; `Cuts.comment_eq` says that these are
always the marks.
-/

namespace Tsql

open Lexeme (Cuts)
open Template (openMark closeMark)

/-! ## Marks -/

theorem has_eq_has_iff {mark mark' : Text} (h : mark ≠ []) (h' : mark' ≠ []) (t : Text) :
    t.has mark = t.has mark' ↔ (mark <:+: t ↔ mark' <:+: t) := by
  rw [Bool.eq_iff_iff, Text.has_iff_infix h, Text.has_iff_infix h']

/-- What was read of a comment, with the character before it, ends in the
closing mark. -/
theorem Lexeme.commentExtent_mark {last : Char} {depth : Nat} {cs : Text} {n : Nat}
    (h : commentExtent last depth cs = some n) :
    CommentMark.closing.text <:+ last :: cs.take n := by
  fun_induction commentExtent last depth cs generalizing n with
  | case1 => cases h
  | case2 last depth c cs _ ih =>
      obtain ⟨m, hm, rfl⟩ := Option.map_eq_some_iff.mp h
      exact (ih hm).trans (List.suffix_cons ..)
  | case3 last c cs _ hclose =>
      obtain ⟨rfl, rfl⟩ := hclose
      obtain rfl := Option.some.inj h
      exact List.suffix_rfl
  | case4 last c cs _ _ d ih =>
      obtain ⟨m, hm, rfl⟩ := Option.map_eq_some_iff.mp h
      exact (ih hm).trans (List.suffix_cons ..)
  | case5 last depth c cs _ _ ih =>
      obtain ⟨m, hm, rfl⟩ := Option.map_eq_some_iff.mp h
      exact (ih hm).trans (List.suffix_cons ..)

/-- A block comment stands between its marks, which share no
character. -/
theorem Lexeme.Cuts.comment_eq {text rest : Text} (h : Cuts .blockComment text rest) :
    ∃ body, text = CommentMark.opening.text ++ body ++ CommentMark.closing.text := by
  have halone := ((Lexeme.cuts_iff _ _ _).mp h).1
  cases text with
  | nil => cases h
  | cons c cs =>
      simp only [Cuts, List.append_nil] at halone
      obtain ⟨rfl, hhead⟩ := Lexeme.mark_of_scan_blockComment halone
      obtain ⟨ds, rfl⟩ := List.head?_eq_some_iff.mp hhead
      rw [Lexeme.scan_blockComment, List.length_cons, Lexeme.ofExtent_eq_lexeme_iff] at halone
      have hmark := Lexeme.commentExtent_mark halone.2
      rw [List.take_length] at hmark
      -- the blank before the first character is no part of the mark
      rcases List.suffix_cons_iff.mp hmark with hall | ⟨body, hbody⟩
      · cases hall
      · exact ⟨body, by rw [← hbody]; rfl⟩

namespace Pass

theorem commentBody_eq (body : Text) :
    commentBody (CommentMark.opening.text ++ body ++ CommentMark.closing.text) = body := by
  have hdrop : (CommentMark.opening.text ++ body ++ CommentMark.closing.text).drop 2 =
      (body ++ ['*']) ++ ['/'] := by
    simp [CommentMark.text]
  rw [commentBody, hdrop, List.dropLast_concat, List.dropLast_concat]

variable {registry : Registry} {env : Environment} {level inner : Level}

/-- A token that is no comment without its marks. -/
def WellMarked (t : Token) : Prop :=
  t.kind = .blockComment →
    t.text = CommentMark.opening.text ++ commentBody t.text ++ CommentMark.closing.text

theorem wellMarked_of_mem {source : Text} {body : List Token} (h : ReadAs source body) {t : Token}
    (ht : t ∈ body) : WellMarked t := by
  intro hkind
  obtain ⟨rest, hcuts⟩ := h.reads.cuts (List.mem_map_of_mem ht)
  rw [unmarked_eq_self (by rw [hkind]; decide), hkind] at hcuts
  obtain ⟨body, hbody⟩ := hcuts.comment_eq
  rw [hbody, commentBody_eq]

/-! ## What can become of a token -/

/-- A block comment with both marks of a tag, and what stands between its
own marks. -/
structure Conditional (t : Token) (body : Text) : Prop where
  comment : t.kind = .blockComment
  opens : openMark <:+: t.text
  closes : closeMark <:+: t.text
  text : t.text = CommentMark.opening.text ++ body ++ CommentMark.closing.text

/-- A comment that cannot be expanded, and the error that it gives. -/
inductive Unexpandable (registry : Registry) (env : Environment) : Token → Error → Prop where
  | mismatched {t : Token} (comment : t.kind = .blockComment)
      (marks : ¬ (openMark <:+: t.text ↔ closeMark <:+: t.text)) :
      Unexpandable registry env t (.mismatchedComment t.text)
  | failed {t : Token} {body : Text} {cause : Template.Error} (conditional : Conditional t body)
      (fails : Template.expand registry env body = .error cause) :
      Unexpandable registry env t (.badTemplate t.text cause)

/-- A text that no token can be read from, with comment marks of both
sorts or of neither. -/
structure LeftOut (expanded : Text) (problem : Problem) : Prop where
  unreadable : tokensFrom .start expanded = .error problem
  marks : CommentMark.opening.text <:+: expanded ↔ CommentMark.closing.text <:+: expanded

/-- A token, the text in its place and what is reported about it. -/
inductive Replaced (registry : Registry) (env : Environment) :
    Token → Text × List String → Prop where
  | kept {t : Token}
      (plain : t.kind = .blockComment → ¬ openMark <:+: t.text ∧ ¬ closeMark <:+: t.text) :
      Replaced registry env t (t.text, [])
  | rendered {t : Token} {body expanded : Text} (conditional : Conditional t body)
      (renders : Template.expand registry env body = .ok expanded)
      (stays : ∀ problem, ¬ LeftOut expanded problem) :
      Replaced registry env t (expanded, [])
  | leftOut {t : Token} {body expanded : Text} {problem : Problem}
      (conditional : Conditional t body)
      (renders : Template.expand registry env body = .ok expanded)
      (leftOut : LeftOut expanded problem) :
      Replaced registry env t ([], [droppedMessage expanded, problem.text])

/-! ## At one token -/

theorem detect_eq_mismatched_iff (t : Text) :
    Template.detect t = .mismatched ↔ ¬ (openMark <:+: t ↔ closeMark <:+: t) := by
  rw [← has_eq_has_iff (by decide) (by decide), Template.detect]
  cases t.has openMark <;> cases t.has closeMark <;> simp

theorem detect_eq_template_iff (t : Text) :
    Template.detect t = .template ↔ openMark <:+: t ∧ closeMark <:+: t := by
  rw [← Text.has_iff_infix (by decide), ← Text.has_iff_infix (by decide), Template.detect]
  cases t.has openMark <;> cases t.has closeMark <;> simp

theorem detect_eq_plain_iff (t : Text) :
    Template.detect t = .plain ↔ ¬ openMark <:+: t ∧ ¬ closeMark <:+: t := by
  rw [← Text.has_iff_infix (by decide), ← Text.has_iff_infix (by decide), Template.detect]
  cases t.has openMark <;> cases t.has closeMark <;> simp

theorem conditional_iff {t : Token} (hmarked : WellMarked t) {body : Text} :
    Conditional t body ↔
      t.kind = .blockComment ∧ Template.detect t.text = .template ∧ commentBody t.text = body := by
  rw [detect_eq_template_iff]
  constructor
  · rintro ⟨hkind, hopens, hcloses, htext⟩
    exact ⟨hkind, ⟨hopens, hcloses⟩, by rw [htext, commentBody_eq]⟩
  · rintro ⟨hkind, ⟨hopens, hcloses⟩, rfl⟩
    exact ⟨hkind, hopens, hcloses, hmarked hkind⟩

theorem expandChoice_eq_error_iff {t : Token} (hmarked : WellMarked t) {e : Error} :
    expandChoice registry env level [t] = .error e ↔ Unexpandable registry env t e := by
  constructor
  · intro h
    simp only [expandChoice, expandComments] at h
    by_cases hkind : t.kind = .blockComment
    · rw [if_pos hkind] at h
      cases hdetect : Template.detect t.text with
      | plain =>
          rw [hdetect] at h
          cases h
      | mismatched =>
          rw [hdetect] at h
          cases h
          exact .mismatched hkind ((detect_eq_mismatched_iff _).mp hdetect)
      | template =>
          rw [hdetect] at h
          cases hexpand : Template.expand registry env (commentBody t.text) with
          | ok expanded =>
              rw [hexpand] at h
              cases h
          | error cause =>
              rw [hexpand] at h
              cases h
              exact .failed ((conditional_iff hmarked).mpr ⟨hkind, hdetect, rfl⟩) hexpand
    · rw [if_neg hkind] at h
      cases h
  · intro h
    cases h with
    | mismatched hkind hmarks =>
        simp only [expandChoice, expandComments, if_pos hkind,
          (detect_eq_mismatched_iff _).mpr hmarks]
    | failed hconditional hfails =>
        obtain ⟨hkind, hdetect, rfl⟩ := (conditional_iff hmarked).mp hconditional
        simp only [expandChoice, expandComments, if_pos hkind, hdetect, hfails]

/-- The text that a decision puts in, and its reports. -/
def Decision.piece (d : Decision) : Text × List String := (Token.textOf d.emitted, d.reports)

/-- A text is put in as it is, or it is left out and reported. -/
theorem expandedDecision_piece (level : Level) (expanded : Text) :
    (∃ problem, LeftOut expanded problem ∧ (expandedDecision level expanded).piece =
        ([], [droppedMessage expanded, problem.text])) ∨
      (∀ problem, ¬ LeftOut expanded problem) ∧
        (expandedDecision level expanded).piece = (expanded, []) := by
  have hmarks : hasUnpairedMark expanded = false ↔
      (CommentMark.opening.text <:+: expanded ↔ CommentMark.closing.text <:+: expanded) := by
    rw [← has_eq_has_iff (by decide) (by decide), hasUnpairedMark, bne_eq_false_iff_eq]
  unfold expandedDecision Decision.piece
  cases hunpaired : hasUnpairedMark expanded with
  | true =>
      refine Or.inr ⟨fun problem h => ?_, by simp [Token.synthetic]⟩
      rw [hmarks.mpr h.marks] at hunpaired
      cases hunpaired
  | false =>
      rw [if_neg Bool.false_ne_true]
      cases hraw : tokensFrom .start expanded with
      | error problem =>
          refine Or.inl ⟨problem, ⟨hraw, hmarks.mp hunpaired⟩, ?_⟩
          simp [splice, Script.parse, Script.body, Script.errors, hraw]
      | ok raw =>
          refine Or.inr ⟨fun problem h => ?_, ?_⟩
          · rw [h.unreadable] at hraw
            cases hraw
          · have htext := (ReadAs.of_tokensFrom hraw).text
            have hbody : (Script.parse level expanded).body = markBatches true raw := by
              rw [Script.body_parse, hraw]
            -- nothing was read only from nothing, and then nothing is wrong
            have hread : ¬ ((Script.parse level expanded).body = [] ∧
                (Script.parse level expanded).problems ≠ []) := by
              rintro ⟨hnil, hproblems⟩
              rw [hbody] at hnil
              rw [Structure.parse_problems hraw, hnil] at hproblems
              exact hproblems ((Structure.problems_eq_nil_iff []).mpr rfl)
            rw [splice, if_neg hread, hbody, htext]

theorem expandedDecision_asked (level : Level) (expanded : Text) :
    (expandedDecision level expanded).asked = [] := by
  unfold expandedDecision splice
  dsimp only
  split
  · rfl
  · split <;> rfl

/-- A token stays where it is if it is no comment with a mark of a tag. -/
theorem expandChoice_eq_keep {t : Token} (hplain : t.kind = .blockComment →
    Template.detect t.text = .plain) :
    expandChoice registry env level [t] = .ok (.keep t) := by
  simp only [expandChoice, expandComments]
  by_cases hkind : t.kind = .blockComment
  · rw [if_pos hkind, hplain hkind]
  · rw [if_neg hkind]

theorem exists_expandChoice_iff (level : Level) {t : Token} (hmarked : WellMarked t)
    {piece : Text × List String} :
    (∃ d, expandChoice registry env level [t] = .ok d ∧ d.piece = piece) ↔
      Replaced registry env t piece := by
  constructor
  · rintro ⟨d, hd, rfl⟩
    rcases expandChoice_cases hd with ⟨hother, rfl⟩ | ⟨-, expanded, hrenders, rfl⟩
    · have hplain : t.kind = .blockComment → Template.detect t.text = .plain := by
        intro hkind
        cases hdetect : Template.detect t.text with
        | plain => rfl
        | template => simp [isConditional, hkind, hdetect] at hother
        | mismatched =>
            have herror : expandChoice registry env level [t] = .error _ :=
              (expandChoice_eq_error_iff hmarked).mpr
                (.mismatched hkind ((detect_eq_mismatched_iff _).mp hdetect))
            rw [herror] at hd
            cases hd
      have hpiece : (Decision.keep t).piece = (t.text, []) := by
        simp [Decision.piece, Decision.keep]
      rw [hpiece]
      exact .kept fun hkind => (detect_eq_plain_iff _).mp (hplain hkind)
    · have hconditional := (conditional_iff hmarked).mpr ⟨hrenders.comment, hrenders.template, rfl⟩
      rcases expandedDecision_piece level expanded with ⟨problem, hout, hpiece⟩ | ⟨hstays, hpiece⟩
      · rw [hpiece]
        exact .leftOut hconditional hrenders.text hout
      · rw [hpiece]
        exact .rendered hconditional hrenders.text hstays
  · have hchoice : ∀ {body expanded : Text}, Conditional t body →
        Template.expand registry env body = .ok expanded →
        expandChoice registry env level [t] = .ok (expandedDecision level expanded) := by
      intro body expanded hconditional hrenders
      obtain ⟨hkind, hdetect, rfl⟩ := (conditional_iff hmarked).mp hconditional
      exact expandChoice_of_renders ⟨hkind, hdetect, hrenders⟩ []
    intro h
    cases h with
    | kept hplain =>
        refine ⟨_, expandChoice_eq_keep fun hkind => ?_, by simp [Decision.piece, Decision.keep]⟩
        exact (detect_eq_plain_iff _).mpr (hplain hkind)
    | @rendered _ expanded hconditional hrenders hstays =>
        refine ⟨_, hchoice hconditional hrenders, ?_⟩
        rcases expandedDecision_piece level expanded with ⟨problem, hout, -⟩ | ⟨-, hpiece⟩
        · exact absurd hout (hstays problem)
        · exact hpiece
    | @leftOut _ expanded problem hconditional hrenders hout =>
        refine ⟨_, hchoice hconditional hrenders, ?_⟩
        rcases expandedDecision_piece level expanded with ⟨other, hother, hpiece⟩ | ⟨hstays, -⟩
        · obtain rfl : other = problem :=
            Except.error.inj (hother.unreadable.symm.trans hout.unreadable)
          exact hpiece
        · exact absurd hout (hstays problem)

theorem expandChoice_asked {t : Token} {d : Decision}
    (h : expandChoice registry env level [t] = .ok d) : d.asked = [] := by
  rcases expandChoice_cases h with ⟨-, rfl⟩ | ⟨-, expanded, -, rfl⟩
  · rfl
  · exact expandedDecision_asked level expanded

/-! ## Over a script -/

/-- The decisions over a script, as what is put in for each token. -/
theorem forall₂_expandChoice_iff (level : Level) {ts : List Token}
    (hmarked : ∀ t ∈ ts, WellMarked t) {pieces : List (Text × List String)} :
    (∃ ds, List.Forall₂ (fun t d => expandChoice registry env level [t] = .ok d) ts ds ∧
        ds.map Decision.piece = pieces) ↔
      List.Forall₂ (Replaced registry env) ts pieces := by
  induction ts generalizing pieces with
  | nil =>
      constructor
      · rintro ⟨ds, _ | _, rfl⟩
        exact .nil
      · rintro (_ | _)
        exact ⟨[], .nil, rfl⟩
  | cons t ts ih =>
      have htail := fun u hu => hmarked u (List.mem_cons_of_mem t hu)
      have hhead := hmarked t List.mem_cons_self
      constructor
      · rintro ⟨ds, _ | ⟨hd, hds⟩, rfl⟩
        exact .cons ((exists_expandChoice_iff level hhead).mp ⟨_, hd, rfl⟩)
          ((ih htail).mp ⟨_, hds, rfl⟩)
      · rintro (_ | ⟨hpiece, hpieces⟩)
        obtain ⟨d, hd, rfl⟩ := (exists_expandChoice_iff level hhead).mpr hpiece
        obtain ⟨ds, hds, rfl⟩ := (ih htail).mpr hpieces
        exact ⟨d :: ds, .cons hd hds, rfl⟩

/-- What the decisions come to together is what the pieces come to. -/
theorem outcome_of_forall₂ {ts : List Token} {ds : List Decision}
    (h : List.Forall₂ (fun t d => expandChoice registry env level [t] = .ok d) ts ds) :
    (⟨Token.textOf (ds.flatMap Decision.emitted), [], ds.flatMap Decision.reports,
        ds.flatMap Decision.asked⟩ : Outcome) =
      ⟨(ds.map Decision.piece).flatMap Prod.fst, [], (ds.map Decision.piece).flatMap Prod.snd,
        []⟩ := by
  have htext : Token.textOf (ds.flatMap Decision.emitted) =
      (ds.map Decision.piece).flatMap Prod.fst := by
    rw [List.flatMap_map]
    exact List.flatMap_assoc
  have hreports : ds.flatMap Decision.reports = (ds.map Decision.piece).flatMap Prod.snd := by
    rw [List.flatMap_map]
    rfl
  have hasked : ds.flatMap Decision.asked = [] := by
    clear htext hreports
    induction h with
    | nil => rfl
    | cons hd _ ih => rw [List.flatMap_cons, expandChoice_asked hd, ih, List.nil_append]
  rw [htext, hreports, hasked]

/-- A token that is replaced can be expanded. -/
theorem Replaced.not_unexpandable {t : Token} (hmarked : WellMarked t)
    {piece : Text × List String} (h : Replaced registry env t piece) (e : Error) :
    ¬ Unexpandable registry env t e := by
  intro hfails
  obtain ⟨d, hd, -⟩ := (exists_expandChoice_iff .default hmarked).mpr h
  rw [(expandChoice_eq_error_iff hmarked).mpr hfails] at hd
  cases hd

theorem not_unexpandable_of_forall₂ {ts : List Token} (hmarked : ∀ t ∈ ts, WellMarked t)
    {pieces : List (Text × List String)} (h : List.Forall₂ (Replaced registry env) ts pieces) :
    ∀ t ∈ ts, ∀ e, ¬ Unexpandable registry env t e := by
  induction h with
  | nil =>
      intro t ht
      cases ht
  | cons hpiece _ ih =>
      intro t ht e
      rcases List.mem_cons.mp ht with rfl | hmem
      · exact hpiece.not_unexpandable (hmarked t ht) e
      · exact ih (fun u hu => hmarked u (List.mem_cons_of_mem _ hu)) t hmem e

theorem run_expandComments_eq_error_iff {script : Text}
    (hproblems : (Script.parse level script).problems = []) (e : Error) :
    (expandComments registry env inner).run level script = .error e ↔
      ∃ pre t post, (Script.parse level script).body = pre ++ t :: post ∧
        (∀ u ∈ pre, ∀ e', ¬ Unexpandable registry env u e') ∧ Unexpandable registry env t e := by
  rw [run_eq_error_iff hproblems,
    trace_eq_error_iff expandComments_sees fun _ _ _ _ _ hd => expandChoice_consumed hd,
    decisions_eq_error_iff expandChoice_cons]
  refine exists_congr fun pre => exists_congr fun t => exists_congr fun post =>
    and_congr_right fun hbody => ?_
  have hmarked : ∀ u ∈ pre ++ t :: post, WellMarked u := by
    rw [← hbody]
    exact fun u hu => wellMarked_of_mem (Script.readAs hproblems) hu
  refine and_congr (forall₂_congr fun u hu => forall_congr' fun e' => ?_) ?_
  · rw [ne_eq, expandChoice_eq_error_iff (hmarked u (List.mem_append_left _ hu))]
  · exact expandChoice_eq_error_iff (hmarked t (by simp))

theorem run_expandComments_eq_ok_iff {script : Text}
    (hproblems : (Script.parse level script).problems = []) (outcome : Outcome) :
    (expandComments registry env inner).run level script = .ok outcome ↔
      ∃ pieces, List.Forall₂ (Replaced registry env) (Script.parse level script).body pieces ∧
        outcome = ⟨pieces.flatMap Prod.fst, [], pieces.flatMap Prod.snd, []⟩ := by
  have hone : ∀ pre t post d, (Script.parse level script).body = pre ++ t :: post →
      expandChoice registry env inner (t :: post) = .ok d → d.consumed = 0 :=
    fun _ _ _ _ _ hd => expandChoice_consumed hd
  rw [run_eq_ok_iff hproblems]
  simp only [← forall₂_expandChoice_iff inner
    fun t ht => wellMarked_of_mem (Script.readAs hproblems) ht]
  constructor
  · rintro ⟨trace, htrace, rfl⟩
    obtain ⟨ds, hds, rfl⟩ := (trace_eq_ok_iff expandComments_sees hone).mp htrace
    have hall := (decisions_eq_ok_iff expandChoice_cons).mp hds
    exact ⟨_, ⟨ds, hall, rfl⟩, outcome_of_forall₂ hall⟩
  · rintro ⟨_, ⟨ds, hall, rfl⟩, rfl⟩
    have hds := (decisions_eq_ok_iff expandChoice_cons).mpr hall
    exact ⟨_, (trace_eq_ok_iff expandComments_sees hone).mpr ⟨ds, hds, rfl⟩,
      outcome_of_forall₂ hall⟩

/-- Expanding the comments of a script without problems fails if some
comment cannot be expanded, with the error of the first, and else puts
together what stands in the place of each token. -/
theorem expandComments_outcome {script : Text}
    (hproblems : (Script.parse level script).problems = []) :
    ((∃ e, (expandComments registry env inner).run level script = .error e) ↔
      ∃ t ∈ (Script.parse level script).body, ∃ e, Unexpandable registry env t e) ∧
    (∀ e, (expandComments registry env inner).run level script = .error e ↔
      ∃ pre t post, (Script.parse level script).body = pre ++ t :: post ∧
        (∀ u ∈ pre, ∀ e', ¬ Unexpandable registry env u e') ∧ Unexpandable registry env t e) ∧
    ∀ outcome, (expandComments registry env inner).run level script = .ok outcome ↔
      ∃ pieces, List.Forall₂ (Replaced registry env) (Script.parse level script).body pieces ∧
        outcome = ⟨pieces.flatMap Prod.fst, [], pieces.flatMap Prod.snd, []⟩ := by
  refine ⟨⟨?_, ?_⟩, run_expandComments_eq_error_iff hproblems,
    run_expandComments_eq_ok_iff hproblems⟩
  · rintro ⟨e, hrun⟩
    obtain ⟨pre, t, post, hbody, -, hfails⟩ :=
      (run_expandComments_eq_error_iff hproblems e).mp hrun
    exact ⟨t, by simp [hbody], e, hfails⟩
  · rintro ⟨t, ht, e, hfails⟩
    cases hrun : (expandComments registry env inner).run level script with
    | error e' => exact ⟨e', rfl⟩
    | ok outcome =>
        obtain ⟨pieces, hall, -⟩ := (run_expandComments_eq_ok_iff hproblems outcome).mp hrun
        have hmarked := fun u hu => wellMarked_of_mem (Script.readAs hproblems) (t := u) hu
        exact absurd hfails (not_unexpandable_of_forall₂ hmarked hall t ht e)

def unreadableColumn : Text :=
  "SELECT 1 /*\x7b\x7b#if X\x7d\x7d'oops\x7b\x7b/if\x7d\x7d*/, 2".toList

/-- A comment with a closing mark only, before one with a name that is
unknown. -/
def twiceWrong : Text :=
  "SELECT 1 /* X\x7d\x7d */ /*\x7b\x7b#if y\x7d\x7d1\x7b\x7b/if\x7d\x7d*/".toList

theorem expandComments_outcome_unreadableColumn_twiceWrong :
    (∃ pieces, List.Forall₂ (Replaced .standard envX)
        (Script.parse .sql110 unreadableColumn).body pieces ∧
      pieces.flatMap Prod.fst = "SELECT 1 , 2".toList ∧
      pieces.flatMap Prod.snd =
        ["Error parsing ''oops' into TSQL", "1:1: Unterminated string literal"]) ∧
    ∃ pre t post, (Script.parse .sql110 twiceWrong).body = pre ++ t :: post ∧
      (∀ u ∈ pre, ∀ e', ¬ Unexpandable .standard envX u e') ∧
      Unexpandable .standard envX t (.mismatchedComment "/* X\x7d\x7d */".toList) := by
  constructor
  · have hproblems : (Script.parse .sql110 unreadableColumn).problems = [] := by decide +kernel
    have hrun : (expandComments .standard envX .sql110).run .sql110 unreadableColumn =
        .ok ⟨"SELECT 1 , 2".toList, [],
          ["Error parsing ''oops' into TSQL", "1:1: Unterminated string literal"], []⟩ :=
      eq_ok_of_toOption (by decide +kernel)
    obtain ⟨pieces, hall, houtcome⟩ := ((expandComments_outcome hproblems).2.2 _).mp hrun
    obtain ⟨htext, -, hreports, -⟩ := Outcome.mk.inj houtcome
    exact ⟨pieces, hall, htext.symm, hreports.symm⟩
  · have hproblems : (Script.parse .sql110 twiceWrong).problems = [] := by decide +kernel
    have hrun : (expandComments .standard envX .sql110).run .sql110 twiceWrong =
        .error (.mismatchedComment "/* X\x7d\x7d */".toList) := by
      decide +kernel
    exact ((expandComments_outcome hproblems).2.1 _).mp hrun

end Pass

end Tsql
