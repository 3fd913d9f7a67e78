import Tsql.Proofs.Expansion
import Tsql.Proofs.Occurrence

/-!
# Comment marks without their other half

The text of a conditional comment may open a comment that another one
closes. Such a text has to stay in one piece. `unpairedMark` says which
texts these are: those with a closing mark outside of every comment, or a
comment that does not end, comments being read as everywhere, nested and
from the left.

What decides in the end is only whether a text has marks of one sort or
of both (`hasUnpairedMark`). `unpaired_kept_iff` says what that amounts to:
a text that needs to stay in one piece does so if it has marks of one
sort, and is left out of the output altogether if it has both and cannot
be read by itself.
-/

namespace Tsql

/-! ## Marks in a text -/

/-- Whether a comment mark lacks its other half: a closing mark outside
of every comment, or a comment that does not end. -/
def unpairedMark : Text → Bool
  | [] => false
  | c :: cs =>
    if c = '*' ∧ cs.head? = some '/' then true
    else if c = '/' ∧ cs.head? = some '*' then
      match Lexeme.commentExtent ' ' 0 cs.tail with
      | none => true
      | some n => unpairedMark (cs.tail.drop n)
    else unpairedMark cs
termination_by t => t.length
decreasing_by
  · simp only [List.length_drop, List.length_tail, List.length_cons]
    omega
  · simp only [List.length_cons]
    omega

theorem has_of_unpairedMark {t : Text} (h : unpairedMark t = true) :
    t.has CommentMark.opening.text = true ∨ t.has CommentMark.closing.text = true := by
  fun_induction unpairedMark t with
  | case1 => cases h
  | case2 c cs hmark =>
      obtain ⟨rfl, hhead⟩ := hmark
      obtain ⟨ds, rfl⟩ := List.head?_eq_some_iff.mp hhead
      exact Or.inr (by simp [Text.has_cons, CommentMark.text])
  | case3 c cs _ hmark =>
      obtain ⟨rfl, hhead⟩ := hmark
      obtain ⟨ds, rfl⟩ := List.head?_eq_some_iff.mp hhead
      exact Or.inl (by simp [Text.has_cons, CommentMark.text])
  | case4 c cs _ hmark =>
      obtain ⟨rfl, hhead⟩ := hmark
      obtain ⟨ds, rfl⟩ := List.head?_eq_some_iff.mp hhead
      exact Or.inl (by simp [Text.has_cons, CommentMark.text])
  | case5 c cs _ _ ih =>
      rcases ih h with h | h
      · exact Or.inl (by rw [Text.has_cons, h, Bool.or_true])
      · exact Or.inr (by rw [Text.has_cons, h, Bool.or_true])

/-! ## Block comments -/

namespace Lexeme

/-- Only its mark begins a block comment. -/
theorem mark_of_scan_blockComment {c : Char} {cs : Text} {n : Nat}
    (h : scan c cs = .lexeme .blockComment n) : c = '/' ∧ cs.head? = some '*' := by
  by_cases hmark : c = '/' ∧ cs.head? = some '*'
  · exact hmark
  · have hkind := (scan_within c cs).kind h
    rw [decide_eq_false hmark] at hkind
    exact absurd (by decide) hkind

end Lexeme

/-- A block comment has no mark without its other half. -/
theorem unpairedMark_of_cuts {text : Text} (h : Lexeme.Cuts .blockComment text []) :
    unpairedMark text = false := by
  cases text with
  | nil => cases h
  | cons c cs =>
      simp only [Lexeme.Cuts, List.append_nil] at h
      obtain ⟨rfl, hhead⟩ := Lexeme.mark_of_scan_blockComment h
      obtain ⟨ds, rfl⟩ := List.head?_eq_some_iff.mp hhead
      rw [Lexeme.scan_blockComment, List.length_cons, Lexeme.ofExtent_eq_lexeme_iff] at h
      rw [unpairedMark, if_neg (by simp), if_pos ⟨rfl, rfl⟩, List.tail_cons, h.2]
      simp only [List.drop_length]
      rw [unpairedMark]

/-! ## What becomes of such a text -/

namespace Pass

variable {registry : Registry} {env : Environment} {level inner : Level}

/-- Marks of both sorts. -/
def hasBothMarks (t : Text) : Bool :=
  t.has CommentMark.opening.text && t.has CommentMark.closing.text

/-- A text that needs to stay in one piece is taken for one that does not
if it has marks of both sorts. -/
theorem hasUnpairedMark_iff {expanded : Text} (h : unpairedMark expanded = true) :
    hasUnpairedMark expanded = true ↔ hasBothMarks expanded = false := by
  unfold hasUnpairedMark hasBothMarks
  rcases has_of_unpairedMark h with hmark | hmark <;> simp [hmark]

theorem body_ne_blockComment {expanded : Text} (h : unpairedMark expanded = true) :
    (Script.parse level expanded).body.map Token.face ≠ [(.blockComment, expanded)] := by
  intro hface
  rw [Script.body_parse] at hface
  cases hraw : tokensFrom .start expanded with
  | error e =>
      rw [hraw] at hface
      cases hface
  | ok raw =>
      rw [hraw] at hface
      dsimp only at hface
      obtain ⟨t, ts, hbody, ht, hts⟩ := List.map_eq_cons_iff.mp hface
      obtain rfl := List.map_eq_nil_iff.mp hts
      obtain ⟨hkind, htext⟩ := Prod.mk.inj ht
      have hreads := (ReadAs.of_tokensFrom hraw).reads
      rw [hbody, List.map_singleton, unmarked_eq_self (by rw [hkind]; decide)] at hreads
      have hcuts := hreads.1
      rw [hkind, htext] at hcuts
      rw [unpairedMark_of_cuts hcuts] at h
      cases h

theorem textOf_body_iff {expanded : Text} (h : expanded ≠ []) :
    Token.textOf (Script.parse level expanded).body = expanded ↔
      ¬ ∃ problem, tokensFrom .start expanded = .error problem := by
  rw [Script.body_parse]
  cases hraw : tokensFrom .start expanded with
  | error e => simp [Ne.symm h]
  | ok raw => simp [(ReadAs.of_tokensFrom hraw).text]

/-- A text with a comment mark that lacks its other half is put in its
place as one comment, unless it has marks of both sorts; if it has and
cannot be read, nothing of it is put in. -/
theorem unpaired_kept_iff {script : Text} {outcome : Outcome}
    (hproblems : (Script.parse level script).problems = [])
    (hrun : (expandComments registry env inner).run level script = .ok outcome)
    {pre post : List Token} {t : Token} {expanded : Text}
    (hbody : (Script.parse level script).body = pre ++ t :: post)
    (hrenders : Renders registry env t expanded) (hunpaired : unpairedMark expanded = true) :
    ∃ before here after,
      expandedTokens registry env inner pre = .ok before ∧
      expandedTokens registry env inner [t] = .ok here ∧
      expandedTokens registry env inner post = .ok after ∧
      outcome.output = Token.textOf before ++ Token.textOf here ++ Token.textOf after ∧
      (here.map Token.face = [(.blockComment, expanded)] ↔ hasBothMarks expanded = false) ∧
      (Token.textOf here = expanded ↔ ¬ (hasBothMarks expanded = true ∧
        ∃ problem, tokensFrom .start expanded = .error problem)) := by
  obtain ⟨trace, -, hemitted, houtput⟩ := run_expandComments hproblems hrun
  rw [hbody] at hemitted
  obtain ⟨before, rest, hbefore, hrest, hall⟩ := expandedTokens_append_eq_ok_iff.mp hemitted
  obtain ⟨d, after, hd, hafter, rfl⟩ := expandedTokens_cons_eq_ok_iff.mp hrest
  rw [expandChoice_of_renders hrenders] at hd
  cases hd
  refine ⟨before, (expandedDecision inner expanded).emitted, after, hbefore, ?_, hafter, ?_, ?_⟩
  · exact expandedTokens_cons_eq_ok_iff.mpr
      ⟨_, [], expandChoice_of_renders hrenders [], expandedTokens_nil, List.append_nil _⟩
  · rw [houtput, ← hall, Token.textOf_append, Token.textOf_append, List.append_assoc]
  · rw [expandedDecision_emitted]
    cases hboth : hasBothMarks expanded with
    | false =>
        rw [if_pos ((hasUnpairedMark_iff hunpaired).mpr hboth)]
        simp [Token.synthetic, Token.face]
    | true =>
        have hmark : hasUnpairedMark expanded ≠ true := by
          rw [ne_eq, hasUnpairedMark_iff hunpaired, hboth]
          decide
        have hne : expanded ≠ [] := by
          rintro rfl
          cases hboth
        rw [if_neg hmark]
        simp [body_ne_blockComment hunpaired, textOf_body_iff hne]

def twoStretches : Text :=
  ("SELECT 1 /*\x7b\x7b#comment_if X\x7d\x7d*/ , 2 ".toList ++
    "/*\x7b\x7b#end_comment_if X\x7d\x7d , 3 \x7b\x7b#comment_if X\x7d\x7d*/".toList ++
    " , 4 /*\x7b\x7b#end_comment_if X\x7d\x7d*/".toList)

def betweenStretches : Token :=
  ⟨.blockComment,
    "/*\x7b\x7b#end_comment_if X\x7d\x7d , 3 \x7b\x7b#comment_if X\x7d\x7d*/".toList, some ⟨1, 36⟩⟩

/-- The text between the stretches has both marks, neither with its other
half, and is lost. -/
theorem betweenStretches_lost :
    ∃ before here after outcome,
      (expandComments .standard envX .sql110).run .sql110 twoStretches = .ok outcome ∧
      expandedTokens .standard envX .sql110 [betweenStretches] = .ok here ∧
      outcome.output = Token.textOf before ++ Token.textOf here ++ Token.textOf after ∧
      here.map Token.face ≠ [(.blockComment, "*/ , 3 /*".toList)] ∧
      Token.textOf here ≠ "*/ , 3 /*".toList := by
  have hproblems : (Script.parse .sql110 twoStretches).problems = [] := by decide +kernel
  have hbody : (Script.parse .sql110 twoStretches).body =
      (Script.parse .sql110 twoStretches).body.take 10 ++ betweenStretches ::
        (Script.parse .sql110 twoStretches).body.drop 11 := by
    decide +kernel
  have hrenders : Renders .standard envX betweenStretches "*/ , 3 /*".toList :=
    ⟨rfl, by decide +kernel, eq_ok_of_toOption (by decide +kernel)⟩
  have hunread : ∃ problem, tokensFrom .start "*/ , 3 /*".toList = .error problem := by
    cases h : tokensFrom .start "*/ , 3 /*".toList with
    | error problem => exact ⟨problem, rfl⟩
    | ok raw =>
        have hnone : (tokensFrom .start "*/ , 3 /*".toList).toOption = none := by decide +kernel
        rw [h] at hnone
        cases hnone
  obtain ⟨outcome, hrun⟩ : ∃ outcome,
      (expandComments .standard envX .sql110).run .sql110 twoStretches = .ok outcome :=
    ⟨_, eq_ok_of_toOption (Option.some_get (by decide +kernel)).symm⟩
  obtain ⟨before, here, after, -, hhere, -, houtput, hkept, htext⟩ :=
    unpaired_kept_iff hproblems hrun hbody hrenders (by decide +kernel)
  refine ⟨before, here, after, outcome, hrun, hhere, houtput, fun h => ?_, fun h => ?_⟩
  · have hboth := hkept.mp h
    revert hboth
    decide +kernel
  · exact htext.mp h ⟨by decide +kernel, hunread⟩

end Pass

end Tsql
