import Tsql.Proofs.ExpansionOutcome
import Tsql.Proofs.SourceMap
import Tsql.Proofs.TemplateGrammar

/-!
# Commenting a region out

A region of a script between two comments of one tag each is meant to
become a comment of its own under a condition. The two comments are
expanded apart from each other, and either gives a mark without its other
half; nothing is read again until the pass is done. What comes out all the
same is shown in three steps:

- **expansion** (`expand_tagText`): a template of one tag, applied to the
  name of a variable, is the text that the tag gives for its value;
- **the outcome** (`run_enclosed`): the two marks or nothing, according to
  the condition, and all other tokens as they were;
- **reading it again** (`tokensFrom_commentedOut`): the tokens in front are
  read as before, since a comment began behind them all along, and the new
  comment reaches to the mark that was put behind the region, whatever else
  the region holds (`commentExtent_region`).

Marks inside of the region would nest or close the comment early, and a
slash at its end would make a mark with the star behind it. `Commentable`
rules out just these.
-/

namespace Tsql

open Lexeme (Cuts)
open Template (openMark closeMark)

/-! ## One tag in a template -/

namespace Template

/-- A name that is read as that of one variable: one word, neither quoted
nor a number, in which the braces do not close. -/
structure VariableName (name : Text) : Prop where
  nonempty : name ≠ []
  solid : ∀ c ∈ name, isBlank c = false
  unquoted : ∀ c cs, name = c :: cs → quotedArgument? c cs = none
  noNumber : Number.read? name = none
  unclosed : ¬ closeMark <:+: name ++ ['\x7d']

/-- The tags that are no part of a conditional. -/
structure CustomName (name : Text) : Prop where
  starts : name.head?.any isNameStart = true
  parts : name.all isNamePart = true
  custom : name ∉ ["if".toList, "elif".toList, "elseif".toList, "else".toList]

/-- A tag applied to a variable, as it is written. -/
def tagText (tag name : Text) : Text := openMark ++ ('#' :: tag ++ ' ' :: name) ++ closeMark

theorem argumentsFrom_variable {name : Text} (h : VariableName name) (p : Position) :
    ∃ q, argumentsFrom p (' ' :: name) = [.variableName name q] := by
  obtain ⟨c, cs, hcons⟩ := List.exists_cons_of_ne_nil h.nonempty
  have hword : (cs.takeWhile (!isBlank ·)).length = cs.length := by
    refine (Lexeme.runExtent_eq_length_iff (!isBlank ·) cs).mpr (List.all_eq_true.mpr ?_)
    intro d hd
    rw [h.solid d (hcons ▸ List.mem_cons_of_mem c hd)]
    rfl
  have hc : isBlank c = false := h.solid c (hcons ▸ List.mem_cons_self)
  refine ⟨p.next ' ', ?_⟩
  rw [argumentsFrom, if_pos (by decide), hcons, argumentsFrom, if_neg (by simp [hc])]
  split
  · rename_i hquoted
    rw [h.unquoted c cs hcons] at hquoted
    cases hquoted
  · simp only [hword, List.take_length, List.drop_length, wordArgument, ← hcons, h.noNumber,
      argumentsFrom]

theorem read_tagText {tag name : Text} (htag : CustomName tag) (hname : VariableName name)
    (p : Position) :
    ∃ q, WrittenTag.read p ('#' :: tag ++ ' ' :: name) =
      .ok ⟨.opening, tag, [.variableName name q], p⟩ := by
  have hhead : (tag ++ ' ' :: name).head?.any isNameStart = true := by
    have hstarts := htag.starts
    cases tag with
    | nil => cases hstarts
    | cons c cs => exact hstarts
  have hblank : ∀ c ∈ ([] : Text), isBlank c = true := by simp
  have hsigns : takeSigns ('#' :: tag ++ ' ' :: name) = (.opening, tag ++ ' ' :: name) :=
    takeSigns_eq .opening hblank hblank hhead
  have hends : ∀ c ∈ (' ' :: name).head?, isNamePart c = false := by
    rintro c ⟨⟩
    decide
  obtain ⟨q, harguments⟩ := argumentsFrom_variable hname (p.after (openMark ++ '#' :: tag))
  refine ⟨q, ?_⟩
  rw [read_of_takeSigns p hsigns ⟨htag.starts, List.all_eq_true.mp htag.parts⟩ hends, harguments]

theorem cut_closeMark_tag {tag name : Text} (htagName : CustomName tag)
    (hname : VariableName name) :
    Text.cut ('#' :: tag ++ ' ' :: name ++ closeMark) closeMark =
      some ('#' :: tag ++ ' ' :: name, []) := by
  have hfront : '\x7d' ∉ '#' :: tag ++ [' '] := by
    intro hmem
    have htag : '\x7d' ∈ tag := by simpa using hmem
    have hpart := List.all_eq_true.mp htagName.parts _ htag
    revert hpart
    decide
  have hnone : ¬ closeMark <:+: '#' :: tag ++ ' ' :: name ++ closeMark.dropLast := by
    intro h
    refine hname.unclosed (Text.infix_of_append ('#' :: tag ++ [' ']) hfront ?_)
    simpa [closeMark] using h
  have hcut := Text.cut_append _ closeMark hnone (by decide) []
  rwa [List.append_nil] at hcut

theorem segmentsFrom_tagText {tag name : Text} (htag : CustomName tag) (hname : VariableName name)
    (p : Position) :
    ∃ q, segmentsFrom p (tagText tag name) =
      .ok [.tag ⟨.opening, tag, [.variableName name q], p⟩] := by
  obtain ⟨q, hread⟩ := read_tagText htag hname p
  have hopen : (tagText tag name).cut openMark =
      some ([], '#' :: tag ++ ' ' :: name ++ closeMark) :=
    Text.cut_append [] openMark (by decide) (by decide) _
  have hend : ∀ p', segmentsFrom p' [] = .ok [] := fun p' => segmentsFrom_plain rfl
  refine ⟨q, ?_⟩
  rw [segmentsFrom_tag hopen (cut_closeMark_tag htag hname), Position.after_nil, hread, hend]
  rfl

theorem expand_tagText {registry : Registry} {env : Environment} (tag : Tag) {name : Text}
    {value : Json} (hfind : registry.find? tag.name = some tag)
    (hparameters : tag.parameters.length = 1) (htag : CustomName tag.name)
    (hname : VariableName name) (hvalue : env.lookup name = some value) :
    expand registry env (tagText tag.name name) = .ok (tag.render [value]) := by
  obtain ⟨q, hsegments⟩ := segmentsFrom_tagText htag hname .start
  let w : WrittenTag := ⟨.opening, tag.name, [.variableName name q], .start⟩
  have hw : w.IsCustom registry := ⟨rfl, htag.custom, tag, hfind, hparameters.symm⟩
  have hcompile : compile registry (tagText tag.name name) =
      .ok ⟨[.tag tag.name [.variableName name q]]⟩ :=
    Derivation.compile_eq ⟨.custom w hw .done, segmentsFrom_eq_ok_iff.mp hsegments⟩
  simp only [expand, hcompile, render, renderNodes, Node.render, renderTag, hfind, resolveAll,
    Argument.resolve, resolveName, hvalue, bind, Except.bind, pure, Except.pure, List.append_nil]

end Template

/-! ## A comment of one tag -/

/-- A comment that holds one tag, applied to a variable. -/
def tagComment (tag name : Text) : Text :=
  CommentMark.opening.text ++ Template.tagText tag name ++ CommentMark.closing.text

theorem mark_prefix_tagComment (tag name : Text) :
    CommentMark.opening.text <+: tagComment tag name := by
  rw [tagComment, List.append_assoc]
  exact List.prefix_append ..

/-- The tags before and after a region that is commented out where the
truth of their condition is `when`. -/
def regionTags : Bool → Text × Text
  | true => ("comment_if".toList, "end_comment_if".toList)
  | false => ("uncomment_if".toList, "end_uncomment_if".toList)

theorem find?_regionTags (when : Bool) :
    Registry.standard.find? (regionTags when).1 =
        some (.comment (regionTags when).1 .opening when) ∧
      Registry.standard.find? (regionTags when).2 =
        some (.comment (regionTags when).2 .closing when) := by
  cases when <;> exact ⟨rfl, rfl⟩

theorem customName_regionTags (when : Bool) :
    Template.CustomName (regionTags when).1 ∧ Template.CustomName (regionTags when).2 := by
  cases when <;> exact ⟨⟨by decide, by decide, by decide⟩, ⟨by decide, by decide, by decide⟩⟩

namespace Pass

variable {env : Environment}

/-- A comment mark by itself, or nothing, is never left out. -/
theorem not_leftOut_mark (mark : CommentMark) (present : Bool) (problem : Problem) :
    ¬ LeftOut (if present then mark.text else []) problem := by
  rintro ⟨hunreadable, hmarks⟩
  cases present with
  | true =>
      revert hmarks
      cases mark <;> decide
  | false =>
      rw [if_neg Bool.false_ne_true, tokensFrom] at hunreadable
      cases hunreadable

/-- What stands in the place of a comment of one tag. -/
theorem replaced_tagComment {t : Token} {tag name : Text} {mark : CommentMark} {when : Bool}
    {value : Json} (hfind : Registry.standard.find? tag = some (.comment tag mark when))
    (htag : Template.CustomName tag) (hname : Template.VariableName name)
    (hvalue : env.lookup name = some value) (hkind : t.kind = .blockComment)
    (htext : t.text = tagComment tag name) :
    Replaced .standard env t (if value.isTruthy == when then mark.text else [], []) := by
  have hrenders := Template.expand_tagText (.comment tag mark when) hfind rfl htag hname hvalue
  refine .rendered ⟨hkind, ?_, ?_, htext⟩ hrenders (not_leftOut_mark mark _)
  · rw [htext]
    exact ⟨CommentMark.opening.text, '#' :: tag ++ ' ' :: name ++ closeMark ++
      CommentMark.closing.text, by simp [tagComment, Template.tagText]⟩
  · rw [htext]
    exact ⟨CommentMark.opening.text ++ openMark ++ ('#' :: tag ++ ' ' :: name),
      CommentMark.closing.text, by simp [tagComment, Template.tagText]⟩

/-- What stands in the place of tokens that stay. -/
def kept (ts : List Token) : List (Text × List String) := ts.map fun t => (t.text, [])

theorem flatMap_kept (ts : List Token) :
    (kept ts).flatMap Prod.fst = Token.textOf ts ∧ (kept ts).flatMap Prod.snd = [] := by
  rw [kept, List.flatMap_map, List.flatMap_map]
  exact ⟨rfl, by simp⟩

/-- Tokens without conditional comments stay where they are. -/
theorem forall₂_kept {registry : Registry} {ts : List Token}
    (h : ∀ t ∈ ts, t.kind = .blockComment → Template.detect t.text = .plain) :
    List.Forall₂ (Replaced registry env) ts (kept ts) := by
  rw [kept, List.forall₂_map_right_iff, List.forall₂_same]
  exact fun t ht => .kept fun hkind => (detect_eq_plain_iff _).mp (h t ht hkind)

end Pass

/-- What begins with the opening mark of a comment is one. -/
theorem Lexeme.Cuts.kind_of_mark {kind : Kind} {text rest : Text} (h : Cuts kind text rest)
    (hmark : CommentMark.opening.text <+: text) : kind = .blockComment := by
  obtain ⟨body, rfl⟩ := hmark
  change Lexeme.scan '/' ('*' :: (body ++ rest)) = .lexeme kind (body.length + 1) at h
  rw [Lexeme.scan_blockComment, Lexeme.ofExtent_eq_lexeme_iff] at h
  exact h.1.symm

theorem ReadAs.kind_of_mark {source : Text} {body : List Token} (h : ReadAs source body) {t : Token}
    (ht : t ∈ body) (hmark : CommentMark.opening.text <+: t.text) : t.kind = .blockComment := by
  obtain ⟨rest, hcuts⟩ := h.reads.cuts (List.mem_map_of_mem ht)
  rw [Token.text_unmarked] at hcuts
  have hkind := hcuts.kind_of_mark hmark
  unfold Token.unmarked at hkind
  split at hkind
  · cases hkind
  · exact hkind

/-! ## A region between comment marks -/

namespace Lexeme

/-- A comment reaches to its closing mark if no other mark stands before
it and none is made with the last character. -/
theorem commentExtent_region {last : Char} {region : Text}
    (hopens : ¬ CommentMark.opening.text <:+: last :: region)
    (hcloses : ¬ CommentMark.closing.text <:+: last :: region)
    (hlast : (last :: region).getLast? ≠ some '/') (rest : Text) :
    commentExtent last 0 (region ++ CommentMark.closing.text ++ rest) =
      some (region.length + 2) := by
  induction region generalizing last with
  | nil =>
      have hslash : last ≠ '/' := fun h => hlast (by rw [h]; rfl)
      simp [CommentMark.text, commentExtent_cons, hslash]
  | cons c cs ih =>
      have hopen : ¬ (last = '/' ∧ c = '*') := by
        rintro ⟨rfl, rfl⟩
        exact hopens ⟨[], cs, rfl⟩
      have hclose : ¬ (last = '*' ∧ c = '/') := by
        rintro ⟨rfl, rfl⟩
        exact hcloses ⟨[], cs, rfl⟩
      have hmore := ih (fun h => hopens (h.trans (List.suffix_cons last _).isInfix))
        (fun h => hcloses (h.trans (List.suffix_cons last _).isInfix))
        (by rwa [List.getLast?_cons_cons] at hlast)
      rw [List.cons_append, List.cons_append, commentExtent_cons, if_neg hopen, if_neg hclose,
        hmore]
      rfl

end Lexeme

/-- A text that can be commented out: it holds no comment mark and does
not end in the first character of one. -/
structure Commentable (region : Text) : Prop where
  opens : ¬ CommentMark.opening.text <:+: region
  closes : ¬ CommentMark.closing.text <:+: region
  last : region.getLast? ≠ some '/'

/-- A text between comment marks. -/
def commentedOut (region : Text) : Text :=
  CommentMark.opening.text ++ region ++ CommentMark.closing.text

theorem cuts_commentedOut {region : Text} (h : Commentable region) (rest : Text) :
    Cuts .blockComment (commentedOut region) rest := by
  have hopens : ¬ CommentMark.opening.text <:+: ' ' :: region := by
    intro hoccurs
    exact h.opens (Text.infix_of_append [' '] (by decide) hoccurs)
  have hcloses : ¬ CommentMark.closing.text <:+: ' ' :: region := by
    intro hoccurs
    exact h.closes (Text.infix_of_append [' '] (by decide) hoccurs)
  have hlast : (' ' :: region).getLast? ≠ some '/' := by
    cases region with
    | nil => decide
    | cons c cs =>
        rw [List.getLast?_cons_cons]
        exact h.last
  have hextent := Lexeme.commentExtent_region hopens hcloses hlast rest
  have hlen : (region ++ CommentMark.closing.text).length = region.length + 2 :=
    List.length_append
  change Lexeme.scan '/' ('*' :: (region ++ CommentMark.closing.text ++ rest)) =
    .lexeme .blockComment ((region ++ CommentMark.closing.text).length + 1)
  rw [Lexeme.scan_blockComment, Lexeme.ofExtent_eq_lexeme_iff, hlen]
  exact ⟨rfl, hextent⟩

/-! ## Reading on from another comment -/

theorem placedFrom_of_append {p : Position} {ts us : List Token}
    (h : placedFrom p (ts ++ us) = ts ++ us) : placedFrom p ts = ts := by
  induction ts generalizing p with
  | nil => rfl
  | cons t ts ih =>
      obtain ⟨ht, hts⟩ := List.cons.inj h
      rw [placedFrom, ih hts]
      congr 1

/-- Tokens before a comment do not depend on what is in it, nor on what
stands behind. -/
theorem ReadsBefore.of_slash {ts : List Token} {r : Text} (h : ReadsBefore ts ('/' :: r))
    (r' : Text) : ReadsBefore ts ('/' :: r') := by
  induction ts with
  | nil => trivial
  | cons t ts ih =>
      obtain ⟨hcuts, hmore⟩ := h
      refine ⟨?_, ih hmore⟩
      have hhead : (Token.textOf ts ++ '/' :: r').head? = (Token.textOf ts ++ '/' :: r).head? := by
        cases Token.textOf ts <;> rfl
      rw [Lexeme.cuts_iff] at hcuts ⊢
      rw [Lexeme.stops_congr t.kind t.text hhead
        (Lexeme.exponentExtent_append_cons (by decide) (by decide) rfl _ r' r)]
      exact hcuts

/-- The tokens at the front of a text are read first. -/
theorem tokensFrom_append {ts : List Token} {rest : Text} {p : Position}
    (hreads : ReadsBefore ts rest) (hplaced : placedFrom p ts = ts) :
    tokensFrom p (Token.textOf ts ++ rest) =
      (tokensFrom (p.after (Token.textOf ts)) rest).map (ts ++ ·) := by
  induction ts generalizing p with
  | nil =>
      rw [Token.textOf_nil, List.nil_append, Position.after_nil]
      cases tokensFrom p rest <;> rfl
  | cons t ts ih =>
      obtain ⟨hcuts, hmore⟩ := hreads
      obtain ⟨ht, hts⟩ := List.cons.inj hplaced
      rw [Token.textOf_cons, List.append_assoc, tokensFrom_of_cuts hcuts, ih hmore hts,
        Position.after_append, show (⟨t.kind, t.text, some p⟩ : Token) = t from ht]
      cases tokensFrom ((p.after t.text).after (Token.textOf ts)) rest <;> rfl

/-- A stretch of tokens that begins with a comment gives way to another
comment: the tokens before it are read as they were. -/
theorem tokensFrom_commentedOut {source : Text} {pre mid post : List Token} {opening : Token}
    (hraw : tokensFrom .start source = .ok (pre ++ opening :: (mid ++ post)))
    (hmark : CommentMark.opening.text <+: opening.text) {region : Text}
    (hregion : Commentable region) :
    ∃ after, tokensFrom .start (Token.textOf pre ++ commentedOut region ++ Token.textOf post) =
      .ok (pre ++ ⟨.blockComment, commentedOut region, opening.position⟩ :: after) := by
  obtain ⟨-, hreads, hplaced⟩ := (tokensFrom_eq_ok_iff _ _ _).mp hraw
  obtain ⟨hpre, -, hrest⟩ := (readsBefore_append pre (opening :: (mid ++ post)) []).mp hreads
  have hpost := ((readsBefore_append mid post []).mp hrest).2
  obtain ⟨body, hopening⟩ := hmark
  have hpre' : ReadsBefore pre (commentedOut region ++ Token.textOf post) := by
    rw [Token.textOf_cons, ← hopening] at hpre
    exact hpre.of_slash _
  have hafter : ∀ p, tokensFrom p (Token.textOf post) = .ok (placedFrom p post) := by
    intro p
    rw [tokensFrom_eq_ok_iff]
    refine ⟨textOf_placedFrom p post, ?_, placedFrom_placedFrom p post⟩
    exact (readsBefore_congr (map_face_placedFrom p post) []).mpr hpost
  refine ⟨placedFrom ((Position.start.after (Token.textOf pre)).after (commentedOut region)) post,
    ?_⟩
  rw [List.append_assoc, tokensFrom_append hpre' (placedFrom_of_append hplaced),
    tokensFrom_of_cuts (cuts_commentedOut hregion _), hafter, position_of_placedFrom hplaced]
  rfl

/-! ## Scripts -/

/-- Tokens with a region between two comments of one tag each, and no
other conditional comment. -/
structure Enclosed (body : List Token) (when : Bool) (name : Text)
    (pre : List Token) (opening : Token) (region : List Token) (closing : Token)
    (post : List Token) : Prop where
  split : body = pre ++ opening :: (region ++ closing :: post)
  opens : opening.text = tagComment (regionTags when).1 name
  closes : closing.text = tagComment (regionTags when).2 name
  plain : ∀ t ∈ pre ++ region ++ post, t.kind = .blockComment → Template.detect t.text = .plain

namespace Pass

section Region

variable {level : Level} {env : Environment} {script name : Text} {when : Bool}
  {value : Json} {pre region post : List Token} {opening closing : Token}

/-- What the pass makes of the two comments together. -/
theorem run_enclosed (hproblems : (Script.parse level script).problems = [])
    (hbody : Enclosed (Script.parse level script).body when name pre opening region closing post)
    (hname : Template.VariableName name) (hvalue : env.lookup name = some value) (inner : Level) :
    (expandComments .standard env inner).run level script =
      .ok ⟨Token.textOf pre ++ (if value.isTruthy == when then commentedOut (Token.textOf region)
        else Token.textOf region) ++ Token.textOf post, [], [], []⟩ := by
  have hread := Script.readAs hproblems
  obtain ⟨hopenTag, hcloseTag⟩ := find?_regionTags when
  obtain ⟨hopenName, hcloseName⟩ := customName_regionTags when
  have hkind : ∀ t ∈ (Script.parse level script).body, ∀ tag,
      t.text = tagComment tag name → t.kind = .blockComment :=
    fun t ht tag htext => hread.kind_of_mark ht (htext ▸ mark_prefix_tagComment tag name)
  have hopening := replaced_tagComment hopenTag hopenName hname hvalue
    (hkind opening (by simp [hbody.split]) _ hbody.opens) hbody.opens
  have hclosing := replaced_tagComment hcloseTag hcloseName hname hvalue
    (hkind closing (by simp [hbody.split]) _ hbody.closes) hbody.closes
  have hkept : ∀ ts : List Token, (∀ t ∈ ts, t ∈ pre ++ region ++ post) →
      List.Forall₂ (Replaced .standard env) ts (kept ts) :=
    fun ts hts => forall₂_kept fun t ht => hbody.plain t (hts t ht)
  rw [run_expandComments_eq_ok_iff hproblems, hbody.split]
  refine ⟨kept pre ++ (if value.isTruthy == when then CommentMark.opening.text else [], []) ::
      (kept region ++ (if value.isTruthy == when then CommentMark.closing.text else [], []) ::
        kept post), ?_, ?_⟩
  · refine List.rel_append (hkept pre fun t ht => ?_) (.cons hopening
      (List.rel_append (hkept region fun t ht => ?_) (.cons hclosing (hkept post fun t ht => ?_))))
    all_goals simp [ht]
  · simp only [List.flatMap_append, List.flatMap_cons, flatMap_kept, List.append_nil]
    cases value.isTruthy == when <;> simp [commentedOut]

/-- The tokens before a region that is commented out, and the comment that
it has become. -/
theorem body_commentedOut (hproblems : (Script.parse level script).problems = [])
    (hbody : Enclosed (Script.parse level script).body when name pre opening region closing post)
    (hregion : Commentable (Token.textOf region)) (again : Level) :
    ∃ after,
      (Script.parse again (Token.textOf pre ++ commentedOut (Token.textOf region) ++
        Token.textOf post)).body =
        pre ++ ⟨.blockComment, commentedOut (Token.textOf region), opening.position⟩ :: after := by
  obtain ⟨raw, hraw, hmarked⟩ := Script.tokensFrom_of_problems hproblems
  have hreads := ((tokensFrom_eq_ok_iff _ _ _).mp hraw).2.1
  have hunmarked := map_unmarked_markBatches hreads []
  rw [opensLine_nil, ← hmarked, hbody.split] at hunmarked
  have hmark : CommentMark.opening.text <+: opening.text :=
    hbody.opens ▸ mark_prefix_tagComment _ name
  have hopening : opening.kind = .blockComment :=
    (Script.readAs hproblems).kind_of_mark (by simp [hbody.split]) hmark
  have hself : opening.unmarked = opening := unmarked_eq_self (by rw [hopening]; decide)
  have hparts : raw = pre.map Token.unmarked ++ opening ::
      ((region ++ [closing]).map Token.unmarked ++ post.map Token.unmarked) := by
    rw [← hunmarked]
    simp [hself]
  -- the marks of the tokens in front depend on these alone
  have hpre : markBatches true (pre.map Token.unmarked) = pre := by
    have hall := hmarked.symm.trans hbody.split
    rw [hparts, markBatches_append] at hall
    exact (List.append_inj hall (by rw [length_markBatches, List.length_map])).1
  rw [hparts] at hraw
  obtain ⟨after, hafter⟩ := tokensFrom_commentedOut hraw hmark hregion
  rw [textOf_map_unmarked, textOf_map_unmarked] at hafter
  have hword : ∀ text position opens, (⟨.blockComment, text, position⟩ : Token).markedAt opens =
      ⟨.blockComment, text, position⟩ := by
    intro text position opens
    rw [Token.markedAt, if_neg]
    simp [Token.isWord]
  have hreread := Script.body_parse again (Token.textOf pre ++ commentedOut (Token.textOf region) ++
    Token.textOf post)
  rw [hafter] at hreread
  dsimp only at hreread
  rw [markBatches_append, hpre, markBatches_step, hword] at hreread
  exact ⟨_, hreread⟩

/-- A region between two comments of one tag each is commented out where
the condition has the truth that the tags ask for: it becomes one comment,
and the tokens before it stay as they were. Otherwise it stands there as
if the two comments had never been. -/
theorem region_commentedOut (hproblems : (Script.parse level script).problems = [])
    (hbody : Enclosed (Script.parse level script).body when name pre opening region closing post)
    (hname : Template.VariableName name) (hvalue : env.lookup name = some value)
    (hregion : Commentable (Token.textOf region)) (inner : Level) :
    (value.isTruthy = when →
      ∃ output, output =
          Token.textOf pre ++ commentedOut (Token.textOf region) ++ Token.textOf post ∧
        (expandComments .standard env inner).run level script = .ok ⟨output, [], [], []⟩ ∧
        ∀ again, ∃ after, (Script.parse again output).body = pre ++
          ⟨.blockComment, commentedOut (Token.textOf region), opening.position⟩ :: after) ∧
    (value.isTruthy ≠ when →
      (expandComments .standard env inner).run level script =
        .ok ⟨Token.textOf pre ++ Token.textOf region ++ Token.textOf post, [], [], []⟩) := by
  have hrun := run_enclosed hproblems hbody hname hvalue inner
  constructor
  · intro htruth
    rw [htruth, beq_self_eq_true, if_pos rfl] at hrun
    exact ⟨_, rfl, hrun, body_commentedOut hproblems hbody hregion⟩
  · intro htruth
    rwa [if_neg (by simpa using htruth)] at hrun

end Region

/-- A column that is left out where `X` is true, with a string and a line
comment in it. -/
def optionalColumn : Text :=
  ("SELECT 1/*\x7b\x7b#comment_if X\x7d\x7d*/,'b'--/\n".toList ++
    "/*\x7b\x7b#end_comment_if X\x7d\x7d*/;".toList)

def beforeColumn : List Token :=
  [⟨.keyword, "SELECT".toList, some ⟨1, 1⟩⟩, ⟨.whitespace, [' '], some ⟨1, 7⟩⟩,
    ⟨.numberLiteral, ['1'], some ⟨1, 8⟩⟩]

def columnOpens : Token :=
  ⟨.blockComment, "/*\x7b\x7b#comment_if X\x7d\x7d*/".toList, some ⟨1, 9⟩⟩

def columnRegion : List Token :=
  [⟨.comma, [','], some ⟨1, 30⟩⟩, ⟨.stringLiteral, "'b'".toList, some ⟨1, 31⟩⟩,
    ⟨.lineComment, "--/\n".toList, some ⟨1, 34⟩⟩]

def columnCloses : Token :=
  ⟨.blockComment, "/*\x7b\x7b#end_comment_if X\x7d\x7d*/".toList, some ⟨2, 1⟩⟩

def afterColumn : List Token := [⟨.semicolon, [';'], some ⟨2, 26⟩⟩]

theorem region_commentedOut_optionalColumn :
    (∃ after,
      (expandComments .standard envX .sql110).run .sql110 optionalColumn =
        .ok ⟨"SELECT 1/*,'b'--/\n*/;".toList, [], [], []⟩ ∧
      (Script.parse .sql110 "SELECT 1/*,'b'--/\n*/;".toList).body =
        beforeColumn ++ ⟨.blockComment, "/*,'b'--/\n*/".toList, some ⟨1, 9⟩⟩ :: after) ∧
    (expandComments .standard ⟨[(['X'], .null)]⟩ .sql110).run .sql110 optionalColumn =
      .ok ⟨"SELECT 1,'b'--/\n;".toList, [], [], []⟩ := by
  have hproblems : (Script.parse .sql110 optionalColumn).problems = [] := by decide +kernel
  have hbody : Enclosed (Script.parse .sql110 optionalColumn).body true ['X'] beforeColumn
      columnOpens columnRegion columnCloses afterColumn :=
    ⟨by decide +kernel, by decide, by decide, by decide⟩
  have hname : Template.VariableName ['X'] :=
    ⟨by decide, List.forall_mem_singleton.mpr (by decide), fun c cs h => by cases h; rfl,
      by decide +kernel, by decide⟩
  have hregion : Commentable (Token.textOf columnRegion) := ⟨by decide, by decide, by decide⟩
  have hset : envX.lookup ['X'] = some (.bool true) := rfl
  have hunset : (⟨[(['X'], .null)]⟩ : Environment).lookup ['X'] = some .null := rfl
  obtain ⟨htrue, -⟩ := region_commentedOut hproblems hbody hname hset hregion .sql110
  obtain ⟨-, hnull⟩ := region_commentedOut hproblems hbody hname hunset hregion .sql110
  obtain ⟨output, rfl, hrun, hreread⟩ := htrue rfl
  obtain ⟨after, hafter⟩ := hreread .sql110
  exact ⟨⟨after, hrun, hafter⟩, hnull (by decide)⟩

end Pass

end Tsql
