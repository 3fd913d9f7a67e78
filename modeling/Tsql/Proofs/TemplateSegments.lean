import Mathlib.Data.List.Infix
import Tsql.Proofs.Occurrence
import Tsql.Proofs.Scan
import Tsql.Proofs.Trace
import Tsql.Template

/-!
# The segments of a template, without the search

What `segmentsFrom` finds by searching and dropping from the left is said
here of the source and its parts: a tag reaches from the first pair of
opening braces to the first pair of closing ones behind it; its content is
white space, a sign, white space, a name and arguments; an argument is a
quoted text or a word. Each reader is shown to find just what there is to
be found, so that a source has one sequence of segments at most
(`segmentsFrom_eq_ok_iff`).
-/

namespace Tsql

/-! ## Runs of characters -/

/-- Characters of one kind, as far as they go. -/
structure Text.Run (p : Char → Bool) (run rest : Text) : Prop where
  all : ∀ c ∈ run, p c = true
  ends : ∀ c ∈ rest.head?, p c = false

namespace Text

variable {p : Char → Bool} {run rest : Text}

theorem Run.takeWhile_eq (h : Run p run rest) : (run ++ rest).takeWhile p = run := by
  rw [List.takeWhile_append_of_pos h.all]
  cases rest with
  | nil => simp
  | cons c cs => simp [h.ends c rfl]

theorem Run.dropWhile_eq (h : Run p run rest) : (run ++ rest).dropWhile p = rest := by
  rw [List.dropWhile_append_of_pos h.all]
  cases rest with
  | nil => rfl
  | cons c cs => simp [h.ends c rfl]

theorem run_takeWhile (p : Char → Bool) (t : Text) : Run p (t.takeWhile p) (t.dropWhile p) := by
  refine ⟨List.all_eq_true.mp List.all_takeWhile, ?_⟩
  intro c hc
  have hhead := List.head?_dropWhile_not p t
  rw [Option.mem_def.mp hc] at hhead
  exact hhead

theorem take_length_takeWhile (p : Char → Bool) (t : Text) :
    t.take (t.takeWhile p).length = t.takeWhile p :=
  (List.prefix_iff_eq_take.mp (List.takeWhile_prefix p)).symm

theorem drop_length_takeWhile (p : Char → Bool) (t : Text) :
    t.drop (t.takeWhile p).length = t.dropWhile p := by
  conv_lhs => rw [← List.takeWhile_append_dropWhile (p := p) (l := t)]
  rw [(run_takeWhile p t).takeWhile_eq, List.drop_left]

end Text

namespace Template

/-! ## Arguments -/

/-- The arguments in a text that begins at a place. -/
inductive Arguments : Position → Text → List Argument → Prop where
  | done (p : Position) : Arguments p [] []
  | blank {p : Position} {c : Char} {cs : Text} {arguments : List Argument}
      (blank : isBlank c = true) (more : Arguments (p.next c) cs arguments) :
      Arguments p (c :: cs) arguments
  /-- A quote, and what stands up to the next of its sort -/
  | quoted {p : Position} {quote : Char} {inner rest : Text} {arguments : List Argument}
      (opens : quote = '\'' ∨ quote = '"') (closes : quote ∉ inner)
      (more : Arguments (p.after (quote :: inner ++ [quote])) rest arguments) :
      Arguments p (quote :: inner ++ quote :: rest) (.literal (.string inner) :: arguments)
  /-- A word up to white space; it may begin with a quote that has no
  other behind it -/
  | word {p : Position} {c : Char} {cs rest : Text} {arguments : List Argument}
      (solid : Text.Run (!isBlank ·) (c :: cs) rest)
      (unquoted : c = '\'' ∨ c = '"' → c ∉ cs ++ rest)
      (more : Arguments (p.after (c :: cs)) rest arguments) :
      Arguments p (c :: cs ++ rest) (wordArgument (c :: cs) p :: arguments)

theorem not_isBlank_of_quote {c : Char} (h : c = '\'' ∨ c = '"') : isBlank c = false := by
  rcases h with rfl | rfl <;> decide

theorem quotedArgument?_eq_some_iff {c : Char} {cs inner rest : Text} :
    quotedArgument? c cs = some (inner, rest) ↔
      (c = '\'' ∨ c = '"') ∧ cs = inner ++ c :: rest ∧ c ∉ inner := by
  rw [quotedArgument?]
  split
  · rename_i hquote
    rw [Text.cut_eq_some_iff (List.cons_ne_nil c [])]
    simp [hquote, List.singleton_infix_iff]
  · rename_i hquote
    simp [hquote]

theorem quotedArgument?_eq_none_iff {c : Char} {cs : Text} :
    quotedArgument? c cs = none ↔ (c = '\'' ∨ c = '"' → c ∉ cs) := by
  rw [quotedArgument?]
  split
  · rename_i hquote
    rw [Text.cut_eq_none_iff (List.cons_ne_nil c [])]
    simp [hquote, List.singleton_infix_iff]
  · rename_i hquote
    simp [hquote]

theorem argumentsFrom_quoted {p : Position} {c : Char} {cs inner rest : Text}
    (h : quotedArgument? c cs = some (inner, rest)) :
    argumentsFrom p (c :: cs) =
      .literal (.string inner) :: argumentsFrom (p.after (c :: inner ++ [c])) rest := by
  have hblank := not_isBlank_of_quote (quotedArgument?_eq_some_iff.mp h).1
  rw [argumentsFrom, if_neg (by simp [hblank])]
  split
  · rename_i inner' rest' h'
    obtain ⟨rfl, rfl⟩ := Prod.mk.inj (Option.some.inj (h.symm.trans h'))
    rfl
  · rename_i h'
    rw [h] at h'
    cases h'

theorem argumentsFrom_word {p : Position} {c : Char} {cs : Text} (hblank : isBlank c = false)
    (h : quotedArgument? c cs = none) :
    argumentsFrom p (c :: cs) =
      wordArgument (c :: cs.takeWhile (!isBlank ·)) p ::
        argumentsFrom (p.after (c :: cs.takeWhile (!isBlank ·))) (cs.dropWhile (!isBlank ·)) := by
  rw [argumentsFrom, if_neg (by simp [hblank])]
  split
  · rename_i h'
    rw [h] at h'
    cases h'
  · simp only [Text.take_length_takeWhile, Text.drop_length_takeWhile]

theorem arguments_argumentsFrom (p : Position) (t : Text) : Arguments p t (argumentsFrom p t) := by
  fun_induction argumentsFrom p t with
  | case1 p => exact .done p
  | case2 p c cs hblank ih => exact .blank hblank ih
  | case3 p c cs hblank inner rest h ih =>
      obtain ⟨hquote, rfl, hcloses⟩ := quotedArgument?_eq_some_iff.mp h
      exact .quoted hquote hcloses ih
  | case4 p c cs hblank h more word ih =>
      have hword : word = c :: cs.takeWhile (!isBlank ·) :=
        congrArg (c :: ·) (Text.take_length_takeWhile ..)
      have hrest : cs.drop more = cs.dropWhile (!isBlank ·) := Text.drop_length_takeWhile ..
      have hsplit : c :: cs = (c :: cs.takeWhile (!isBlank ·)) ++ cs.dropWhile (!isBlank ·) := by
        rw [List.cons_append, List.takeWhile_append_dropWhile]
      have hrun := Text.run_takeWhile (!isBlank ·) cs
      rw [hword, hrest] at ih ⊢
      rw [hsplit]
      refine .word ⟨?_, hrun.ends⟩ ?_ ih
      · intro d hd
        rcases List.mem_cons.mp hd with rfl | hd
        · simpa using hblank
        · exact hrun.all d hd
      · rw [List.takeWhile_append_dropWhile]
        exact quotedArgument?_eq_none_iff.mp h

/-- The arguments that are found are the ones that are there. -/
theorem argumentsFrom_eq_iff {p : Position} {t : Text} {arguments : List Argument} :
    argumentsFrom p t = arguments ↔ Arguments p t arguments := by
  constructor
  · rintro rfl
    exact arguments_argumentsFrom p t
  · intro h
    induction h with
    | done p => rw [argumentsFrom]
    | blank hblank more ih => rw [argumentsFrom, if_pos hblank, ih]
    | quoted opens closes more ih =>
        rw [List.cons_append,
          argumentsFrom_quoted (quotedArgument?_eq_some_iff.mpr ⟨opens, rfl, closes⟩), ih]
    | @word p c cs rest arguments solid unquoted more ih =>
        have hblank : isBlank c = false := by simpa using solid.all c List.mem_cons_self
        have hrun : Text.Run (!isBlank ·) cs rest :=
          ⟨fun d hd => solid.all d (List.mem_cons_of_mem c hd), solid.ends⟩
        rw [List.cons_append,
          argumentsFrom_word hblank (quotedArgument?_eq_none_iff.mpr unquoted),
          hrun.takeWhile_eq, hrun.dropWhile_eq, ih]

/-! ## Tags -/

/-- A sign as it is written. -/
def Sign.text : Sign → Text
  | plain => []
  | opening => ['#']
  | closing => ['/']

/-- A name by itself. -/
structure IsName (name : Text) : Prop where
  starts : name.head?.any isNameStart = true
  parts : ∀ c ∈ name, isNamePart c = true

/-- The content of a tag: a sign and a name, each behind white space, and
the arguments behind the name. -/
inductive TagContent : Text → WrittenTag → Prop where
  | mk {front back name rest : Text} {sign : Sign} {arguments : List Argument}
      {position : Position} (front_blank : ∀ c ∈ front, isBlank c = true)
      (back_blank : ∀ c ∈ back, isBlank c = true) (isName : IsName name)
      (ends : ∀ c ∈ rest.head?, isNamePart c = false)
      (reads : Arguments
        (position.after (openMark ++ (front ++ sign.text ++ back ++ name))) rest arguments) :
      TagContent (front ++ sign.text ++ back ++ name ++ rest) ⟨sign, name, arguments, position⟩

theorem not_isBlank_of_isNameStart {c : Char} (h : isNameStart c = true) : isBlank c = false := by
  have hrange : 64 ≤ c.toNat ∧ c.toNat ≤ 122 := by
    simp only [isNameStart, Bool.or_eq_true, decide_eq_true_eq] at h
    rcases h with (h | rfl) | rfl
    · have := (Lexeme.isAlpha_iff c).mp h
      omega
    · decide
    · decide
  have hspace : c ≠ ' ' := by
    rintro rfl
    simp at hrange
  simp only [isBlank, hspace, decide_false, Bool.false_or, Bool.or_eq_false_iff,
    Bool.and_eq_false_iff, decide_eq_false_iff_not]
  omega

/-- Signs and white space are all that is dropped before a name. -/
theorem takeSigns_split (content : Text) :
    ∃ front back : Text,
      content = front ++ (takeSigns content).1.text ++ back ++ (takeSigns content).2 ∧
      (∀ c ∈ front, isBlank c = true) ∧ ∀ c ∈ back, isBlank c = true := by
  have hsplit := List.takeWhile_append_dropWhile (p := isBlank) (l := content)
  have hfront := (Text.run_takeWhile isBlank content).all
  unfold takeSigns
  split
  · rename_i cs hcs
    refine ⟨_, cs.takeWhile isBlank, ?_, hfront, (Text.run_takeWhile isBlank cs).all⟩
    rw [List.append_assoc, List.takeWhile_append_dropWhile, Sign.text, List.append_assoc,
      List.singleton_append, ← hcs, hsplit]
  · rename_i cs hcs
    refine ⟨_, cs.takeWhile isBlank, ?_, hfront, (Text.run_takeWhile isBlank cs).all⟩
    rw [List.append_assoc, List.takeWhile_append_dropWhile, Sign.text, List.append_assoc,
      List.singleton_append, ← hcs, hsplit]
  · refine ⟨_, [], ?_, hfront, by simp⟩
    rw [Sign.text, List.append_nil, List.append_nil, hsplit]

theorem takeSigns_eq {front back named : Text} (sign : Sign)
    (hfront : ∀ c ∈ front, isBlank c = true) (hback : ∀ c ∈ back, isBlank c = true)
    (hnamed : named.head?.any isNameStart = true) :
    takeSigns (front ++ sign.text ++ back ++ named) = (sign, named) := by
  obtain ⟨c, cs, rfl, hc⟩ : ∃ c cs, named = c :: cs ∧ isNameStart c = true := by
    cases named with
    | nil => cases hnamed
    | cons c cs => exact ⟨c, cs, rfl, hnamed⟩
  have hblank : isBlank c = false := not_isBlank_of_isNameStart hc
  have hdrop : ∀ blanks : Text, (∀ d ∈ blanks, isBlank d = true) →
      (blanks ++ c :: cs).dropWhile isBlank = c :: cs := by
    intro blanks hblanks
    exact Text.Run.dropWhile_eq ⟨hblanks, by simpa using hblank⟩
  cases sign with
  | plain =>
      have hblanks : ∀ d ∈ front ++ back, isBlank d = true := by
        intro d hd
        rcases List.mem_append.mp hd with hd | hd
        · exact hfront d hd
        · exact hback d hd
      rw [Sign.text, List.append_nil, takeSigns, hdrop _ hblanks]
      split
      · rename_i heq
        obtain ⟨rfl, -⟩ := List.cons.inj heq
        exact absurd hc (by decide)
      · rename_i heq
        obtain ⟨rfl, -⟩ := List.cons.inj heq
        exact absurd hc (by decide)
      · rfl
  | opening =>
      have hsign : (front ++ '#' :: (back ++ c :: cs)).dropWhile isBlank =
          '#' :: (back ++ c :: cs) :=
        Text.Run.dropWhile_eq ⟨hfront, by simp; decide⟩
      rw [Sign.text, List.append_assoc, List.append_assoc, List.singleton_append, takeSigns, hsign]
      simp only [hdrop back hback]
  | closing =>
      have hsign : (front ++ '/' :: (back ++ c :: cs)).dropWhile isBlank =
          '/' :: (back ++ c :: cs) :=
        Text.Run.dropWhile_eq ⟨hfront, by simp; decide⟩
      rw [Sign.text, List.append_assoc, List.append_assoc, List.singleton_append, takeSigns, hsign]
      simp only [hdrop back hback]

theorem isNamePart_of_isNameStart {c : Char} (h : isNameStart c = true) : isNamePart c = true := by
  simp only [isNameStart, isNamePart, Char.isAlphanum, Bool.or_eq_true, decide_eq_true_eq] at h ⊢
  tauto

theorem read_of_takeSigns {sign : Sign} {lead name rest : Text} (p : Position)
    (hsigns : takeSigns (lead ++ rest) = (sign, name ++ rest)) (hname : IsName name)
    (hends : ∀ c ∈ rest.head?, isNamePart c = false) :
    WrittenTag.read p (lead ++ rest) =
      .ok ⟨sign, name, argumentsFrom (p.after (openMark ++ lead)) rest, p⟩ := by
  have hrun : Text.Run isNamePart name rest := ⟨hname.parts, hends⟩
  have hhead : (name ++ rest).head?.any isNameStart = true := by
    have hstarts := hname.starts
    cases name with
    | nil => cases hstarts
    | cons c cs => exact hstarts
  have hlead : (lead ++ rest).take ((lead ++ rest).length - rest.length) = lead := by
    rw [List.length_append, Nat.add_sub_cancel, List.take_left]
  simp only [WrittenTag.read, hsigns, hhead, if_true, hrun.takeWhile_eq, List.drop_left, hlead]

/-- A tag is read from what is the content of one, and nothing else. -/
theorem read_eq_ok_iff {p : Position} {content : Text} {w : WrittenTag} :
    WrittenTag.read p content = .ok w ↔ w.position = p ∧ TagContent content w := by
  constructor
  · intro h
    obtain ⟨front, back, hcontent, hfront, hback⟩ := takeSigns_split content
    generalize hsigns : takeSigns content = signs at hcontent
    obtain ⟨sign, named⟩ := signs
    by_cases hstarts : named.head?.any isNameStart = true
    · have hrun := Text.run_takeWhile isNamePart named
      have hnamed := List.takeWhile_append_dropWhile (p := isNamePart) (l := named)
      generalize named.takeWhile isNamePart = name at hrun hnamed
      generalize named.dropWhile isNamePart = rest at hrun hnamed
      subst hnamed
      have hname : IsName name := by
        refine ⟨?_, hrun.all⟩
        cases name with
        | cons c cs => exact hstarts
        | nil =>
            -- the run of name characters is not empty, since a name begins there
            cases rest with
            | nil => cases hstarts
            | cons c cs =>
                have hpart := isNamePart_of_isNameStart hstarts
                rw [hrun.ends c rfl] at hpart
                cases hpart
      rw [← List.append_assoc] at hcontent
      subst hcontent
      rw [read_of_takeSigns p hsigns hname hrun.ends] at h
      obtain rfl := Except.ok.inj h
      exact ⟨rfl, .mk hfront hback hname hrun.ends (argumentsFrom_eq_iff.mp rfl)⟩
    · simp only [WrittenTag.read, hsigns, hstarts] at h
      cases h
  · rintro ⟨rfl, h⟩
    cases h with
    | @mk front back name rest sign arguments position hfront hback hname hends hreads =>
        have hhead : (name ++ rest).head?.any isNameStart = true := by
          have hstarts := hname.starts
          cases name with
          | nil => cases hstarts
          | cons c cs => exact hstarts
        have hsigns := takeSigns_eq sign hfront hback hhead
        rw [← List.append_assoc] at hsigns
        rw [read_of_takeSigns position hsigns hname hends, argumentsFrom_eq_iff.mpr hreads]

/-! ## Segments -/

/-- A text between tags, as segments: itself, unless it is empty. -/
inductive TextPiece : Text → List Segment → Prop where
  | nothing : TextPiece [] []
  | whole {content : Text} (nonempty : content ≠ []) : TextPiece content [.text content]

theorem textPiece_ofText (content : Text) : TextPiece content (Segment.ofText content) := by
  rw [Segment.ofText]
  split
  · rename_i h
    rw [h]
    exact .nothing
  · rename_i h
    exact .whole h

theorem TextPiece.eq_ofText {content : Text} {piece : List Segment} (h : TextPiece content piece) :
    piece = Segment.ofText content := by
  cases h with
  | nothing => rfl
  | whole nonempty => rw [Segment.ofText, if_neg nonempty]

/-- A source that begins at a place, and its segments: up to the first
opening braces it is text, and up to the first closing ones behind them a
tag. -/
inductive CutInto : Position → Text → List Segment → Prop where
  | text {p : Position} {source : Text} {piece : List Segment} (plain : ¬ openMark <:+: source)
      (isPiece : TextPiece source piece) : CutInto p source piece
  | tag {p : Position} {before content rest : Text} {piece more : List Segment} {w : WrittenTag}
      (opens : ¬ openMark <:+: before ++ openMark.dropLast) (isPiece : TextPiece before piece)
      (closes : ¬ closeMark <:+: content ++ closeMark.dropLast)
      (position : w.position = p.after before) (reads : TagContent content w)
      (goesOn : CutInto (p.after (before ++ openMark ++ content ++ closeMark)) rest more) :
      CutInto p (before ++ openMark ++ content ++ closeMark ++ rest) (piece ++ .tag w :: more)

theorem segmentsFrom_plain {p : Position} {source : Text} (h : source.cut openMark = none) :
    segmentsFrom p source = .ok (Segment.ofText source) := by
  rw [segmentsFrom]
  split
  · rfl
  · rename_i h'
    rw [h] at h'
    cases h'

theorem segmentsFrom_tag {p : Position} {source before inner content rest : Text}
    (hopen : source.cut openMark = some (before, inner))
    (hclose : inner.cut closeMark = some (content, rest)) :
    segmentsFrom p source = do
      let written ← WrittenTag.read (p.after before) content
      let more ← segmentsFrom (p.after (before ++ openMark ++ content ++ closeMark)) rest
      return Segment.ofText before ++ .tag written :: more := by
  rw [segmentsFrom]
  split
  · rename_i h
    rw [hopen] at h
    cases h
  · rename_i before' inner' h
    obtain ⟨rfl, rfl⟩ := Prod.mk.inj (Option.some.inj (hopen.symm.trans h))
    split
    · rename_i h'
      rw [hclose] at h'
      cases h'
    · rename_i content' rest' h'
      obtain ⟨rfl, rfl⟩ := Prod.mk.inj (Option.some.inj (hclose.symm.trans h'))
      simp only [List.append_assoc, Position.after_append]

/-- A source is cut into the segments that it consists of. -/
theorem segmentsFrom_eq_ok_iff {p : Position} {source : Text} {segments : List Segment} :
    segmentsFrom p source = .ok segments ↔ CutInto p source segments := by
  constructor
  · intro h
    fun_induction segmentsFrom p source generalizing segments with
    | case1 p source hnone =>
        obtain rfl := Except.ok.inj h
        exact .text ((Text.cut_eq_none_iff (by decide) source).mp hnone) (textPiece_ofText source)
    | case2 p source before inner hopen opened => cases h
    | case3 p source before inner hopen opened content rest hclose =>
        rename_i ih
        obtain ⟨w, hread, h⟩ := Pass.bind_eq_ok_iff.mp h
        obtain ⟨more, hmore, h⟩ := Pass.bind_eq_ok_iff.mp h
        obtain rfl := Except.ok.inj h
        obtain ⟨rfl, hopens⟩ := (Text.cut_eq_some_iff (by decide)).mp hopen
        obtain ⟨rfl, hcloses⟩ := (Text.cut_eq_some_iff (by decide)).mp hclose
        obtain ⟨hposition, hcontent⟩ := read_eq_ok_iff.mp hread
        have hgoesOn := ih hmore
        rw [← Position.after_append, ← List.append_assoc, ← List.append_assoc] at hgoesOn
        rw [← List.append_assoc, ← List.append_assoc]
        exact .tag hopens (textPiece_ofText before) hcloses hposition hcontent hgoesOn
  · intro h
    induction h with
    | text plain isPiece =>
        rw [isPiece.eq_ofText]
        exact segmentsFrom_plain ((Text.cut_eq_none_iff (by decide) _).mpr plain)
    | @tag p before content rest piece more w opens isPiece closes position reads hmore ih =>
        have hopen : Text.cut (before ++ openMark ++ content ++ closeMark ++ rest) openMark =
            some (before, content ++ closeMark ++ rest) := by
          rw [List.append_assoc, List.append_assoc, ← List.append_assoc content]
          exact Text.cut_append before openMark opens (by decide) _
        have hclose := Text.cut_append content closeMark closes (by decide) rest
        rw [segmentsFrom_tag hopen hclose, read_eq_ok_iff.mpr ⟨position, reads⟩, ih,
          isPiece.eq_ofText]
        rfl

end Template

end Tsql
