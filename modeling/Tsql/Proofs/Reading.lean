import Tsql.Proofs.Seam
import Tsql.Script

/-!
# Reading the tokens of a text

`tokensFrom` is told here by its result alone: a list of tokens is what
is read from a text if their texts make up the text, each is cut off
where it stands (`ReadsBefore`), and each has the place where the texts
before it end (`placedFrom`). So a text that was put together from tokens
is read as these tokens if every seam between them holds, and `Seam` says
what that takes.

Batch separators are told apart afterwards, by the line they stand on.
`Token.unmarked` undoes this, `opensLine` says where the word `GO` is
one, and `ReadAs` is the whole: `Script.body_face_iff` says that a text
put together from tokens is read as these tokens, in kind and text, if
they satisfy it and only then.
-/

namespace Tsql

open Lexeme (Cuts)

/-! ## Cutting a text into tokens -/

/-- Kind and text of a token, without its place. -/
def Token.face (t : Token) : Kind × Text := (t.kind, t.text)

/-- Each token is cut off before the texts of the tokens behind it and
`rest`. -/
def ReadsBefore : List Token → Text → Prop
  | [], _ => True
  | t :: ts, rest => Cuts t.kind t.text (Token.textOf ts ++ rest) ∧ ReadsBefore ts rest

instance decidableReadsBefore : (ts : List Token) → (rest : Text) → Decidable (ReadsBefore ts rest)
  | [], _ => inferInstanceAs (Decidable True)
  | t :: ts, rest =>
    have := decidableReadsBefore ts rest
    inferInstanceAs (Decidable (Cuts t.kind t.text (Token.textOf ts ++ rest) ∧ ReadsBefore ts rest))

theorem readsBefore_append (ts us : List Token) (rest : Text) :
    ReadsBefore (ts ++ us) rest ↔
      ReadsBefore ts (Token.textOf us ++ rest) ∧ ReadsBefore us rest := by
  induction ts with
  | nil => simp [ReadsBefore]
  | cons t ts ih =>
      rw [List.cons_append]
      simp only [ReadsBefore, Token.textOf_append, List.append_assoc, ih, and_assoc]

/-- The tokens, each at the place where the texts before it end. -/
def placedFrom (p : Position) : List Token → List Token
  | [] => []
  | t :: ts => { t with position := some p } :: placedFrom (p.after t.text) ts

@[simp] theorem textOf_placedFrom (p : Position) (ts : List Token) :
    Token.textOf (placedFrom p ts) = Token.textOf ts := by
  induction ts generalizing p with
  | nil => rfl
  | cons t ts ih => simp [placedFrom, ih]

@[simp] theorem map_face_placedFrom (p : Position) (ts : List Token) :
    (placedFrom p ts).map Token.face = ts.map Token.face := by
  induction ts generalizing p with
  | nil => rfl
  | cons t ts ih => simp [placedFrom, ih, Token.face]

theorem cuts_of_scan {c : Char} {cs : Text} {kind : Kind} {n : Nat}
    (h : Lexeme.scan c cs = .lexeme kind n) : Cuts kind (c :: cs.take n) (cs.drop n) := by
  have hle := (Lexeme.scan_within c cs).extent h
  have hlen : (cs.take n).length = n := List.length_take_of_le hle
  simp only [Cuts, List.take_append_drop, hlen]
  exact h

theorem tokensFrom_of_cuts {kind : Kind} {text rest : Text} (h : Cuts kind text rest)
    (p : Position) :
    tokensFrom p (text ++ rest) =
      (tokensFrom (p.after text) rest).map (⟨kind, text, some p⟩ :: ·) := by
  cases text with
  | nil => cases h
  | cons c cs =>
      simp only [Cuts] at h
      rw [List.cons_append, tokensFrom, h]
      simp only [List.take_left, List.drop_left]
      cases tokensFrom (p.after (c :: cs)) rest <;> rfl

theorem tokensFrom_eq_ok_iff (p : Position) (text : Text) (ts : List Token) :
    tokensFrom p text = .ok ts ↔
      Token.textOf ts = text ∧ ReadsBefore ts [] ∧ placedFrom p ts = ts := by
  constructor
  · intro h
    fun_induction tokensFrom p text generalizing ts with
    | case1 =>
        cases h
        exact ⟨rfl, trivial, rfl⟩
    | case2 => cases h
    | case3 p c cs kind n hscan text ih =>
        have hcuts := cuts_of_scan hscan
        cases hmore : tokensFrom (p.after text) (cs.drop n) with
        | error e =>
            rw [hmore] at h
            cases h
        | ok more =>
            rw [hmore] at h
            cases h
            obtain ⟨htext, hreads, hplaced⟩ := ih more hmore
            refine ⟨?_, ⟨?_, hreads⟩, ?_⟩
            · rw [Token.textOf_cons, htext, List.cons_append, List.take_append_drop]
            · rw [htext, List.append_nil]
              exact hcuts
            · rw [placedFrom, hplaced]
  · rintro ⟨rfl, hreads, hplaced⟩
    induction ts generalizing p with
    | nil => rw [Token.textOf_nil, tokensFrom]
    | cons t ts ih =>
        obtain ⟨hcuts, hreads⟩ := hreads
        rw [placedFrom] at hplaced
        obtain ⟨ht, hts⟩ := List.cons.inj hplaced
        rw [List.append_nil] at hcuts
        rw [Token.textOf_cons, tokensFrom_of_cuts hcuts, ih _ hreads hts, ← ht]
        rfl

theorem textOf_congr {ts us : List Token} (h : ts.map Token.face = us.map Token.face) :
    Token.textOf ts = Token.textOf us := by
  have hflat : ∀ vs : List Token, Token.textOf vs = (vs.map Token.face).flatMap Prod.snd := by
    intro vs
    rw [List.flatMap_map]
    rfl
  rw [hflat, hflat, h]

/-- Reading sees kinds and texts only. -/
theorem readsBefore_congr {ts us : List Token} (h : ts.map Token.face = us.map Token.face)
    (rest : Text) : ReadsBefore ts rest ↔ ReadsBefore us rest := by
  induction ts generalizing us with
  | nil =>
      obtain rfl := List.map_eq_nil_iff.mp h.symm
      exact Iff.rfl
  | cons t ts ih =>
      cases us with
      | nil => cases h
      | cons u us =>
          obtain ⟨hface, hmore⟩ := List.cons.inj h
          obtain ⟨hkind, htext⟩ := Prod.mk.inj hface
          rw [ReadsBefore, ReadsBefore, hkind, htext, textOf_congr hmore, ih hmore]

/-- Leaving out tokens by kind and text leaves kinds and texts alike. -/
theorem filter_congr_face {p : Token → Bool} (hp : ∀ t u : Token, t.face = u.face → p t = p u)
    {ts us : List Token} (h : ts.map Token.face = us.map Token.face) :
    (ts.filter p).map Token.face = (us.filter p).map Token.face := by
  induction ts generalizing us with
  | nil =>
      obtain rfl := List.map_eq_nil_iff.mp h.symm
      rfl
  | cons t ts ih =>
      cases us with
      | nil => cases h
      | cons u us =>
          obtain ⟨hhere, hmore⟩ := List.cons.inj h
          rw [List.filter_cons, List.filter_cons, hp t u hhere]
          split
          · rw [List.map_cons, List.map_cons, hhere, ih hmore]
          · exact ih hmore

/-! ## Keywords -/

theorem kind_of_isKeyword {t : Token} {word : String} (h : t.isKeyword word = true) :
    t.kind = .keyword := by
  simp only [Token.isKeyword, Bool.and_eq_true, beq_iff_eq] at h
  exact h.1

theorem upper_of_isKeyword {t : Token} {word : String} (h : t.isKeyword word = true) :
    t.text.map Char.toUpper = word.toList.map Char.toUpper := by
  simp only [Token.isKeyword, Bool.and_eq_true] at h
  exact beq_iff_eq.mp h.2

/-- A token is not two keywords at once. -/
theorem not_isKeyword_of_isKeyword {t : Token} {word other : String} (h : t.isKeyword word = true)
    (hne : word.toList.map Char.toUpper ≠ other.toList.map Char.toUpper) :
    t.isKeyword other = false := by
  rw [← Bool.not_eq_true]
  exact fun hother => hne ((upper_of_isKeyword h).symm.trans (upper_of_isKeyword hother))

/-! ## Batch separators -/

/-- The word `GO`, whether or not it separates batches. -/
def Token.isGo (t : Token) : Bool :=
  (t.kind == .keyword || t.kind == .identifier || t.kind == .batchSeparator) &&
    t.text.sameFold "GO".toList

/-- The token as it is before batch separators are told apart. -/
def Token.unmarked (t : Token) : Token :=
  if t.kind = .batchSeparator then { t with kind := .identifier } else t

@[simp] theorem Token.text_unmarked (t : Token) : t.unmarked.text = t.text := by
  unfold unmarked
  split <;> rfl

/-- Whether a token plays no part in telling batch separators apart. -/
def Token.isBlank (t : Token) : Bool := t.isWhitespace || t.isComment

theorem isSignificant_eq_not_isBlank (t : Token) : Structure.isSignificant t = !t.isBlank := by
  rw [Structure.isSignificant, Token.isBlank, Bool.not_or]

/-- Leaving out comments as well changes nothing where none comes
first. -/
theorem head?_filter_isSignificant {ts : List Token}
    (h : ∀ u ∈ (ts.filter (!·.isWhitespace)).head?, u.isComment = false) :
    (ts.filter Structure.isSignificant).head? = (ts.filter (!·.isWhitespace)).head? := by
  induction ts with
  | nil => rfl
  | cons t ts ih =>
      cases ht : t.isWhitespace with
      | true =>
          simp only [List.filter_cons, Structure.isSignificant, ht, Bool.not_true,
            Bool.false_and, Bool.false_eq_true, if_false] at h ⊢
          exact ih h
      | false =>
          have hcomment : t.isComment = false := h t (by simp [ht])
          simp [Structure.isSignificant, ht, hcomment]

/-- Whether only white space and comments stand between the beginning of
the line and what comes behind these tokens. -/
def opensLine (before : List Token) : Bool :=
  let blanks := before.reverse.takeWhile Token.isBlank
  blanks.length = before.length || blanks.any (·.text.contains '\n')

theorem opensLine_nil : opensLine [] = true := rfl

theorem opensLine_concat (before : List Token) (t : Token) :
    opensLine (before ++ [t]) =
      (t.isBlank && (opensLine before || t.text.contains '\n')) := by
  unfold opensLine
  rw [List.reverse_append, List.reverse_singleton, List.singleton_append]
  cases ht : t.isBlank with
  | false => simp [ht]
  | true =>
      simp only [List.takeWhile_cons, ht, if_true, List.length_cons, List.length_append,
        List.length_nil, Nat.zero_add, Nat.add_right_cancel_iff, List.any_cons, Bool.true_and]
      rw [Bool.or_assoc, Bool.or_comm (t.text.contains '\n')]

/-- The token, a batch separator if it is a `GO` that opens a line. -/
def Token.markedAt (t : Token) (opens : Bool) : Token :=
  if opens && t.isWord "GO" then { t with kind := .batchSeparator } else t

theorem markBatches_step (lineStart : Bool) (t : Token) (ts : List Token) :
    markBatches lineStart (t :: ts) =
      t.markedAt lineStart ::
        markBatches (t.isBlank && (lineStart || t.text.contains '\n')) ts := by
  have hblank : t.isBlank = (t.isWhitespace || t.isComment) := rfl
  rw [markBatches, hblank, Token.markedAt]
  cases ht : t.isWhitespace || t.isComment with
  | true =>
      have hword : t.isWord "GO" = false := by
        simp only [Token.isWhitespace, Token.isComment, Bool.or_eq_true, beq_iff_eq] at ht
        rcases ht with h | h | h <;> simp [Token.isWord, h]
      simp [hword]
  | false =>
      simp only [Bool.false_eq_true, if_false, Bool.false_and]
      split <;> rfl

theorem markBatches_cons (before : List Token) (t : Token) (ts : List Token) :
    markBatches (opensLine before) (t :: ts) =
      t.markedAt (opensLine before) :: markBatches (opensLine (before ++ [t])) ts := by
  rw [markBatches_step, opensLine_concat]

theorem eq_or_eq_of_toUpper {c u l : Char} (h : c.toUpper = u)
    (hl : l.val + ('A'.val - 'a'.val) = u.val) : c = u ∨ c = l := by
  unfold Char.toUpper at h
  split at h
  · have hval := congrArg Char.val h
    rw [← hl] at hval
    exact Or.inr (Char.ext (UInt32.add_left_inj _ |>.mp hval))
  · exact Or.inl h

/-- The word `GO` is no reserved word. -/
theorem kind_of_go {kind : Kind} {text rest : Text} (h : Cuts kind text rest)
    (hgo : text.sameFold "GO".toList) : kind = .identifier := by
  have hupper : text.map Char.toUpper = ['G', 'O'] := by
    simpa [Text.sameFold, Text.upper] using hgo
  obtain ⟨g, tail, rfl, hg, htail⟩ := List.map_eq_cons_iff.mp hupper
  obtain ⟨o, more, rfl, ho, hnil⟩ := List.map_eq_cons_iff.mp htail
  obtain rfl := List.map_eq_nil_iff.mp hnil
  have halone := ((Lexeme.cuts_iff _ _ _).mp h).1
  have hscan : Lexeme.scan g [o] = .lexeme .identifier 1 := by
    rcases eq_or_eq_of_toUpper (l := 'g') hg (by decide) with rfl | rfl <;>
      rcases eq_or_eq_of_toUpper (l := 'o') ho (by decide) with rfl | rfl <;> decide +kernel
  simp only [Cuts, List.append_nil, hscan] at halone
  exact (Lexeme.Scan.lexeme.inj halone).1.symm

/-- A token as a script holds it: only `GO` can be a batch separator, and
it is a plain word otherwise. -/
structure Token.Marked (t : Token) : Prop where
  separator : t.kind = .batchSeparator → t.isGo
  go : t.isGo → t.unmarked.kind = .identifier

theorem isBlank_unmarked (t : Token) : t.unmarked.isBlank = t.isBlank := by
  unfold Token.unmarked
  split
  · rename_i h
    simp only [Token.isBlank, Token.isWhitespace, Token.isComment, h]
    rfl
  · rfl

/-- A keyword is neither blank nor a separator of batches. -/
theorem Token.of_keyword {t : Token} (h : t.kind = .keyword) :
    t.isBlank = false ∧ t.unmarked = t := by
  rw [isBlank, isWhitespace, isComment, unmarked, h]
  exact ⟨rfl, rfl⟩

theorem face_marked_iff {t : Token} (ht : t.Marked) (opens : Bool) :
    (t.unmarked.markedAt opens).face = t.face ↔
      (t.isGo → (t.kind = .batchSeparator ↔ opens)) := by
  unfold Token.markedAt
  by_cases hgo : t.isGo
  · have hkind := ht.go hgo
    have hword : t.unmarked.isWord "GO" := by
      simp only [Token.isGo, Bool.and_eq_true] at hgo
      simpa [Token.isWord, hkind] using hgo.2
    have hcases : t.kind = .batchSeparator ∨ t.kind = .identifier := by
      by_cases hsep : t.kind = .batchSeparator
      · exact Or.inl hsep
      · rw [Token.unmarked, if_neg hsep] at hkind
        exact Or.inr hkind
    rcases hcases with hk | hk <;> cases opens <;>
      simp_all [Token.face]
  · have hsep : t.kind ≠ .batchSeparator := fun h => hgo (ht.separator h)
    have hself : t.unmarked = t := if_neg hsep
    have hword : t.isWord "GO" = false := by
      rw [← Bool.not_eq_true]
      intro hword
      apply hgo
      simp only [Token.isWord, Bool.and_eq_true] at hword
      simpa [Token.isGo, hword.1] using hword.2
    simp [hself, hword, hgo]

theorem markBatches_unmarked_iff {ts : List Token} (hts : ∀ t ∈ ts, t.Marked)
    (before : List Token) :
    (markBatches (opensLine before) (ts.map Token.unmarked)).map Token.face = ts.map Token.face ↔
      ∀ pre t post, ts = pre ++ t :: post → t.isGo →
        (t.kind = .batchSeparator ↔ opensLine (before ++ pre)) := by
  induction ts generalizing before with
  | nil => simp [markBatches]
  | cons t ts ih =>
      have hopens : opensLine (before ++ [t.unmarked]) = opensLine (before ++ [t]) := by
        rw [opensLine_concat, opensLine_concat, isBlank_unmarked, Token.text_unmarked]
      rw [List.map_cons, markBatches_cons, hopens, List.map_cons, List.map_cons, List.cons.injEq,
        face_marked_iff (hts t List.mem_cons_self),
        ih (fun u hu => hts u (List.mem_cons_of_mem _ hu))]
      constructor
      · rintro ⟨hhere, hmore⟩ pre u post heq hgo
        cases pre with
        | nil =>
            obtain ⟨rfl, rfl⟩ := List.cons.inj heq
            simpa using hhere hgo
        | cons v pre =>
            obtain ⟨rfl, htail⟩ := List.cons.inj heq
            simpa using hmore pre u post htail hgo
      · intro hall
        refine ⟨fun hgo => by simpa using hall [] t ts rfl hgo, ?_⟩
        intro pre u post heq hgo
        have := hall (t :: pre) u post (by rw [heq]; rfl) hgo
        simpa using this

/-! ## Lines -/

/-- Whether the tokens leave off at the beginning of a line. -/
def lineStartAfter (lineStart : Bool) : List Token → Bool
  | [] => lineStart
  | t :: ts => lineStartAfter (t.isBlank && (lineStart || t.text.contains '\n')) ts

theorem lineStartAfter_append (lineStart : Bool) (ts us : List Token) :
    lineStartAfter lineStart (ts ++ us) = lineStartAfter (lineStartAfter lineStart ts) us := by
  induction ts generalizing lineStart with
  | nil => rfl
  | cons t ts ih => exact ih _

theorem markBatches_append (lineStart : Bool) (ts us : List Token) :
    markBatches lineStart (ts ++ us) =
      markBatches lineStart ts ++ markBatches (lineStartAfter lineStart ts) us := by
  induction ts generalizing lineStart with
  | nil => rfl
  | cons t ts ih =>
      rw [List.cons_append, markBatches_step, ih, markBatches_step, lineStartAfter]
      rfl

theorem length_markBatches (lineStart : Bool) (ts : List Token) :
    (markBatches lineStart ts).length = ts.length := by
  induction ts generalizing lineStart with
  | nil => rfl
  | cons t ts ih => rw [markBatches_step, List.length_cons, ih, List.length_cons]

theorem lineStartAfter_of_getLast? {ts : List Token} {t : Token} (h : ts.getLast? = some t)
    (ht : t.isBlank = false) (lineStart : Bool) : lineStartAfter lineStart ts = false := by
  obtain ⟨front, rfl⟩ := List.getLast?_eq_some_iff.mp h
  rw [lineStartAfter_append, lineStartAfter, ht]
  rfl

/-- Without the word `GO` nothing is marked. -/
theorem markBatches_of_no_go {ts : List Token} (h : ∀ t ∈ ts, t.isWord "GO" = false)
    (lineStart : Bool) : markBatches lineStart ts = ts := by
  induction ts generalizing lineStart with
  | nil => rfl
  | cons t ts ih =>
      rw [markBatches_step, Token.markedAt, h t List.mem_cons_self, Bool.and_false,
        ih fun u hu => h u (List.mem_cons_of_mem t hu)]
      rfl

/-- Where no line ends, no `GO` opens one. -/
theorem markBatches_false {ts : List Token}
    (h : ∀ t ∈ ts, t.isBlank = true → t.text.contains '\n' = false) :
    markBatches false ts = ts ∧ lineStartAfter false ts = false := by
  induction ts with
  | nil => exact ⟨rfl, rfl⟩
  | cons t ts ih =>
      have hline : (t.isBlank && (false || t.text.contains '\n')) = false := by
        rw [Bool.false_or, Bool.and_eq_false_imp]
        exact h t List.mem_cons_self
      have hmore := ih fun u hu => h u (List.mem_cons_of_mem t hu)
      rw [markBatches_step, lineStartAfter, hline, hmore.1]
      exact ⟨rfl, hmore.2⟩

/-! ## Scripts -/

theorem Lexeme.Cuts.text_ne_nil {kind : Kind} {text rest : Text} (h : Cuts kind text rest) :
    text ≠ [] := by
  rintro rfl
  exact h

theorem Lexeme.Cuts.kind_ne {kind : Kind} {text rest : Text} (h : Cuts kind text rest) :
    kind ≠ .batchSeparator ∧ kind ≠ .endOfFile := by
  cases text with
  | nil => cases h
  | cons c cs =>
      have hkind := (Lexeme.scan_within c (cs ++ rest)).kind h
      unfold Lexeme.barredKinds at hkind
      split at hkind <;> simp_all

theorem ReadsBefore.cuts {ts : List Token} {rest : Text} (h : ReadsBefore ts rest) {t : Token}
    (ht : t ∈ ts) : ∃ rest', Cuts t.kind t.text rest' := by
  induction ts with
  | nil => cases ht
  | cons u us ih =>
      obtain ⟨hcuts, hreads⟩ := h
      rcases List.mem_cons.mp ht with rfl | ht
      · exact ⟨_, hcuts⟩
      · exact ih hreads ht

theorem ReadsBefore.cuts_last {ts : List Token} {rest : Text} (h : ReadsBefore ts rest) {t : Token}
    (ht : ts.getLast? = some t) : Cuts t.kind t.text rest := by
  obtain ⟨front, rfl⟩ := List.getLast?_eq_some_iff.mp ht
  simpa [ReadsBefore] using ((readsBefore_append front [t] rest).mp h).2

/-- What was read holds `GO` as a plain word only. -/
theorem ReadsBefore.marked {ts : List Token} {rest : Text}
    (h : ReadsBefore (ts.map Token.unmarked) rest)
    (hsep : ∀ t ∈ ts, t.kind = .batchSeparator → t.isGo) : ∀ t ∈ ts, t.Marked := by
  intro t ht
  obtain ⟨rest', hcuts⟩ := h.cuts (List.mem_map_of_mem ht)
  rw [Token.text_unmarked] at hcuts
  refine ⟨hsep t ht, fun hgo => ?_⟩
  simp only [Token.isGo, Bool.and_eq_true] at hgo
  exact kind_of_go hcuts hgo.2

theorem unmarked_eq_self {t : Token} (h : t.kind ≠ .batchSeparator) : t.unmarked = t := if_neg h

/-- A name of a script is cut off as it stands. -/
theorem cuts_of_isIdentifier {ts : List Token} {rest : Text}
    (h : ReadsBefore (ts.map Token.unmarked) rest) {t : Token} (ht : t ∈ ts)
    (hname : t.isIdentifier = true) : ∃ rest', Cuts t.kind t.text rest' := by
  have hmark : t.kind ≠ .batchSeparator := by
    intro hkind
    rw [Token.isIdentifier, hkind] at hname
    cases hname
  have hcuts := h.cuts (List.mem_map_of_mem ht)
  rwa [unmarked_eq_self hmark] at hcuts

/-- Telling batch separators apart can be undone. -/
theorem map_unmarked_markBatches {ts : List Token} {rest : Text} (h : ReadsBefore ts rest)
    (before : List Token) : (markBatches (opensLine before) ts).map Token.unmarked = ts := by
  induction ts generalizing before with
  | nil => rfl
  | cons t ts ih =>
      obtain ⟨hcuts, hreads⟩ := h
      rw [markBatches_cons, List.map_cons, ih hreads]
      congr 1
      unfold Token.markedAt
      split
      · rename_i hgo
        simp only [Token.isWord, Bool.and_eq_true] at hgo
        rw [Token.unmarked, if_pos rfl, ← kind_of_go hcuts hgo.2.2]
      · exact unmarked_eq_self hcuts.kind_ne.1

theorem isGo_of_mem_markBatches {ts : List Token} {rest : Text} (h : ReadsBefore ts rest)
    (before : List Token) {t : Token} (ht : t ∈ markBatches (opensLine before) ts)
    (hsep : t.kind = .batchSeparator) : t.isGo := by
  induction ts generalizing before with
  | nil => cases ht
  | cons u us ih =>
      obtain ⟨hcuts, hreads⟩ := h
      rw [markBatches_cons] at ht
      rcases List.mem_cons.mp ht with rfl | ht
      · unfold Token.markedAt at hsep ⊢
        split at hsep
        · rename_i hgo
          simp only [Token.isWord, Bool.and_eq_true] at hgo
          rw [if_pos (by simp only [Token.isWord, hgo, Bool.and_self])]
          simpa [Token.isGo] using hgo.2.2
        · exact absurd hsep hcuts.kind_ne.1
      · exact ih hreads _ ht

/-- The tokens of a script, `GO` told apart. -/
structure ReadAs (source : Text) (body : List Token) : Prop where
  text : Token.textOf body = source
  reads : ReadsBefore (body.map Token.unmarked) []
  marks : ∀ pre t post, body = pre ++ t :: post → t.isGo →
    (t.kind = .batchSeparator ↔ opensLine pre)
  separator : ∀ t ∈ body, t.kind = .batchSeparator → t.isGo

theorem Script.body_parse (level : Level) (source : Text) :
    (Script.parse level source).body =
      match tokensFrom .start source with
      | .ok raw => markBatches true raw
      | .error _ => [] := by
  unfold Script.parse Script.body
  cases tokensFrom .start source with
  | error e => rfl
  | ok raw => exact List.dropLast_concat

theorem textOf_map_unmarked (ts : List Token) :
    Token.textOf (ts.map Token.unmarked) = Token.textOf ts := by
  induction ts with
  | nil => rfl
  | cons t ts ih => simp [ih]

theorem face_unmarked_congr {t u : Token} (h : t.face = u.face) :
    t.unmarked.face = u.unmarked.face := by
  obtain ⟨hkind, htext⟩ := Prod.mk.inj h
  by_cases hsep : u.kind = .batchSeparator
  · rw [Token.unmarked, Token.unmarked, if_pos hsep, if_pos (hkind.trans hsep)]
    simp only [Token.face, htext]
  · rw [unmarked_eq_self hsep, unmarked_eq_self (hkind ▸ hsep), h]

theorem map_unmarked_congr {ts us : List Token} (h : ts.map Token.face = us.map Token.face) :
    (ts.map Token.unmarked).map Token.face = (us.map Token.unmarked).map Token.face := by
  induction ts generalizing us with
  | nil =>
      obtain rfl := List.map_eq_nil_iff.mp h.symm
      rfl
  | cons t ts ih =>
      cases us with
      | nil => cases h
      | cons u us =>
          obtain ⟨hface, hmore⟩ := List.cons.inj h
          simp only [List.map_cons, face_unmarked_congr hface, ih hmore]

theorem markedAt_congr (opens : Bool) {t u : Token} (h : t.face = u.face) :
    (t.markedAt opens).face = (u.markedAt opens).face := by
  obtain ⟨hkind, htext⟩ := Prod.mk.inj h
  have hgo : t.isWord "GO" = u.isWord "GO" := by
    simp only [Token.isWord, hkind, htext]
  rw [Token.markedAt, Token.markedAt, hgo]
  split
  · rw [Token.face, htext]
    rfl
  · exact h

theorem markBatches_congr (lineStart : Bool) {ts us : List Token}
    (h : ts.map Token.face = us.map Token.face) :
    (markBatches lineStart ts).map Token.face = (markBatches lineStart us).map Token.face := by
  induction ts generalizing us lineStart with
  | nil =>
      obtain rfl := List.map_eq_nil_iff.mp h.symm
      rfl
  | cons t ts ih =>
      cases us with
      | nil => cases h
      | cons u us =>
          obtain ⟨hface, hmore⟩ := List.cons.inj h
          obtain ⟨hkind, htext⟩ := Prod.mk.inj hface
          have hblank : t.isBlank = u.isBlank := by
            simp only [Token.isBlank, Token.isWhitespace, Token.isComment, hkind]
          rw [markBatches_step, markBatches_step, List.map_cons, List.map_cons,
            markedAt_congr lineStart hface, hblank, htext, ih _ hmore]

theorem placedFrom_placedFrom (p : Position) (ts : List Token) :
    placedFrom p (placedFrom p ts) = placedFrom p ts := by
  induction ts generalizing p with
  | nil => rfl
  | cons t ts ih => simp [placedFrom, ih]

theorem ReadAs.of_tokensFrom {source : Text} {raw : List Token}
    (h : tokensFrom .start source = .ok raw) : ReadAs source (markBatches true raw) := by
  obtain ⟨htext, hreads, -⟩ := (tokensFrom_eq_ok_iff _ _ _).mp h
  rw [← opensLine_nil]
  have hunmarked := map_unmarked_markBatches hreads []
  have hsep : ∀ t ∈ markBatches (opensLine []) raw, t.kind = .batchSeparator → t.isGo :=
    fun t ht => isGo_of_mem_markBatches hreads [] ht
  have hreads' : ReadsBefore ((markBatches (opensLine []) raw).map Token.unmarked) [] := by
    rw [hunmarked]
    exact hreads
  refine ⟨?_, hreads', ?_, hsep⟩
  · rw [← textOf_map_unmarked, hunmarked, htext]
  · refine (markBatches_unmarked_iff (hreads'.marked hsep) []).mp ?_
    rw [hunmarked]

/-- Telling batch separators apart gives the tokens back. -/
theorem ReadAs.markBatches {source : Text} {body : List Token} (h : ReadAs source body) :
    (Tsql.markBatches true (body.map Token.unmarked)).map Token.face = body.map Token.face := by
  rw [← opensLine_nil]
  exact (markBatches_unmarked_iff (h.reads.marked h.separator) []).mpr h.marks

/-- Tokens that hold together are what is read from their texts. -/
theorem tokensFrom_textOf {ts : List Token} (hreads : ReadsBefore (ts.map Token.unmarked) [])
    (hmarks : (markBatches true (ts.map Token.unmarked)).map Token.face = ts.map Token.face) :
    ∃ raw, tokensFrom .start (Token.textOf ts) = .ok raw ∧
      (markBatches true raw).map Token.face = ts.map Token.face := by
  have hface := map_face_placedFrom .start (ts.map Token.unmarked)
  refine ⟨placedFrom .start (ts.map Token.unmarked), ?_, ?_⟩
  · rw [tokensFrom_eq_ok_iff]
    refine ⟨?_, (readsBefore_congr hface []).mpr hreads, placedFrom_placedFrom _ _⟩
    rw [textOf_placedFrom, textOf_map_unmarked]
  · rw [markBatches_congr true hface, hmarks]

theorem Script.tokensFrom_of_problems {level : Level} {source : Text}
    (h : (Script.parse level source).problems = []) :
    ∃ raw, Tsql.tokensFrom .start source = .ok raw ∧
      (Script.parse level source).body = markBatches true raw := by
  rw [Script.body_parse]
  unfold Script.parse at h
  cases hraw : Tsql.tokensFrom .start source with
  | error e =>
      rw [hraw] at h
      cases h
  | ok raw => exact ⟨raw, rfl, rfl⟩

theorem Script.readAs {level : Level} {source : Text}
    (h : (Script.parse level source).problems = []) :
    ReadAs source (Script.parse level source).body := by
  obtain ⟨raw, hraw, hbody⟩ := Script.tokensFrom_of_problems h
  rw [hbody]
  exact ReadAs.of_tokensFrom hraw

/-- A text put together from tokens is read as these tokens if they hold
together, and only then. -/
theorem Script.body_face_iff (level : Level) (ts : List Token) :
    (Script.parse level (Token.textOf ts)).body.map Token.face = ts.map Token.face ↔
      ReadAs (Token.textOf ts) ts := by
  rw [Script.body_parse]
  constructor
  · intro h
    cases hraw : Tsql.tokensFrom .start (Token.textOf ts) with
    | error e =>
        rw [hraw] at h
        obtain rfl := List.map_eq_nil_iff.mp h.symm
        rw [Token.textOf_nil, Tsql.tokensFrom] at hraw
        cases hraw
    | ok raw =>
        rw [hraw] at h
        have hread := ReadAs.of_tokensFrom hraw
        have hunmarked := map_unmarked_congr h
        have hreads := (readsBefore_congr hunmarked []).mp hread.reads
        have hsep : ∀ t ∈ ts, t.kind = .batchSeparator → t.isGo := by
          intro t ht hkind
          have hmem : t.face ∈ (markBatches true raw).map Token.face :=
            h ▸ List.mem_map_of_mem ht
          obtain ⟨u, hu, hface⟩ := List.mem_map.mp hmem
          obtain ⟨hk, htext⟩ := Prod.mk.inj hface
          have hgo := hread.separator u hu (hk.trans hkind)
          simpa only [Token.isGo, hk, htext] using hgo
        refine ⟨rfl, hreads, ?_, hsep⟩
        refine (markBatches_unmarked_iff (hreads.marked hsep) []).mp ?_
        rw [← h, ← hread.markBatches, opensLine_nil]
        exact markBatches_congr true hunmarked.symm
  · intro h
    obtain ⟨raw, hraw, hface⟩ := tokensFrom_textOf h.reads h.markBatches
    rw [hraw]
    exact hface

end Tsql
