import Tsql.Proofs.Reading
import Tsql.Proofs.Trace

/-!
# Places and pieces of a script

A token knows the line and column where it begins. From these alone its
text can be found again: a table holds the bytes at which lines begin,
the columns are counted from there in characters, and each token reaches
up to the place of the next (`recutFrom`). The readers of `Lexer` never
do this, they cut the text as they go; here the two are shown to agree,
whatever the width of the characters, and however tokens and lines fall.

`behind` says in plain terms which place is meant: one more than the line
feeds before it, and one more than the characters since the last of them.
-/

namespace Tsql

/-! ## Places -/

namespace Position

/-- The place behind a piece of text that begins the script. -/
def behind (before : Text) : Position :=
  ⟨before.count '\n' + 1, (before.reverse.takeWhile (· ≠ '\n')).length + 1⟩

theorem start_after (before : Text) : start.after before = behind before := by
  rw [← List.reverse_reverse before]
  induction before.reverse with
  | nil => rfl
  | cons c cs ih =>
      rw [List.reverse_cons, after_append, ih]
      by_cases hc : c = '\n'
      · simp [behind, next, hc]
      · simp [behind, next, hc]

theorem after_line {line : Text} (h : '\n' ∉ line) (p : Position) :
    p.after line = ⟨p.line, p.column + line.length⟩ := by
  induction line generalizing p with
  | nil => rfl
  | cons c cs ih =>
      have hc : c ≠ '\n' := fun hc => h (hc ▸ List.mem_cons_self)
      rw [after_cons, ih fun hmem => h (List.mem_cons_of_mem _ hmem)]
      simp only [next, if_neg hc, List.length_cons]
      congr 1
      omega

/-- The place behind a line feed is the beginning of a line. -/
theorem start_after_feed (before : Text) :
    start.after (before ++ ['\n']) = ⟨before.count '\n' + 2, 1⟩ := by
  rw [start_after]
  simp [behind]

end Position

/-- Every text is a number of whole lines and the beginning of another. -/
theorem exists_lines (before : Text) :
    ∃ lines line : Text, before = lines ++ line ∧ '\n' ∉ line ∧
      (lines = [] ∨ ∃ init, lines = init ++ ['\n']) := by
  rw [← List.reverse_reverse before]
  induction before.reverse with
  | nil => exact ⟨[], [], rfl, by simp, Or.inl rfl⟩
  | cons c cs ih =>
      obtain ⟨lines, line, heq, hline, hlines⟩ := ih
      rw [List.reverse_cons, heq]
      by_cases hc : c = '\n'
      · exact ⟨lines ++ line ++ [c], [], by simp, by simp, Or.inr ⟨lines ++ line, by rw [hc]⟩⟩
      · refine ⟨lines, line ++ [c], by simp, ?_, hlines⟩
        simp [hline, Ne.symm hc]

/-! ## Bytes -/

/-- The bytes of a text in UTF-8. -/
def byteLength : Text → Nat
  | [] => 0
  | c :: cs => c.utf8Size + byteLength cs

@[simp] theorem byteLength_nil : byteLength [] = 0 := rfl

@[simp] theorem byteLength_cons (c : Char) (cs : Text) :
    byteLength (c :: cs) = c.utf8Size + byteLength cs := rfl

@[simp] theorem byteLength_append (t u : Text) :
    byteLength (t ++ u) = byteLength t + byteLength u := by
  induction t with
  | nil => simp
  | cons c cs ih => rw [List.cons_append, byteLength_cons, ih, byteLength_cons, Nat.add_assoc]

/-- The text from a byte on; nothing if the byte is inside a character or
past the end. -/
def fromByte : Nat → Text → Option Text
  | 0, t => some t
  | _ + 1, [] => none
  | n + 1, c :: cs => if c.utf8Size ≤ n + 1 then fromByte (n + 1 - c.utf8Size) cs else none

/-- The text up to a byte; nothing if the byte is inside a character or
past the end. -/
def uptoByte : Nat → Text → Option Text
  | 0, _ => some []
  | _ + 1, [] => none
  | n + 1, c :: cs =>
    if c.utf8Size ≤ n + 1 then (uptoByte (n + 1 - c.utf8Size) cs).map (c :: ·) else none

theorem fromByte_append (t u : Text) : fromByte (byteLength t) (t ++ u) = some u := by
  induction t with
  | nil => cases u <;> rfl
  | cons c cs ih =>
      obtain ⟨n, hn⟩ := Nat.exists_eq_succ_of_ne_zero (Nat.pos_iff_ne_zero.mp c.utf8Size_pos)
      rw [byteLength_cons, hn, Nat.succ_add, List.cons_append, fromByte, hn,
        if_pos (by omega), show n + byteLength cs + 1 - n.succ = byteLength cs by omega]
      exact ih

theorem uptoByte_append (t u : Text) : uptoByte (byteLength t) (t ++ u) = some t := by
  induction t with
  | nil => cases u <;> rfl
  | cons c cs ih =>
      obtain ⟨n, hn⟩ := Nat.exists_eq_succ_of_ne_zero (Nat.pos_iff_ne_zero.mp c.utf8Size_pos)
      rw [byteLength_cons, hn, Nat.succ_add, List.cons_append, uptoByte, hn,
        if_pos (by omega), show n + byteLength cs + 1 - n.succ = byteLength cs by omega, ih]
      rfl

def slice (source : Text) (start stop : Nat) : Option Text :=
  (fromByte start source).bind (uptoByte (stop - start))

theorem slice_append (before t rest : Text) :
    slice (before ++ t ++ rest) (byteLength before) (byteLength (before ++ t)) = some t := by
  have hlen : byteLength (before ++ t) - byteLength before = byteLength t := by
    rw [byteLength_append]
    omega
  rw [slice, hlen, List.append_assoc, fromByte_append]
  exact uptoByte_append t rest

/-! ## The table of lines -/

/-- The bytes behind the line feeds of a text whose first byte is
`n`. -/
def lineStartsFrom (n : Nat) : Text → List Nat
  | [] => []
  | c :: cs =>
    if c = '\n' then (n + c.utf8Size) :: lineStartsFrom (n + c.utf8Size) cs
    else lineStartsFrom (n + c.utf8Size) cs

/-- The bytes at which the lines of a text begin. -/
def lineStarts (source : Text) : List Nat := 0 :: lineStartsFrom 0 source

theorem lineStartsFrom_append (n : Nat) (t u : Text) :
    lineStartsFrom n (t ++ u) = lineStartsFrom n t ++ lineStartsFrom (n + byteLength t) u := by
  induction t generalizing n with
  | nil => rfl
  | cons c cs ih =>
      rw [List.cons_append, lineStartsFrom, lineStartsFrom, ih, byteLength_cons, Nat.add_assoc]
      split <;> rfl

theorem length_lineStartsFrom (n : Nat) (t : Text) :
    (lineStartsFrom n t).length = t.count '\n' := by
  induction t generalizing n with
  | nil => rfl
  | cons c cs ih =>
      rw [lineStartsFrom]
      split
      · rename_i hc
        rw [List.length_cons, ih, hc, List.count_cons_self]
      · rename_i hc
        rw [ih, List.count_cons_of_ne hc]

/-- The table leads to the beginning of each line. -/
theorem lineStarts_lines {lines : Text} (h : lines = [] ∨ ∃ init, lines = init ++ ['\n'])
    (t : Text) : (lineStarts (lines ++ t))[lines.count '\n']? = some (byteLength lines) := by
  rcases h with rfl | ⟨init, rfl⟩
  · rfl
  · have hcount : (init ++ ['\n']).count '\n' = (lineStartsFrom 0 init).length + 1 := by
      simp [length_lineStartsFrom]
    rw [lineStarts, hcount, List.getElem?_cons_succ, List.append_assoc, lineStartsFrom_append,
      List.getElem?_append_right (Nat.le_refl _), Nat.sub_self]
    simp [lineStartsFrom]

/-- The byte of a place: the beginning of its line, then as many
characters as its column says. Places outside of the text are its
end. -/
def offset (source : Text) (p : Position) : Option Nat :=
  match (lineStarts source)[p.line - 1]? with
  | none => some (byteLength source)
  | some start => (fromByte start source).map fun line =>
    if p.column - 1 < line.length then start + byteLength (line.take (p.column - 1))
    else byteLength source

/-- The table finds every place of a script. -/
theorem offset_start_after (before rest : Text) :
    offset (before ++ rest) (Position.start.after before) = some (byteLength before) := by
  obtain ⟨lines, line, rfl, hline, hlines⟩ := exists_lines before
  have hplace : Position.start.after (lines ++ line) =
      ⟨lines.count '\n' + 1, line.length + 1⟩ := by
    rw [Position.after_append, Position.after_line hline]
    rcases hlines with rfl | ⟨init, rfl⟩
    · simp [Position.start, Nat.add_comm]
    · rw [Position.start_after_feed]
      simp [Nat.add_comm 1]
  rw [hplace, offset, List.append_assoc]
  simp only [Nat.add_sub_cancel, lineStarts_lines hlines, fromByte_append, Option.map_some,
    List.length_append, List.take_left]
  cases rest with
  | nil => simp
  | cons c cs => simp

/-! ## Cutting a script at the places of its tokens -/

/-- The byte at which the tokens behind begin. -/
def offsetOf (source : Text) : List Token → Option Nat
  | [] => some (byteLength source)
  | t :: _ => offset source (t.position.getD .start)

/-- The tokens with the texts between their places; `start` is the byte
at which the first begins. -/
def recutFrom (source : Text) (start : Nat) : List Token → Option (List Token)
  | [] => some []
  | t :: ts =>
    (offsetOf source ts).bind fun stop =>
      (slice source start (max stop start)).bind fun text =>
        (recutFrom source stop ts).map ({ t with text } :: ·)

theorem offsetOf_eq (before : Text) {ts : List Token}
    (h : placedFrom (Position.start.after before) ts = ts) :
    offsetOf (before ++ Token.textOf ts) ts = some (byteLength before) := by
  cases ts with
  | nil => simp [offsetOf]
  | cons t ts =>
      rw [placedFrom] at h
      obtain ⟨ht, -⟩ := List.cons.inj h
      have hposition : t.position = some (Position.start.after before) := by
        rw [← ht]
      rw [offsetOf, hposition]
      exact offset_start_after before _

/-- The texts between the places of tokens are the texts of the
tokens. -/
theorem recutFrom_eq (before : Text) {ts : List Token}
    (h : placedFrom (Position.start.after before) ts = ts) :
    recutFrom (before ++ Token.textOf ts) (byteLength before) ts = some ts := by
  induction ts generalizing before with
  | nil => rfl
  | cons t ts ih =>
      rw [placedFrom, ← Position.after_append] at h
      obtain ⟨-, hmore⟩ := List.cons.inj h
      have hmax : max (byteLength (before ++ t.text)) (byteLength before) =
          byteLength (before ++ t.text) := by
        rw [byteLength_append]
        omega
      rw [Token.textOf_cons, ← List.append_assoc, recutFrom, offsetOf_eq _ hmore]
      simp only [Option.bind_some, hmax, slice_append, ih _ hmore, Option.map_some]

/-! ## Scripts -/

theorem placedFrom_markBatches (p : Position) (lineStart : Bool) (ts : List Token) :
    placedFrom p (markBatches lineStart ts) = markBatches lineStart (placedFrom p ts) := by
  induction ts generalizing p lineStart with
  | nil => rfl
  | cons t ts ih =>
      have hmarked : { t.markedAt lineStart with position := some p } =
          Token.markedAt { t with position := some p } lineStart := by
        unfold Token.markedAt
        split
        · rename_i hgo
          exact (if_pos hgo).symm
        · rename_i hgo
          exact (if_neg hgo).symm
      have htext : (t.markedAt lineStart).text = t.text := by
        unfold Token.markedAt
        split <;> rfl
      rw [markBatches_step, placedFrom, placedFrom, markBatches_step, hmarked, htext, ih]
      rfl

theorem position_of_placedFrom {p : Position} {pre post : List Token} {t : Token}
    (h : placedFrom p (pre ++ t :: post) = pre ++ t :: post) :
    t.position = some (p.after (Token.textOf pre)) := by
  induction pre generalizing p with
  | nil =>
      obtain ⟨ht, -⟩ := List.cons.inj h
      rw [← ht]
      rfl
  | cons u us ih =>
      obtain ⟨-, hmore⟩ := List.cons.inj h
      rw [ih hmore, Token.textOf_cons, Position.after_append]

theorem placedFrom_body {source : Text} {raw : List Token}
    (h : tokensFrom .start source = .ok raw) :
    placedFrom .start (markBatches true raw) = markBatches true raw := by
  rw [placedFrom_markBatches, ((tokensFrom_eq_ok_iff _ _ _).mp h).2.2]

theorem isSome_position_of_mem_body {source : Text} {raw : List Token}
    (h : tokensFrom .start source = .ok raw) {t : Token} (ht : t ∈ markBatches true raw) :
    t.position.isSome := by
  obtain ⟨pre, post, hsplit⟩ := List.append_of_mem ht
  have hplaced := placedFrom_body h
  rw [hsplit] at hplaced
  rw [position_of_placedFrom hplaced]
  rfl

theorem mem_body {source : Text} {raw : List Token} (h : tokensFrom .start source = .ok raw)
    {t : Token} (ht : t ∈ markBatches true raw) : t.kind ≠ .endOfFile ∧ t.text ≠ [] := by
  obtain ⟨rest, hcuts⟩ := (ReadAs.of_tokensFrom h).reads.cuts (List.mem_map_of_mem ht)
  refine ⟨fun hkind => ?_, ?_⟩
  · have hself : t.unmarked = t := unmarked_eq_self (by rw [hkind]; decide)
    rw [hself] at hcuts
    exact hcuts.kind_ne.2 hkind
  · rw [← Token.text_unmarked]
    exact hcuts.text_ne_nil

theorem Pass.identity_sees : Pass.identity.Sees fun ts => .ok ⟨ts.take 1, 0, [], []⟩ := by
  intro c t ts _
  rfl

theorem Pass.decisions_identity (ts : List Token) :
    Pass.decisions (fun ts => .ok ⟨ts.take 1, 0, [], []⟩) ts = .ok (ts.map Pass.Decision.keep) := by
  induction ts with
  | nil => rfl
  | cons t ts ih => rw [Pass.decisions, ih]; rfl

/-- The pass that changes nothing gives the script back. -/
theorem Pass.identity_run_eq (level : Level) (script : Text) :
    Pass.identity.run level script =
      .ok ⟨script, (Script.parse level script).problems, [], []⟩ := by
  by_cases hproblems : (Script.parse level script).problems = []
  · rw [Pass.run_eq_ok_iff hproblems]
    refine ⟨⟨(Script.parse level script).body, [], []⟩, ?_, ?_⟩
    · rw [Pass.trace_eq_ok_iff Pass.identity_sees]
      · exact ⟨_, Pass.decisions_identity _, by simp [Pass.Decision.keep, List.flatMap_map]⟩
      · intro pre t post d _ hd
        cases hd
        rfl
    · rw [hproblems, (Script.readAs hproblems).text]
  · exact Pass.run_of_problems hproblems

/-- What a script is read as: its tokens are its consecutive pieces, none
empty but the end-of-file token that closes them; each has the place
where its text begins, and its text is what the table of lines finds
there. So the pass that changes nothing changes nothing, whatever the
script. Only the end-of-file token of an empty script has no place. -/
theorem parse_tiles (level : Level) {source : Text} {raw : List Token}
    (h : tokensFrom .start source = .ok raw) :
    (∃ body ending, (Script.parse level source).tokens = body ++ [ending] ∧
      ending.kind = .endOfFile ∧ ending.text = [] ∧
      (∀ t ∈ body, t.kind ≠ .endOfFile ∧ t.text ≠ []) ∧
      recutFrom source 0 body = some body) ∧
    Token.textOf (Script.parse level source).tokens = source ∧
    (∀ before t after, (Script.parse level source).tokens = before ++ t :: after →
      t.position =
        if source = [] then none else some (Position.behind (Token.textOf before))) ∧
    ∀ script, Pass.identity.run level script =
      .ok ⟨script, (Script.parse level script).problems, [], []⟩ := by
  have htokens : (Script.parse level source).tokens =
      markBatches true raw ++ [Script.endToken source] := by
    rw [Script.parse, h]
  have htext := (ReadAs.of_tokensFrom h).text
  have hplaced := placedFrom_body h
  refine ⟨⟨markBatches true raw, Script.endToken source, htokens, rfl, rfl,
    fun t ht => mem_body h ht, ?_⟩, ?_, ?_, Pass.identity_run_eq level⟩
  · have hrecut := recutFrom_eq [] hplaced
    rw [List.nil_append, htext] at hrecut
    exact hrecut
  · rw [htokens, Token.textOf_append, htext]
    exact List.append_nil source
  · intro before t after heq
    rw [htokens] at heq
    rw [← Position.start_after]
    rcases List.eq_nil_or_concat after with rfl | ⟨init, last, rfl⟩
    · obtain ⟨rfl, hlast⟩ := List.append_inj' heq rfl
      obtain rfl := (List.cons.inj hlast).1
      rw [htext]
      rfl
    · rw [List.concat_eq_append, ← List.cons_append, ← List.append_assoc] at heq
      obtain ⟨hbody, -⟩ := List.append_inj' heq rfl
      have hne : source ≠ [] := by
        rintro rfl
        have ht : t ∈ markBatches true raw := by simp [hbody]
        rw [hbody, Token.textOf_append, Token.textOf_cons] at htext
        simp only [List.append_eq_nil_iff] at htext
        exact (mem_body h ht).2 htext.2.1
      rw [if_neg hne]
      exact position_of_placedFrom (hbody ▸ hplaced)

theorem parse_tiles_wide_characters :
    ∃ raw, tokensFrom .start "é\n[𝄞] 1".toList = .ok raw ∧
      Token.textOf (Script.parse .sql110 "é\n[𝄞] 1".toList).tokens = "é\n[𝄞] 1".toList := by
  have h : tokensFrom .start "é\n[𝄞] 1".toList =
      .ok [⟨.identifier, ['é'], some ⟨1, 1⟩⟩, ⟨.whitespace, ['\n'], some ⟨1, 2⟩⟩,
        ⟨.quotedIdentifier, ['[', '𝄞', ']'], some ⟨2, 1⟩⟩, ⟨.whitespace, [' '], some ⟨2, 4⟩⟩,
        ⟨.numberLiteral, ['1'], some ⟨2, 5⟩⟩] := by
    rw [tokensFrom_eq_ok_iff]
    decide +kernel
  exact ⟨_, h, (parse_tiles .sql110 h).2.1⟩

/-- There is no last token whose end could be the place of the one that
closes an empty script. -/
theorem ending_of_empty_script_unplaced :
    ¬ ∀ (level : Level) (source : Text) (raw before after : List Token) (t : Token),
      tokensFrom .start source = .ok raw →
      (Script.parse level source).tokens = before ++ t :: after →
      t.position = some (Position.behind (Token.textOf before)) := by
  intro h
  have hread : tokensFrom .start [] = .ok [] := by rw [tokensFrom]
  have htokens : (Script.parse .sql110 []).tokens = [⟨.endOfFile, [], none⟩] := by
    rw [Script.parse, hread]
    rfl
  have hplace := h .sql110 [] [] [] [] ⟨.endOfFile, [], none⟩ hread htokens
  cases hplace

end Tsql
