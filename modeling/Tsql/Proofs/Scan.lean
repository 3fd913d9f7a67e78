import Tsql.Proofs.Numeral

/-!
# The table of lexemes, by first character

`scan` is one long table of rules. This file takes it apart once: `Lead`
are the classes of first characters, `lead` says that there are no
others, and each class has the equation that `scan` satisfies there.
Later proofs go by the class and never open the table.

A word, a string behind a letter and a comment share their first
characters with other lexemes; their equations name the character behind
that decides.
-/

namespace Tsql

namespace Lexeme

/-! ## Operators -/

def operatorTexts : List Text := operators.map String.toList

/-- Whatever an operator begins with is an operator. -/
theorem operatorTexts_take {o : Text} (ho : o ∈ operatorTexts) {k : Nat} (hk : k < o.length) :
    o.take (k + 1) ∈ operatorTexts := by
  have hall : ∀ o ∈ operatorTexts, ∀ k < o.length, o.take (k + 1) ∈ operatorTexts := by
    decide +kernel
  exact hall o ho k hk

theorem lt_foldl_max_iff {α : Type} (p : α → Bool) (f : α → Nat) (xs : List α) (a n : Nat) :
    n < xs.foldl (fun m x => if p x then max m (f x) else m) a ↔
      n < a ∨ ∃ x ∈ xs, p x ∧ n < f x := by
  induction xs generalizing a with
  | nil => simp
  | cons x xs ih =>
      rw [List.foldl_cons, ih]
      simp only [List.mem_cons, or_and_right, exists_or, exists_eq_left]
      by_cases hx : p x
      · have hmax : n < max a (f x) ↔ n < a ∨ n < f x := by omega
        simp only [hx, if_true, true_and, hmax, or_assoc]
      · simp [hx]

theorem lt_operatorLength_iff (t : Text) (n : Nat) :
    n < operatorLength t ↔ n < t.length ∧ t.take (n + 1) ∈ operatorTexts := by
  unfold operatorLength
  rw [lt_foldl_max_iff]
  constructor
  · rintro (h | ⟨o, ho, hpre, hn⟩)
    · cases h
    · obtain ⟨rest, rfl⟩ := List.isPrefixOf_iff_prefix.mp hpre
      have hlen : n < o.toList.length := by rwa [String.length_toList]
      rw [List.take_append_of_le_length hlen, List.length_append]
      exact ⟨by omega, operatorTexts_take (List.mem_map_of_mem ho) hlen⟩
  · rintro ⟨hn, hmem⟩
    obtain ⟨o, ho, heq⟩ := List.mem_map.mp hmem
    refine Or.inr ⟨o, ho, ?_, ?_⟩
    · rw [heq]
      exact List.isPrefixOf_iff_prefix.mpr (List.take_prefix _ _)
    · have := congrArg List.length heq
      rw [List.length_take] at this
      simp only [String.length_toList] at this
      omega

theorem operatorLength_le (t : Text) : operatorLength t ≤ t.length := by
  have := mt (lt_operatorLength_iff t t.length).mp (fun h => Nat.lt_irrefl _ h.1)
  omega

/-- One character decides whether an operator begins. -/
theorem operatorLength_pos_iff (c : Char) (cs : Text) :
    0 < operatorLength (c :: cs) ↔ [c] ∈ operatorTexts := by
  rw [lt_operatorLength_iff]
  simp

theorem operatorLength_append_iff (c : Char) (cs rest : Text) :
    operatorLength (c :: cs ++ rest) = (c :: cs).length ↔
      operatorLength (c :: cs) = (c :: cs).length ∧
        rest.head?.any (fun d => operatorTexts.contains (c :: cs ++ [d])) = false := by
  have hexact : ∀ t : Text, operatorLength t = (c :: cs).length ↔
      cs.length < operatorLength t ∧ ¬ cs.length + 1 < operatorLength t := by
    intro t
    rw [List.length_cons]
    omega
  have htake : ∀ ds : Text, (c :: cs ++ ds).take (cs.length + 1) = c :: cs :=
    fun ds => List.take_left' rfl
  rw [hexact, hexact]
  simp only [lt_operatorLength_iff, htake]
  have hself := htake []
  rw [List.append_nil] at hself
  rw [hself]
  cases rest with
  | nil => simp
  | cons d ds =>
      have htake' : (c :: cs ++ d :: ds).take (cs.length + 1 + 1) = c :: cs ++ [d] := by
        rw [show c :: cs ++ d :: ds = (c :: cs ++ [d]) ++ ds by simp]
        exact List.take_left' (by simp)
      have hlen : cs.length + 1 < (c :: cs ++ d :: ds).length := by
        simp only [List.length_append, List.length_cons]
        omega
      have hlen' : cs.length < (c :: cs ++ d :: ds).length := by omega
      simp only [htake', hlen, hlen', true_and]
      simp

/-- A letter that makes a quote behind it the beginning of a string. -/
def isStringPrefix (c : Char) : Bool :=
  c = 'N' || c = 'n' || c = 'X' || c = 'x' || c = 'E' || c = 'e'

/-- A character of a tag between dollar signs. -/
def isTagChar (c : Char) : Bool := isAlphabetic c || isNumeric c || c = '_'

/-! ## Classes of first characters -/

theorem isDigit_iff (c : Char) : c.isDigit ↔ 48 ≤ c.toNat ∧ c.toNat ≤ 57 := by
  simp [Char.isDigit, UInt32.le_iff_toNat_le, ← Char.toNat_val]

theorem isAlpha_iff (c : Char) :
    c.isAlpha ↔ (65 ≤ c.toNat ∧ c.toNat ≤ 90) ∨ (97 ≤ c.toNat ∧ c.toNat ≤ 122) := by
  have hcases : c.isAlpha =
      (decide (c.val ≥ 'A'.val ∧ c.val ≤ 'Z'.val) ||
        (c.val ≥ 'a'.val && c.val ≤ 'z'.val)) := rfl
  simp [hcases, UInt32.le_iff_toNat_le, ← Char.toNat_val]

theorem not_isDigit_of_isAlphabetic {c : Char} (h : isAlphabetic c) : c.isDigit = false := by
  cases hd : c.isDigit with
  | false => rfl
  | true =>
      have hnat := (isDigit_iff c).mp hd
      simp only [isAlphabetic, Bool.or_eq_true, Bool.and_eq_true, decide_eq_true_eq] at h
      rcases h with halpha | ⟨hge, -⟩
      · rw [isAlpha_iff] at halpha
        omega
      · omega

theorem not_operator_of_isAlphabetic {c : Char} (h : isAlphabetic c) (o : Text)
    (ho : o ∈ operatorTexts) : c ∉ o := by
  have hall : (operatorTexts.all fun o => o.all fun d => !isAlphabetic d) = true := by
    decide +kernel
  intro hc
  have hnot := List.all_eq_true.mp (List.all_eq_true.mp hall o ho) c hc
  rw [h] at hnot
  cases hnot

/-! ## Equations -/

theorem ofExtent_eq_lexeme_iff {kind kind' : Kind} {fault : Fault} {offset skipped n : Nat}
    {extent : Option Nat} :
    Scan.ofExtent kind fault offset skipped extent = .lexeme kind' (n + skipped) ↔
      kind = kind' ∧ extent = some n := by
  cases extent with
  | none => simp [Scan.ofExtent]
  | some m => simp [Scan.ofExtent, Nat.add_comm skipped]

theorem ofExtent_ne_lexeme {kind kind' : Kind} {fault : Fault} {offset skipped n : Nat}
    {extent : Option Nat} (hn : n < skipped) :
    Scan.ofExtent kind fault offset skipped extent ≠ .lexeme kind' n := by
  cases extent with
  | none => simp [Scan.ofExtent]
  | some m =>
      simp only [Scan.ofExtent, ne_eq, Scan.lexeme.injEq, not_and]
      omega

theorem scan_space {c : Char} (hc : c = ' ' ∨ c = '\t' ∨ c = '\n') (cs : Text) :
    scan c cs = .lexeme .whitespace 0 := by
  unfold scan
  rw [if_pos hc]

theorem scan_return (cs : Text) :
    scan '\r' cs = .lexeme .whitespace (if cs.head? = some '\n' then 1 else 0) := by
  unfold scan
  rw [if_neg (by decide), if_pos rfl]

theorem scan_national {c : Char} (hc : c = 'N' ∨ c = 'n' ∨ c = 'X' ∨ c = 'x') (cs : Text) :
    scan c ('\'' :: cs) =
      .ofExtent .stringLiteral .unclosedString 1 1 (escapedExtent cs) := by
  rcases hc with rfl | rfl | rfl | rfl <;> simp [scan]

theorem scan_encoded {c : Char} (hc : c = 'E' ∨ c = 'e') (cs : Text) :
    scan c ('\'' :: cs) =
      .ofExtent .symbol .unclosedEncodedString 0 1 (encodedExtent 0 cs) := by
  rcases hc with rfl | rfl <;> simp [scan]

theorem isStringPrefix_cases {c : Char} (hc : isStringPrefix c) :
    (c = 'N' ∨ c = 'n' ∨ c = 'X' ∨ c = 'x') ∨ (c = 'E' ∨ c = 'e') := by
  simpa only [isStringPrefix, Bool.or_eq_true, decide_eq_true_eq, or_assoc] using hc

/-- A quote behind such a letter is taken into the lexeme. -/
theorem scan_string_ne {c : Char} (hc : isStringPrefix c) (cs : Text) (kind : Kind) :
    scan c ('\'' :: cs) ≠ .lexeme kind 0 := by
  rcases isStringPrefix_cases hc with h | h
  · rw [scan_national h]
    exact ofExtent_ne_lexeme Nat.one_pos
  · rw [scan_encoded h]
    exact ofExtent_ne_lexeme Nat.one_pos

theorem scan_quote (cs : Text) :
    scan '\'' cs = .ofExtent .stringLiteral .unclosedString 0 0 (closeExtent '\'' cs) := by
  simp [scan]

theorem scan_name {c q : Char} (hc : (c = '"' ∧ q = '"') ∨ (c = '[' ∧ q = ']')) (cs : Text) :
    scan c cs = .ofExtent .quotedIdentifier (.unclosedName q) 0 0 (closeExtent q cs) := by
  rcases hc with ⟨rfl, rfl⟩ | ⟨rfl, rfl⟩ <;> simp [scan]

theorem scan_digit {c : Char} (hc : c.isDigit) (cs : Text) : scan c cs = scanNumber c cs := by
  have hne : ∀ d : Char, d.isDigit = false → c ≠ d := fun d hd => digit_ne_of_isDigit hc hd
  simp [scan, hc, hne]

theorem scan_dot (cs : Text) : scan '.' cs = scanDot cs := by
  simp [scan]

theorem scan_punctuation {c : Char} {kind : Kind}
    (hc : (c = '(' ∧ kind = .leftParen) ∨ (c = ')' ∧ kind = .rightParen) ∨
      (c = ',' ∧ kind = .comma) ∨ (c = ';' ∧ kind = .semicolon)) (cs : Text) :
    scan c cs = .lexeme kind 0 := by
  rcases hc with ⟨rfl, rfl⟩ | ⟨rfl, rfl⟩ | ⟨rfl, rfl⟩ | ⟨rfl, rfl⟩ <;> simp [scan]

theorem scan_lineComment (cs : Text) :
    scan '-' ('-' :: cs) = .lexeme .lineComment (lineExtent cs + 1) := by
  simp [scan, Nat.add_comm]

theorem scan_blockComment (cs : Text) :
    scan '/' ('*' :: cs) =
      .ofExtent .blockComment .unclosedComment (1 + ('*' :: cs).length) 1
        (commentExtent ' ' 0 cs) := by
  simp [scan]

/-- The characters with a rule of their own, letters apart. -/
def ruledChars : List Char :=
  [' ', '\t', '\n', '\r', '\'', '"', '[', '.', '(', ')', ',', ';']

/-- What is left of the table for a character without a rule of its
own. -/
theorem scan_of_not_ruled {c : Char} {cs : Text} (hc : c ∉ ruledChars) (hdigit : c.isDigit = false)
    (hq : isStringPrefix c → cs.head? ≠ some '\'') (hline : c = '-' → cs.head? ≠ some '-')
    (hblock : c = '/' → cs.head? ≠ some '*') :
    scan c cs =
      if [c] ∈ operatorTexts then .lexeme .symbol (operatorLength (c :: cs) - 1)
      else if c = '#' then scanHash cs
      else if c = '@' then scanAt cs
      else if c = '?' then .lexeme .symbol (runExtent isNumeric cs)
      else if isAlphabetic c ∨ c = '_' then scanWord c 0 cs
      else if c = '$' then scanDollar cs
      else if isBlank c then .lexeme .whitespace 0
      else .lexeme .symbol 0 := by
  simp only [ruledChars, List.mem_cons, List.not_mem_nil, or_false, not_or] at hc
  obtain ⟨h1, h2, h3, h4, h5, h6, h7, h8, h9, h10, h11, h12⟩ := hc
  have hN : ¬ ((c = 'N' ∨ c = 'n' ∨ c = 'X' ∨ c = 'x') ∧ cs.head? = some '\'') := by
    rintro ⟨rfl | rfl | rfl | rfl, h⟩ <;> exact hq (by decide) h
  have hE : ¬ ((c = 'E' ∨ c = 'e') ∧ cs.head? = some '\'') := by
    rintro ⟨rfl | rfl, h⟩ <;> exact hq (by decide) h
  have hl : ¬ (c = '-' ∧ cs.head? = some '-') := fun h => hline h.1 h.2
  have hb : ¬ (c = '/' ∧ cs.head? = some '*') := fun h => hblock h.1 h.2
  unfold scan
  simp only [h1, h2, h3, h4, h5, h6, h7, h8, h9, h10, h11, h12, hN, hE, hl, hb, hdigit,
    Bool.false_eq_true, false_or, if_false, operatorLength_pos_iff]

theorem scan_operator {c : Char} (hc : [c] ∈ operatorTexts) {cs : Text}
    (hline : c = '-' → cs.head? ≠ some '-') (hblock : c = '/' → cs.head? ≠ some '*') :
    scan c cs = .lexeme .symbol (operatorLength (c :: cs) - 1) := by
  have hall : (operatorTexts.all fun o => o.all fun d =>
      !ruledChars.contains d && !d.isDigit && !isStringPrefix d) = true := by
    decide +kernel
  have hthis := List.all_eq_true.mp (List.all_eq_true.mp hall [c] hc) c (by simp)
  simp only [Bool.and_eq_true, Bool.not_eq_true', List.contains_eq_mem,
    decide_eq_false_iff_not] at hthis
  obtain ⟨⟨hruled, hdigit⟩, hstring⟩ := hthis
  rw [scan_of_not_ruled hruled hdigit (by simp [hstring]) hline hblock, if_pos hc]

/-- A character that begins no operator, no number, no quoted lexeme and
no punctuation. -/
structure IsPlain (c : Char) : Prop where
  ruled : c ∉ ruledChars
  digit : c.isDigit = false
  operator : [c] ∉ operatorTexts

theorem IsPlain.line {c : Char} (h : IsPlain c) : c ≠ '-' := by
  rintro rfl
  exact h.operator (by decide +kernel)

theorem IsPlain.block {c : Char} (h : IsPlain c) : c ≠ '/' := by
  rintro rfl
  exact h.operator (by decide +kernel)

theorem IsPlain.of_word {c : Char} (hc : isAlphabetic c ∨ c = '_') : IsPlain c := by
  rcases hc with hc | rfl
  · refine ⟨?_, not_isDigit_of_isAlphabetic hc, ?_⟩
    · intro h
      have hall : (ruledChars.all fun d => !isAlphabetic d) = true := by decide +kernel
      have hnot := List.all_eq_true.mp hall c h
      rw [hc] at hnot
      cases hnot
    · intro h
      exact not_operator_of_isAlphabetic hc [c] h (by simp)
  · exact ⟨by decide, by decide, by decide +kernel⟩

theorem scan_word {c : Char} {cs : Text} (hc : isAlphabetic c ∨ c = '_')
    (hq : isStringPrefix c → cs.head? ≠ some '\'') : scan c cs = scanWord c 0 cs := by
  have hplain := IsPlain.of_word hc
  have hne : c ≠ '#' ∧ c ≠ '@' ∧ c ≠ '?' := by
    refine ⟨?_, ?_, ?_⟩ <;> · rintro rfl; revert hc; decide
  rw [scan_of_not_ruled hplain.ruled hplain.digit hq (fun h => absurd h hplain.line)
    (fun h => absurd h hplain.block), if_neg hplain.operator, if_neg hne.1, if_neg hne.2.1,
    if_neg hne.2.2, if_pos hc]

theorem scan_hash (cs : Text) : scan '#' cs = scanHash cs := by
  rw [scan_of_not_ruled (by decide) (by decide) (by simp [isStringPrefix]) (by simp) (by simp),
    if_neg (by decide +kernel), if_pos rfl]

theorem scan_at (cs : Text) : scan '@' cs = scanAt cs := by
  rw [scan_of_not_ruled (by decide) (by decide) (by simp [isStringPrefix]) (by simp) (by simp),
    if_neg (by decide +kernel), if_neg (by decide), if_pos rfl]

theorem scan_question (cs : Text) : scan '?' cs = .lexeme .symbol (runExtent isNumeric cs) := by
  rw [scan_of_not_ruled (by decide) (by decide) (by simp [isStringPrefix]) (by simp) (by simp),
    if_neg (by decide +kernel), if_neg (by decide), if_neg (by decide), if_pos rfl]

theorem scan_dollar (cs : Text) : scan '$' cs = scanDollar cs := by
  rw [scan_of_not_ruled (by decide) (by decide) (by simp [isStringPrefix]) (by simp) (by simp),
    if_neg (by decide +kernel), if_neg (by decide), if_neg (by decide), if_neg (by decide),
    if_neg (by decide), if_pos rfl]

/-- A character of no rule is white space or a symbol by itself. -/
theorem scan_single {c : Char} (hplain : IsPlain c) (hsign : c ≠ '#' ∧ c ≠ '@' ∧ c ≠ '?' ∧ c ≠ '$')
    (hword : ¬ (isAlphabetic c ∨ c = '_')) (cs : Text) :
    scan c cs = .lexeme (if isBlank c then .whitespace else .symbol) 0 := by
  have hstring : ¬ isStringPrefix c := by
    intro h
    apply hword
    simp only [isStringPrefix, Bool.or_eq_true, decide_eq_true_eq] at h
    rcases h with ((((rfl | rfl) | rfl) | rfl) | rfl) | rfl <;> exact Or.inl (by decide)
  rw [scan_of_not_ruled hplain.ruled hplain.digit (fun h => absurd h hstring)
    (fun h => absurd h hplain.line) (fun h => absurd h hplain.block), if_neg hplain.operator,
    if_neg hsign.1, if_neg hsign.2.1, if_neg hsign.2.2.1, if_neg hword, if_neg hsign.2.2.2]
  split <;> rfl

/-- A dollar sign that no other follows: a tag, and what it quotes. -/
theorem scanDollar_of_head {cs : Text} (h : cs.head? ≠ some '$') :
    scanDollar cs =
      let tag := cs.takeWhile isTagChar
      let behind := cs.drop tag.length
      if behind.head? = some '$' then
        .ofExtent .symbol .unclosedTaggedDollar (1 + cs.length) (tag.length + 1)
          (taggedExtent tag none behind.tail)
      else .lexeme .symbol tag.length := by
  unfold scanDollar
  rw [if_neg h]
  rfl

theorem scanDollar_ne {cs : Text} {n : Nat} (h : n < runExtent isTagChar cs) (kind : Kind) :
    scanDollar cs ≠ .lexeme kind n := by
  have hhead : cs.head? ≠ some '$' := by
    intro hd
    have hzero : runExtent isTagChar cs = 0 := by
      rw [runExtent_eq_zero_iff, hd]
      decide
    omega
  rw [scanDollar_of_head hhead]
  dsimp only
  split
  · exact ofExtent_ne_lexeme (Nat.lt_succ_of_lt h)
  · intro heq
    have := (Scan.lexeme.inj heq).2
    unfold runExtent at h
    omega

/-- A tag before another dollar sign is not the whole lexeme. -/
theorem scanDollar_sign_ne {cs : Text} (h : (cs.drop (runExtent isTagChar cs)).head? = some '$')
    (kind : Kind) : scanDollar cs ≠ .lexeme kind (runExtent isTagChar cs) := by
  by_cases hhead : cs.head? = some '$'
  · have hzero : runExtent isTagChar cs = 0 := by
      rw [runExtent_eq_zero_iff, hhead]
      decide
    unfold scanDollar
    rw [if_pos hhead, hzero]
    exact ofExtent_ne_lexeme Nat.one_pos
  · rw [scanDollar_of_head hhead]
    unfold runExtent at h ⊢
    dsimp only
    rw [if_pos h]
    exact ofExtent_ne_lexeme (Nat.lt_succ_self _)

theorem scanDollar_tag {cs : Text} (h : (cs.drop (runExtent isTagChar cs)).head? ≠ some '$') :
    scanDollar cs = .lexeme .symbol (runExtent isTagChar cs) := by
  have hhead : cs.head? ≠ some '$' := by
    intro hd
    have hzero : runExtent isTagChar cs = 0 := by
      rw [runExtent_eq_zero_iff, hd]
      decide
    rw [hzero, List.drop_zero] at h
    exact h hd
  rw [scanDollar_of_head hhead]
  dsimp only
  exact if_neg h

theorem scanWord_kind {c : Char} {forced n : Nat} {cs : Text} {kind : Kind}
    (h : scanWord c forced cs = .lexeme kind n) : ∃ word, kind = wordKind word := by
  unfold scanWord at h
  exact ⟨_, (Scan.lexeme.inj h).1.symm⟩

/-! ## There is no other first character -/

/-- The classes of first characters. -/
inductive Lead : Char → Prop where
  | space {c : Char} (h : c = ' ' ∨ c = '\t' ∨ c = '\n') : Lead c
  | carriageReturn : Lead '\r'
  | quote : Lead '\''
  | name {c : Char} (q : Char) (h : (c = '"' ∧ q = '"') ∨ (c = '[' ∧ q = ']')) : Lead c
  | digit {c : Char} (h : c.isDigit) : Lead c
  | dot : Lead '.'
  | punctuation {c : Char} (kind : Kind)
      (h : (c = '(' ∧ kind = .leftParen) ∨ (c = ')' ∧ kind = .rightParen) ∨
        (c = ',' ∧ kind = .comma) ∨ (c = ';' ∧ kind = .semicolon)) : Lead c
  | operator {c : Char} (h : [c] ∈ operatorTexts) : Lead c
  | hash : Lead '#'
  | atSign : Lead '@'
  | question : Lead '?'
  | word {c : Char} (h : isAlphabetic c ∨ c = '_') : Lead c
  | dollar : Lead '$'
  /-- A character of no rule -/
  | single {c : Char} (plain : IsPlain c) (sign : c ≠ '#' ∧ c ≠ '@' ∧ c ≠ '?' ∧ c ≠ '$')
      (word : ¬ (isAlphabetic c ∨ c = '_')) : Lead c

theorem lead_of_mem_ruledChars {c : Char} (h : c ∈ ruledChars) : Lead c := by
  simp only [ruledChars, List.mem_cons, List.not_mem_nil, or_false] at h
  rcases h with rfl | rfl | rfl | rfl | rfl | rfl | rfl | rfl | rfl | rfl | rfl | rfl
  · exact .space (Or.inl rfl)
  · exact .space (Or.inr (Or.inl rfl))
  · exact .space (Or.inr (Or.inr rfl))
  · exact .carriageReturn
  · exact .quote
  · exact .name '"' (Or.inl ⟨rfl, rfl⟩)
  · exact .name ']' (Or.inr ⟨rfl, rfl⟩)
  · exact .dot
  · exact .punctuation .leftParen (by simp)
  · exact .punctuation .rightParen (by simp)
  · exact .punctuation .comma (by simp)
  · exact .punctuation .semicolon (by simp)

theorem lead (c : Char) : Lead c := by
  by_cases hruled : c ∈ ruledChars
  · exact lead_of_mem_ruledChars hruled
  by_cases hdigit : c.isDigit
  · exact .digit hdigit
  by_cases hop : [c] ∈ operatorTexts
  · exact .operator hop
  by_cases hhash : c = '#'
  · exact hhash ▸ .hash
  by_cases hat : c = '@'
  · exact hat ▸ .atSign
  by_cases hquestion : c = '?'
  · exact hquestion ▸ .question
  by_cases hword : isAlphabetic c ∨ c = '_'
  · exact .word hword
  by_cases hdollar : c = '$'
  · exact hdollar ▸ .dollar
  exact .single ⟨hruled, by simpa using hdigit, hop⟩ ⟨hhash, hat, hquestion, hdollar⟩ hword

/-! ## Bounds -/

/-- The kinds that no lexeme has: a batch separator is told by its line
and the end of the file by there being nothing left. Block comments are
none either, unless their mark stands there. -/
def barredKinds (opensComment : Bool) : List Kind :=
  if opensComment then [.batchSeparator, .endOfFile]
  else [.batchSeparator, .endOfFile, .blockComment]

/-- A lexeme is a piece of the text, of a kind that is not barred. -/
structure Scan.Within (s : Scan) (barred : List Kind) (cs : Text) : Prop where
  extent : ∀ {kind : Kind} {n : Nat}, s = .lexeme kind n → n ≤ cs.length
  kind : ∀ {kind : Kind} {n : Nat}, s = .lexeme kind n → kind ∉ barred

theorem Scan.Within.lexeme {kind : Kind} {n : Nat} {barred : List Kind} {cs : Text}
    (hn : n ≤ cs.length) (hkind : kind ∉ barred) : (Scan.lexeme kind n).Within barred cs := by
  constructor
  · intro k m h
    obtain ⟨-, rfl⟩ := Scan.lexeme.inj h
    exact hn
  · intro k m h
    obtain ⟨rfl, -⟩ := Scan.lexeme.inj h
    exact hkind

theorem Scan.Within.ofExtent {kind : Kind} {fault : Fault} {offset skipped : Nat}
    {extent : Option Nat} {barred : List Kind} {cs : Text}
    (hn : ∀ n, extent = some n → skipped + n ≤ cs.length) (hkind : kind ∉ barred) :
    (Scan.ofExtent kind fault offset skipped extent).Within barred cs := by
  cases extent with
  | none =>
      constructor
      · intro k m h
        cases h
      · intro k m h
        cases h
  | some n => exact .lexeme (hn n rfl) hkind

theorem wordKind_not_barred (word : Text) : wordKind word ∉ barredKinds false := by
  unfold wordKind
  split
  · decide
  · split <;> decide

theorem scanWord_within (c : Char) {forced : Nat} {cs : Text} (hf : forced ≤ cs.length) :
    (scanWord c forced cs).Within (barredKinds false) cs := by
  have hrun := runExtent_le isIdentifierPart (cs.drop forced)
  rw [List.length_drop] at hrun
  exact .lexeme (by omega) (wordKind_not_barred _)

theorem scanNumber_within (c : Char) (cs : Text) :
    (scanNumber c cs).Within (barredKinds false) cs := by
  unfold scanNumber
  dsimp only
  split
  · rename_i h
    obtain ⟨ds, hds⟩ := List.head?_eq_some_iff.mp h.2.1
    have hrun := runExtent_le (fun d => (digit? 16 d).isSome) ds
    have hlen := congrArg List.length hds
    rw [List.length_drop, List.length_cons] at hlen
    rw [hds, List.tail_cons]
    exact .lexeme (by omega) (by decide)
  · exact .lexeme (numeralExtent_le cs) (by decide)

theorem scanDot_within (cs : Text) : (scanDot cs).Within (barredKinds false) cs := by
  unfold scanDot
  split
  · exact .lexeme (Nat.zero_le _) (by decide)
  · rename_i n hn
    have := fractionExtent_le cs
    unfold fractionExtent at this
    rw [hn] at this
    exact .lexeme this (by decide)

theorem scanHash_within (cs : Text) : (scanHash cs).Within (barredKinds false) cs := by
  unfold scanHash
  split
  · exact .lexeme (Nat.le_refl _) (by decide)
  · rename_i d ds
    split
    · exact .lexeme (by simp) (by decide)
    split
    · refine .lexeme ?_ (by decide)
      split
      · rename_i h
        obtain ⟨es, rfl⟩ := List.head?_eq_some_iff.mp h
        simp
      · simp
    split
    · exact .lexeme (Nat.zero_le _) (by decide)
    · exact scanWord_within '#' (by simp)

theorem scanAt_within (cs : Text) : (scanAt cs).Within (barredKinds false) cs := by
  unfold scanAt
  split
  · exact .lexeme (Nat.le_refl _) (by decide)
  · rename_i d ds
    split
    · exact .lexeme (by simp) (by decide)
    split
    · split
      · exact .lexeme (by simp) (by decide)
      · rename_i h
        have hne : ds ≠ [] := fun hds => h (Or.inl hds)
        have := List.length_pos_iff.mpr hne
        exact scanWord_within '@' (by rw [List.length_cons]; omega)
    split
    · exact .lexeme (Nat.zero_le _) (by decide)
    · exact scanWord_within '@' (by simp)

theorem scanDollar_within (cs : Text) : (scanDollar cs).Within (barredKinds false) cs := by
  unfold scanDollar
  split
  · rename_i h
    obtain ⟨ds, rfl⟩ := List.head?_eq_some_iff.mp h
    refine .ofExtent (fun n hn => ?_) (by decide)
    have := dollarExtent_le hn
    rw [List.tail_cons] at this
    rw [List.length_cons]
    omega
  · dsimp only
    have htag := runExtent_le isTagChar cs
    unfold runExtent at htag
    split
    · rename_i h
      obtain ⟨ds, hds⟩ := List.head?_eq_some_iff.mp h
      have hlen := congrArg List.length hds
      rw [List.length_drop, List.length_cons] at hlen
      refine .ofExtent (fun n hn => ?_) (by decide)
      rw [hds, List.tail_cons] at hn
      have := taggedExtent_le hn
      omega
    · exact .lexeme htag (by decide)

theorem scan_word_within {c : Char} (hc : isAlphabetic c ∨ c = '_') (cs : Text) :
    (scan c cs).Within (barredKinds false) cs := by
  by_cases hq : isStringPrefix c ∧ cs.head? = some '\''
  · obtain ⟨hstring, hhead⟩ := hq
    obtain ⟨ds, rfl⟩ := List.head?_eq_some_iff.mp hhead
    rcases isStringPrefix_cases hstring with hN | hE
    · rw [scan_national hN]
      refine .ofExtent (fun n hn => ?_) (by decide)
      have := escapedExtent_le hn
      rw [List.length_cons]
      omega
    · rw [scan_encoded hE]
      refine .ofExtent (fun n hn => ?_) (by decide)
      have := encodedExtent_le hn
      rw [List.length_cons]
      omega
  · rw [scan_word hc fun hstring hhead => hq ⟨hstring, hhead⟩]
    exact scanWord_within c (Nat.zero_le _)

theorem scan_operator_within {c : Char} (hc : [c] ∈ operatorTexts) {cs : Text}
    (hblock : ¬ (c = '/' ∧ cs.head? = some '*')) : (scan c cs).Within (barredKinds false) cs := by
  by_cases hline : c = '-' ∧ cs.head? = some '-'
  · obtain ⟨rfl, hhead⟩ := hline
    obtain ⟨ds, rfl⟩ := List.head?_eq_some_iff.mp hhead
    rw [scan_lineComment]
    exact .lexeme (Nat.succ_le_succ (lineExtent_le ds)) (by decide)
  · rw [scan_operator hc (fun h hd => hline ⟨h, hd⟩) (fun h hd => hblock ⟨h, hd⟩)]
    have := operatorLength_le (c :: cs)
    rw [List.length_cons] at this
    exact .lexeme (by omega) (by decide)

theorem scan_within (c : Char) (cs : Text) :
    (scan c cs).Within (barredKinds (c = '/' ∧ cs.head? = some '*')) cs := by
  by_cases hblock : c = '/' ∧ cs.head? = some '*'
  · rw [decide_eq_true hblock]
    obtain ⟨rfl, hhead⟩ := hblock
    obtain ⟨ds, rfl⟩ := List.head?_eq_some_iff.mp hhead
    rw [scan_blockComment]
    refine .ofExtent (fun n hn => ?_) (by decide)
    have := commentExtent_le hn
    rw [List.length_cons]
    omega
  rw [decide_eq_false hblock]
  cases lead c with
  | space h =>
      rw [scan_space h]
      exact .lexeme (Nat.zero_le _) (by decide)
  | carriageReturn =>
      rw [scan_return]
      refine .lexeme ?_ (by decide)
      split
      · rename_i h
        obtain ⟨ds, rfl⟩ := List.head?_eq_some_iff.mp h
        simp
      · exact Nat.zero_le _
  | quote =>
      rw [scan_quote]
      exact .ofExtent (fun n hn => by simpa using (closeExtent_le _ hn).2) (by decide)
  | name q h =>
      rw [scan_name h]
      exact .ofExtent (fun n hn => by simpa using (closeExtent_le _ hn).2) (by decide)
  | digit h => exact scan_digit h cs ▸ scanNumber_within c cs
  | dot => exact scan_dot cs ▸ scanDot_within cs
  | punctuation kind h =>
      rw [scan_punctuation h]
      refine .lexeme (Nat.zero_le _) ?_
      rcases h with ⟨-, rfl⟩ | ⟨-, rfl⟩ | ⟨-, rfl⟩ | ⟨-, rfl⟩ <;> decide
  | operator h => exact scan_operator_within h hblock
  | hash => exact scan_hash cs ▸ scanHash_within cs
  | atSign => exact scan_at cs ▸ scanAt_within cs
  | question =>
      rw [scan_question]
      exact .lexeme (runExtent_le _ _) (by decide)
  | word h => exact scan_word_within h cs
  | dollar => exact scan_dollar cs ▸ scanDollar_within cs
  | single plain sign word =>
      rw [scan_single plain sign word]
      refine .lexeme (Nat.zero_le _) ?_
      split <;> decide

/-! ## Kinds -/

/-- The kinds of the lexemes that begin like a word or a number. -/
def partKinds : List Kind :=
  [.keyword, .identifier, .atName, .stringLiteral, .numberLiteral, .symbol]

/-- A lexeme, if there is one, has one of the kinds. -/
def Scan.HasKind (s : Scan) (kinds : List Kind) : Prop :=
  ∀ kind n, s = .lexeme kind n → kind ∈ kinds

theorem Scan.HasKind.lexeme {kind : Kind} {n : Nat} {kinds : List Kind} (h : kind ∈ kinds) :
    (Scan.lexeme kind n).HasKind kinds := by
  intro k m heq
  obtain ⟨rfl, -⟩ := Scan.lexeme.inj heq
  exact h

theorem Scan.HasKind.ofExtent {kind : Kind} {fault : Fault} {offset skipped : Nat}
    {extent : Option Nat} {kinds : List Kind} (h : kind ∈ kinds) :
    (Scan.ofExtent kind fault offset skipped extent).HasKind kinds := by
  cases extent with
  | none => exact fun _ _ heq => nomatch heq
  | some n => exact .lexeme h

theorem scanWord_hasKind (c : Char) (forced : Nat) (cs : Text) :
    (scanWord c forced cs).HasKind partKinds := by
  refine .lexeme ?_
  unfold wordKind
  split
  · decide
  · split <;> decide

theorem scanNumber_hasKind (c : Char) (cs : Text) : (scanNumber c cs).HasKind partKinds := by
  unfold scanNumber
  dsimp only
  split <;> exact .lexeme (by decide)

theorem scanHash_hasKind (cs : Text) : (scanHash cs).HasKind partKinds := by
  unfold scanHash
  split
  · exact .lexeme (by decide)
  split
  · exact .lexeme (by decide)
  split
  · exact .lexeme (by decide)
  split
  · exact .lexeme (by decide)
  · exact scanWord_hasKind _ _ _

theorem scanAt_hasKind (cs : Text) : (scanAt cs).HasKind partKinds := by
  unfold scanAt
  split
  · exact .lexeme (by decide)
  split
  · exact .lexeme (by decide)
  split
  · split
    · exact .lexeme (by decide)
    · exact scanWord_hasKind _ _ _
  split
  · exact .lexeme (by decide)
  · exact scanWord_hasKind _ _ _

theorem scanDollar_hasKind (cs : Text) : (scanDollar cs).HasKind partKinds := by
  unfold scanDollar
  split
  · exact .ofExtent (by decide)
  dsimp only
  split
  · exact .ofExtent (by decide)
  · exact .lexeme (by decide)

theorem scan_word_hasKind {c : Char} (hc : isAlphabetic c ∨ c = '_') (cs : Text) :
    (scan c cs).HasKind partKinds := by
  by_cases hq : isStringPrefix c ∧ cs.head? = some '\''
  · obtain ⟨hstring, hhead⟩ := hq
    obtain ⟨ds, rfl⟩ := List.head?_eq_some_iff.mp hhead
    rcases isStringPrefix_cases hstring with hN | hE
    · rw [scan_national hN]
      exact .ofExtent (by decide)
    · rw [scan_encoded hE]
      exact .ofExtent (by decide)
  · rw [scan_word hc fun hstring hhead => hq ⟨hstring, hhead⟩]
    exact scanWord_hasKind _ _ _

theorem scan_part_hasKind {c : Char} (hc : isIdentifierPart c) (cs : Text) :
    (scan c cs).HasKind partKinds := by
  simp only [isIdentifierPart, Bool.or_eq_true, decide_eq_true_eq, or_assoc] at hc
  rcases hc with halpha | hdigit | rfl | rfl | rfl | hunderscore
  · exact scan_word_hasKind (Or.inl halpha) cs
  · rw [scan_digit hdigit]
    exact scanNumber_hasKind c cs
  · rw [scan_at]
    exact scanAt_hasKind cs
  · rw [scan_dollar]
    exact scanDollar_hasKind cs
  · rw [scan_hash]
    exact scanHash_hasKind cs
  · exact scan_word_hasKind (Or.inr hunderscore) cs

end Lexeme

end Tsql
