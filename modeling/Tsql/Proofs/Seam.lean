import Tsql.Proofs.Scan

/-!
# Seams between lexemes

Where a lexeme ends depends on what stands behind it: a word goes on as
long as letters follow, a quote ends a string unless another follows, a
number takes an exponent. `stops` lists, kind by kind, what must not
stand behind a lexeme, and `cuts_iff` says that this list is complete:

    a text is cut off as a lexeme before `rest`
      ↔ it is a lexeme by itself and `rest` lets it stop.

So whatever is put between two lexemes, or taken away, a seam is judged
by the lexeme before it and the three characters behind it
(`stops_take_three`). Everything that reads a text made of tokens again
rests on this.
-/

namespace Tsql

namespace Lexeme

/-! ## What may stand behind a lexeme -/

/-- A word goes on as long as word characters follow; one of the letters
that begin strings does not stand before a quote. -/
def wordStops (text rest : Text) : Bool :=
  !rest.head?.any isIdentifierPart &&
    !(text.length = 1 && text.all isStringPrefix && rest.head? = some '\'')

/-- An operator goes on as long as it stays one; two of them begin
comments. -/
def operatorStops (text rest : Text) : Bool :=
  !(rest.head?.any fun d => operatorTexts.contains (text ++ [d])) &&
    !(text = ['-'] && rest.head? = some '-') && !(text = ['/'] && rest.head? = some '*')

/-- The signs that begin words unless a blank or nothing follows. -/
def signStops (rest : Text) : Bool := rest.head?.all (· = ' ')

/-- The symbols by their first character. -/
def symbolStops (text rest : Text) : Bool :=
  match text with
  | [] => true
  | c :: cs =>
    if c = 'E' ∨ c = 'e' then rest.head? ≠ some '\''
    else if [c] ∈ operatorTexts then operatorStops text rest
    else if c = '#' then
      if cs = [] then signStops rest
      else !(cs = ['>'] && rest.head? = some '>')
    else if c = '@' then
      if cs = [] ∨ cs = ['@'] then signStops rest else true
    else if c = '?' then !rest.head?.any isNumeric
    else if c = '$' then
      !(cs.all isTagChar && rest.head?.any fun d => isTagChar d || d = '$')
    else true

/-- Whether the characters behind a lexeme leave it as it is. -/
def stops (kind : Kind) (text rest : Text) : Bool :=
  match kind with
  | .keyword | .identifier | .atName => wordStops text rest
  | .quotedIdentifier => rest.head? ≠ some (if text.head? = some '[' then ']' else '"')
  | .stringLiteral =>
    if text.head? = some '0' then !rest.head?.any fun d => (digit? 16 d).isSome
    else rest.head? ≠ some '\''
  | .numberLiteral =>
    numberStops text rest && !(text = ['0'] && rest.head? = some 'x')
  | .dot => !rest.head?.any Char.isDigit
  | .symbol => symbolStops text rest
  | .lineComment => text.getLast? = some '\n' || rest = []
  | .whitespace => !(text = ['\r'] && rest.head? = some '\n')
  | _ => true

/-- Nothing behind a lexeme leaves it as it is. -/
theorem stops_nil (kind : Kind) {text : Text} (h : text ≠ []) : stops kind text [] = true := by
  cases kind <;>
    simp [stops, wordStops, numberStops, symbolStops, operatorStops, signStops, exponentExtent]
  cases text <;> rfl

/-- A text is cut off as a lexeme before `rest`. -/
def Cuts (kind : Kind) : Text → Text → Prop
  | [], _ => False
  | c :: cs, rest => scan c (cs ++ rest) = .lexeme kind cs.length

instance (kind : Kind) (text rest : Text) : Decidable (Cuts kind text rest) :=
  match text with
  | [] => inferInstanceAs (Decidable False)
  | c :: cs => inferInstanceAs (Decidable (scan c (cs ++ rest) = .lexeme kind cs.length))

/-! ## What is behind a lexeme, one rule at a time -/

theorem stops_wordKind (word text rest : Text) :
    stops (wordKind word) text rest = wordStops text rest := by
  unfold wordKind
  split
  · rfl
  · split <;> rfl

/-- A lexeme that what is behind it leaves alone. -/
theorem kind_and_stops_iff {k kind : Kind} {text rest : Text} {p : Prop}
    (h : stops k text rest = true) :
    (k = kind ∧ p) ↔ (k = kind ∧ p) ∧ stops kind text rest = true := by
  constructor
  · rintro ⟨rfl, hp⟩
    exact ⟨⟨rfl, hp⟩, h⟩
  · exact And.left

theorem scanWord_append_iff (c : Char) {forced : Nat} {cs : Text} (hf : forced ≤ cs.length)
    (rest : Text) (kind : Kind) :
    scanWord c forced (cs ++ rest) = .lexeme kind cs.length ↔
      scanWord c forced cs = .lexeme kind cs.length ∧
        rest.head?.any isIdentifierPart = false := by
  have hdrop : (cs.drop forced).length = cs.length - forced := List.length_drop
  have hwhole : ∀ ds : Text,
      forced + runExtent isIdentifierPart (cs.drop forced ++ ds) = cs.length ↔
        runExtent isIdentifierPart (cs.drop forced ++ ds) = (cs.drop forced).length := by
    intro ds
    omega
  have hself := hwhole []
  rw [List.append_nil] at hself
  unfold scanWord
  simp only [List.drop_append_of_le_length hf, Scan.lexeme.injEq]
  constructor
  · rintro ⟨hkind, hlen⟩
    obtain ⟨hrun, hrest⟩ := (runExtent_append_iff _ _ _).mp ((hwhole rest).mp hlen)
    have hlen' := hself.mpr hrun
    rw [hlen, List.take_left' rfl] at hkind
    rw [hlen', List.take_length]
    exact ⟨⟨hkind, rfl⟩, hrest⟩
  · rintro ⟨⟨hkind, hlen⟩, hrest⟩
    have hlen' := (hwhole rest).mpr ((runExtent_append_iff _ _ _).mpr ⟨hself.mp hlen, hrest⟩)
    rw [hlen, List.take_length] at hkind
    rw [hlen', List.take_left' rfl]
    exact ⟨hkind, rfl⟩

theorem string_append_iff {c : Char} (hc : isStringPrefix c) (cs rest : Text) (kind : Kind) :
    scan c ('\'' :: cs ++ rest) = .lexeme kind ('\'' :: cs).length ↔
      scan c ('\'' :: cs) = .lexeme kind ('\'' :: cs).length ∧
        stops kind (c :: '\'' :: cs) rest = true := by
  rw [List.cons_append, List.length_cons]
  rcases isStringPrefix_cases hc with hN | hE
  · have hzero : c ≠ '0' := by rcases hN with rfl | rfl | rfl | rfl <;> decide
    rw [scan_national hN, scan_national hN, ofExtent_eq_lexeme_iff, ofExtent_eq_lexeme_iff,
      escapedExtent_append_iff, and_assoc]
    refine and_congr_right fun hkind => and_congr_right fun _ => ?_
    subst hkind
    simp [stops, hzero]
  · rw [scan_encoded hE, scan_encoded hE, ofExtent_eq_lexeme_iff, ofExtent_eq_lexeme_iff,
      encodedExtent_append_iff, and_assoc]
    refine and_congr_right fun hkind => and_congr_right fun _ => ?_
    subst hkind
    simp [stops, symbolStops, hE]

theorem word_append_iff {c : Char} (hc : isAlphabetic c ∨ c = '_') (cs rest : Text) (kind : Kind) :
    scan c (cs ++ rest) = .lexeme kind cs.length ↔
      scan c cs = .lexeme kind cs.length ∧ stops kind (c :: cs) rest = true := by
  by_cases hq : isStringPrefix c ∧ (cs ++ rest).head? = some '\''
  · obtain ⟨hstring, hhead⟩ := hq
    cases cs with
    | cons d ds =>
        obtain rfl : d = '\'' := Option.some.inj hhead
        exact string_append_iff hstring ds rest kind
    | nil =>
        obtain ⟨ds, rfl⟩ := List.head?_eq_some_iff.mp hhead
        refine ⟨fun h => absurd h (scan_string_ne hstring ds kind), ?_⟩
        · rintro ⟨h, hstop⟩
          rw [scan_word hc (by simp)] at h
          obtain ⟨word, rfl⟩ := scanWord_kind h
          rw [stops_wordKind] at hstop
          simp [wordStops, hstring] at hstop
  · have hq' : isStringPrefix c → cs.head? ≠ some '\'' := by
      intro hstring hhead
      refine hq ⟨hstring, ?_⟩
      rw [List.head?_append, hhead]
      rfl
    rw [scan_word hc (fun hstring hhead => hq ⟨hstring, hhead⟩), scan_word hc hq',
      scanWord_append_iff c (Nat.zero_le _)]
    refine and_congr_right fun h => ?_
    obtain ⟨word, rfl⟩ := scanWord_kind h
    rw [stops_wordKind]
    cases cs with
    | nil =>
        have hfree : isStringPrefix c = false ∨ ¬ rest.head? = some '\'' := by
          cases hstring : isStringPrefix c with
          | false => exact Or.inl rfl
          | true => exact Or.inr fun hhead => hq ⟨hstring, hhead⟩
        simpa [wordStops] using fun _ => hfree
    | cons d ds => simp [wordStops]

theorem digit_append_iff {c : Char} (hc : c.isDigit) (cs rest : Text) (kind : Kind) :
    scan c (cs ++ rest) = .lexeme kind cs.length ↔
      scan c cs = .lexeme kind cs.length ∧ stops kind (c :: cs) rest = true := by
  rw [scan_digit hc, scan_digit hc]
  -- a binary literal, or the zero before one
  have hhex : ∀ ds : Text, scanNumber '0' ('x' :: ds) =
      .lexeme .stringLiteral (runExtent (fun d => (digit? 16 d).isSome) ds + 1) := by
    intro ds
    have hx : ('x' : Char).isDigit = false := by decide
    simp [scanNumber, runExtent_cons, hx, Nat.add_comm]
  have hnumber : ∀ ds : Text, ¬ (c = '0' ∧ ds.head? = some 'x') →
      scanNumber c ds = .lexeme .numberLiteral (numeralExtent ds) := by
    intro ds hds
    have hcond : ¬ (c = '0' ∧ (ds.drop (runExtent Char.isDigit ds)).head? = some 'x' ∧
        runExtent Char.isDigit ds = 0) := by
      rintro ⟨h0, hx, hrun⟩
      rw [hrun, List.drop_zero] at hx
      exact hds ⟨h0, hx⟩
    unfold scanNumber numeralExtent
    rw [if_neg hcond]
  by_cases hx : c = '0' ∧ (cs ++ rest).head? = some 'x'
  · obtain ⟨rfl, hhead⟩ := hx
    cases cs with
    | cons d ds =>
        obtain rfl : d = 'x' := Option.some.inj hhead
        rw [List.cons_append, hhex, hhex, List.length_cons]
        simp only [Scan.lexeme.injEq, Nat.add_right_cancel_iff, runExtent_append_iff, and_assoc]
        refine and_congr_right fun hkind => and_congr_right fun _ => ?_
        subst hkind
        simp [stops]
    | nil =>
        obtain ⟨ds, rfl⟩ := List.head?_eq_some_iff.mp hhead
        rw [List.nil_append, hhex, hnumber [] (by simp)]
        refine ⟨fun h => ?_, ?_⟩
        · simp at h
        · rintro ⟨h, hstop⟩
          obtain rfl := (Scan.lexeme.inj h).1
          simp [stops] at hstop
  · have hx' : ¬ (c = '0' ∧ cs.head? = some 'x') := by
      rintro ⟨h0, hhead⟩
      refine hx ⟨h0, ?_⟩
      rw [List.head?_append, hhead]
      rfl
    rw [hnumber _ hx, hnumber _ hx']
    simp only [Scan.lexeme.injEq, numeralExtent_append_iff, and_assoc]
    refine and_congr_right fun hkind => and_congr_right fun _ => ?_
    subst hkind
    have hzero : (decide (c :: cs = ['0']) && decide (rest.head? = some 'x')) = false := by
      rw [← Bool.not_eq_true, Bool.and_eq_true, decide_eq_true_eq, decide_eq_true_eq]
      rintro ⟨htext, hhead⟩
      obtain ⟨rfl, rfl⟩ := List.cons.inj htext
      exact hx ⟨rfl, hhead⟩
    simp only [stops, numberStops_cons_digit hc, hzero, Bool.not_false, Bool.and_true]

theorem dot_append_iff (cs rest : Text) (kind : Kind) :
    scan '.' (cs ++ rest) = .lexeme kind cs.length ↔
      scan '.' cs = .lexeme kind cs.length ∧ stops kind ('.' :: cs) rest = true := by
  rw [scan_dot, scan_dot]
  have hdot : ∀ ds : Text, ds.head?.any Char.isDigit = false → scanDot ds = .lexeme .dot 0 := by
    intro ds hds
    unfold scanDot
    rw [(runExtent_eq_zero_iff _ _).mpr hds]
  have hnumber : ∀ ds : Text, ds.head?.any Char.isDigit = true →
      scanDot ds = .lexeme .numberLiteral (fractionExtent ds) := by
    intro ds hds
    obtain ⟨n, hn⟩ := exists_runExtent_eq_succ hds
    unfold scanDot fractionExtent
    rw [hn]
  cases cs with
  | nil =>
      rw [List.nil_append, hdot [] rfl]
      cases hrest : rest.head?.any Char.isDigit with
      | false =>
          rw [hdot rest hrest]
          simp only [Scan.lexeme.injEq]
          exact kind_and_stops_iff (by simp [stops, hrest])
      | true =>
          rw [hnumber rest hrest]
          refine ⟨fun h => ?_, ?_⟩
          · have hlen := (Scan.lexeme.inj h).2
            obtain ⟨n, hn⟩ := exists_runExtent_eq_succ hrest
            unfold fractionExtent at hlen
            rw [hn, List.length_nil] at hlen
            omega
          · rintro ⟨h, hstop⟩
            obtain rfl := (Scan.lexeme.inj h).1
            simp [stops, hrest] at hstop
  | cons d ds =>
      by_cases hd : d.isDigit
      · rw [hnumber _ (by simpa using hd), hnumber _ (by simpa using hd)]
        simp only [Scan.lexeme.injEq, fractionExtent_append_iff, and_assoc]
        refine and_congr_right fun hkind => and_congr_right fun _ => ?_
        subst hkind
        rw [← numberStops_cons_dot (by simp)]
        simp [stops]
      · rw [hdot _ (by simpa using hd), hdot _ (by simpa using hd)]
        simp

theorem lineComment_append_iff {cs rest : Text} (hhead : (cs ++ rest).head? = some '-')
    (kind : Kind) :
    scan '-' (cs ++ rest) = .lexeme kind cs.length ↔
      scan '-' cs = .lexeme kind cs.length ∧ stops kind ('-' :: cs) rest = true := by
  cases cs with
  | cons d ds =>
      obtain rfl : d = '-' := Option.some.inj hhead
      rw [List.cons_append, scan_lineComment, scan_lineComment, List.length_cons]
      simp only [Scan.lexeme.injEq, Nat.add_right_cancel_iff, lineExtent_append_iff, and_assoc]
      refine and_congr_right fun hkind => and_congr_right fun _ => ?_
      subst hkind
      cases ds with
      | nil => simp [stops]
      | cons e ds => simp [stops]
  | nil =>
      -- a minus sign by itself, which a second one takes into a comment
      have hop : ['-'] ∈ operatorTexts := by decide +kernel
      obtain ⟨ds, rfl⟩ := List.head?_eq_some_iff.mp hhead
      rw [List.nil_append, scan_lineComment, scan_operator hop (by simp) (by simp)]
      refine ⟨fun h => ?_, ?_⟩
      · have := (Scan.lexeme.inj h).2
        rw [List.length_nil] at this
        omega
      · rintro ⟨h, hstop⟩
        obtain rfl := (Scan.lexeme.inj h).1
        simp [stops, symbolStops, hop, operatorStops] at hstop

theorem blockComment_append_iff {cs rest : Text} (hhead : (cs ++ rest).head? = some '*')
    (kind : Kind) :
    scan '/' (cs ++ rest) = .lexeme kind cs.length ↔
      scan '/' cs = .lexeme kind cs.length ∧ stops kind ('/' :: cs) rest = true := by
  cases cs with
  | cons d ds =>
      obtain rfl : d = '*' := Option.some.inj hhead
      rw [List.cons_append, scan_blockComment, scan_blockComment,
        show ('*' :: ds).length = ds.length + 1 from rfl, ofExtent_eq_lexeme_iff,
        ofExtent_eq_lexeme_iff, commentExtent_append_iff]
      exact kind_and_stops_iff rfl
  | nil =>
      have hop : ['/'] ∈ operatorTexts := by decide +kernel
      obtain ⟨ds, rfl⟩ := List.head?_eq_some_iff.mp hhead
      rw [List.nil_append, scan_blockComment, scan_operator hop (by simp) (by simp)]
      refine ⟨fun h => absurd h (ofExtent_ne_lexeme Nat.one_pos), ?_⟩
      rintro ⟨h, hstop⟩
      obtain rfl := (Scan.lexeme.inj h).1
      simp [stops, symbolStops, hop, operatorStops] at hstop

/-- An operator before which no comment begins. -/
theorem stops_operator {c : Char} (hc : [c] ∈ operatorTexts) {cs rest : Text}
    (hline : ¬ (c = '-' ∧ (cs ++ rest).head? = some '-'))
    (hblock : ¬ (c = '/' ∧ (cs ++ rest).head? = some '*')) :
    stops .symbol (c :: cs) rest =
      !(rest.head?.any fun d => operatorTexts.contains (c :: cs ++ [d])) := by
  have hname : ¬ (c = 'E' ∨ c = 'e') := by
    rintro (rfl | rfl) <;> exact absurd hc (by decide +kernel)
  have hminus : (decide (c :: cs = ['-']) && decide (rest.head? = some '-')) = false := by
    rw [← Bool.not_eq_true, Bool.and_eq_true, decide_eq_true_eq, decide_eq_true_eq]
    rintro ⟨htext, hd⟩
    obtain ⟨rfl, rfl⟩ := List.cons.inj htext
    exact hline ⟨rfl, hd⟩
  have hslash : (decide (c :: cs = ['/']) && decide (rest.head? = some '*')) = false := by
    rw [← Bool.not_eq_true, Bool.and_eq_true, decide_eq_true_eq, decide_eq_true_eq]
    rintro ⟨htext, hd⟩
    obtain ⟨rfl, rfl⟩ := List.cons.inj htext
    exact hblock ⟨rfl, hd⟩
  simp only [stops, symbolStops, if_neg hname, if_pos hc, operatorStops, hminus, hslash,
    Bool.not_false, Bool.and_true]

theorem operator_append_iff {c : Char} (hc : [c] ∈ operatorTexts) (cs rest : Text) (kind : Kind) :
    scan c (cs ++ rest) = .lexeme kind cs.length ↔
      scan c cs = .lexeme kind cs.length ∧ stops kind (c :: cs) rest = true := by
  by_cases hline : c = '-' ∧ (cs ++ rest).head? = some '-'
  · obtain ⟨rfl, hhead⟩ := hline
    exact lineComment_append_iff hhead kind
  by_cases hblock : c = '/' ∧ (cs ++ rest).head? = some '*'
  · obtain ⟨rfl, hhead⟩ := hblock
    exact blockComment_append_iff hhead kind
  have hhead : ∀ d : Char, cs.head? = some d → (cs ++ rest).head? = some d := by
    intro d hd
    rw [List.head?_append, hd]
    rfl
  rw [scan_operator hc (fun h hd => hline ⟨h, hd⟩) (fun h hd => hblock ⟨h, hd⟩),
    scan_operator hc (fun h hd => hline ⟨h, hhead _ hd⟩)
      (fun h hd => hblock ⟨h, hhead _ hd⟩)]
  have hpos : ∀ ds : Text, operatorLength (c :: ds) - 1 = cs.length ↔
      operatorLength (c :: ds) = (c :: cs).length := by
    intro ds
    have := (operatorLength_pos_iff c ds).mpr hc
    rw [List.length_cons]
    omega
  simp only [Scan.lexeme.injEq, hpos]
  rw [← List.cons_append, operatorLength_append_iff, and_assoc]
  refine and_congr_right fun hkind => and_congr_right fun _ => ?_
  subst hkind
  rw [stops_operator hc hline hblock, Bool.not_eq_true']

/-- A word behind a sign. -/
theorem scanWord_sign_append_iff {c : Char} (hc : isStringPrefix c = false) {forced : Nat}
    {cs : Text} (hf : forced ≤ cs.length) (rest : Text) (kind : Kind) :
    scanWord c forced (cs ++ rest) = .lexeme kind cs.length ↔
      scanWord c forced cs = .lexeme kind cs.length ∧ stops kind (c :: cs) rest = true := by
  rw [scanWord_append_iff c hf]
  refine and_congr_right fun h => ?_
  obtain ⟨word, rfl⟩ := scanWord_kind h
  simp [stops_wordKind, wordStops, hc]

/-- A sign by itself, where only a blank keeps it from beginning something
longer. -/
theorem bare_append_iff {scanSign : Text → Scan} {c : Char} {kind : Kind}
    (hnil : scanSign [] = .lexeme .symbol 0)
    (hbare : ∀ d ds, scanSign (d :: ds) = .lexeme kind 0 ↔ Kind.symbol = kind ∧ d = ' ')
    (hstops : ∀ rest, stops .symbol [c] rest = signStops rest) (rest : Text) :
    scanSign rest = .lexeme kind 0 ↔
      scanSign [] = .lexeme kind 0 ∧ stops kind [c] rest = true := by
  cases rest with
  | nil => simp [stops_nil]
  | cons d ds =>
      rw [hbare, hnil]
      constructor
      · rintro ⟨rfl, rfl⟩
        exact ⟨rfl, by rw [hstops]; rfl⟩
      · rintro ⟨h, hstop⟩
        obtain rfl := (Scan.lexeme.inj h).1
        rw [hstops] at hstop
        exact ⟨rfl, by simpa [signStops] using hstop⟩

theorem stops_hash (cs rest : Text) :
    stops .symbol ('#' :: cs) rest =
      if cs = [] then signStops rest else !(cs = ['>'] && rest.head? = some '>') := by
  have hop : [('#' : Char)] ∉ operatorTexts := by decide +kernel
  simp [stops, symbolStops, hop]

theorem scanHash_bare_iff (d : Char) (ds : Text) (kind : Kind) :
    scanHash (d :: ds) = .lexeme kind 0 ↔ Kind.symbol = kind ∧ d = ' ' := by
  unfold scanHash scanWord
  dsimp only
  split
  · rename_i hd
    simp [hd]
  split
  · rename_i hd
    split <;> simp [hd]
  split
  · rename_i hd
    simp [hd]
  · rename_i hd
    simp [hd]

/-- An arrow goes on with one more head. -/
theorem hash_arrow_append_iff (ds rest : Text) (kind : Kind) :
    scanHash ('>' :: ds ++ rest) = .lexeme kind ('>' :: ds).length ↔
      scanHash ('>' :: ds) = .lexeme kind ('>' :: ds).length ∧
        stops kind ('#' :: '>' :: ds) rest = true := by
  have harrow : ∀ es : Text, scanHash ('>' :: es) =
      .lexeme .symbol (if es.head? = some '>' then 2 else 1) := by
    intro es
    simp [scanHash]
  rw [List.cons_append, harrow, harrow]
  cases ds with
  | nil =>
      rw [List.nil_append]
      by_cases hrest : rest.head? = some '>'
      · rw [if_pos hrest]
        refine ⟨fun h => ?_, ?_⟩
        · cases (Scan.lexeme.inj h).2
        · rintro ⟨h, hstop⟩
          obtain rfl := (Scan.lexeme.inj h).1
          simp [stops_hash, hrest] at hstop
      · rw [if_neg hrest]
        simp only [Scan.lexeme.injEq]
        exact kind_and_stops_iff (by simp [stops_hash, hrest])
  | cons e es =>
      simp only [List.cons_append, List.head?_cons, Scan.lexeme.injEq]
      exact kind_and_stops_iff (by simp [stops_hash])

theorem hash_append_iff (cs rest : Text) (kind : Kind) :
    scan '#' (cs ++ rest) = .lexeme kind cs.length ↔
      scan '#' cs = .lexeme kind cs.length ∧ stops kind ('#' :: cs) rest = true := by
  rw [scan_hash, scan_hash]
  cases cs with
  | nil =>
      exact bare_append_iff rfl (fun d ds => scanHash_bare_iff d ds kind)
        (fun rest => by simp [stops_hash]) rest
  | cons d ds =>
      by_cases harrow : d = '>'
      · subst harrow
        exact hash_arrow_append_iff ds rest kind
      rw [List.cons_append]
      unfold scanHash
      dsimp only
      by_cases hminus : d = '-'
      · rw [if_pos hminus, if_pos hminus]
        simp only [Scan.lexeme.injEq]
        exact kind_and_stops_iff (by simp [stops_hash, hminus])
      rw [if_neg hminus, if_neg hminus, if_neg harrow, if_neg harrow]
      by_cases hspace : d = ' '
      · rw [if_pos hspace, if_pos hspace]
        simp
      rw [if_neg hspace, if_neg hspace, ← List.cons_append]
      exact scanWord_sign_append_iff (by decide) (by simp) rest kind

theorem stops_at (cs rest : Text) :
    stops .symbol ('@' :: cs) rest = if cs = [] ∨ cs = ['@'] then signStops rest else true := by
  have hop : [('@' : Char)] ∉ operatorTexts := by decide +kernel
  simp [stops, symbolStops, hop]

/-- A word is longer than the characters it takes whatever they are. -/
theorem scanWord_ne {c : Char} {forced n : Nat} (h : n < forced) (cs : Text) (kind : Kind) :
    scanWord c forced cs ≠ .lexeme kind n := by
  intro heq
  have := (Scan.lexeme.inj heq).2
  omega

theorem scanAt_bare_iff (d : Char) (ds : Text) (kind : Kind) :
    scanAt (d :: ds) = .lexeme kind 0 ↔ Kind.symbol = kind ∧ d = ' ' := by
  unfold scanAt
  dsimp only
  split
  · rename_i hd
    rcases hd with rfl | rfl <;> simp
  split
  · rename_i hd
    subst hd
    split
    · simp
    · simp [scanWord_ne]
  split
  · rename_i hd
    simp [hd]
  · rename_i hd
    simp [scanWord_ne, hd]

/-- Two signs are a symbol before a blank and at the end. -/
theorem at_pair_append_iff (ds rest : Text) (kind : Kind) :
    scanAt ('@' :: ds ++ rest) = .lexeme kind ('@' :: ds).length ↔
      scanAt ('@' :: ds) = .lexeme kind ('@' :: ds).length ∧
        stops kind ('@' :: '@' :: ds) rest = true := by
  have hpair : ∀ es : Text, scanAt ('@' :: es) =
      if es = [] ∨ es.head? = some ' ' then .lexeme .symbol 1 else scanWord '@' 2 ('@' :: es) := by
    intro es
    simp [scanAt]
  rw [List.cons_append, hpair, hpair]
  cases ds with
  | nil =>
      have hstops : stops .symbol ['@', '@'] rest = signStops rest := by simp [stops_at]
      rw [List.nil_append, if_pos (Or.inl rfl)]
      by_cases hrest : rest = [] ∨ rest.head? = some ' '
      · rw [if_pos hrest]
        simp only [Scan.lexeme.injEq]
        apply kind_and_stops_iff
        rw [hstops]
        rcases hrest with rfl | hrest
        · rfl
        · simp [signStops, hrest]
      · rw [if_neg hrest]
        refine ⟨fun h => absurd h (scanWord_ne (by decide) _ _), ?_⟩
        rintro ⟨h, hstop⟩
        obtain rfl := (Scan.lexeme.inj h).1
        rw [hstops] at hstop
        refine absurd ?_ hrest
        cases rest with
        | nil => exact Or.inl rfl
        | cons e es => exact Or.inr (by simpa [signStops] using hstop)
  | cons e es =>
      by_cases he : e = ' '
      · simp [he]
      · rw [if_neg (by simp [he]), if_neg (by simp [he]), ← List.cons_append]
        exact scanWord_sign_append_iff (by decide) (by simp) rest kind

theorem at_append_iff (cs rest : Text) (kind : Kind) :
    scan '@' (cs ++ rest) = .lexeme kind cs.length ↔
      scan '@' cs = .lexeme kind cs.length ∧ stops kind ('@' :: cs) rest = true := by
  rw [scan_at, scan_at]
  cases cs with
  | nil =>
      exact bare_append_iff rfl (fun d ds => scanAt_bare_iff d ds kind)
        (fun rest => by simp [stops_at]) rest
  | cons d ds =>
      by_cases hat : d = '@'
      · subst hat
        exact at_pair_append_iff ds rest kind
      rw [List.cons_append]
      unfold scanAt
      dsimp only
      by_cases hpair : d = '>' ∨ d = '?'
      · rw [if_pos hpair, if_pos hpair]
        simp only [Scan.lexeme.injEq]
        exact kind_and_stops_iff (by simp [stops_at, hat])
      rw [if_neg hpair, if_neg hpair, if_neg hat, if_neg hat]
      by_cases hspace : d = ' '
      · rw [if_pos hspace, if_pos hspace]
        simp
      rw [if_neg hspace, if_neg hspace, ← List.cons_append]
      exact scanWord_sign_append_iff (by decide) (by simp) rest kind

theorem question_append_iff (cs rest : Text) (kind : Kind) :
    scan '?' (cs ++ rest) = .lexeme kind cs.length ↔
      scan '?' cs = .lexeme kind cs.length ∧ stops kind ('?' :: cs) rest = true := by
  have hop : [('?' : Char)] ∉ operatorTexts := by decide +kernel
  rw [scan_question, scan_question]
  simp only [Scan.lexeme.injEq, runExtent_append_iff, and_assoc]
  refine and_congr_right fun hkind => and_congr_right fun _ => ?_
  subst hkind
  simp [stops, symbolStops, hop]

theorem stops_dollar (cs rest : Text) :
    stops .symbol ('$' :: cs) rest =
      !(cs.all isTagChar && rest.head?.any fun d => isTagChar d || d = '$') := by
  have hop : [('$' : Char)] ∉ operatorTexts := by decide +kernel
  simp [stops, symbolStops, hop]

/-- A tag and nothing else, so that what follows decides. -/
theorem dollar_tag_append_iff {cs : Text} (hall : cs.all isTagChar = true) (rest : Text)
    (kind : Kind) :
    scanDollar (cs ++ rest) = .lexeme kind cs.length ↔
      scanDollar cs = .lexeme kind cs.length ∧ stops kind ('$' :: cs) rest = true := by
  have hrun : runExtent isTagChar cs = cs.length := (runExtent_eq_length_iff _ _).mpr hall
  have hself : scanDollar cs = .lexeme .symbol cs.length := by
    rw [← hrun]
    apply scanDollar_tag
    rw [hrun, List.drop_length]
    simp
  have hstops := stops_dollar cs rest
  rw [hall, Bool.true_and] at hstops
  rw [hself]
  cases hmore : rest.head?.any isTagChar with
  | true =>
      obtain ⟨n, hn⟩ := exists_runExtent_eq_succ hmore
      have hlong : cs.length < runExtent isTagChar (cs ++ rest) := by
        rw [runExtent_append hall, hn]
        omega
      refine ⟨fun h => absurd h (scanDollar_ne hlong kind), ?_⟩
      rintro ⟨h, hstop⟩
      obtain rfl := (Scan.lexeme.inj h).1
      rw [hstops] at hstop
      cases rest with
      | nil => cases hmore
      | cons d ds => simp_all
  | false =>
      have hrun' : runExtent isTagChar (cs ++ rest) = cs.length :=
        (runExtent_append_iff _ _ _).mpr ⟨hrun, hmore⟩
      have hdrop : (cs ++ rest).drop (runExtent isTagChar (cs ++ rest)) = rest := by
        rw [hrun', List.drop_left]
      by_cases hsign : rest.head? = some '$'
      · have hne := scanDollar_sign_ne (by rw [hdrop, hsign]) kind
        rw [hrun'] at hne
        refine ⟨fun h => absurd h hne, ?_⟩
        rintro ⟨h, hstop⟩
        obtain rfl := (Scan.lexeme.inj h).1
        simp [hstops, hsign] at hstop
      · rw [scanDollar_tag (by rw [hdrop]; exact hsign), hrun']
        simp only [Scan.lexeme.injEq]
        apply kind_and_stops_iff
        rw [hstops]
        cases rest with
        | nil => rfl
        | cons d ds => simp_all

/-- A tag that ends inside the text is the same whatever stands behind
the text. -/
theorem tag_append {cs : Text} (hall : cs.all isTagChar = false) (rest : Text) :
    ∃ x xs, cs.drop (cs.takeWhile isTagChar).length = x :: xs ∧
      (cs ++ rest).takeWhile isTagChar = cs.takeWhile isTagChar ∧
      (cs ++ rest).drop (cs.takeWhile isTagChar).length = x :: (xs ++ rest) ∧
      cs.length = xs.length + ((cs.takeWhile isTagChar).length + 1) := by
  have hshort : (cs.takeWhile isTagChar).length < cs.length := by
    refine Nat.lt_of_le_of_ne (runExtent_le isTagChar cs) fun hlen => ?_
    rw [(runExtent_eq_length_iff isTagChar cs).mp hlen] at hall
    cases hall
  obtain ⟨x, xs, hdrop⟩ : ∃ x xs, cs.drop (cs.takeWhile isTagChar).length = x :: xs := by
    apply List.exists_cons_of_length_pos
    rw [List.length_drop]
    omega
  refine ⟨x, xs, hdrop, ?_, ?_, ?_⟩
  · rw [List.takeWhile_append, if_neg (Nat.ne_of_lt hshort)]
  · rw [List.drop_append_of_le_length (Nat.le_of_lt hshort), hdrop, List.cons_append]
  · have hlen := congrArg List.length hdrop
    rw [List.length_drop, List.length_cons] at hlen
    omega

theorem dollar_quoted_append_iff {cs : Text} (hall : cs.all isTagChar = false) (rest : Text)
    (kind : Kind) :
    scanDollar (cs ++ rest) = .lexeme kind cs.length ↔
      scanDollar cs = .lexeme kind cs.length ∧ stops kind ('$' :: cs) rest = true := by
  have hstops : stops .symbol ('$' :: cs) rest = true := by
    rw [stops_dollar, hall]
    rfl
  by_cases hhead : cs.head? = some '$'
  · obtain ⟨ds, rfl⟩ := List.head?_eq_some_iff.mp hhead
    rw [List.cons_append]
    unfold scanDollar
    rw [List.head?_cons, if_pos rfl, List.head?_cons, if_pos rfl, List.tail_cons,
      List.tail_cons, show ('$' :: ds).length = ds.length + 1 from rfl,
      ofExtent_eq_lexeme_iff, ofExtent_eq_lexeme_iff, dollarExtent_append_iff]
    exact kind_and_stops_iff hstops
  · obtain ⟨x, xs, hdrop, htake, hdrop', hlen⟩ := tag_append hall rest
    have hhead' : (cs ++ rest).head? ≠ some '$' := by
      cases cs with
      | nil => simp at hall
      | cons d ds => exact hhead
    rw [scanDollar_of_head hhead, scanDollar_of_head hhead']
    dsimp only
    rw [htake, hdrop, hdrop', List.head?_cons, List.head?_cons, List.tail_cons, List.tail_cons]
    split
    · rw [hlen, ofExtent_eq_lexeme_iff, ofExtent_eq_lexeme_iff, taggedExtent_append_iff]
      exact kind_and_stops_iff hstops
    · simp only [Scan.lexeme.injEq]
      exact kind_and_stops_iff hstops

theorem dollar_append_iff (cs rest : Text) (kind : Kind) :
    scan '$' (cs ++ rest) = .lexeme kind cs.length ↔
      scan '$' cs = .lexeme kind cs.length ∧ stops kind ('$' :: cs) rest = true := by
  rw [scan_dollar, scan_dollar]
  cases hall : cs.all isTagChar with
  | true => exact dollar_tag_append_iff hall rest kind
  | false => exact dollar_quoted_append_iff hall rest kind

theorem quote_append_iff (cs rest : Text) (kind : Kind) :
    scan '\'' (cs ++ rest) = .lexeme kind cs.length ↔
      scan '\'' cs = .lexeme kind cs.length ∧ stops kind ('\'' :: cs) rest = true := by
  rw [scan_quote, scan_quote, ← Nat.add_zero cs.length, ofExtent_eq_lexeme_iff,
    ofExtent_eq_lexeme_iff, closeExtent_append_iff, and_assoc]
  refine and_congr_right fun hkind => and_congr_right fun _ => ?_
  subst hkind
  simp [stops]

theorem name_append_iff {c q : Char} (hc : (c = '"' ∧ q = '"') ∨ (c = '[' ∧ q = ']'))
    (cs rest : Text) (kind : Kind) :
    scan c (cs ++ rest) = .lexeme kind cs.length ↔
      scan c cs = .lexeme kind cs.length ∧ stops kind (c :: cs) rest = true := by
  rw [scan_name hc, scan_name hc, ← Nat.add_zero cs.length, ofExtent_eq_lexeme_iff,
    ofExtent_eq_lexeme_iff, closeExtent_append_iff, and_assoc]
  refine and_congr_right fun hkind => and_congr_right fun _ => ?_
  subst hkind
  rcases hc with ⟨rfl, rfl⟩ | ⟨rfl, rfl⟩ <;> simp [stops]

/-! ## The whole table -/

theorem return_append_iff (cs rest : Text) (kind : Kind) :
    scan '\r' (cs ++ rest) = .lexeme kind cs.length ↔
      scan '\r' cs = .lexeme kind cs.length ∧ stops kind ('\r' :: cs) rest = true := by
  rw [scan_return, scan_return]
  cases cs with
  | nil =>
      rw [List.nil_append]
      refine ⟨fun h => ?_, ?_⟩
      · obtain ⟨rfl, hlen⟩ := Scan.lexeme.inj h
        have hrest : rest.head? ≠ some '\n' := by
          intro hrest
          rw [if_pos hrest] at hlen
          cases hlen
        exact ⟨rfl, by simp [stops, hrest]⟩
      · rintro ⟨h, hstop⟩
        obtain rfl := (Scan.lexeme.inj h).1
        have hrest : rest.head? ≠ some '\n' := by simpa [stops] using hstop
        rw [if_neg hrest]
        rfl
  | cons d ds =>
      simp only [List.cons_append, List.head?_cons, Scan.lexeme.injEq]
      exact kind_and_stops_iff (by simp [stops])

/-- A character that is a lexeme whatever follows. -/
theorem append_iff_of_forall {c : Char} {k : Kind} (h : ∀ ds, scan c ds = .lexeme k 0)
    (hstops : ∀ rest, stops k [c] rest = true) (cs rest : Text) (kind : Kind) :
    scan c (cs ++ rest) = .lexeme kind cs.length ↔
      scan c cs = .lexeme kind cs.length ∧ stops kind (c :: cs) rest = true := by
  rw [h, h]
  refine ⟨fun heq => ⟨heq, ?_⟩, fun heq => heq.1⟩
  obtain ⟨rfl, hlen⟩ := Scan.lexeme.inj heq
  obtain rfl := List.length_eq_zero_iff.mp hlen.symm
  exact hstops rest

/-- A text is cut off before `rest` if it is a lexeme by itself and
`rest` lets it stop; there is no other way. -/
theorem scan_append_iff (c : Char) (cs rest : Text) (kind : Kind) :
    scan c (cs ++ rest) = .lexeme kind cs.length ↔
      scan c cs = .lexeme kind cs.length ∧ stops kind (c :: cs) rest = true := by
  cases lead c with
  | space h =>
      have hreturn : c ≠ '\r' := by rcases h with rfl | rfl | rfl <;> decide
      exact append_iff_of_forall (scan_space h) (by simp [stops, hreturn]) cs rest kind
  | carriageReturn => exact return_append_iff cs rest kind
  | quote => exact quote_append_iff cs rest kind
  | name q h => exact name_append_iff h cs rest kind
  | digit h => exact digit_append_iff h cs rest kind
  | dot => exact dot_append_iff cs rest kind
  | punctuation k h =>
      refine append_iff_of_forall (scan_punctuation h) (fun _ => ?_) cs rest kind
      rcases h with ⟨-, rfl⟩ | ⟨-, rfl⟩ | ⟨-, rfl⟩ | ⟨-, rfl⟩ <;> rfl
  | operator h => exact operator_append_iff h cs rest kind
  | hash => exact hash_append_iff cs rest kind
  | atSign => exact at_append_iff cs rest kind
  | question => exact question_append_iff cs rest kind
  | word h => exact word_append_iff h cs rest kind
  | dollar => exact dollar_append_iff cs rest kind
  | single plain sign word =>
      have hreturn : c ≠ '\r' := fun h => plain.ruled (h ▸ by decide)
      have hname : ¬ (c = 'E' ∨ c = 'e') := by
        rintro (rfl | rfl) <;> exact word (Or.inl (by decide))
      refine append_iff_of_forall (scan_single plain sign word) (fun _ => ?_) cs rest kind
      split
      · simp [stops, hreturn]
      · simp [stops, symbolStops, hname, plain.operator, sign]

theorem cuts_iff (kind : Kind) (text rest : Text) :
    Cuts kind text rest ↔ Cuts kind text [] ∧ stops kind text rest = true := by
  cases text with
  | nil => simp [Cuts]
  | cons c cs =>
      simp only [Cuts, List.append_nil]
      exact scan_append_iff c cs rest kind

/-! ## How far a seam looks -/

/-- Of what stands behind a lexeme, only the first character matters and
whether it begins an exponent. -/
theorem stops_congr (kind : Kind) (text : Text) {rest rest' : Text}
    (hhead : rest.head? = rest'.head?)
    (hexponent : exponentExtent rest = 0 ↔ exponentExtent rest' = 0) :
    stops kind text rest = stops kind text rest' := by
  have hnil : rest = [] ↔ rest' = [] := by
    rw [← List.head?_eq_none_iff, hhead, List.head?_eq_none_iff]
  cases kind <;>
    simp only [stops, wordStops, numberStops, symbolStops, operatorStops, signStops, hhead,
      hexponent, hnil]

/-- Three characters decide a seam. -/
theorem stops_take_three (kind : Kind) (text rest : Text) :
    stops kind text (rest.take 3) = stops kind text rest := by
  apply stops_congr
  · cases rest <;> rfl
  · rw [exponentExtent_eq_zero_iff, exponentExtent_eq_zero_iff]
    match rest with
    | [] | [_] | [_, _] | _ :: _ :: _ :: _ => simp

/-- A lexeme stays one where the three characters behind it are the
same. -/
theorem cuts_of_take_three {kind : Kind} {text rest rest' : Text} (h : Cuts kind text rest)
    (htake : rest.take 3 = rest'.take 3) : Cuts kind text rest' := by
  rw [cuts_iff] at h ⊢
  rw [← stops_take_three, ← htake, stops_take_three]
  exact h

/-- A character at which no exponent can begin or go on but by being a
digit: what stands behind it does not matter. -/
def closesSeam (c : Char) : Bool := !isExponentMark c && !isSign c

theorem exponentExtent_append_cons {c d : Char} (hc : closesSeam c) (hd : closesSeam d)
    (hdigit : c.isDigit = d.isDigit) (between r r' : Text) :
    exponentExtent (between ++ c :: r) = 0 ↔ exponentExtent (between ++ d :: r') = 0 := by
  simp only [closesSeam, Bool.and_eq_true, Bool.not_eq_true'] at hc hd
  rw [exponentExtent_eq_zero_iff, exponentExtent_eq_zero_iff]
  match between with
  | [] | [_] | [_, _] | _ :: _ :: _ :: _ => simp [hc, hd, hdigit]

end Lexeme

end Tsql
