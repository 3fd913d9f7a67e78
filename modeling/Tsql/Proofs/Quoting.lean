import Tsql.Proofs.GuardText

/-!
# Quoted names

Any name can be put between delimiters and taken out again
(`unquoteName_quoteName`), and what is put there is read as one lexeme
(`cuts_quoteName`). Conversely the reader gives the kind of a quoted name
to nothing but a text between delimiters: which ones they are is told by
the first character alone, and so is what may not follow. It takes a
closing delimiter inside for part of the name only where it is doubled, so
that the name can also be taken out first and put back
(`quoteName_unquoteName`).
-/

namespace Tsql

open Lexeme

/-! ## Between delimiters -/

theorem undoubled_cons_of_ne {c d : Char} (h : d ≠ c) (ds : Text) :
    undoubled c (d :: ds) = d :: undoubled c ds := by
  cases ds with
  | nil => rfl
  | cons e es => rw [undoubled, if_neg fun heq => h heq.1]

/-- Doubling is undone exactly. -/
theorem undoubled_doubled (c : Char) (text : Text) : undoubled c (doubled c text) = text := by
  induction text with
  | nil => rfl
  | cons d ds ih =>
      rw [doubled]
      split
      · rename_i hd
        rw [undoubled, if_pos ⟨rfl, rfl⟩, ih, hd]
      · rename_i hd
        rw [undoubled_cons_of_ne hd, ih]

theorem delimits_cons_concat (q : Quote) (inner : Text) :
    q.delimits (q.opener :: (inner ++ [q.closer])) = true := by
  rw [Quote.delimits, ← List.cons_append, List.getLast?_concat]
  simp

/-- The delimiters are told by the opening one. -/
theorem of?_eq_some_iff (text : Text) (q : Quote) :
    Quote.of? text = some q ↔ q.delimits text = true := by
  have hexcludes : Quote.bracket.delimits text = true → Quote.double.delimits text = false := by
    simp only [Quote.delimits, Bool.and_eq_true, decide_eq_true_eq, Bool.and_eq_false_iff,
      decide_eq_false_iff_not]
    rintro ⟨⟨-, hhead⟩, -⟩
    refine Or.inl (Or.inr ?_)
    rw [hhead]
    decide
  unfold Quote.of?
  cases q with
  | bracket => split <;> simp_all
  | double =>
      cases hbracket : Quote.bracket.delimits text with
      | true => simp [hexcludes hbracket]
      | false => simp

theorem of?_quoteName (name : Text) (q : Quote) :
    Quote.of? (quoteName name (some q)) = some q :=
  (of?_eq_some_iff _ _).mpr (delimits_cons_concat q _)

theorem unquoteName_quoteName (name : Text) (q : Quote) :
    unquoteName (quoteName name (some q)) = name := by
  rw [unquoteName, of?_quoteName, quoteName]
  simp only [List.tail_cons, List.dropLast_concat]
  exact undoubled_doubled q.closer name

theorem of?_eq_none_of_head {text : Text} (h : ∀ q : Quote, text.head? ≠ some q.opener) :
    Quote.of? text = none := by
  have hnot : ∀ q : Quote, q.delimits text = false := by
    intro q
    simp [Quote.delimits, h q]
  rw [Quote.of?, hnot, hnot]
  rfl

/-! ## Read as a lexeme -/

theorem opener_closer (q : Quote) :
    (q.opener = '"' ∧ q.closer = '"') ∨ (q.opener = '[' ∧ q.closer = ']') := by
  cases q with
  | bracket => exact Or.inr ⟨rfl, rfl⟩
  | double => exact Or.inl ⟨rfl, rfl⟩

theorem scan_opener (q : Quote) (cs : Text) :
    scan q.opener cs =
      .ofExtent .quotedIdentifier (.unclosedName q.closer) 0 0 (closeExtent q.closer cs) :=
  scan_name (opener_closer q) cs

/-- A name between delimiters is one lexeme, whatever the name. -/
theorem cuts_quoteName (name : Text) (q : Quote) :
    Cuts .quotedIdentifier (quoteName name (some q)) [] := by
  have hlen : (doubled q.closer name ++ [q.closer]).length =
      (doubled q.closer name).length + 1 + 0 := by
    rw [List.length_append]
    rfl
  simp only [quoteName, Cuts, List.append_nil]
  rw [scan_opener, hlen, ofExtent_eq_lexeme_iff]
  exact ⟨rfl, closeExtent_doubled q.closer name (by simp)⟩

/-- What is closed ends in the closing mark. -/
theorem getLast?_of_closeExtent {q : Char} {cs : Text} (h : closeExtent q cs = some cs.length) :
    cs.getLast? = some q := by
  fun_induction closeExtent q cs with
  | case1 => cases h
  | case2 => rfl
  | case3 => cases h
  | case4 cs ih =>
      obtain ⟨n, hn, hlen⟩ := Option.map_eq_some_iff.mp h
      obtain rfl : n = cs.length := by simpa using hlen
      have hlast := ih hn
      cases cs with
      | nil => cases hlast
      | cons e es => simpa [List.getLast?_cons_cons] using hlast
  | case5 d cs hd => simp at h
  | case6 c d cs hc ih =>
      obtain ⟨n, hn, hlen⟩ := Option.map_eq_some_iff.mp h
      obtain rfl : n = (d :: cs).length := by simpa using hlen
      simpa [List.getLast?_cons_cons] using ih hn

/-- No other character begins a quoted name. -/
theorem scan_ne_quoted {c : Char} (hc : ∀ q : Quote, c ≠ q.opener) (cs : Text) (n : Nat) :
    scan c cs ≠ .lexeme .quotedIdentifier n := by
  have hkinds : ∀ kinds : List Kind, .quotedIdentifier ∉ kinds → (scan c cs).HasKind kinds →
      scan c cs ≠ .lexeme .quotedIdentifier n :=
    fun _ hnot hkind heq => hnot (hkind _ _ heq)
  by_cases hpart : isIdentifierPart c = true
  · exact hkinds partKinds (by decide) (scan_part_hasKind hpart cs)
  cases lead c with
  | space h => simp [scan_space h]
  | carriageReturn => simp [scan_return]
  | quote =>
      refine hkinds [.stringLiteral] (by decide) ?_
      rw [scan_quote]
      exact .ofExtent (by decide)
  | name q h =>
      rcases h with ⟨rfl, -⟩ | ⟨rfl, -⟩
      · exact absurd rfl (hc .double)
      · exact absurd rfl (hc .bracket)
  | dot =>
      rw [scan_dot]
      unfold scanDot
      split <;> simp
  | punctuation kind h =>
      rw [scan_punctuation h]
      rcases h with ⟨-, rfl⟩ | ⟨-, rfl⟩ | ⟨-, rfl⟩ | ⟨-, rfl⟩ <;> simp
  | operator h =>
      by_cases hline : c = '-' ∧ cs.head? = some '-'
      · obtain ⟨rfl, hhead⟩ := hline
        obtain ⟨ds, rfl⟩ := List.head?_eq_some_iff.mp hhead
        simp [scan_lineComment]
      by_cases hblock : c = '/' ∧ cs.head? = some '*'
      · obtain ⟨rfl, hhead⟩ := hblock
        obtain ⟨ds, rfl⟩ := List.head?_eq_some_iff.mp hhead
        refine hkinds [.blockComment] (by decide) ?_
        rw [scan_blockComment]
        exact .ofExtent (by decide)
      · rw [scan_operator h (fun hl hhead => hline ⟨hl, hhead⟩)
          (fun hb hhead => hblock ⟨hb, hhead⟩)]
        simp
  | question => simp [scan_question]
  | single plain sign word =>
      rw [scan_single plain sign word]
      split <;> simp
  | digit h => exact absurd (by simp [isIdentifierPart, h]) hpart
  | word h => exact absurd (by rcases h with h | h <;> simp [isIdentifierPart, h]) hpart
  | hash | atSign | dollar => exact absurd (by decide) hpart

/-- A quoted name is what stands between delimiters, and the closing one
is found at its end. -/
theorem inner_of_cuts {text rest : Text} (h : Cuts .quotedIdentifier text rest) :
    ∃ (q : Quote) (inner : Text), text = q.opener :: (inner ++ [q.closer]) ∧
      closeExtent q.closer (inner ++ [q.closer]) = some (inner.length + 1) := by
  have halone := ((cuts_iff _ _ _).mp h).1
  cases text with
  | nil => cases h
  | cons c cs =>
      simp only [Cuts, List.append_nil] at halone
      obtain ⟨q, rfl⟩ : ∃ q : Quote, c = q.opener := by
        refine Classical.byContradiction fun hnone => ?_
        exact scan_ne_quoted (fun q hq => hnone ⟨q, hq⟩) cs _ halone
      rw [scan_opener, ← Nat.add_zero cs.length, ofExtent_eq_lexeme_iff] at halone
      obtain ⟨inner, rfl⟩ := List.getLast?_eq_some_iff.mp (getLast?_of_closeExtent halone.2)
      refine ⟨q, inner, rfl, ?_⟩
      rw [halone.2, List.length_append]
      rfl

/-- A quoted name stands between delimiters. -/
theorem of?_of_cuts {text rest : Text} (h : Cuts .quotedIdentifier text rest) :
    ∃ q, Quote.of? text = some q ∧ text.head? = some q.opener := by
  obtain ⟨q, inner, rfl, -⟩ := inner_of_cuts h
  exact ⟨q, (of?_eq_some_iff _ _).mpr (delimits_cons_concat q inner), rfl⟩

/-- A mark that closes nothing before the end stands there in pairs, so
that undoubling loses none. -/
theorem doubled_undoubled {q : Char} {inner : Text}
    (h : closeExtent q (inner ++ [q]) = some (inner.length + 1)) :
    doubled q (undoubled q inner) = inner := by
  fun_induction undoubled q inner with
  | case1 => rfl
  | case2 d =>
      have hd : d ≠ q := by
        rintro rfl
        simp [closeExtent] at h
      simp [doubled, hd]
  | case3 d e ds hpair ih =>
      obtain ⟨rfl, rfl⟩ := hpair
      rw [List.cons_append, List.cons_append, closeExtent, if_pos rfl, if_pos rfl,
        List.length_cons, List.length_cons,
        show ds.length + 1 + 1 + 1 = ds.length + 1 + 2 by omega, map_add_eq_some] at h
      rw [doubled, if_pos rfl, ih h]
  | case4 d e ds hpair ih =>
      rw [List.cons_append, List.cons_append, closeExtent] at h
      have hd : d ≠ q := by
        rintro rfl
        rw [if_pos rfl, if_neg fun he => hpair ⟨rfl, he⟩] at h
        simp at h
      rw [if_neg hd, List.length_cons, map_add_eq_some] at h
      rw [doubled, if_neg hd, ih h]

/-- A quoted name is the name it stands for, in its own quotes. -/
theorem quoteName_unquoteName {text rest : Text} (h : Cuts .quotedIdentifier text rest) :
    quoteName (unquoteName text) (Quote.of? text) = text := by
  obtain ⟨q, inner, rfl, hclose⟩ := inner_of_cuts h
  rw [unquoteName, (of?_eq_some_iff _ _).mpr (delimits_cons_concat q inner)]
  simp only [quoteName, List.tail_cons, List.dropLast_concat, doubled_undoubled hclose]

/-- A lexeme of any other kind is its own name. -/
theorem unquoteName_of_cuts {kind : Kind} {text rest : Text} (h : Cuts kind text rest)
    (hkind : kind ≠ .quotedIdentifier) : unquoteName text = text := by
  have hnone : Quote.of? text = none := by
    apply of?_eq_none_of_head
    intro q hhead
    obtain ⟨cs, rfl⟩ := List.head?_eq_some_iff.mp hhead
    simp only [Cuts, scan_opener] at h
    rw [← Nat.add_zero cs.length, ofExtent_eq_lexeme_iff] at h
    exact hkind h.1.symm
  rw [unquoteName, hnone]

/-- The name in the delimiters does not matter for what may follow. -/
theorem cuts_quoteName_of_cuts {text rest : Text} {q : Quote} (h : Cuts .quotedIdentifier text rest)
    (hq : Quote.of? text = some q) (name : Text) :
    Cuts .quotedIdentifier (quoteName name (some q)) rest := by
  rw [cuts_iff] at h ⊢
  have hhead : (quoteName name (some q)).head? = text.head? := by
    rw [of?_eq_some_iff] at hq
    simp only [Quote.delimits, Bool.and_eq_true, decide_eq_true_eq] at hq
    rw [hq.1.2]
    rfl
  refine ⟨cuts_quoteName name q, ?_⟩
  rw [← h.2]
  simp only [stops, hhead]

/-- A name written in the place of a token that was read, in the token's
quotes, is the token. -/
theorem face_ofName {t : Token} {rest : Text} (hcuts : Cuts t.kind t.text rest)
    (hname : t.isIdentifier = true) :
    (Token.ofName (unquoteName t.text) t.quote?).face = t.face := by
  simp only [Token.isIdentifier, Bool.or_eq_true, beq_iff_eq] at hname
  rcases hname with hkind | hkind
  · have hself := unquoteName_of_cuts hcuts (by rw [hkind]; decide)
    rw [Token.quote?, if_neg (by rw [hkind]; decide), hself, Token.face, Token.face, hkind]
    rfl
  · rw [hkind] at hcuts
    obtain ⟨q, hq, -⟩ := of?_of_cuts hcuts
    have hself := quoteName_unquoteName hcuts
    rw [hq] at hself
    rw [Token.quote?, if_pos hkind, hq, Token.ofName, hself, Token.face, Token.face, hkind]
    rfl

end Tsql
