import Mathlib.Data.List.Induction
import Tsql.Proofs.ProcedureStretches
import Tsql.Proofs.Renaming

/-!
# Where batches are separated

`markBatches` goes over the tokens of a script with a flag that says
whether the line is still blank. Which `GO` it turns into a batch separator
is said here by place and without the flag: one with nothing but white
space and comments between it and the last line feed that white space or a
comment holds (`FirstOnLine`). Line feeds inside strings and quoted names do
not count, since those tokens do not either.

All else about a token stays. So a separator is no name to any pass, and a
`GO` further on in a line is one like any other: the two renaming passes
leave the first alone and ask about the second.
-/

namespace Tsql

/-! ## The first word on a line -/

/-- White space or a comment that goes on to another line. -/
def Token.feedsLine (t : Token) : Bool := t.isBlank && t.text.contains '\n'

/-- Nothing but white space and comments stands between the end of these
tokens and the last of them that goes on to another line, or the first of
all if none does. -/
def FirstOnLine (before : List Token) : Prop :=
  ∃ earlier line, before = earlier ++ line ∧
    (earlier = [] ∨ ∃ feed, earlier.getLast? = some feed ∧ feed.feedsLine = true) ∧
    (∀ t ∈ line, t.feedsLine = false) ∧ ∀ t ∈ line, t.isBlank = true

theorem firstOnLine_nil : FirstOnLine [] := by
  refine ⟨[], [], rfl, Or.inl rfl, ?_, ?_⟩ <;> simp

theorem firstOnLine_concat_iff {before : List Token} {t : Token} :
    FirstOnLine (before ++ [t]) ↔
      t.isBlank = true ∧ (FirstOnLine before ∨ t.text.contains '\n' = true) := by
  constructor
  · rintro ⟨earlier, line, hsplit, hearlier, hfeeds, hblank⟩
    rcases List.eq_nil_or_concat line with rfl | ⟨line, u, rfl⟩
    · -- the token itself goes on to another line
      rw [List.append_nil] at hsplit
      subst hsplit
      rcases hearlier with hnil | ⟨feed, hlast, hfeed⟩
      · simp at hnil
      · rw [List.getLast?_concat, Option.some.injEq] at hlast
        subst hlast
        rw [Token.feedsLine, Bool.and_eq_true] at hfeed
        exact ⟨hfeed.1, Or.inr hfeed.2⟩
    · rw [List.concat_eq_append, ← List.append_assoc] at hsplit
      obtain ⟨rfl, hlast⟩ := List.append_inj' hsplit rfl
      obtain rfl := List.singleton_inj.mp hlast
      rw [List.concat_eq_append] at hfeeds hblank
      refine ⟨hblank t (by simp), Or.inl ⟨earlier, line, rfl, hearlier, ?_, ?_⟩⟩
      · intro v hv
        exact hfeeds v (List.mem_append_left _ hv)
      · intro v hv
        exact hblank v (List.mem_append_left _ hv)
  · rintro ⟨hblank, hbefore⟩
    cases hfeed : t.feedsLine with
    | true =>
        refine ⟨before ++ [t], [], by simp, Or.inr ⟨t, List.getLast?_concat, hfeed⟩, ?_, ?_⟩ <;>
          simp
    | false =>
        have hfirst : FirstOnLine before := by
          refine hbefore.resolve_right ?_
          intro hcontains
          rw [Token.feedsLine, hblank, hcontains] at hfeed
          cases hfeed
        obtain ⟨earlier, line, rfl, hearlier, hfeeds, hblanks⟩ := hfirst
        refine ⟨earlier, line ++ [t], by simp, hearlier, ?_, ?_⟩
        · intro v hv
          rcases List.mem_append.mp hv with hv | hv
          · exact hfeeds v hv
          · rw [List.mem_singleton.mp hv]
            exact hfeed
        · intro v hv
          rcases List.mem_append.mp hv with hv | hv
          · exact hblanks v hv
          · rw [List.mem_singleton.mp hv]
            exact hblank

/-- The flag says whether the line is blank so far. -/
theorem opensLine_iff_firstOnLine (before : List Token) :
    opensLine before = true ↔ FirstOnLine before := by
  induction before using List.reverseRecOn with
  | nil => exact ⟨fun _ => firstOnLine_nil, fun _ => opensLine_nil⟩
  | append_singleton before t ih =>
      rw [opensLine_concat, firstOnLine_concat_iff, ← ih, Bool.and_eq_true, Bool.or_eq_true]

/-! ## What becomes of a token -/

/-- A token behind others, and what it becomes when batch separators are
told apart: the word `GO` becomes one where it comes first on its line, and
nothing else is changed. -/
structure Settled (before : List Token) (t u : Token) : Prop where
  text : u.text = t.text
  position : u.position = t.position
  separator : u.kind = .batchSeparator ↔ t.isWord "GO" = true ∧ FirstOnLine before
  kind : u.kind ≠ .batchSeparator → u.kind = t.kind
  /-- The word `GO` is no reserved word -/
  go : t.isWord "GO" = true → t.kind = .identifier

theorem settled_markedAt {before : List Token} {t : Token} {rest : Text}
    (hcuts : Lexeme.Cuts t.kind t.text rest) :
    Settled before t (t.markedAt (opensLine before)) := by
  have hgo : t.isWord "GO" = true → t.kind = .identifier := by
    intro hword
    rw [Token.isWord, Bool.and_eq_true] at hword
    exact kind_of_go hcuts hword.2
  unfold Token.markedAt
  by_cases hmark : (opensLine before && t.isWord "GO") = true
  · rw [if_pos hmark]
    rw [Bool.and_eq_true, opensLine_iff_firstOnLine] at hmark
    exact ⟨rfl, rfl, ⟨fun _ => hmark.symm, fun _ => rfl⟩, fun hne => absurd rfl hne, hgo⟩
  · rw [if_neg hmark]
    rw [Bool.and_eq_true, opensLine_iff_firstOnLine] at hmark
    refine ⟨rfl, rfl, ⟨fun hkind => absurd hkind hcuts.kind_ne.1, ?_⟩, fun _ => rfl, hgo⟩
    intro hfirst
    exact absurd hfirst.symm hmark

/-- One token becomes one, each behind those before it. -/
theorem markBatches_settled {ts : List Token} {rest : Text} (h : ReadsBefore ts rest)
    (before : List Token) :
    (markBatches (opensLine before) ts).length = ts.length ∧
    ∀ i t, ts[i]? = some t →
      ∃ u, (markBatches (opensLine before) ts)[i]? = some u ∧
        Settled (before ++ ts.take i) t u := by
  induction ts generalizing before with
  | nil => exact ⟨rfl, fun i t hi => by simp at hi⟩
  | cons t ts ih =>
      obtain ⟨hcuts, hreads⟩ := h
      obtain ⟨hlength, hmore⟩ := ih hreads (before ++ [t])
      rw [markBatches_cons]
      refine ⟨congrArg (· + 1) hlength, ?_⟩
      intro i v hi
      cases i with
      | zero =>
          rw [List.getElem?_cons_zero, Option.some.injEq] at hi
          subst hi
          refine ⟨_, rfl, ?_⟩
          rw [List.take_zero, List.append_nil]
          exact settled_markedAt hcuts
      | succ i =>
          obtain ⟨u, hu, hsettled⟩ := hmore i v hi
          rw [List.append_assoc, List.singleton_append] at hsettled
          exact ⟨u, hu, hsettled⟩

/-! ## Separators are not names -/

theorem Token.not_separator_of_isIdentifier {t : Token} (h : t.isIdentifier = true) :
    t.kind ≠ .batchSeparator := by
  intro hkind
  rw [Token.isIdentifier, hkind] at h
  cases h

namespace Pass

variable {f : Text → Text → Text × Text}

theorem NameChange.not_separator {name new : List Token} {question : Question}
    (h : NameChange f name new question) : ∀ t ∈ name, t.kind ≠ .batchSeparator := by
  have hname : ∀ t : Token, t.isIdentifier = true → t.kind ≠ .batchSeparator :=
    fun t => t.not_separator_of_isIdentifier
  have hdot : ∀ t : Token, t.kind = .dot → t.kind ≠ .batchSeparator := by
    intro t ht
    rw [ht]
    decide
  intro t ht
  cases h with
  | object object =>
      rw [List.mem_singleton.mp ht]
      exact hname _ object
  | schema first dot object =>
      simp only [List.mem_cons, List.not_mem_nil, or_false] at ht
      rcases ht with rfl | rfl | rfl
      · exact hname _ first
      · exact hdot _ dot
      · exact hname _ object
  | emptySchema first dot second object =>
      simp only [List.mem_cons, List.not_mem_nil, or_false] at ht
      rcases ht with rfl | rfl | rfl | rfl
      · exact hname _ first
      · exact hdot _ dot
      · exact hdot _ second
      · exact hname _ object
  | database first dot between second object =>
      simp only [List.mem_cons, List.not_mem_nil, or_false] at ht
      rcases ht with rfl | rfl | rfl | rfl | rfl
      · exact hname _ first
      · exact hdot _ dot
      · exact hname _ between
      · exact hdot _ second
      · exact hname _ object

/-- A separator is in no name and before none. -/
theorem Stretch.Stands.kept_of_separator {rest : List Token} {s : Stretch}
    (h : s.Stands f rest) {t : Token} (ht : t ∈ s.source) (hkind : t.kind = .batchSeparator) :
    s = .kept t := by
  cases s with
  | kept u =>
      rw [List.mem_singleton.mp ht]
  | call keyword name new question =>
      obtain ⟨hkeyword, -, hchange, -⟩ := h
      rcases List.mem_cons.mp ht with rfl | ht
      · rw [kind_of_introduces hkeyword] at hkind
        cases hkind
      · have hsolid : t ∈ name.filter (!·.isWhitespace) := by
          refine List.mem_filter.mpr ⟨ht, ?_⟩
          rw [Token.isWhitespace, hkind]
          rfl
        exact absurd hkind (hchange.not_separator t hsolid)

theorem Stretch.Standing.exists_stands {ss : List Stretch} (h : Stretch.Standing f ss)
    {s : Stretch} (hs : s ∈ ss) : ∃ rest, s.Stands f rest := by
  induction ss with
  | nil => cases hs
  | cons first ss ih =>
      obtain ⟨hfirst, hmore⟩ := h
      rcases List.mem_cons.mp hs with rfl | hs
      · exact ⟨_, hfirst⟩
      · exact ih hmore hs

end Pass

/-- A `GO` that separates no batches, as the tokens of a script hold it, is
a bare name. -/
theorem bare_of_isGo {source : Text} {body : List Token} (hread : ReadAs source body) {t : Token}
    (ht : t ∈ body) (hgo : t.isGo = true) (hkind : t.kind ≠ .batchSeparator) :
    t.kind = .identifier ∧ unquoteName t.text = t.text := by
  have hidentifier := (hread.reads.marked hread.separator t ht).go hgo
  rw [unmarked_eq_self hkind] at hidentifier
  exact ⟨hidentifier, (Pass.name_of_mem hread ht).2 hidentifier⟩

/-- A bare name that no dot follows is a name of one part. -/
theorem QualifiedName.read_of_bare {t : Token} (hkind : t.kind = .identifier)
    (hself : unquoteName t.text = t.text) {rest : List Token}
    (hdot : ∀ u ∈ rest.head?, u.kind ≠ .dot) :
    QualifiedName.read (t :: rest) = some (⟨none, none, ⟨t.text, none⟩⟩, 1) := by
  have hname : t.isIdentifier = true := Token.isIdentifier_iff.mpr (Or.inl hkind)
  have hpart : NamePart.ofToken t = ⟨t.text, none⟩ := by
    rw [NamePart.ofToken, hself, Token.quote?, if_neg (by rw [hkind]; decide)]
  rw [← hpart]
  cases rest with
  | nil => simp [QualifiedName.read, hname]
  | cons u rest =>
      have hu : u.kind ≠ .dot := hdot u rfl
      simp [QualifiedName.read, hname, hu]

/-! ## The result -/

/-- Over every script that can be read, the word `GO` is a batch separator
if it comes first on its line, and no other token is one; every other token
is of the kind it was read as. Separators are left as they are by both
renaming passes, and neither mapping is asked about them. Any other `GO` is
a bare identifier: the one mapping is asked about it, and the other gets it
as a name of one part. -/
theorem batch_separators (level : Level) {script : Text} {raw : List Token}
    (h : tokensFrom .start script = .ok raw) :
    ∃ body, (Script.parse level script).tokens = body ++ [Script.endToken script] ∧
      body.length = raw.length ∧
      (∀ i t, raw[i]? = some t → ∃ u, body[i]? = some u ∧ Settled (raw.take i) t u) ∧
      (∀ f, ∃ trace, (Pass.renameIdentifiers f).traceFrom (.start body) = .ok trace ∧
        trace.emitted = body.map (Pass.renamedBy f) ∧
        trace.asked = (body.filter Token.isIdentifier).map (fun t => .name (unquoteName t.text)) ∧
        (∀ t ∈ body, t.kind = .batchSeparator →
          t.isIdentifier = false ∧ Pass.renamedBy f t = t) ∧
        ∀ t ∈ body, t.isGo = true → t.kind ≠ .batchSeparator →
          t.kind = .identifier ∧ Pass.renamedBy f t = .ofName (f t.text) none ∧
          .name t.text ∈ trace.asked) ∧
      (∀ g, ∃ ss trace, (Pass.renameProcedures g).traceFrom (.start body) = .ok trace ∧
        Pass.Stretch.Standing g ss ∧ ss.flatMap Pass.Stretch.source = body ∧
        ss.flatMap Pass.Stretch.emitted = trace.emitted ∧
        ss.flatMap Pass.Stretch.asked = trace.asked ∧
        ∀ s ∈ ss, ∀ t ∈ s.source, t.kind = .batchSeparator → s = .kept t) ∧
      ∀ t ∈ body, t.isGo = true → t.kind ≠ .batchSeparator →
        ∀ rest, (∀ u ∈ rest.head?, u.kind ≠ .dot) →
          QualifiedName.read (t :: rest) = some (⟨none, none, ⟨t.text, none⟩⟩, 1) := by
  have hread : ReadAs script (markBatches true raw) := ReadAs.of_tokensFrom h
  have htokens : (Script.parse level script).tokens =
      markBatches true raw ++ [Script.endToken script] := by
    rw [Script.parse, h]
  obtain ⟨-, hreads, -⟩ := (tokensFrom_eq_ok_iff _ _ _).mp h
  obtain ⟨hlength, hsettled⟩ := markBatches_settled hreads []
  rw [opensLine_nil] at hlength hsettled
  refine ⟨markBatches true raw, htokens, hlength, hsettled, ?_, ?_, ?_⟩
  · intro f
    have hasked := Pass.asked_renameAt f (markBatches true raw)
    refine ⟨_, Pass.trace_renameIdentifiers f _, rfl, hasked, ?_, ?_⟩
    · intro t _ hkind
      have hname : t.isIdentifier ≠ true := fun ht => t.not_separator_of_isIdentifier ht hkind
      exact ⟨Bool.eq_false_iff.mpr hname, if_neg hname⟩
    · intro t ht hgo hkind
      obtain ⟨hidentifier, hself⟩ := bare_of_isGo hread ht hgo hkind
      refine ⟨hidentifier, ?_, ?_⟩
      · rw [Pass.renamedBy_of_bare f hidentifier, hself]
        rfl
      · show Pass.Question.name t.text ∈
          ((markBatches true raw).map (Pass.renameAt f)).flatMap Pass.Decision.asked
        rw [hasked]
        exact List.mem_map.mpr ⟨t, List.mem_filter.mpr ⟨ht,
          Token.isIdentifier_iff.mpr (Or.inl hidentifier)⟩, by rw [hself]⟩
  · intro g
    obtain ⟨us, asked, hrenames⟩ := Pass.exists_renames g (markBatches true raw)
    obtain ⟨ss, hstanding, hsource, hemitted, hasked⟩ := hrenames.stretches
    refine ⟨ss, _, hrenames.trace, hstanding, hsource, hemitted, hasked, ?_⟩
    intro s hs t ht hkind
    obtain ⟨rest, hstands⟩ := hstanding.exists_stands hs
    exact hstands.kept_of_separator ht hkind
  · intro t ht hgo hkind rest hdot
    obtain ⟨hidentifier, hself⟩ := bare_of_isGo hread ht hgo hkind
    exact QualifiedName.read_of_bare hidentifier hself hdot

/-- A line feed in a string, after which a `GO` is not the first word, and
one in a comment, after which it is. -/
def threeGos : Text := "SELECT 'a\n' GO/*\n*/go\nEXEC Go".toList

theorem batch_separators_threeGos :
    ∃ raw body, tokensFrom .start threeGos = .ok raw ∧
      (Script.parse .sql110 threeGos).tokens = body ++ [Script.endToken threeGos] ∧
      (∃ u : Token, body[6]? = some u ∧ u.kind = .batchSeparator ∧ u.text = "go".toList) ∧
      FirstOnLine (raw.take 6) ∧
      ∃ trace, (Pass.renameIdentifiers fun name => 'x' :: name).traceFrom (.start body) =
        .ok trace ∧ trace.asked = [.name "GO".toList, .name "Go".toList] := by
  obtain ⟨raw, hraw⟩ : ∃ raw, tokensFrom .start threeGos = .ok raw :=
    ⟨_, Pass.eq_ok_of_toOption (Option.some_get (by decide +kernel)).symm⟩
  obtain ⟨body, htokens, hlength, hsettled, hidentifiers, -⟩ := batch_separators .sql110 hraw
  have hbody : body = (Script.parse .sql110 threeGos).tokens.dropLast := by
    rw [htokens, List.dropLast_concat]
  have hseventh : body[6]?.map Token.face = some (.batchSeparator, "go".toList) := by
    rw [hbody]
    decide +kernel
  have hnames : (body.filter Token.isIdentifier).map
      (fun t => Pass.Question.name (unquoteName t.text)) =
      [.name "GO".toList, .name "Go".toList] := by
    rw [hbody]
    decide +kernel
  obtain ⟨u, hu, hface⟩ := Option.map_eq_some_iff.mp hseventh
  obtain ⟨hkind, htext⟩ := Prod.mk.inj hface
  have hlt : 6 < raw.length := by
    rw [← hlength]
    exact (List.getElem?_eq_some_iff.mp hu).1
  obtain ⟨v, hv, hplace⟩ := hsettled 6 raw[6] (List.getElem?_eq_getElem hlt)
  obtain rfl := Option.some.inj (hu.symm.trans hv)
  obtain ⟨trace, htrace, -, hasked, -⟩ := hidentifiers fun name => 'x' :: name
  exact ⟨raw, body, hraw, htokens, ⟨u, hu, hkind, htext⟩, (hplace.separator.mp hkind).2,
    trace, htrace, hasked.trans hnames⟩

end Tsql
