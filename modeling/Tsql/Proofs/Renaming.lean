import Tsql.Pass.Rename
import Tsql.Proofs.Nesting
import Tsql.Proofs.Quoting
import Tsql.Proofs.Trace

/-!
# Renaming quoted names

A name in quotes can become any name: the text around it is read as
before, and the new name is read as one token in the same quotes. Two
token sequences that differ in such names only are related token by token
(`Requoted`), and each thing the reader and the checks look at is the same
for both: how a text begins (`SameStart`), which lexemes are cut off,
which `GO` opens a line, and what is open. `ReadAs.requoted` and
`passes_requoted` put this together.

So a pass that renames quoted names alone can be followed by another, and
the two do what one pass with both mappings does.

Under the mapping that leaves every name as it is, a name is written in
the quotes it was read from, and the script comes out as it went in
(`renameIdentifiers_identity`).
-/

namespace Tsql

open Lexeme

/-- The same token, or another name in the same quotes. -/
inductive Requoted (t u : Token) : Prop where
  | same (face : u.face = t.face)
  | name (q : Quote) (name : Text) (quoted : t.kind = .quotedIdentifier)
      (quotes : Quote.of? t.text = some q) (kind : u.kind = .quotedIdentifier)
      (text : u.text = quoteName name (some q))

theorem Requoted.kind_eq {t u : Token} (h : Requoted t u) : u.kind = t.kind := by
  cases h with
  | same hface => exact (Prod.mk.inj hface).1
  | name q name hquoted _ hkind _ => rw [hquoted, hkind]

theorem Requoted.text_eq {t u : Token} (h : Requoted t u) (hkind : t.kind ≠ .quotedIdentifier) :
    u.text = t.text := by
  cases h with
  | same hface => exact (Prod.mk.inj hface).2
  | name _ _ hquoted => exact absurd hquoted hkind

theorem Requoted.unmarked {t u : Token} (h : Requoted t u) : Requoted t.unmarked u.unmarked := by
  cases h with
  | same hface => exact .same (face_unmarked_congr hface)
  | name q name hquoted hquotes hkind htext =>
      rw [unmarked_eq_self (by rw [hquoted]; decide), unmarked_eq_self (by rw [hkind]; decide)]
      exact .name q name hquoted hquotes hkind htext

/-! ## How texts begin -/

/-- Texts that the lexemes before them cannot tell apart. -/
structure SameStart (rest rest' : Text) : Prop where
  head : rest.head? = rest'.head?
  exponent : exponentExtent rest = 0 ↔ exponentExtent rest' = 0

theorem SameStart.stops {rest rest' : Text} (h : SameStart rest rest') (kind : Kind)
    (text : Text) : stops kind text rest = stops kind text rest' :=
  stops_congr kind text h.head h.exponent

theorem opener_closesSeam (q : Quote) : closesSeam q.opener = true := by
  cases q <;> decide

theorem head?_of_quotes {text : Text} {q : Quote} (h : Quote.of? text = some q) :
    text.head? = some q.opener := by
  rw [of?_eq_some_iff] at h
  simp only [Quote.delimits, Bool.and_eq_true, decide_eq_true_eq] at h
  exact h.1.2

/-- Texts that are the same up to the opening delimiter of some name. -/
theorem sameStart_append_opener (between : Text) (q : Quote) (r r' : Text) :
    SameStart (between ++ q.opener :: r) (between ++ q.opener :: r') := by
  constructor
  · cases between <;> rfl
  · exact exponentExtent_append_cons (opener_closesSeam q) (opener_closesSeam q) rfl between r r'

/-- The texts of the tokens are the same, or are so up to the opening
delimiter of a name. -/
theorem textOf_requoted {ts us : List Token} (h : List.Forall₂ Requoted ts us) :
    Token.textOf us = Token.textOf ts ∨
      ∃ between q r r', Token.textOf ts = between ++ Quote.opener q :: r ∧
        Token.textOf us = between ++ Quote.opener q :: r' := by
  induction h with
  | nil => exact Or.inl rfl
  | @cons t u ts us hhere _ ih =>
      rw [Token.textOf_cons, Token.textOf_cons]
      cases hhere with
      | same hface =>
          rw [(Prod.mk.inj hface).2]
          rcases ih with heq | ⟨between, q, r, r', hts, hus⟩
          · exact Or.inl (by rw [heq])
          · refine Or.inr ⟨t.text ++ between, q, r, r', ?_, ?_⟩
            · rw [hts, List.append_assoc]
            · rw [hus, List.append_assoc]
      | name q name _ hquotes _ htext =>
          obtain ⟨inner, hinner⟩ := List.head?_eq_some_iff.mp (head?_of_quotes hquotes)
          refine Or.inr ⟨[], q, inner ++ Token.textOf ts,
            doubled q.closer name ++ [q.closer] ++ Token.textOf us, ?_, ?_⟩
          · rw [hinner]
            rfl
          · rw [htext]
            rfl

theorem sameStart_requoted {ts us : List Token} (h : List.Forall₂ Requoted ts us) (rest : Text) :
    SameStart (Token.textOf ts ++ rest) (Token.textOf us ++ rest) := by
  rcases textOf_requoted h with heq | ⟨between, q, r, r', hts, hus⟩
  · rw [heq]
    exact ⟨rfl, Iff.rfl⟩
  · rw [hts, hus, List.append_assoc, List.append_assoc]
    exact sameStart_append_opener between q _ _

/-! ## Reading -/

theorem Requoted.cuts {t u : Token} (h : Requoted t u) {rest rest' : Text}
    (hstart : SameStart rest rest') (hcuts : Cuts t.kind t.text rest) :
    Cuts u.kind u.text rest' := by
  have hmoved : Cuts t.kind t.text rest' := by
    rw [cuts_iff] at hcuts ⊢
    rw [← hstart.stops]
    exact hcuts
  cases h with
  | same hface =>
      obtain ⟨hkind, htext⟩ := Prod.mk.inj hface
      rw [hkind, htext]
      exact hmoved
  | name q name hquoted hquotes hkind htext =>
      rw [hquoted] at hmoved
      rw [hkind, htext]
      exact cuts_quoteName_of_cuts hmoved hquotes name

theorem readsBefore_requoted {ts us : List Token} (h : List.Forall₂ Requoted ts us) {rest : Text}
    (hreads : ReadsBefore ts rest) : ReadsBefore us rest := by
  induction h with
  | nil => trivial
  | cons hhere hmore ih =>
      obtain ⟨hcuts, hreads⟩ := hreads
      exact ⟨hhere.cuts (sameStart_requoted hmore rest) hcuts, ih hreads⟩

theorem isWord_of_quoted {t : Token} (h : t.kind = .quotedIdentifier) (word : String) :
    t.isWord word = false := by
  rw [Token.isWord, h]
  rfl

/-- A quoted name is a batch separator under no name, and ends the
beginning of its line under any. -/
theorem markBatches_requoted {ts us : List Token} (h : List.Forall₂ Requoted ts us)
    {lineStart : Bool}
    (hmarks : (markBatches lineStart (ts.map Token.unmarked)).map Token.face =
      ts.map Token.face) :
    (markBatches lineStart (us.map Token.unmarked)).map Token.face = us.map Token.face := by
  induction h generalizing lineStart with
  | nil => rfl
  | @cons t u ts us hhere _ ih =>
      rw [List.map_cons, markBatches_step, List.map_cons, List.map_cons, List.cons.injEq]
        at hmarks ⊢
      obtain ⟨hmark, hmore⟩ := hmarks
      rw [isBlank_unmarked, Token.text_unmarked] at hmore ⊢
      cases hhere with
      | same hface =>
          obtain ⟨hkind, htext⟩ := Prod.mk.inj hface
          have hblank : u.isBlank = t.isBlank := by
            simp only [Token.isBlank, Token.isWhitespace, Token.isComment, hkind]
          have hmarked : (u.unmarked.markedAt lineStart).face =
              (t.unmarked.markedAt lineStart).face :=
            markedAt_congr lineStart (face_unmarked_congr hface)
          rw [hmarked, hmark, hface, hblank, htext]
          exact ⟨rfl, ih hmore⟩
      | name q name hquoted _ hkind _ =>
          have hself : u.unmarked = u := unmarked_eq_self (by rw [hkind]; decide)
          have hblank : ∀ v : Token, v.kind = .quotedIdentifier → v.isBlank = false := by
            intro v hv
            rw [Token.isBlank, Token.isWhitespace, Token.isComment, hv]
            rfl
          rw [hblank t hquoted] at hmore
          rw [hself, Token.markedAt, isWord_of_quoted hkind, Bool.and_false, hblank u hkind]
          exact ⟨rfl, ih hmore⟩

/-- Tokens that were read are still read as tokens under other names. -/
theorem ReadAs.requoted {source : Text} {ts us : List Token} (hread : ReadAs source ts)
    (h : List.Forall₂ Requoted ts us) :
    ∃ raw, tokensFrom .start (Token.textOf us) = .ok raw ∧
      (Tsql.markBatches true raw).map Token.face = us.map Token.face := by
  have hunmarked : List.Forall₂ Requoted (ts.map Token.unmarked) (us.map Token.unmarked) := by
    rw [List.forall₂_map_left_iff, List.forall₂_map_right_iff]
    exact h.imp fun _ _ => Requoted.unmarked
  exact tokensFrom_textOf (readsBefore_requoted hunmarked hread.reads)
    (markBatches_requoted h hread.markBatches)

/-! ## The checks -/

/-- The token without the name it quotes. -/
def Token.nameless (t : Token) : Token :=
  if t.kind = .quotedIdentifier then { t with text := [] } else t

namespace Structure

variable {level : Level}

theorem step_nameless (s : State) (t : Token) (next : Option Token) :
    s.step level t.nameless next = s.step level t next := by
  unfold Token.nameless
  split
  · rename_i hquoted
    simp [State.step, Token.isKeyword, hquoted]
  · rfl

theorem lookahead_nameless (next : Option Token) :
    lookahead (next.map Token.nameless) = lookahead next := by
  cases next with
  | none => rfl
  | some t =>
      rw [Option.map_some]
      unfold Token.nameless
      split
      · rename_i hquoted
        simp [lookahead, beginsStatement, isWord_of_quoted, hquoted]
      · rfl

theorem run_nameless (s : State) (ts : List Token) :
    s.run level (ts.map Token.nameless) = s.run level ts := by
  induction ts generalizing s with
  | nil => rfl
  | cons t ts ih =>
      rw [List.map_cons, State.run, State.run, ih, step_nameless, List.head?_map,
        step_lookahead s t (lookahead_nameless ts.head?)]

theorem passes_nameless (s : State) (ts : List Token) :
    Passes level s (ts.map Token.nameless) ↔ Passes level s ts := by
  have hfilter : (ts.map Token.nameless).filter isSignificant =
      (ts.filter isSignificant).map Token.nameless := by
    rw [List.filter_map]
    congr 1
    apply List.filter_congr
    intro t _
    unfold Token.nameless
    simp only [Function.comp_apply]
    split <;> rfl
  rw [Passes, Passes, hfilter, run_nameless]

/-- The checks do not see the names in quotes. -/
theorem passes_requoted {ts us : List Token} (h : List.Forall₂ Requoted ts us) (s : State) :
    Passes level s us ↔ Passes level s ts := by
  have hface : (us.map Token.nameless).map Token.face = (ts.map Token.nameless).map Token.face := by
    induction h with
    | nil => rfl
    | @cons t u ts us hhere _ ih =>
        rw [List.map_cons, List.map_cons, List.map_cons, List.map_cons, ih]
        congr 1
        cases hhere with
        | same hface =>
            obtain ⟨hkind, htext⟩ := Prod.mk.inj hface
            unfold Token.nameless
            rw [hkind]
            split
            · simp only [Token.face]
            · exact hface
        | name q name hquoted _ hkind _ =>
            rw [Token.nameless, Token.nameless, if_pos hquoted, if_pos hkind, Token.face,
              Token.face]
            simp only [hkind, hquoted]
  rw [← passes_nameless s us, ← passes_nameless s ts]
  exact passes_congr (.refl s) hface

end Structure

/-! ## The pass -/

namespace Pass

/-- The token that is put in the place of a token. -/
def renamedBy (f : Text → Text) (t : Token) : Token :=
  if t.isIdentifier then t.renamed (f (unquoteName t.text)) else t

/-- What is decided at a token. -/
def renameAt (f : Text → Text) (t : Token) : Decision where
  emitted := [renamedBy f t]
  asked := if t.isIdentifier then [.name (unquoteName t.text)] else []

def renameChoice (f : Text → Text) : List Token → Except Error Decision
  | [] => .ok { emitted := [] }
  | t :: _ => .ok (renameAt f t)

theorem renameIdentifiers_sees (f : Text → Text) : (renameIdentifiers f).Sees (renameChoice f) := by
  intro c t ts _
  simp only [renameIdentifiers, renameChoice, renameAt, renamedBy]
  split <;> rfl

theorem decisions_renameChoice (f : Text → Text) (ts : List Token) :
    decisions (renameChoice f) ts = .ok (ts.map (renameAt f)) := by
  induction ts with
  | nil => rfl
  | cons t ts ih =>
      rw [decisions, ih]
      rfl

/-- The pass puts a token in the place of each token, and reports
nothing. -/
theorem trace_renameIdentifiers (f : Text → Text) (tokens : List Token) :
    (renameIdentifiers f).traceFrom (.start tokens) =
      .ok ⟨tokens.map (renamedBy f), (tokens.map (renameAt f)).flatMap Decision.asked, []⟩ := by
  have hone : ∀ pre t post d, tokens = pre ++ t :: post → renameChoice f (t :: post) = .ok d →
      d.consumed = 0 := by
    intro pre t post d _ hd
    cases hd
    rfl
  refine (trace_eq_ok_iff (renameIdentifiers_sees f) hone).mpr
    ⟨_, decisions_renameChoice f _, ?_⟩
  simp only [renameAt, List.flatMap_map, Trace.mk.injEq, true_and]
  exact ⟨by rw [List.map_eq_flatMap], by simp⟩

theorem run_renameIdentifiers (f : Text → Text) {level : Level} {script : Text}
    (hproblems : (Script.parse level script).problems = []) :
    (renameIdentifiers f).run level script =
      .ok ⟨Token.textOf ((Script.parse level script).body.map (renamedBy f)), [], [],
        ((Script.parse level script).body.map (renameAt f)).flatMap Decision.asked⟩ := by
  rw [run_eq_ok_iff hproblems]
  exact ⟨_, trace_renameIdentifiers f _, rfl⟩

/-- A token as it is read again after renaming. -/
structure RenamedAs (f : Text → Text) (t u : Token) : Prop where
  /-- One quoted name, in the same quotes, that stands for the new name -/
  quoted : t.kind = .quotedIdentifier → u.kind = .quotedIdentifier ∧
    (∃ q, Quote.of? t.text = some q ∧ Quote.of? u.text = some q) ∧
    unquoteName u.text = f (unquoteName t.text)
  other : t.kind ≠ .quotedIdentifier → u.face = t.face

variable {level : Level} {script : Text}

theorem renamedBy_of_quoted (f : Text → Text) {t : Token} {q : Quote}
    (hkind : t.kind = .quotedIdentifier) (hq : Quote.of? t.text = some q) :
    renamedBy f t =
      .synthetic .quotedIdentifier (quoteName (f (unquoteName t.text)) (some q)) := by
  have hname : t.isIdentifier = true := by simp [Token.isIdentifier, hkind]
  rw [renamedBy, if_pos hname, Token.renamed, Token.quote?, if_pos hkind, hq]
  rfl

theorem renamedBy_of_bare (f : Text → Text) {t : Token} (hkind : t.kind = .identifier) :
    renamedBy f t = .synthetic .identifier (f (unquoteName t.text)) := by
  have hname : t.isIdentifier = true := by simp [Token.isIdentifier, hkind]
  rw [renamedBy, if_pos hname, Token.renamed, Token.quote?, if_neg (by rw [hkind]; decide)]
  rfl

theorem renamedBy_of_other (f : Text → Text) {t : Token} (hquoted : t.kind ≠ .quotedIdentifier)
    (hbare : t.kind ≠ .identifier) : renamedBy f t = t := by
  have hname : ¬ t.isIdentifier = true := by simp [Token.isIdentifier, hquoted, hbare]
  rw [renamedBy, if_neg hname]

theorem renamedBy_congr (f : Text → Text) {t u : Token} (h : t.face = u.face) :
    (renamedBy f t).face = (renamedBy f u).face := by
  obtain ⟨hkind, htext⟩ := Prod.mk.inj h
  unfold renamedBy Token.renamed Token.quote? Token.isIdentifier
  rw [hkind, htext]
  split
  · rfl
  · exact h

theorem map_renamedBy_congr (f : Text → Text) {ts us : List Token}
    (h : ts.map Token.face = us.map Token.face) :
    (ts.map (renamedBy f)).map Token.face = (us.map (renamedBy f)).map Token.face := by
  have hface : ∀ vs : List Token, (vs.map (renamedBy f)).map Token.face =
      (vs.map Token.face).map fun face => (renamedBy f ⟨face.1, face.2, none⟩).face := by
    intro vs
    rw [List.map_map, List.map_map]
    exact List.map_congr_left fun t _ => renamedBy_congr f rfl
  rw [hface, hface, h]

/-- The names of a script that was read: those in quotes have quotes, and
the bare ones are their own names. -/
theorem name_of_mem {source : Text} {body : List Token} (hread : ReadAs source body) {t : Token}
    (ht : t ∈ body) :
    (t.kind = .quotedIdentifier → ∃ q, Quote.of? t.text = some q) ∧
      (t.kind = .identifier → unquoteName t.text = t.text) := by
  obtain ⟨rest, hcuts⟩ := hread.reads.cuts (List.mem_map_of_mem ht)
  constructor
  · intro hkind
    rw [unmarked_eq_self (by rw [hkind]; decide), hkind] at hcuts
    obtain ⟨q, hq, -⟩ := of?_of_cuts hcuts
    exact ⟨q, hq⟩
  · intro hkind
    rw [unmarked_eq_self (by rw [hkind]; decide)] at hcuts
    exact unquoteName_of_cuts hcuts (by rw [hkind]; decide)

theorem forall₂_of_faces {r : Token → Token → Prop} {new : Token → Token} {ts us : List Token}
    (hface : us.map Token.face = (ts.map new).map Token.face)
    (h : ∀ t ∈ ts, ∀ u, u.face = (new t).face → r t u) : List.Forall₂ r ts us := by
  induction ts generalizing us with
  | nil =>
      obtain rfl := List.map_eq_nil_iff.mp hface
      exact .nil
  | cons t ts ih =>
      cases us with
      | nil => cases hface
      | cons u us =>
          obtain ⟨hhere, hmore⟩ := List.cons.inj hface
          exact .cons (h t List.mem_cons_self u hhere)
            (ih hmore fun v hv => h v (List.mem_cons_of_mem _ hv))

section Script

variable {source : Text} {body : List Token} {f : Text → Text}

theorem renamedBy_requoted (hread : ReadAs source body)
    (hbare : ∀ t ∈ body, t.kind = .identifier → f t.text = t.text) {t : Token} (ht : t ∈ body) :
    Requoted t (renamedBy f t) := by
  obtain ⟨hquotes, hself⟩ := name_of_mem hread ht
  by_cases hquoted : t.kind = .quotedIdentifier
  · obtain ⟨q, hq⟩ := hquotes hquoted
    rw [renamedBy_of_quoted f hquoted hq]
    exact .name q _ hquoted hq rfl rfl
  by_cases hname : t.kind = .identifier
  · rw [renamedBy_of_bare f hname, hself hname, hbare t ht hname]
    exact .same (by simp only [Token.face, Token.synthetic, hname])
  · rw [renamedBy_of_other f hquoted hname]
    exact .same rfl

theorem renamedBy_renamedAs (hread : ReadAs source body)
    (hbare : ∀ t ∈ body, t.kind = .identifier → f t.text = t.text) {t u : Token} (ht : t ∈ body)
    (hface : u.face = (renamedBy f t).face) : RenamedAs f t u := by
  obtain ⟨hkind, htext⟩ := Prod.mk.inj hface
  have hrequoted := renamedBy_requoted hread hbare ht
  refine ⟨fun hquoted => ?_, fun hother => ?_⟩
  · obtain ⟨q, hq⟩ := (name_of_mem hread ht).1 hquoted
    rw [renamedBy_of_quoted f hquoted hq] at hkind htext
    rw [htext]
    exact ⟨hkind, ⟨q, hq, of?_quoteName _ q⟩, unquoteName_quoteName _ q⟩
  · rw [hface, Token.face, hrequoted.kind_eq, hrequoted.text_eq hother]
    rfl

/-- Renaming again is renaming with both mappings. -/
theorem renamedBy_renamedBy (hread : ReadAs source body)
    (hbare : ∀ t ∈ body, t.kind = .identifier → f t.text = t.text) (g : Text → Text) {t : Token}
    (ht : t ∈ body) :
    (renamedBy g (renamedBy f t)).face = (renamedBy (g ∘ f) t).face := by
  obtain ⟨hquotes, hself⟩ := name_of_mem hread ht
  by_cases hquoted : t.kind = .quotedIdentifier
  · obtain ⟨q, hq⟩ := hquotes hquoted
    rw [renamedBy_of_quoted f hquoted hq, renamedBy_of_quoted (g ∘ f) hquoted hq,
      renamedBy_of_quoted g rfl (of?_quoteName _ q)]
    simp only [Token.synthetic, unquoteName_quoteName, Function.comp_apply]
  by_cases hname : t.kind = .identifier
  · rw [renamedBy_of_bare f hname, renamedBy_of_bare (g ∘ f) hname, renamedBy_of_bare g rfl]
    simp only [Token.synthetic, Function.comp_apply, hself hname, hbare t ht hname]
  · rw [renamedBy_of_other f hquoted hname, renamedBy_of_other g hquoted hname,
      renamedBy_of_other (g ∘ f) hquoted hname]

end Script

/-- Names in quotes can become any names. If a mapping leaves the bare
names of a script as they are, the renamed script is read as the tokens of
the script, each quoted name one token in the same quotes that stands for
the new name, and it has no problems. So a second renaming of the result
does what one renaming with both mappings does. -/
theorem renameIdentifiers_rereads {level : Level} {script : Text} {f : Text → Text}
    (hproblems : (Script.parse level script).problems = [])
    (hbare : ∀ t ∈ (Script.parse level script).body, t.kind = .identifier → f t.text = t.text) :
    ∃ outcome, (renameIdentifiers f).run level script = .ok outcome ∧
      List.Forall₂ (RenamedAs f) (Script.parse level script).body
        (Script.parse level outcome.output).body ∧
      outcome.problems = [] ∧ (Script.parse level outcome.output).problems = [] ∧
      ∀ g, ∃ twice once,
        runAll [renameIdentifiers f, renameIdentifiers g] level script = .ok twice ∧
        (renameIdentifiers (g ∘ f)).run level script = .ok once ∧
        twice.output = once.output ∧ twice.problems = [] ∧ once.problems = [] := by
  let body := (Script.parse level script).body
  have hread : ReadAs script body := Script.readAs hproblems
  have hrequoted : List.Forall₂ Requoted body (body.map (renamedBy f)) := by
    rw [List.forall₂_map_right_iff, List.forall₂_same]
    exact fun t ht => renamedBy_requoted hread hbare ht
  obtain ⟨raw, hraw, hface⟩ := hread.requoted hrequoted
  have hbody : (Script.parse level (Token.textOf (body.map (renamedBy f)))).body =
      markBatches true raw := by
    rw [Script.body_parse, hraw]
  have hclean : (Script.parse level (Token.textOf (body.map (renamedBy f)))).problems = [] := by
    obtain ⟨raw₀, hraw₀, hbody₀⟩ := Script.tokensFrom_of_problems hproblems
    rw [Structure.parse_problems hraw₀, ← hbody₀, Structure.problems_eq_nil_iff] at hproblems
    rw [Structure.parse_problems hraw, Structure.problems_eq_nil_iff,
      Structure.passes_congr (.refl _) hface, Structure.passes_requoted hrequoted]
    exact hproblems
  refine ⟨_, run_renameIdentifiers f hproblems, ?_, rfl, hclean, fun g => ?_⟩
  · show List.Forall₂ (RenamedAs f) body _
    rw [hbody]
    exact forall₂_of_faces hface fun t ht u => renamedBy_renamedAs hread hbare ht
  · refine ⟨_, _, runAll_pair (run_renameIdentifiers f hproblems) rfl
      (run_renameIdentifiers g hclean), run_renameIdentifiers (g ∘ f) hproblems, ?_, rfl, rfl⟩
    show Token.textOf ((Script.parse level (Token.textOf (body.map (renamedBy f)))).body.map
      (renamedBy g)) = Token.textOf (body.map (renamedBy (g ∘ f)))
    rw [hbody]
    apply textOf_congr
    rw [map_renamedBy_congr g hface, List.map_map, List.map_map, List.map_map]
    exact List.map_congr_left fun t ht => renamedBy_renamedBy hread hbare g ht

/-- A name with its closing delimiter, a quote and a `GO` on a line of its
own inside. -/
def breakout : Text := "]\nGO\n'\"".toList

def quotedTwice : Text := "SELECT [a].\"b\", c\nGO\nEXEC [a]".toList

theorem renameIdentifiers_rereads_breakout :
    ∃ outcome, (renameIdentifiers fun name => if name = "c".toList then name else breakout).run
        .sql110 quotedTwice = .ok outcome ∧
      outcome.output =
        "SELECT []]\nGO\n'\"].\"]\nGO\n'\"\"\", c\nGO\nEXEC []]\nGO\n'\"]".toList ∧
      (Script.parse .sql110 outcome.output).problems = [] := by
  have hproblems : (Script.parse .sql110 quotedTwice).problems = [] := by decide +kernel
  obtain ⟨outcome, hrun, -, -, hclean, -⟩ :=
    renameIdentifiers_rereads (f := fun name => if name = "c".toList then name else breakout)
      hproblems (by decide +kernel)
  refine ⟨outcome, hrun, ?_, hclean⟩
  rw [run_renameIdentifiers _ hproblems] at hrun
  obtain rfl := Except.ok.inj hrun
  decide +kernel

/-! ## Every name as it is -/

/-- Renaming a token to its own name gives the token. -/
theorem renamedBy_id {source : Text} {body : List Token} (hread : ReadAs source body) {t : Token}
    (ht : t ∈ body) : (renamedBy id t).face = t.face := by
  by_cases hname : t.isIdentifier = true
  · obtain ⟨rest, hcuts⟩ := cuts_of_isIdentifier hread.reads ht hname
    rw [renamedBy, if_pos hname]
    exact face_ofName hcuts hname
  · rw [renamedBy, if_neg hname]

theorem map_renamedBy_id {source : Text} {body : List Token} (hread : ReadAs source body) :
    (body.map (renamedBy id)).map Token.face = body.map Token.face := by
  rw [List.map_map]
  exact List.map_congr_left fun t ht => renamedBy_id hread ht

theorem asked_renameAt (f : Text → Text) (ts : List Token) :
    (ts.map (renameAt f)).flatMap Decision.asked =
      (ts.filter Token.isIdentifier).map fun t => .name (unquoteName t.text) := by
  induction ts with
  | nil => rfl
  | cons t ts ih =>
      rw [List.map_cons, List.flatMap_cons, ih, List.filter_cons]
      cases ht : t.isIdentifier <;> simp [renameAt, ht]

/-- Under the mapping that leaves every name as it is, each name of a
script is asked about and every token is put in its own place, in kind and
text; so the script comes out as it went in. -/
theorem renameIdentifiers_identity (level : Level) (script : Text) :
    ∃ trace outcome,
      (renameIdentifiers id).traceFrom (.start (Script.parse level script).body) = .ok trace ∧
      trace.asked = ((Script.parse level script).body.filter Token.isIdentifier).map
        (fun t => .name (unquoteName t.text)) ∧
      trace.emitted.map Token.face = (Script.parse level script).body.map Token.face ∧
      (renameIdentifiers id).run level script = .ok outcome ∧
      outcome.output = script ∧ outcome.problems = (Script.parse level script).problems := by
  have hface : ((Script.parse level script).body.map (renamedBy id)).map Token.face =
      (Script.parse level script).body.map Token.face := by
    rw [Script.body_parse]
    cases hraw : tokensFrom .start script with
    | error e => rfl
    | ok raw => exact map_renamedBy_id (ReadAs.of_tokensFrom hraw)
  have htrace := trace_renameIdentifiers id (Script.parse level script).body
  by_cases hproblems : (Script.parse level script).problems = []
  · refine ⟨_, _, htrace, asked_renameAt id _, hface, run_renameIdentifiers id hproblems, ?_,
      hproblems.symm⟩
    calc Token.textOf ((Script.parse level script).body.map (renamedBy id))
        = Token.textOf (Script.parse level script).body := textOf_congr hface
      _ = script := (Script.readAs hproblems).text
  · exact ⟨_, _, htrace, asked_renameAt id _, hface, run_of_problems hproblems, rfl, rfl⟩

end Pass

end Tsql
