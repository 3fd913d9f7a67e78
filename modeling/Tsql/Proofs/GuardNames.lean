import Tsql.Proofs.GuardPlaces
import Tsql.Proofs.ProcedureNormal

/-!
# Names in guards, read back

A name of the source goes through two layers of quoting: its parts are put
in their delimiters again inside a statement, and the statement is put in
a literal. `Token.heldText` undoes the outer layer and
`QualifiedName.peek` the inner one.

Of the two layers the outer loses nothing (`heldText_literal`). For the
inner one the text of a statement is written as tokens
(`statementTokens`), and these are what is read from it, since every part
of a name that comes from a script is legible. `Statement` collects what
is then found in a text: two keywords and the name.

`OBJECT_ID` is given the name alone, so that its first part opens the
text. There a bare `GO` is a batch separator and no name; all other names
are found (`nameIn_schemaText_iff`).
-/

namespace Tsql

open Lexeme

/-! ## Texts in literals -/

/-- The text a literal stands for: what is between its quotes, a pair of
quotes for each one. -/
def Token.heldText (t : Token) : Text :=
  undoubled '\'' (t.text.dropWhile (· ≠ '\'')).tail.dropLast

theorem heldText_literal (text : Text) : (Guard.literal text).heldText = text := by
  simp [Token.heldText, Guard.literal, Token.synthetic, stringLiteral, undoubled_doubled]

theorem heldText_nationalLiteral (text : Text) : (Guard.nationalLiteral text).heldText = text := by
  simp [Token.heldText, Guard.nationalLiteral, Token.synthetic, stringLiteral, undoubled_doubled]

/-- The token behind the first place where the given tokens stand in a
row. -/
def tokenBehind (front : List Token) : List Token → Option Token
  | [] => none
  | t :: ts =>
    if front.isPrefixOf (t :: ts) then (t :: ts)[front.length]? else tokenBehind front ts

def textBehind (front ts : List Token) : Option Text := (tokenBehind front ts).map Token.heldText

namespace Guard

/-- What stands before a statement that is run from its text. -/
def execOpen : List Token := [keyword "EXEC", leftParen]

def objectIdOpen : List Token := [identifier "OBJECT_ID", leftParen]

/-- What stands before the text that a column `name` is compared with. -/
def nameEquals : List Token := [identifier "name", space, equals, space]

end Guard

section

open Guard

variable (name : QualifiedName) (ending : LineEnding)

theorem exec_procedure : textBehind execOpen (Guard.procedure ending name) =
    some ("CREATE PROCEDURE ".toList ++ name.schemaText ++ " AS".toList) := by
  rw [← heldText_literal ("CREATE PROCEDURE ".toList ++ name.schemaText ++ " AS".toList)]
  cases ending <;> rfl

theorem exec_function : textBehind execOpen (Guard.function ending name) =
    some ("DROP FUNCTION ".toList ++ name.schemaText) := by
  rw [← heldText_literal ("DROP FUNCTION ".toList ++ name.schemaText)]
  cases ending <;> rfl

theorem exec_view : textBehind execOpen (Guard.view ending name) =
    some ("CREATE VIEW ".toList ++ name.schemaText ++ " AS SELECT 1 AS placeholder".toList) := by
  rw [← heldText_literal
    ("CREATE VIEW ".toList ++ name.schemaText ++ " AS SELECT 1 AS placeholder".toList)]
  cases ending <;> rfl

theorem exec_schema (value : Text) (owner : Option Token) :
    textBehind execOpen (Guard.schema ending value owner) = some (schemaStatement value owner) := by
  rw [← heldText_literal (schemaStatement value owner)]
  cases ending <;> rfl

theorem compared_procedure :
    textBehind nameEquals (Guard.procedure ending name) = some name.object.value := by
  rw [← heldText_literal name.object.value]
  cases ending <;> rfl

theorem objectId_function :
    textBehind objectIdOpen (Guard.function ending name) = some name.schemaText := by
  rw [← heldText_nationalLiteral name.schemaText]
  cases ending <;> rfl

theorem objectId_view :
    textBehind objectIdOpen (Guard.view ending name) = some name.schemaText := by
  rw [← heldText_nationalLiteral name.schemaText]
  cases ending <;> rfl

end

/-! ## Tokens that are read from their text -/

/-- Tokens that hold together are what is read from their text, but for
the marks of batch separators. -/
theorem parse_textOf {ts : List Token} (hreads : ReadsBefore ts []) (inner : Level) :
    (∃ raw, tokensFrom .start (Token.textOf ts) = .ok raw) ∧
      (Script.parse inner (Token.textOf ts)).body.map Token.face =
        (markBatches true ts).map Token.face := by
  have hunmarked : (markBatches true ts).map Token.unmarked = ts :=
    map_unmarked_markBatches hreads []
  have hreads' : ReadsBefore ((markBatches true ts).map Token.unmarked) [] := by rwa [hunmarked]
  obtain ⟨raw, hraw, hface⟩ := tokensFrom_textOf hreads' (by rw [hunmarked])
  rw [← textOf_map_unmarked, hunmarked] at hraw
  refine ⟨⟨raw, hraw⟩, ?_⟩
  rw [Script.body_parse, hraw]
  exact hface

/-- On one line only the first token can be a batch separator. -/
theorem markBatches_line {t : Token} {ts : List Token} (ht : t.isBlank = false)
    (hts : ∀ u ∈ ts, u.isBlank = true → u.text.contains '\n' = false) :
    markBatches true (t :: ts) = t.markedAt true :: ts := by
  rw [markBatches_step, ht, Bool.false_and, (markBatches_false hts).1]

/-- The tokens of a text hold together, whether or not there are problems
with it. -/
theorem readsBefore_body (level : Level) (source : Text) :
    ReadsBefore ((Script.parse level source).body.map Token.unmarked) [] := by
  rw [Script.body_parse]
  cases hraw : tokensFrom .start source with
  | error problem => exact trivial
  | ok raw => exact (ReadAs.of_tokensFrom hraw).reads

/-- The name that is recognised in a text, from an offset on. -/
def nameIn (level : Level) (text : Text) (offset : Nat) : Option QualifiedName :=
  (QualifiedName.peek (.start (Script.parse level text).body) offset).map Prod.fst

theorem view_congr {ts us : List Token} (h : ts.map Token.face = us.map Token.face) (k : Nat) :
    ((Cursor.start ts).view k).map Token.face = ((Cursor.start us).view k).map Token.face := by
  have hupcoming : (Cursor.start ts).upcoming.map Token.face =
      (Cursor.start us).upcoming.map Token.face := by
    refine Pass.filter_isWhitespace_congr ?_
    rw [List.map_tail, List.map_tail]
    exact congrArg List.tail h
  cases k with
  | zero =>
      rw [Cursor.view, Cursor.view, List.map_append, List.map_append, hupcoming, List.map_take,
        List.map_take]
      exact congrArg (·.take 1 ++ _) h
  | succ k => rw [Cursor.view, Cursor.view, List.map_drop, List.map_drop, hupcoming]

theorem nameIn_eq {level : Level} {text : Text} {ts : List Token}
    (h : (Script.parse level text).body.map Token.face = ts.map Token.face) (offset : Nat) :
    nameIn level text offset = (QualifiedName.peek (.start ts) offset).map Prod.fst := by
  rw [nameIn, QualifiedName.peek, QualifiedName.peek,
    QualifiedName.read_congr (view_congr h offset)]

/-! ## Names without their database -/

theorem filter_of_inName {ts : List Token} (h : ∀ t ∈ ts, t.inName = true) :
    ts.filter (!·.isWhitespace) = ts :=
  List.filter_eq_self.mpr fun t ht => by simp [Token.isWhitespace_of_inName (h t ht)]

namespace QualifiedName

def withoutDatabase (n : QualifiedName) : QualifiedName := { n with database := none }

/-- The tokens of the name without its database. -/
def schemaTokens (n : QualifiedName) : List Token := dotted n.schema.toList ++ [n.object.token]

theorem textOf_schemaTokens (n : QualifiedName) : Token.textOf n.schemaTokens = n.schemaText := by
  obtain ⟨database, schema, object⟩ := n
  cases schema with
  | none => exact List.append_nil _
  | some s =>
      simp [schemaTokens, schemaText, Text.joinWith, NamePart.text, NamePart.token, Token.ofName,
        Token.synthetic, Pass.dotToken]

theorem inName_of_mem_schemaTokens {n : QualifiedName} {t : Token} (ht : t ∈ n.schemaTokens) :
    t.inName = true := by
  rcases List.mem_append.mp ht with ht | ht
  · exact inName_of_mem_dotted ht
  · obtain rfl := List.mem_singleton.mp ht
    exact Token.inName_of_isIdentifier n.object.isIdentifier_token

theorem Legible.schema {n : QualifiedName} (h : n.Legible) : ∀ p ∈ n.schema.toList, p.Legible := by
  intro p hp
  refine h.qualifiers p (List.mem_append_right _ (List.mem_singleton.mpr ?_))
  rw [schemaPart, Option.mem_toList.mp hp]
  rfl

theorem Legible.reads_schemaTokens {n : QualifiedName} (h : n.Legible) {rest : List Token}
    (hends : ∀ u ∈ rest.head?, u.kind ≠ .dot) :
    Reads (n.schemaTokens ++ rest) n.withoutDatabase n.schemaTokens.length := by
  have hobject := h.object.part
  have hschema := h.schema
  obtain ⟨database, schema, object⟩ := n
  cases schema with
  | none =>
      have hreads := Reads.object object.isIdentifier_token hends
      rw [hobject] at hreads
      exact hreads
  | some s =>
      have hreads := Reads.schema s.isIdentifier_token
        (show Pass.dotToken.kind = .dot from rfl) object.isIdentifier_token hends
      rw [hobject, (hschema s (Option.mem_toList.mpr rfl)).part] at hreads
      exact hreads

/-- The tokens are cut off in front of nothing, and in front of a
blank. -/
theorem Legible.readsBefore_schemaTokens {n : QualifiedName} (h : n.Legible) {rest : Text}
    (hrest : rest = [] ∨ rest.head? = some ' ') : ReadsBefore n.schemaTokens rest := by
  refine readsBefore_dotted h.schema h.object ?_
  rcases hrest with rfl | hrest
  · exact h.object.cuts
  · obtain ⟨more, rfl⟩ := List.head?_eq_some_iff.mp hrest
    exact NamePart.cuts_before h.object (Or.inr rfl) more

end QualifiedName

/-! ## Statements -/

/-- What is found in the text of a statement: two keywords, and behind
them a name. -/
structure Statement (inner : Level) (first second : String) (name : QualifiedName)
    (text : Text) : Prop where
  readable : ∃ raw, tokensFrom .start text = .ok raw
  keywords : ∃ t u more, (Script.parse inner text).body.filter (!·.isWhitespace) = t :: u :: more ∧
    t.isKeyword first = true ∧ u.isKeyword second = true
  name : nameIn inner text 2 = some name

/-- What may stand behind the name of a statement. -/
structure Follows (tail : List Token) : Prop where
  reads : ReadsBefore tail []
  opens : Token.textOf tail = [] ∨ (Token.textOf tail).head? = some ' '
  lines : ∀ t ∈ tail, t.isBlank = true → t.text.contains '\n' = false
  ends : ∀ t ∈ (tail.filter (!·.isWhitespace)).head?, t.kind ≠ .dot

def statementTokens (first second : String) (name : QualifiedName) (tail : List Token) :
    List Token :=
  Guard.keyword first :: Guard.space :: Guard.keyword second :: Guard.space ::
    (name.schemaTokens ++ tail)

section

variable {first second : String} {name : QualifiedName} {tail : List Token}

theorem cuts_keyword_space {word : String} (h : Cuts .keyword word.toList []) (rest : Text) :
    Cuts .keyword word.toList (' ' :: rest) := by
  refine (cuts_iff _ _ _).mpr ⟨h, ?_⟩
  simp [stops, wordStops, show isIdentifierPart ' ' = false by decide]

theorem cuts_space (rest : Text) : Cuts .whitespace [' '] rest :=
  (cuts_iff _ _ _).mpr ⟨by decide, by simp [stops]⟩

theorem readsBefore_statementTokens (hfirst : Cuts .keyword first.toList [])
    (hsecond : Cuts .keyword second.toList []) (hname : name.Legible) (htail : Follows tail) :
    ReadsBefore (statementTokens first second name tail) [] := by
  refine ⟨cuts_keyword_space hfirst _, cuts_space _, cuts_keyword_space hsecond _, cuts_space _, ?_⟩
  rw [readsBefore_append, List.append_nil]
  exact ⟨hname.readsBefore_schemaTokens htail.opens, htail.reads⟩

theorem markBatches_statementTokens (hfirst : Cuts .keyword first.toList [])
    (htail : Follows tail) : markBatches true (statementTokens first second name tail) =
      statementTokens first second name tail := by
  have hgo : (Guard.keyword first).isWord "GO" = false := by
    rw [← Bool.not_eq_true]
    intro hword
    cases kind_of_go hfirst (Bool.and_eq_true_iff.mp hword).2
  refine (markBatches_line rfl fun u hu hblank => ?_).trans ?_
  · simp only [List.mem_cons, List.mem_append] at hu
    rcases hu with rfl | rfl | rfl | hu | hu
    · decide
    · cases hblank
    · decide
    · rw [(Token.of_inName (QualifiedName.inName_of_mem_schemaTokens hu)).1] at hblank
      cases hblank
    · exact htail.lines u hu hblank
  · rw [Token.markedAt, hgo, Bool.and_false]
    rfl

theorem filter_statementTokens (first second : String) (name : QualifiedName)
    (tail : List Token) : (statementTokens first second name tail).filter (!·.isWhitespace) =
      Guard.keyword first :: Guard.keyword second ::
        (name.schemaTokens ++ tail.filter (!·.isWhitespace)) := by
  nth_rewrite 1 [← filter_of_inName fun t => QualifiedName.inName_of_mem_schemaTokens]
  rw [← List.filter_append]
  rfl

/-- What is read from the text of a statement are its tokens. -/
theorem statement_of_legible (hfirst : Cuts .keyword first.toList [])
    (hsecond : Cuts .keyword second.toList []) (hname : name.Legible) (htail : Follows tail)
    (inner : Level) :
    Statement inner first second name.withoutDatabase
      (Token.textOf (statementTokens first second name tail)) := by
  obtain ⟨hraw, hface⟩ :=
    parse_textOf (readsBefore_statementTokens hfirst hsecond hname htail) inner
  rw [markBatches_statementTokens hfirst htail] at hface
  have hkeyword : ∀ {t : Token} {word : String}, t.face = (Guard.keyword word).face →
      t.isKeyword word = true := by
    intro t word h
    obtain ⟨hkind, htext⟩ := Prod.mk.inj h
    rw [Token.isKeyword, hkind, htext]
    simp [Guard.keyword, Token.synthetic, Text.sameFold]
  refine ⟨hraw, ?_, ?_⟩
  · have hfilter := Pass.filter_isWhitespace_congr hface
    rw [filter_statementTokens, List.map_cons, List.map_cons] at hfilter
    obtain ⟨t, ts, hts, ht, hmore⟩ := List.map_eq_cons_iff.mp hfilter
    obtain ⟨u, us, rfl, hu, -⟩ := List.map_eq_cons_iff.mp hmore
    exact ⟨t, u, us, hts, hkeyword ht, hkeyword hu⟩
  · have hview : (Cursor.start (statementTokens first second name tail)).view 2 =
        name.schemaTokens ++ tail.filter (!·.isWhitespace) :=
      congrArg (List.drop 2) (filter_statementTokens first second name tail)
    rw [nameIn_eq hface, QualifiedName.peek, hview,
      (hname.reads_schemaTokens htail.ends).read_eq]
    rfl

end

/-! ## The statements of guards -/

theorem follows_nil : Follows [] := ⟨trivial, Or.inl rfl, by simp, by simp⟩

/-- What stands behind the name of the stub of a procedure. -/
def procedureTail : List Token := [Guard.space, Guard.keyword "AS"]

def viewTail : List Token :=
  procedureTail ++ [Guard.space, Guard.keyword "SELECT", Guard.space,
    .synthetic .numberLiteral ['1'], Guard.space, Guard.keyword "AS", Guard.space,
    Guard.identifier "placeholder"]

def ownerTail : Option Token → List Token
  | none => []
  | some owner => [Guard.space, Guard.keyword "AUTHORIZATION", Guard.space, owner]

theorem follows_procedureTail : Follows procedureTail :=
  ⟨by decide +kernel, Or.inr (by decide), by decide, by decide⟩

theorem follows_viewTail : Follows viewTail :=
  ⟨by decide +kernel, Or.inr (by decide), by decide, by decide⟩

theorem follows_ownerTail {owner : Option Token}
    (h : ∀ o ∈ owner, o.isIdentifier = true ∧ Cuts o.kind o.text []) :
    Follows (ownerTail owner) := by
  cases owner with
  | none => exact follows_nil
  | some o =>
      obtain ⟨ho, hcuts⟩ := h o rfl
      refine ⟨⟨cuts_space _, cuts_keyword_space (by decide +kernel) _, cuts_space _, ?_, trivial⟩,
        Or.inr rfl, ?_, ?_⟩
      · simpa using hcuts
      · intro t ht hblank
        simp only [ownerTail, List.mem_cons, List.not_mem_nil, or_false] at ht
        rcases ht with rfl | rfl | rfl | rfl
        · decide
        · cases hblank
        · decide
        · rw [(Token.of_inName (Token.inName_of_isIdentifier ho)).1] at hblank
          cases hblank
      · intro t ht
        have hhead : ((ownerTail (some o)).filter (!·.isWhitespace)).head? =
            some (Guard.keyword "AUTHORIZATION") := rfl
        rw [hhead] at ht
        obtain rfl := Option.some.inj ht
        decide

theorem textOf_statementTokens (first second : String) (name : QualifiedName)
    (tail : List Token) : Token.textOf (statementTokens first second name tail) =
      first.toList ++ [' '] ++ second.toList ++ [' '] ++ name.schemaText ++ Token.textOf tail := by
  rw [← QualifiedName.textOf_schemaTokens]
  simp [statementTokens, Guard.keyword, Guard.space, Token.synthetic]

/-- A name between delimiters is legible, whatever it is. -/
theorem NamePart.legible_quoted (value : Text) (q : Quote) : Legible ⟨value, some q⟩ := by
  refine ⟨cuts_quoteName value q, ?_⟩
  simp [ofToken, token, Token.ofName, Token.synthetic, Token.quote?, unquoteName_quoteName,
    of?_quoteName]

/-- The name in the statement of a schema guard. -/
def bracketed (value : Text) : QualifiedName := ⟨none, none, ⟨value, some .bracket⟩⟩

theorem legible_bracketed (value : Text) : (bracketed value).Legible := by
  refine ⟨fun p hp => ?_, NamePart.legible_quoted value .bracket⟩
  obtain rfl := List.mem_singleton.mp hp
  exact NamePart.legible_default

theorem schemaStatement_eq (value : Text) (owner : Option Token) :
    Guard.schemaStatement value owner =
      Token.textOf (statementTokens "CREATE" "SCHEMA" (bracketed value) (ownerTail owner)) := by
  rw [textOf_statementTokens]
  cases owner with
  | none => rfl
  | some o =>
      have htail : Token.textOf (ownerTail (some o)) = " AUTHORIZATION ".toList ++ o.text := by
        rw [ownerTail, Token.textOf_cons, Token.textOf_cons, Token.textOf_cons, Token.textOf_cons,
          Token.textOf_nil, List.append_nil]
        rfl
      rw [htail]
      rfl

/-! ## Names at the beginning of a text -/

/-- Whether the first part of the name, its database apart, is the bare
word `GO`. -/
def QualifiedName.opensWithGo (n : QualifiedName) : Bool :=
  let first := n.schema.getD n.object
  first.quote.isNone && first.value.sameFold "GO".toList

theorem NamePart.isWord_token (p : NamePart) :
    p.token.isWord "GO" = (p.quote.isNone && p.value.sameFold "GO".toList) := by
  obtain ⟨value, quote⟩ := p
  cases quote <;> rfl

theorem QualifiedName.exists_schemaTokens (n : QualifiedName) :
    ∃ ts, n.schemaTokens = (n.schema.getD n.object).token :: ts := by
  obtain ⟨database, schema, object⟩ := n
  cases schema <;> exact ⟨_, rfl⟩

/-- A name that opens a text is recognised, unless its first part is the
word that separates batches. -/
theorem nameIn_schemaText_iff {name : QualifiedName} (hname : name.Legible) (inner : Level) :
    nameIn inner name.schemaText 0 = some name.withoutDatabase ↔ name.opensWithGo = false := by
  have hreads : ReadsBefore name.schemaTokens [] := hname.readsBefore_schemaTokens (Or.inl rfl)
  have hface := (parse_textOf hreads inner).2
  obtain ⟨ts, hts⟩ := name.exists_schemaTokens
  have hin : ∀ t ∈ (name.schema.getD name.object).token :: ts, t.inName = true := by
    rw [← hts]
    exact fun t => QualifiedName.inName_of_mem_schemaTokens
  have hline : markBatches true name.schemaTokens =
      (name.schema.getD name.object).token.markedAt true :: ts := by
    rw [hts]
    refine markBatches_line (Token.of_inName (hin _ List.mem_cons_self)).1 fun u hu hblank => ?_
    rw [(Token.of_inName (hin u (List.mem_cons_of_mem _ hu))).1] at hblank
    cases hblank
  rw [hline, QualifiedName.textOf_schemaTokens] at hface
  -- of the tokens only the first can have become something else
  rw [nameIn_eq hface, QualifiedName.opensWithGo, ← NamePart.isWord_token, QualifiedName.peek]
  cases hgo : (name.schema.getD name.object).token.isWord "GO" with
  | true =>
      simp [Token.markedAt, hgo, Cursor.view, Cursor.start, Cursor.seek, QualifiedName.read,
        Token.isIdentifier]
  | false =>
      have hview :
          (Cursor.start ((name.schema.getD name.object).token.markedAt true :: ts)).view 0 =
            name.schemaTokens ++ [] := by
        rw [Token.markedAt, hgo, List.append_nil, hts]
        exact congrArg (List.cons _)
          (filter_of_inName fun t ht => hin t (List.mem_cons_of_mem _ ht))
      rw [hview, (hname.reads_schemaTokens (by simp)).read_eq]
      simp

namespace Pass

variable {accepts : Text → Text → Bool} {ending : LineEnding} {level : Level}

/-! ## Names of guarded definitions -/

theorem Head.legible {ts rest : List Token} {object : Token} {name : QualifiedName}
    (h : Head ts object name rest) (hreads : ReadsBefore (ts.map Token.unmarked) []) :
    name.Legible := by
  obtain ⟨words, htokens, hname⟩ := h
  refine hname.legible fun u hu hidentifier => ?_
  have hmem : u ∈ ts.filter (!·.isWhitespace) := htokens ▸ List.mem_cons_of_mem _ hu
  obtain ⟨rest', hcuts⟩ := cuts_of_isIdentifier hreads (List.mem_filter.mp hmem).1 hidentifier
  exact NamePart.legible_ofToken hcuts hidentifier

/-- The owner of a schema is a name of the script. -/
theorem Head.cuts_owner {ts rest : List Token} {object : Token} {name : QualifiedName}
    (h : Head ts object name rest) (hreads : ReadsBefore (ts.map Token.unmarked) []) :
    ∀ o ∈ ownerIn rest, o.isIdentifier = true ∧ Cuts o.kind o.text [] := by
  intro o howner
  obtain ⟨words, htokens, -⟩ := h
  obtain ⟨clause, more, rfl, -, hidentifier⟩ := ownerIn_eq_some howner
  have hmem : o ∈ ts.filter (!·.isWhitespace) := by simp [htokens]
  obtain ⟨rest', hcuts⟩ := cuts_of_isIdentifier hreads (List.mem_filter.mp hmem).1 hidentifier
  exact ⟨hidentifier, ((cuts_iff _ _ _).mp hcuts).1⟩

/-- What is found in the literals of a guard: in the statement that is run
the name, its database apart, and where a name is looked up the same
again. -/
def KeepsNames (inner : Level) (tokens : List Token) : Guarded → Prop
  | .procedure name =>
    (∃ text ∈ textBehind Guard.execOpen tokens,
      Statement inner "CREATE" "PROCEDURE" name.withoutDatabase text) ∧
    textBehind Guard.nameEquals tokens = some name.object.value
  | .function name =>
    (∃ text ∈ textBehind Guard.execOpen tokens,
      Statement inner "DROP" "FUNCTION" name.withoutDatabase text) ∧
    ∃ text ∈ textBehind Guard.objectIdOpen tokens,
      nameIn inner text 0 = some name.withoutDatabase ↔ name.opensWithGo = false
  | .view name =>
    (∃ text ∈ textBehind Guard.execOpen tokens,
      Statement inner "CREATE" "VIEW" name.withoutDatabase text) ∧
    ∃ text ∈ textBehind Guard.objectIdOpen tokens,
      nameIn inner text 0 = some name.withoutDatabase ↔ name.opensWithGo = false
  | .schema value owner =>
    ∃ text ∈ textBehind Guard.execOpen tokens,
      Statement inner "CREATE" "SCHEMA" (bracketed value) text ∧
      text = "CREATE SCHEMA ".toList ++ quoteName value (some .bracket) ++
        match owner with
        | some o => " AUTHORIZATION ".toList ++ o.text
        | none => []

theorem keepsNames_of_guards {t : Token} {ts : List Token} {g : Guarded}
    (h : Guards accepts t ts g) (hreads : ReadsBefore (ts.map Token.unmarked) [])
    (ending : LineEnding) (inner : Level) : KeepsNames inner (g.tokens ending) g := by
  have hwords : ∀ word ∈ ["CREATE", "DROP", "PROCEDURE", "FUNCTION", "VIEW", "SCHEMA"],
      Cuts .keyword word.toList [] := by
    decide +kernel
  cases h with
  | @procedure object name rest _ hhead _ _ =>
      have hstatement := statement_of_legible (hwords "CREATE" (by simp))
        (hwords "PROCEDURE" (by simp)) (hhead.legible hreads) follows_procedureTail inner
      rw [textOf_statementTokens] at hstatement
      exact ⟨⟨_, exec_procedure name ending, hstatement⟩, compared_procedure name ending⟩
  | @view object name rest _ hhead _ _ =>
      have hname := hhead.legible hreads
      have hstatement := statement_of_legible (hwords "CREATE" (by simp))
        (hwords "VIEW" (by simp)) hname follows_viewTail inner
      rw [textOf_statementTokens] at hstatement
      exact ⟨⟨_, exec_view name ending, hstatement⟩,
        ⟨_, objectId_view name ending, nameIn_schemaText_iff hname inner⟩⟩
  | @function object name rest _ hhead _ _ _ =>
      have hname := hhead.legible hreads
      have hstatement := statement_of_legible (hwords "DROP" (by simp))
        (hwords "FUNCTION" (by simp)) hname follows_nil inner
      rw [textOf_statementTokens, Token.textOf_nil, List.append_nil] at hstatement
      exact ⟨⟨_, exec_function name ending, hstatement⟩,
        ⟨_, objectId_function name ending, nameIn_schemaText_iff hname inner⟩⟩
  | @schema object name rest _ hhead _ _ _ =>
      have hstatement := statement_of_legible (hwords "CREATE" (by simp))
        (hwords "SCHEMA" (by simp)) (legible_bracketed name.object.value)
        (follows_ownerTail (hhead.cuts_owner hreads)) inner
      rw [← schemaStatement_eq] at hstatement
      exact ⟨_, exec_schema ending _ _, hstatement, rfl⟩

/-! ## The result -/

/-- For each definition of a script that is guarded, a guard is put out
whose literals keep the name. -/
theorem guardCreates_keeps_names (accepts : Text → Text → Bool) (script : Text)
    (ending : LineEnding) (inner : Level) :
    ∃ trace,
      (guardCreates accepts ending).traceFrom (.start (Script.parse level script).body) =
        .ok trace ∧
      ((Script.parse level script).problems = [] →
        ∃ outcome, (guardCreates accepts ending).run level script = .ok outcome ∧
          outcome.output = Token.textOf trace.emitted) ∧
      ∀ pre t post g, (Script.parse level script).body = pre ++ t :: post →
        Guards accepts t post g →
        (∃ before after, trace.emitted = before ++ g.tokens ending ++ after) ∧
          KeepsNames inner (g.tokens ending) g := by
  obtain ⟨ps, ds, hlaid, hsource, hpassed, hemitted⟩ :=
    exists_pieces accepts ending (Script.parse level script).body
  have htrace := traceFrom_of_passed guardCreates_sees hpassed (.start _) rfl
  refine ⟨_, htrace, fun hproblems => ?_, fun pre t post g hbody hguards => ⟨?_, ?_⟩⟩
  · exact ⟨_, (run_eq_ok_iff hproblems).mpr ⟨_, htrace, rfl⟩, rfl⟩
  · obtain ⟨front, taken, back, rfl, -⟩ :=
      piece_of_guardedAt hlaid (hsource.trans hbody) (guardedAt_of_guards hguards)
    refine ⟨emittedOf ending front, emittedOf ending back, ?_⟩
    rw [hemitted, emittedOf_append, emittedOf_guard, List.append_assoc]
  · have hreads := readsBefore_body level script
    rw [hbody, List.map_append, readsBefore_append] at hreads
    exact keepsNames_of_guards hguards hreads.2.2 ending inner

/-- A view whose name holds what each layer of quoting doubles. -/
def quotedView : Text := "ALTER VIEW a..[b]]']".toList

def quotedName : QualifiedName :=
  ⟨some ⟨['a'], none⟩, some ⟨defaultSchema, none⟩, ⟨"b]'".toList, some .bracket⟩⟩

theorem guardCreates_keeps_names_quotedView :
    ∃ trace outcome,
      (guardCreates (fun _ _ => true) .lf).traceFrom
        (.start (Script.parse .sql110 quotedView).body) = .ok trace ∧
      (guardCreates (fun _ _ => true) .lf).run .sql110 quotedView = .ok outcome ∧
      outcome.output = Token.textOf trace.emitted ∧
      (∃ before after,
        trace.emitted = before ++ (Guarded.view quotedName).tokens .lf ++ after) ∧
      KeepsNames .sql110 ((Guarded.view quotedName).tokens .lf) (.view quotedName) := by
  obtain ⟨hproblems, hbody, hview⟩ :
      (Script.parse .sql110 quotedView).problems = [] ∧
      (Script.parse .sql110 quotedView).body =
        [] ++ ⟨.keyword, "ALTER".toList, some ⟨1, 1⟩⟩ ::
          (Script.parse .sql110 quotedView).body.drop 1 ∧
      guardedAt (fun _ _ => true) (⟨.keyword, "ALTER".toList, some ⟨1, 1⟩⟩ ::
        (Script.parse .sql110 quotedView).body.drop 1) = some (.view quotedName) := by
    decide +kernel
  obtain ⟨trace, htrace, hrun, hall⟩ :=
    guardCreates_keeps_names (fun _ _ => true) quotedView .lf .sql110
  obtain ⟨outcome, hrun, houtput⟩ := hrun hproblems
  obtain ⟨hplace, hnames⟩ := hall _ _ _ _ hbody (guards_of_guardedAt hview)
  exact ⟨trace, outcome, htrace, hrun, houtput, hplace, hnames⟩

def viewGo : Text := "CREATE VIEW GO AS SELECT 1".toList

/-- The one name that is lost: the view is guarded, and `OBJECT_ID` is
given its name, but as a text of its own that is no name. -/
theorem objectId_viewGo :
    (Script.parse .sql110 viewGo).problems = [] ∧
    nameIn .sql110 viewGo 2 = some ⟨none, none, ⟨"GO".toList, none⟩⟩ ∧
    ((guardCreates (fun _ _ => true) .crlf).traceFrom
        (.start (Script.parse .sql110 viewGo).body)).map
      (fun trace => textBehind Guard.objectIdOpen trace.emitted) = .ok (some "GO".toList) ∧
    nameIn .sql110 "GO".toList 0 = none := by
  decide +kernel

end Pass

end Tsql
