import Tsql.Proofs.Nesting
import Tsql.Proofs.ProcedureNames

/-!
# Procedure names in full

Under the mapping that leaves every name as it is, the pass still writes
each name anew: with its schema, and without the white space around its
dots. `QualifiedName.spelled` is what it writes.

Such a name is read as it was written, and as the same name with its
schema filled in. Nothing else changes: what stands behind a name is cut
off as before, since a run leaves the tokens as they are up to the next
keyword (`Renames.front`), and the checks do not look at the parts of a
name but for the last. So the script that comes out is one the pass has
nothing to do on.
-/

namespace Tsql

open Lexeme

/-! ## Names in full -/

namespace QualifiedName

/-- The schema, the default one if the name gives none. -/
def schemaPart (n : QualifiedName) : NamePart := n.schema.getD ⟨defaultSchema, none⟩

/-- The name with its schema. -/
def qualified (n : QualifiedName) : QualifiedName := { n with schema := some n.schemaPart }

/-- The parts before the object. -/
def qualifiers (n : QualifiedName) : List NamePart := n.database.toList ++ [n.schemaPart]

/-- Parts, each with the dot behind it. -/
def dotted (ps : List NamePart) : List Token := ps.flatMap fun p => [p.token, Pass.dotToken]

@[simp] theorem dotted_nil : dotted [] = [] := rfl

@[simp] theorem dotted_cons (p : NamePart) (ps : List NamePart) :
    dotted (p :: ps) = p.token :: Pass.dotToken :: dotted ps := rfl

/-- The tokens of the name with its schema. -/
def spelled (n : QualifiedName) : List Token := dotted n.qualifiers ++ [n.object.token]

theorem renamedProcedure_self (n : QualifiedName) :
    Pass.renamedProcedure n n.schemaOrDefault n.object.value = n.spelled := by
  obtain ⟨database, schema, object⟩ := n
  cases database <;> cases schema <;> rfl

theorem schemaOrDefault_qualified (n : QualifiedName) :
    n.qualified.schemaOrDefault = n.schemaOrDefault := by
  obtain ⟨database, schema, object⟩ := n
  cases schema <;> rfl

theorem inName_of_mem_dotted {ps : List NamePart} {t : Token} (ht : t ∈ dotted ps) :
    t.inName = true := by
  obtain ⟨p, -, hmem⟩ := List.mem_flatMap.mp ht
  simp only [List.mem_cons, List.not_mem_nil, or_false] at hmem
  rcases hmem with rfl | rfl
  · exact Token.inName_of_isIdentifier p.isIdentifier_token
  · rfl

theorem inName_of_mem_spelled {n : QualifiedName} {t : Token} (ht : t ∈ n.spelled) :
    t.inName = true := by
  rcases List.mem_append.mp ht with ht | ht
  · exact inName_of_mem_dotted ht
  · obtain rfl := List.mem_singleton.mp ht
    exact Token.inName_of_isIdentifier n.object.isIdentifier_token

theorem filter_spelled {p : Token → Bool} (hp : ∀ t : Token, t.inName = true → p t = true)
    (n : QualifiedName) : n.spelled.filter p = n.spelled :=
  List.filter_eq_self.mpr fun t ht => hp t (inName_of_mem_spelled ht)

/-! ## Reading a name in full -/

/-- A name all parts of which can be read again. -/
structure Legible (n : QualifiedName) : Prop where
  qualifiers : ∀ p ∈ n.qualifiers, p.Legible
  object : n.object.Legible

/-- A name is legible if it is read from tokens that are. -/
theorem Reads.legible {ts : List Token} {name : QualifiedName} {span : Nat}
    (h : Reads ts name span)
    (hts : ∀ t ∈ ts, t.isIdentifier = true → (NamePart.ofToken t).Legible) : name.Legible := by
  have hpart : ∀ p, some p = name.database ∨ some p = name.schema → p.Legible := by
    intro p hp
    rcases h.parts hp with rfl | ⟨t, ht, hname, rfl⟩
    · exact NamePart.legible_default
    · exact hts t ht hname
  constructor
  · intro p hp
    rcases List.mem_append.mp hp with hp | hp
    · exact hpart p (Or.inl (Option.mem_toList.mp hp).symm)
    · obtain rfl := List.mem_singleton.mp hp
      rw [schemaPart]
      cases hschema : name.schema with
      | none => exact NamePart.legible_default
      | some s => exact hpart s (Or.inr hschema.symm)
  · obtain ⟨front, o, htake, -, -, ho, hobject⟩ := h.tokens
    have hmem : o ∈ ts.take span := by simp [htake]
    rw [hobject]
    exact hts o (List.mem_of_mem_take hmem) ho

/-- The name is read with its schema, unless dots go on where the schema
is the first of its parts. -/
theorem Legible.reads {n : QualifiedName} (h : n.Legible) {rest : List Token}
    (hends : n.database = none → ∀ u ∈ rest.head?, u.kind ≠ .dot) :
    Reads (n.spelled ++ rest) n.qualified n.spelled.length := by
  obtain ⟨database, schema, object⟩ := n
  have hobject : NamePart.ofToken object.token = object := h.object.part
  have hschema := (h.qualifiers (schemaPart ⟨database, schema, object⟩)
    (by simp [QualifiedName.qualifiers])).part
  cases database with
  | none =>
      have hreads := Reads.schema (schemaPart ⟨none, schema, object⟩).isIdentifier_token
        (show Pass.dotToken.kind = .dot from rfl) object.isIdentifier_token (hends rfl)
      rw [hschema, hobject] at hreads
      exact hreads
  | some database =>
      have hdatabase := (h.qualifiers database (by simp [QualifiedName.qualifiers])).part
      have hreads := @Reads.database _ _ _ _ _ rest database.isIdentifier_token
        (show Pass.dotToken.kind = .dot from rfl)
        (schemaPart ⟨some database, schema, object⟩).isIdentifier_token
        (show Pass.dotToken.kind = .dot from rfl) object.isIdentifier_token
      rw [hdatabase, hschema, hobject] at hreads
      exact hreads

end QualifiedName

/-- A part ends where a dot or a blank follows. -/
theorem NamePart.cuts_before {p : NamePart} (h : p.Legible) {c : Char} (hc : c = '.' ∨ c = ' ')
    (rest : Text) : Cuts p.token.kind p.token.text (c :: rest) := by
  refine (cuts_iff _ _ _).mpr ⟨h.cuts, ?_⟩
  rcases Token.isIdentifier_iff.mp p.isIdentifier_token with hkind | hkind
  · have hpart : isIdentifierPart c = false ∧ c ≠ '\'' := by
      rcases hc with rfl | rfl <;> decide
    rw [hkind]
    simp [stops, wordStops, hpart]
  · rw [hkind]
    have hne : ∀ q : Char, q = ']' ∨ q = '"' → c ≠ q := by
      rcases hc with rfl | rfl <;> rintro q (rfl | rfl) <;> decide
    simpa [stops] using hne (if p.token.text.head? = some '[' then ']' else '"') (by split <;> simp)

/-- A dot stays one before a name, which does not begin with a digit. -/
theorem NamePart.cuts_dot {p : NamePart} (h : p.Legible) (rest : Text) :
    Cuts Pass.dotToken.kind Pass.dotToken.text (p.token.text ++ rest) := by
  refine (cuts_iff _ _ _).mpr ⟨by decide, ?_⟩
  have hdigit := NamePart.not_digit_of_cuts h.cuts p.isIdentifier_token
  obtain ⟨c, cs, htext⟩ := List.exists_cons_of_ne_nil h.cuts.text_ne_nil
  rw [htext] at hdigit ⊢
  simpa [stops, Pass.dotToken, Token.synthetic] using hdigit

theorem QualifiedName.readsBefore_dotted {ps : List NamePart} (hps : ∀ p ∈ ps, p.Legible)
    {o : NamePart} (ho : o.Legible) {rest : Text}
    (hcuts : Cuts o.token.kind o.token.text rest) :
    ReadsBefore (dotted ps ++ [o.token]) rest := by
  induction ps with
  | nil => exact ⟨hcuts, trivial⟩
  | cons p ps ih =>
      have hp := hps p List.mem_cons_self
      have hmore := fun q hq => hps q (List.mem_cons_of_mem p hq)
      -- behind the dot stands the next of the parts, or the object
      have hdot : Cuts Pass.dotToken.kind Pass.dotToken.text
          (Token.textOf (dotted ps ++ [o.token]) ++ rest) := by
        cases ps with
        | nil => simpa using NamePart.cuts_dot ho rest
        | cons q qs => simpa using NamePart.cuts_dot (hmore q List.mem_cons_self) _
      exact ⟨NamePart.cuts_before hp (Or.inl rfl) _, hdot, ih hmore⟩

/-! ## Names and the checks -/

namespace Structure

variable {level : Level}

theorem isSignificant_of_inName {t : Token} (h : t.inName = true) : isSignificant t = true := by
  rw [isSignificant_eq_not_isBlank, (Token.of_inName h).1]
  rfl

/-- Names and dots count whether or not comments do. -/
theorem filter_isSignificant_of_inName {ts us : List Token}
    (h : ts.filter (!·.isWhitespace) = us) (hus : ∀ u ∈ us, u.inName = true) :
    ts.filter isSignificant = us := by
  have hfilter : ts.filter isSignificant =
      (ts.filter (!·.isWhitespace)).filter isSignificant := by
    rw [List.filter_filter]
    apply List.filter_congr
    intro t _
    cases ht : t.isWhitespace <;> simp [isSignificant, ht]
  rw [hfilter, h]
  exact List.filter_eq_self.mpr fun u hu => isSignificant_of_inName (hus u hu)

theorem step_inName {t : Token} (h : t.inName = true) {next : Option Token}
    (hnext : next.any (·.kind = .leftParen) = false) (s : State) : s.step level t next = s := by
  rcases Token.inName_iff.mp h with hkind | hkind | hkind
  · simp [State.step, Token.isKeyword, hkind, hnext]
  · simp [State.step, Token.isKeyword, hkind]
  · simp [State.step, Token.isKeyword, hkind]

/-- Of a name the checks see the last part alone. -/
theorem run_inName {front : List Token} (hfront : ∀ u ∈ front, u.inName = true) {t : Token}
    (ht : t.inName = true) (s : State) (rest : List Token) :
    s.run level (front ++ t :: rest) = s.run level (t :: rest) := by
  have hparen : ∀ u : Token, u.inName = true → u.kind ≠ .leftParen := by
    intro u hu
    rcases Token.inName_iff.mp hu with hkind | hkind | hkind <;>
      · rw [hkind]
        decide
  induction front with
  | nil => rfl
  | cons u front ih =>
      have hmore := fun v hv => hfront v (List.mem_cons_of_mem u hv)
      have hnext : (front ++ t :: rest).head?.any (·.kind = .leftParen) = false := by
        cases front with
        | nil => simp [hparen t ht]
        | cons v vs => simp [hparen v (hmore v List.mem_cons_self)]
      rw [List.cons_append, State.run, step_inName (hfront u List.mem_cons_self) hnext,
        ih hmore]

end Structure

namespace Pass

variable {level : Level}

/-! ## Keywords that names follow -/

def introducingWords : List String := ["PROCEDURE", "PROC", "EXEC", "EXECUTE"]

theorem keyword_of_introduces {t : Token} (h : introducesProcedure t = true) :
    ∃ word ∈ introducingWords, t.isKeyword word = true := by
  simpa [introducesProcedure, introducingWords, or_assoc] using h

theorem kind_of_introduces {t : Token} (h : introducesProcedure t = true) : t.kind = .keyword := by
  obtain ⟨word, -, hword⟩ := keyword_of_introduces h
  exact kind_of_isKeyword hword

theorem length_of_introduces {t : Token} (h : introducesProcedure t = true) :
    3 ≤ t.text.length := by
  obtain ⟨word, hmem, hword⟩ := keyword_of_introduces h
  have hwords : ∀ word ∈ introducingWords, 3 ≤ word.toList.length := by decide
  have hlength := congrArg List.length (upper_of_isKeyword hword)
  rw [List.length_map, List.length_map] at hlength
  rw [hlength]
  exact hwords word hmem

theorem step_of_introduces {t : Token} (h : introducesProcedure t = true) (s : Structure.State)
    (next : Option Token) : s.step level t next = s := by
  obtain ⟨word, hmem, hword⟩ := keyword_of_introduces h
  have hwords : ∀ word ∈ introducingWords, ∀ other ∈ ["BEGIN", "CASE", "END"],
      word.toList.map Char.toUpper ≠ other.toList.map Char.toUpper := by
    decide
  exact Structure.step_of_isKeyword hword (hwords word hmem) s next

/-! ## What a run leaves as it is -/

/-- The tokens stay as they are up to the first keyword with a name, and
that keyword stays. -/
theorem Renames.front {f : Text → Text → Text × Text} {ts us : List Token} {asked : List Question}
    (h : Renames f ts us asked) :
    us = ts ∨ ∃ front k xs ys, introducesProcedure k = true ∧ ts = front ++ k :: xs ∧
      us = front ++ k :: ys := by
  induction h with
  | nil => exact Or.inl rfl
  | @kept t ts us asked _ _ ih =>
      rcases ih with rfl | ⟨front, k, xs, ys, hk, rfl, rfl⟩
      · exact Or.inl rfl
      · exact Or.inr ⟨t :: front, k, xs, ys, hk, rfl, rfl⟩
  | @named t ts us asked old span hhere _ _ =>
      have hkeyword := (procedureAt_eq_some_iff.mp hhere).1
      exact Or.inr ⟨[], t, ts, _, hkeyword, rfl, rfl⟩

section

variable {f : Text → Text → Text × Text} {ts us : List Token} {asked : List Question}

/-- What is cut off before the tokens is cut off before what becomes of
them. -/
theorem Renames.cuts (h : Renames f ts us asked) {kind : Kind} {text : Text}
    (hcuts : Cuts kind text (Token.textOf ts)) : Cuts kind text (Token.textOf us) := by
  rcases h.front with rfl | ⟨front, k, xs, ys, hk, rfl, rfl⟩
  · exact hcuts
  · apply cuts_of_take_three hcuts
    have hlength := length_of_introduces hk
    have htake : ∀ more, (Token.textOf (front ++ k :: more)).take 3 =
        (Token.textOf front ++ k.text).take 3 := by
      intro more
      rw [Token.textOf_append, Token.textOf_cons, ← List.append_assoc]
      apply List.take_append_of_le_length
      rw [List.length_append]
      omega
    rw [htake, htake]

/-- The first token that counts stays, as long as keywords count. -/
theorem Renames.head?_filter (h : Renames f ts us asked) {p : Token → Bool}
    (hp : ∀ k, introducesProcedure k = true → p k = true) :
    (us.filter p).head? = (ts.filter p).head? := by
  rcases h.front with rfl | ⟨front, k, xs, ys, hk, rfl, rfl⟩
  · rfl
  · have hhead : ∀ more, ((front ++ k :: more).filter p).head? =
        ((front.filter p).head?.or (some k)) := by
      intro more
      rw [List.filter_append, List.head?_append, List.filter_cons_of_pos (hp k hk),
        List.head?_cons]
    rw [hhead, hhead]

theorem not_isWhitespace_of_introduces {k : Token} (h : introducesProcedure k = true) :
    (!k.isWhitespace) = true := by
  rw [Token.isWhitespace, kind_of_introduces h]
  rfl

theorem isSignificant_of_introduces {k : Token} (h : introducesProcedure k = true) :
    Structure.isSignificant k = true := by
  rw [isSignificant_eq_not_isBlank, (Token.of_keyword (kind_of_introduces h)).1]
  rfl

/-- Renaming what stands behind a token leaves the name that is found
there. -/
theorem Renames.procedureAt_cons (h : Renames f ts us asked) (t : Token) :
    procedureAt (t :: us) = procedureAt (t :: ts) := by
  rcases h.front with rfl | ⟨front, k, xs, ys, hk, rfl, rfl⟩
  · rfl
  · have hstop : k.inName = false := by
      rw [Token.inName, Token.isIdentifier, kind_of_introduces hk]
      rfl
    have hfilter : ∀ more : List Token, (front ++ k :: more).filter (!·.isWhitespace) =
        front.filter (!·.isWhitespace) ++ k :: more.filter (!·.isWhitespace) := by
      intro more
      rw [List.filter_append,
        List.filter_cons_of_pos (p := fun u : Token => !u.isWhitespace)
          (not_isWhitespace_of_introduces hk)]
    rw [procedureAt, procedureAt, hfilter, hfilter,
      QualifiedName.read_append_stop hstop _ _ (xs.filter (!·.isWhitespace))]

end

/-! ## Names in a script -/

/-- The tokens of a name in a script: names and dots, and the object last
of all. -/
theorem header_of_procedureAt {t : Token} {ts : List Token} {old : QualifiedName} {span : Nat}
    (h : procedureAt (t :: ts) = some (old, span)) :
    ∃ front o, (header span ts).filter (!·.isWhitespace) = front ++ [o] ∧
      (header span ts).getLast? = some o ∧ (∀ u ∈ front, u.inName = true) ∧
      o.isIdentifier = true ∧ old.object = .ofToken o := by
  obtain ⟨front, o, htake, rfl, hfront, ho, hobject⟩ := (procedureAt_eq_some_iff.mp h).2.tokens
  refine ⟨front, o, ?_, getLast?_header ?_, hfront, ho, hobject⟩
  · rw [(filter_header_behind _ _).1, htake]
  · have hget := congrArg (·[front.length]?) htake
    simpa using hget

theorem legible_of_procedureAt {t : Token} {ts : List Token} {old : QualifiedName} {span : Nat}
    (h : procedureAt (t :: ts) = some (old, span)) {rest : Text}
    (hreads : ReadsBefore (ts.map Token.unmarked) rest) : old.Legible := by
  refine (procedureAt_eq_some_iff.mp h).2.legible fun u hu hname => ?_
  obtain ⟨rest', hcuts⟩ := cuts_of_isIdentifier hreads (List.mem_filter.mp hu).1 hname
  exact NamePart.legible_ofToken hcuts hname

theorem readsBefore_behind {ts : List Token} {rest : Text} (n : Nat)
    (h : ReadsBefore (ts.map Token.unmarked) rest) :
    ReadsBefore ((behind n ts).map Token.unmarked) rest := by
  rw [← header_append_behind n ts, List.map_append, readsBefore_append] at h
  exact h.2

/-- The object of a name is written as it was, and cut off as it was. -/
theorem object_of_procedureAt {t : Token} {ts : List Token} {old : QualifiedName} {span : Nat}
    (h : procedureAt (t :: ts) = some (old, span))
    (hreads : ReadsBefore (ts.map Token.unmarked) []) :
    ∃ o, (header span ts).getLast? = some o ∧ o.isIdentifier = true ∧
      old.object.token.face = o.face ∧
      Cuts old.object.token.kind old.object.token.text (Token.textOf (behind span ts)) := by
  obtain ⟨front, o, -, hlast, -, ho, hobject⟩ := header_of_procedureAt h
  have hmem : o ∈ ts := by
    rw [← header_append_behind span ts]
    exact List.mem_append_left _ (List.mem_of_getLast? hlast)
  obtain ⟨rest, hcuts⟩ := cuts_of_isIdentifier hreads hmem ho
  have hface : old.object.token.face = o.face := by
    rw [hobject]
    exact NamePart.face_token_ofToken hcuts ho
  refine ⟨o, hlast, ho, hface, ?_⟩
  obtain ⟨hkind, htext⟩ := Prod.mk.inj hface
  rw [hkind, htext]
  -- the object is the last token that is taken, so that what stays stands behind it
  rw [← header_append_behind span ts, List.map_append, readsBefore_append, textOf_map_unmarked,
    List.append_nil] at hreads
  have hlast' : ((header span ts).map Token.unmarked).getLast? = some o := by
    rw [List.getLast?_map, hlast, Option.map_some,
      (Token.of_inName (Token.inName_of_isIdentifier ho)).2]
  exact hreads.1.cuts_last hlast'

/-! ## The name as it is -/

/-- A keyword and the name behind it, in full. -/
def fullCall (t : Token) (n : QualifiedName) : List Token :=
  t :: .synthetic .whitespace [' '] :: n.spelled

theorem renamedCall_self (t : Token) (n : QualifiedName) :
    renamedCall Prod.mk t n = fullCall t n := by
  rw [fullCall, ← QualifiedName.renamedProcedure_self]
  rfl

theorem map_unmarked_fullCall {t : Token} (ht : t.kind = .keyword) (n : QualifiedName) :
    (fullCall t n).map Token.unmarked = fullCall t n := by
  have hname : n.spelled.map Token.unmarked = n.spelled := by
    refine (List.map_congr_left fun u hu => ?_).trans (List.map_id _)
    exact (Token.of_inName (QualifiedName.inName_of_mem_spelled hu)).2
  rw [fullCall, List.map_cons, List.map_cons, hname, (Token.of_keyword ht).2]
  rfl

theorem readsBefore_fullCall {t : Token} {rest : Text} (ht : t.kind = .keyword)
    (hcuts : Cuts t.kind t.text rest) {n : QualifiedName} (hn : n.Legible) {rest' : Text}
    (hobject : Cuts n.object.token.kind n.object.token.text rest') :
    ReadsBefore (fullCall t n) rest' := by
  refine ⟨?_, ?_, QualifiedName.readsBefore_dotted hn.qualifiers hn.object hobject⟩
  · rw [cuts_iff] at hcuts ⊢
    refine ⟨hcuts.1, ?_⟩
    rw [ht, Token.textOf_cons]
    simp [stops, wordStops, Token.synthetic, show isIdentifierPart ' ' = false by decide]
  · exact (cuts_iff _ _ _).mpr ⟨by decide, by simp [stops, Token.synthetic]⟩

theorem markBatches_fullCall {t : Token} (ht : t.kind = .keyword) (n : QualifiedName)
    (lineStart : Bool) (ts : List Token) :
    markBatches lineStart (fullCall t n ++ ts) =
      t.markedAt lineStart :: (fullCall t n).tail ++ markBatches false ts := by
  have hflat : ∀ u ∈ (fullCall t n).tail, u.isBlank = true → u.text.contains '\n' = false := by
    intro u hu hblank
    rcases List.mem_cons.mp hu with rfl | hu
    · rfl
    · rw [(Token.of_inName (QualifiedName.inName_of_mem_spelled hu)).1] at hblank
      cases hblank
  obtain ⟨hmarks, hline⟩ := markBatches_false hflat
  rw [show fullCall t n ++ ts = t :: ((fullCall t n).tail ++ ts) from rfl, markBatches_step,
    (Token.of_keyword ht).1, Bool.false_and, markBatches_append, hmarks, hline]
  rfl

/-- Behind a token that is not blank no line begins. -/
theorem markBatches_behind {n : Nat} {ts : List Token} {o : Token} {lineStart : Bool}
    (hlast : (header n ts).getLast? = some o) (ho : o.isBlank = false)
    (hmarks : (markBatches lineStart (ts.map Token.unmarked)).map Token.face =
      ts.map Token.face) :
    (markBatches false ((behind n ts).map Token.unmarked)).map Token.face =
      (behind n ts).map Token.face := by
  have hline : lineStartAfter lineStart ((header n ts).map Token.unmarked) = false := by
    refine lineStartAfter_of_getLast? (t := o.unmarked) ?_ (by rw [isBlank_unmarked, ho]) lineStart
    rw [List.getLast?_map, hlast, Option.map_some]
  rw [← header_append_behind n ts, List.map_append, markBatches_append, hline, List.map_append,
    List.map_append] at hmarks
  refine (List.append_inj hmarks ?_).2
  rw [List.length_map, length_markBatches, List.length_map, List.length_map]

/-- Of a name in full the checks see the keyword and the parts. -/
theorem filter_fullCall {t : Token} (ht : introducesProcedure t = true) (n : QualifiedName)
    (ts : List Token) :
    (fullCall t n ++ ts).filter Structure.isSignificant =
      (t :: n.spelled) ++ ts.filter Structure.isSignificant := by
  rw [List.filter_append, fullCall,
    List.filter_cons_of_pos (isSignificant_of_introduces ht),
    List.filter_cons_of_neg (by decide),
    QualifiedName.filter_spelled fun u hu => Structure.isSignificant_of_inName hu]

/-- A name in full is found behind its keyword, with its schema. -/
theorem procedureAt_fullCall {t : Token} (ht : introducesProcedure t = true) {n : QualifiedName}
    (hn : n.Legible) {ts : List Token}
    (hends : n.database = none → ∀ u ∈ (ts.filter (!·.isWhitespace)).head?, u.kind ≠ .dot) :
    procedureAt (fullCall t n ++ ts) = some (n.qualified, n.spelled.length) := by
  have hfilter : ((fullCall t n).tail ++ ts).filter (!·.isWhitespace) =
      n.spelled ++ ts.filter (!·.isWhitespace) := by
    have hname : n.spelled.filter (!·.isWhitespace) = n.spelled :=
      QualifiedName.filter_spelled (fun u hu => by rw [Token.isWhitespace_of_inName hu]; rfl) n
    rw [List.filter_append, fullCall, List.tail_cons, List.filter_cons_of_neg (by decide), hname]
  refine procedureAt_eq_some_iff.mpr ⟨ht, ?_⟩
  show QualifiedName.Reads (((fullCall t n).tail ++ ts).filter (!·.isWhitespace)) _ _
  rw [hfilter]
  exact hn.reads hends

theorem behind_fullCall (t : Token) (n : QualifiedName) (ts : List Token) :
    behind n.spelled.length ((fullCall t n).tail ++ ts) = ts := by
  have hlength : n.spelled.length ≠ 0 := by simp [QualifiedName.spelled]
  have hname : ∀ u ∈ n.spelled, u.isWhitespace = false :=
    fun u hu => Token.isWhitespace_of_inName (QualifiedName.inName_of_mem_spelled hu)
  rw [fullCall, List.tail_cons, List.cons_append, behind_cons_of_isWhitespace hlength rfl,
    behind_append hname]

/-! ## Kinds and texts -/

/-- Leaving out white space leaves kinds and texts alike. -/
theorem filter_isWhitespace_congr {ts us : List Token}
    (h : ts.map Token.face = us.map Token.face) :
    (ts.filter (!·.isWhitespace)).map Token.face =
      (us.filter (!·.isWhitespace)).map Token.face := by
  refine filter_congr_face (fun t u htu => ?_) h
  rw [Token.isWhitespace, Token.isWhitespace, (Prod.mk.inj htu).1]

theorem behind_congr (n : Nat) {ts us : List Token} (h : ts.map Token.face = us.map Token.face) :
    (behind n ts).map Token.face = (behind n us).map Token.face := by
  induction ts generalizing n us with
  | nil =>
      obtain rfl := List.map_eq_nil_iff.mp h.symm
      rfl
  | cons t ts ih =>
      cases us with
      | nil => cases h
      | cons u us =>
          cases n with
          | zero => simpa using h
          | succ n =>
              obtain ⟨hface, hmore⟩ := List.cons.inj h
              have hblank : t.isWhitespace = u.isWhitespace := by
                rw [Token.isWhitespace, Token.isWhitespace, (Prod.mk.inj hface).1]
              rw [behind, behind, hblank]
              split
              · exact ih (n + 1) hmore
              · exact ih n hmore

theorem procedureAt_congr {ts us : List Token} (h : ts.map Token.face = us.map Token.face) :
    procedureAt ts = procedureAt us := by
  cases ts with
  | nil =>
      obtain rfl := List.map_eq_nil_iff.mp h.symm
      rfl
  | cons t ts =>
      cases us with
      | nil => cases h
      | cons u us =>
          obtain ⟨hface, hmore⟩ := List.cons.inj h
          obtain ⟨hkind, htext⟩ := Prod.mk.inj hface
          have hkeyword : introducesProcedure t = introducesProcedure u := by
            simp only [introducesProcedure, Token.isKeyword, hkind, htext]
          rw [procedureAt, procedureAt, hkeyword,
            QualifiedName.read_congr (filter_isWhitespace_congr hmore)]

section

variable {ts us : List Token} {asked : List Question}

/-- What comes out is read token by token. -/
theorem Renames.readsBefore (h : Renames Prod.mk ts us asked)
    (hreads : ReadsBefore (ts.map Token.unmarked) []) :
    ReadsBefore (us.map Token.unmarked) [] := by
  induction h with
  | nil => exact trivial
  | @kept t ts us asked _ hmore ih =>
      obtain ⟨hcuts, hreads⟩ := hreads
      rw [textOf_map_unmarked, List.append_nil] at hcuts
      refine ⟨?_, ih hreads⟩
      rw [textOf_map_unmarked, List.append_nil]
      exact hmore.cuts hcuts
  | @named t ts us asked old span hhere hmore ih =>
      obtain ⟨hcuts, hreads⟩ := hreads
      have hkind : t.kind = .keyword := kind_of_introduces (procedureAt_eq_some_iff.mp hhere).1
      rw [(Token.of_keyword hkind).2] at hcuts
      obtain ⟨o, -, -, -, hobject⟩ := object_of_procedureAt hhere hreads
      rw [renamedCall_self, List.map_append, readsBefore_append, map_unmarked_fullCall hkind,
        textOf_map_unmarked, List.append_nil]
      exact ⟨readsBefore_fullCall hkind hcuts (legible_of_procedureAt hhere hreads)
        (hmore.cuts hobject), ih (readsBefore_behind span hreads)⟩

/-- Which `GO` opens a line stays as it was: a name that is taken ends on
a line that something stands on, and so does the name in its place. -/
theorem Renames.markBatches (h : Renames Prod.mk ts us asked) {lineStart : Bool}
    (hreads : ReadsBefore (ts.map Token.unmarked) [])
    (hmarks : (markBatches lineStart (ts.map Token.unmarked)).map Token.face =
      ts.map Token.face) :
    (Tsql.markBatches lineStart (us.map Token.unmarked)).map Token.face = us.map Token.face := by
  induction h generalizing lineStart with
  | nil => rfl
  | @kept t ts us asked _ _ ih =>
      rw [List.map_cons, markBatches_step, List.map_cons, List.map_cons, List.cons.injEq]
        at hmarks ⊢
      exact ⟨hmarks.1, ih hreads.2 hmarks.2⟩
  | @named t ts us asked old span hhere hmore ih =>
      have hkind : t.kind = .keyword := kind_of_introduces (procedureAt_eq_some_iff.mp hhere).1
      obtain ⟨o, hlast, ho, -, -⟩ := object_of_procedureAt hhere hreads.2
      have hblank := (Token.of_inName (Token.inName_of_isIdentifier ho)).1
      rw [List.map_cons, markBatches_step, List.map_cons, List.map_cons, List.cons.injEq,
        (Token.of_keyword hkind).2] at hmarks
      have hbehind := ih (readsBefore_behind span hreads.2)
        (markBatches_behind hlast hblank hmarks.2)
      rw [renamedCall_self, List.map_append, map_unmarked_fullCall hkind,
        markBatches_fullCall hkind, List.map_append, hbehind, List.map_append, List.map_cons,
        hmarks.1]
      rfl

/-- The checks find the same open behind what comes out. -/
theorem Renames.alike (h : Renames Prod.mk ts us asked)
    (hreads : ReadsBefore (ts.map Token.unmarked) []) {s s' : Structure.State}
    (halike : s.Alike s') :
    (s.run level (ts.filter Structure.isSignificant)).Alike
      (s'.run level (us.filter Structure.isSignificant)) := by
  induction h generalizing s s' with
  | nil => exact halike
  | @kept t ts us asked _ hmore ih =>
      rw [List.filter_cons, List.filter_cons]
      split
      · refine ih hreads.2 (halike.step rfl ?_)
        rw [hmore.head?_filter fun k hk => isSignificant_of_introduces hk]
      · exact ih hreads.2 halike
  | @named t ts us asked old span hhere hmore ih =>
      have hkeyword := (procedureAt_eq_some_iff.mp hhere).1
      obtain ⟨front, o, hheader, hlast, hfront, ho, -⟩ := header_of_procedureAt hhere
      obtain ⟨o', hlast', -, hface, -⟩ := object_of_procedureAt hhere hreads.2
      obtain rfl := Option.some.inj (hlast.symm.trans hlast')
      have hname := Token.inName_of_isIdentifier ho
      have hobject := Token.inName_of_isIdentifier old.object.isIdentifier_token
      have htaken : (header span ts).filter Structure.isSignificant = front ++ [o] := by
        refine Structure.filter_isSignificant_of_inName hheader fun u hu => ?_
        rcases List.mem_append.mp hu with hu | hu
        · exact hfront u hu
        · obtain rfl := List.mem_singleton.mp hu
          exact hname
      have hbefore : s.run level ((t :: ts).filter Structure.isSignificant) =
          s.run level (o :: (behind span ts).filter Structure.isSignificant) := by
        rw [List.filter_cons_of_pos (isSignificant_of_introduces hkeyword), Structure.State.run,
          step_of_introduces hkeyword, ← header_append_behind span ts, List.filter_append, htaken,
          List.append_assoc, header_append_behind]
        exact Structure.run_inName hfront hname s _
      have hafter : s'.run level ((fullCall t old ++ us).filter Structure.isSignificant) =
          s'.run level (old.object.token :: us.filter Structure.isSignificant) := by
        rw [filter_fullCall hkeyword, List.cons_append, Structure.State.run,
          step_of_introduces hkeyword, QualifiedName.spelled, List.append_assoc]
        exact Structure.run_inName (fun u hu => QualifiedName.inName_of_mem_dotted hu) hobject s' _
      rw [renamedCall_self, hbefore, hafter]
      refine ih (readsBefore_behind span hreads.2) (halike.step hface.symm ?_)
      rw [hmore.head?_filter fun k hk => isSignificant_of_introduces hk]

/-- The pass has nothing to do on what comes out, and asks the same. -/
theorem Renames.again (h : Renames Prod.mk ts us asked)
    (hreads : ReadsBefore (ts.map Token.unmarked) []) : Renames Prod.mk us us asked := by
  induction h with
  | nil => exact .nil
  | @kept t ts us asked hhere hmore ih =>
      exact .kept ((hmore.procedureAt_cons t).trans hhere) (ih hreads.2)
  | @named t ts us asked old span hhere hmore ih =>
      have hagain := ih (readsBefore_behind span hreads.2)
      have hkeyword := (procedureAt_eq_some_iff.mp hhere).1
      have hname : procedureAt (fullCall t old ++ us) =
          some (old.qualified, old.spelled.length) := by
        refine procedureAt_fullCall hkeyword (legible_of_procedureAt hhere hreads.2) ?_
        rw [hmore.head?_filter fun k hk => not_isWhitespace_of_introduces hk]
        exact not_dot_behind hhere
      have hbehind : Renames Prod.mk (behind old.spelled.length ((fullCall t old).tail ++ us)) us
          asked := by
        rw [behind_fullCall]
        exact hagain
      have hcall := Renames.named hname hbehind
      rw [renamedCall_self, procedureQuestion, QualifiedName.schemaOrDefault_qualified] at hcall
      rw [renamedCall_self]
      exact hcall

/-- A run sees kinds and texts only. -/
theorem Renames.congr {f : Text → Text → Text × Text} (h : Renames f ts us asked)
    {ts' : List Token} (hface : ts.map Token.face = ts'.map Token.face) :
    ∃ us', Renames f ts' us' asked ∧ us'.map Token.face = us.map Token.face := by
  induction h generalizing ts' with
  | nil =>
      obtain rfl := List.map_eq_nil_iff.mp hface.symm
      exact ⟨[], .nil, rfl⟩
  | @kept t ts us asked hhere _ ih =>
      obtain ⟨t', more, rfl⟩ := List.exists_cons_of_ne_nil (l := ts') (by rintro rfl; cases hface)
      rw [procedureAt_congr hface] at hhere
      obtain ⟨hhead, htail⟩ := List.cons.inj hface
      obtain ⟨us', hmore, husface⟩ := ih htail
      refine ⟨t' :: us', .kept hhere hmore, ?_⟩
      rw [List.map_cons, List.map_cons, hhead, husface]
  | @named t ts us asked old span hhere _ ih =>
      obtain ⟨t', more, rfl⟩ := List.exists_cons_of_ne_nil (l := ts') (by rintro rfl; cases hface)
      rw [procedureAt_congr hface] at hhere
      obtain ⟨hhead, htail⟩ := List.cons.inj hface
      obtain ⟨us', hmore, husface⟩ := ih (behind_congr span htail)
      refine ⟨_, .named hhere hmore, ?_⟩
      rw [List.map_append, List.map_append, husface]
      simp only [renamedCall, List.map_cons, hhead]

end

/-! ## Twice the same -/

/-- What comes out is read as the tokens that were put in place. -/
theorem Renames.body {script : Text} {us : List Token} {asked : List Question}
    (hproblems : (Script.parse level script).problems = [])
    (h : Renames Prod.mk (Script.parse level script).body us asked) :
    (Script.parse level (Token.textOf us)).problems = [] ∧
      (Script.parse level (Token.textOf us)).body.map Token.face = us.map Token.face := by
  have hread := Script.readAs hproblems
  obtain ⟨raw, hraw, hface⟩ := tokensFrom_textOf (h.readsBefore hread.reads)
    (h.markBatches hread.reads hread.markBatches)
  have hsame : Structure.Passes level .start (Script.parse level script).body ↔
      Structure.Passes level .start us :=
    (h.alike hread.reads (.refl .start)).closeBatch.found
  constructor
  · rw [Structure.parse_problems hraw, Structure.problems_eq_nil_iff,
      Structure.passes_congr (.refl .start) hface, ← hsame]
    exact Structure.passes_body hproblems
  · rw [Script.body_parse, hraw]
    exact hface

/-- Writing every name in full, under the mapping that leaves it as it is,
is done once and for all: the script that comes out has no problems, is read
as the tokens that were put in place, and is left as it is by the pass, which
asks again what it asked before. -/
theorem renameProcedures_settles {script : Text}
    (hproblems : (Script.parse level script).problems = []) :
    ∃ us first second,
      (renameProcedures Prod.mk).run level script = .ok first ∧
      Renames Prod.mk (Script.parse level script).body us first.asked ∧
      first.output = Token.textOf us ∧ first.problems = [] ∧
      (Script.parse level first.output).body.map Token.face = us.map Token.face ∧
      (Script.parse level first.output).problems = [] ∧
      (renameProcedures Prod.mk).run level first.output = .ok second ∧
      second.output = first.output ∧ second.problems = [] ∧ second.asked = first.asked := by
  obtain ⟨us, asked, hrenames, hrun⟩ := run_renameProcedures Prod.mk hproblems
  obtain ⟨hnone, hbody⟩ := hrenames.body hproblems
  obtain ⟨us', hagain, hface⟩ :=
    (hrenames.again (Script.readAs hproblems).reads).congr hbody.symm
  exact ⟨us, _, _, hrun, hrenames, rfl, rfl, hbody, hnone, hagain.run hnone, textOf_congr hface,
    rfl, rfl⟩

/-- A name with a line break in it, a separator of batches behind it, and
a name that leaves out its schema. -/
def namesInPieces : Text := "EXEC a .\n\"b\"\nGO\nEXEC Db..p".toList

theorem renameProcedures_settles_namesInPieces :
    (Script.parse .sql110 namesInPieces).problems = [] ∧
    ∃ first second,
      (renameProcedures Prod.mk).run .sql110 namesInPieces = .ok first ∧
      first.output = "EXEC a.\"b\"\nGO\nEXEC Db.dbo.p".toList ∧
      first.asked = [.object ['a'] ['b'], .object "dbo".toList ['p']] ∧
      (Script.parse .sql110 first.output).problems = [] ∧
      (renameProcedures Prod.mk).run .sql110 first.output = .ok second ∧
      second.output = first.output ∧ second.asked = first.asked := by
  have hproblems : (Script.parse .sql110 namesInPieces).problems = [] := by decide +kernel
  refine ⟨hproblems, ?_⟩
  obtain ⟨us, first, second, hrun, -, -, -, -, hnone, hagain, houtput, -, hasked⟩ :=
    renameProcedures_settles hproblems
  have hresult : (renameProcedures Prod.mk).run .sql110 namesInPieces =
      .ok ⟨"EXEC a.\"b\"\nGO\nEXEC Db.dbo.p".toList, [], [],
        [.object ['a'] ['b'], .object "dbo".toList ['p']]⟩ := by
    decide +kernel
  obtain rfl := Except.ok.inj (hrun.symm.trans hresult)
  exact ⟨_, second, hrun, rfl, rfl, hnone, hagain, houtput, hasked⟩

end Pass

end Tsql
