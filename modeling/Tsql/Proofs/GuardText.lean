import Tsql.Pass.Guard
import Tsql.Proofs.Reading

/-!
# The texts of guards

A guard is written in front of a definition as tokens, and read again as
text. This file shows that the text is read as the tokens that were
meant, whatever name the guard is about and whatever script it stands in.

Names come in as literals. In a plain literal a doubled quote is all
there is to a quote, so that every name reads back. A national literal
is read with backslashes as escapes, and there a name can break out:
`escapesQuote` says which ones do, and `cuts_nationalLiteral_iff` that it
is these and no others.

Apart from the names a guard is fixed text. `Token.shape` leaves the
names out, and what is left is checked by computing.
-/

namespace Tsql

open Lexeme

/-! ## Literals -/

/-- A text with its quotes doubled ends at the quote behind it. -/
theorem closeExtent_doubled (q : Char) (text : Text) {rest : Text} (h : rest.head? ≠ some q) :
    closeExtent q (doubled q text ++ q :: rest) = some ((doubled q text).length + 1) := by
  induction text with
  | nil =>
      cases rest with
      | nil => simp [doubled, closeExtent]
      | cons d ds =>
          have hd : d ≠ q := fun hd => h (by rw [hd]; rfl)
          simp [doubled, closeExtent, hd]
  | cons c cs ih =>
      rw [doubled]
      split
      · rw [List.cons_append, List.cons_append, closeExtent, if_pos rfl, if_pos rfl, ih]
        simp
      · rename_i hc
        obtain ⟨d, ds, hds⟩ : ∃ d ds, doubled q cs ++ q :: rest = d :: ds := by
          apply List.exists_cons_of_length_pos
          rw [List.length_append, List.length_cons]
          omega
        rw [List.cons_append, hds, closeExtent, if_neg hc, ← hds, ih]
        simp

/-- Whether a backslash of the text, not itself behind one, stands before
a quote or at the end. -/
def escapesQuote : Text → Bool
  | [] => false
  | [c] => c = '\\'
  | c :: d :: cs =>
    if c = '\\' then d = '\'' || escapesQuote cs else escapesQuote (d :: cs)

/-- Once the first of two quotes is taken for an escaped one, the literal
does not end where it should. -/
theorem escapedExtent_odd_ne (text rest : Text) :
    escapedExtent ('\'' :: (doubled '\'' text ++ '\'' :: rest)) ≠
      some ((doubled '\'' text).length + 2) := by
  induction text with
  | nil =>
      rw [doubled, List.nil_append, escapedExtent, if_neg (by decide), if_pos rfl, if_pos rfl]
      intro h
      obtain ⟨n, hn, hlen⟩ := Option.map_eq_some_iff.mp h
      have := (escapedExtent_le hn).1
      rw [List.length_nil] at hlen
      omega
  | cons c cs ih =>
      rw [doubled]
      split
      · rw [List.cons_append, List.cons_append, escapedExtent, if_neg (by decide), if_pos rfl,
          if_pos rfl]
        intro h
        obtain ⟨n, hn, hlen⟩ := Option.map_eq_some_iff.mp h
        apply ih
        rw [hn]
        simp only [List.length_cons] at hlen ⊢
        congr 1
        omega
      · rename_i hc
        rw [List.cons_append, escapedExtent, if_neg (by decide), if_pos rfl, if_neg hc]
        simp

theorem escapedExtent_cons_plain {c : Char} (hback : c ≠ '\\') (hquote : c ≠ '\'') (cs : Text) :
    escapedExtent (c :: cs) = (escapedExtent cs).map (· + 1) := by
  cases cs with
  | nil => simp [escapedExtent, hquote]
  | cons d ds => rw [escapedExtent, if_neg hback, if_neg hquote]

theorem escapedExtent_quote {rest : Text} (h : rest.head? ≠ some '\'') :
    escapedExtent ('\'' :: rest) = some 1 := by
  cases rest with
  | nil => rfl
  | cons d ds =>
      have hd : d ≠ '\'' := fun hd => h (by rw [hd]; rfl)
      rw [escapedExtent, if_neg (by decide), if_pos rfl, if_neg hd]

theorem escapedExtent_pair (rest : Text) :
    escapedExtent ('\'' :: '\'' :: rest) = (escapedExtent rest).map (· + 2) := by
  rw [escapedExtent, if_neg (by decide), if_pos rfl, if_pos rfl]

theorem escapedExtent_backslash (d : Char) (rest : Text) :
    escapedExtent ('\\' :: d :: rest) = (escapedExtent rest).map (· + 2) := by
  rw [escapedExtent, if_pos rfl]

theorem escapedExtent_doubled_cons {c : Char} (hc : c ≠ '\\') (cs rest : Text) :
    escapedExtent (doubled '\'' (c :: cs) ++ rest) = some ((doubled '\'' (c :: cs)).length + 1) ↔
      escapedExtent (doubled '\'' cs ++ rest) = some ((doubled '\'' cs).length + 1) := by
  rw [doubled]
  split
  · simp only [List.cons_append, List.length_cons, Nat.add_assoc, escapedExtent_pair]
    rw [show (doubled '\'' cs).length + (1 + (1 + 1)) = (doubled '\'' cs).length + 1 + 2 by omega,
      map_add_eq_some]
  · rename_i hq
    rw [List.cons_append, List.length_cons, escapedExtent_cons_plain hc hq, map_add_eq_some]

/-- The literal ends where it should if no quote of the text is
escaped, and only then. -/
theorem escapedExtent_doubled_iff (text : Text) {rest : Text} (h : rest.head? ≠ some '\'') :
    escapedExtent (doubled '\'' text ++ '\'' :: rest) = some ((doubled '\'' text).length + 1) ↔
      escapesQuote text = false := by
  have hend : escapedExtent (doubled '\'' [] ++ '\'' :: rest) =
      some ((doubled '\'' []).length + 1) := escapedExtent_quote h
  fun_induction escapesQuote text with
  | case1 => simp [hend]
  | case2 c =>
      by_cases hc : c = '\\'
      · subst hc
        -- the closing quote is the escaped one
        have hlong : escapedExtent ('\\' :: '\'' :: rest) ≠ some 2 := by
          rw [escapedExtent_backslash]
          intro hlen
          obtain ⟨n, hn, hsum⟩ := Option.map_eq_some_iff.mp hlen
          have := (escapedExtent_le hn).1
          omega
        simpa [doubled] using hlong
      · rw [escapedExtent_doubled_cons hc]
        simp [hend, hc]
  | case3 d cs ih =>
      rw [doubled, if_neg (by decide), doubled]
      split
      · rename_i hd
        subst hd
        rw [List.cons_append, List.cons_append, List.cons_append, escapedExtent_backslash,
          List.length_cons, List.length_cons, List.length_cons, map_add_eq_some]
        simp [escapedExtent_odd_ne cs rest]
      · rename_i hd
        rw [List.cons_append, List.cons_append, escapedExtent_backslash, List.length_cons,
          List.length_cons,
          show (doubled '\'' cs).length + 1 + 1 + 1 = (doubled '\'' cs).length + 1 + 2 by omega,
          map_add_eq_some]
        refine ih.trans ?_
        simp [hd]
  | case4 c d cs hc ih =>
      rw [escapedExtent_doubled_cons hc]
      exact ih

theorem cuts_literal (text : Text) {rest : Text} (h : rest.head? ≠ some '\'') :
    Cuts .stringLiteral (Guard.literal text).text rest := by
  have hclose := closeExtent_doubled '\'' text h
  simp only [Guard.literal, Token.synthetic, stringLiteral, Cuts, List.append_assoc,
    List.singleton_append, scan_quote, hclose]
  simp [Scan.ofExtent]

/-- A national literal reads back if no quote of it is escaped, and only
then. -/
theorem cuts_nationalLiteral_iff (text : Text) {rest : Text} (h : rest.head? ≠ some '\'') :
    Cuts .stringLiteral (Guard.nationalLiteral text).text rest ↔ escapesQuote text = false := by
  rw [← escapedExtent_doubled_iff text h]
  simp only [Guard.nationalLiteral, Token.synthetic, stringLiteral, Cuts, List.cons_append,
    List.append_assoc, List.nil_append, scan_national (Or.inl rfl), List.length_cons,
    ofExtent_eq_lexeme_iff, List.length_append, List.length_nil, Nat.zero_add, true_and]

/-! ## Before a verb -/

namespace Lexeme

/-- The letters that begin the verbs of definitions. They are
hexadecimal digits and word characters, so that little can stand
directly before them. -/
def isVerbInitial (c : Char) : Bool := c = 'C' || c = 'c' || c = 'A' || c = 'a'

theorem IsVerbInitial.facts {c : Char} (hc : isVerbInitial c) :
    isIdentifierPart c ∧ (digit? 16 c).isSome ∧ isTagChar c ∧ c ≠ ' ' ∧ closesSeam c ∧
      c.isDigit = false := by
  simp only [isVerbInitial, Bool.or_eq_true, decide_eq_true_eq, or_assoc] at hc
  rcases hc with rfl | rfl | rfl | rfl <;> decide +kernel

theorem symbolStops_initial {text r : Text} {c : Char} (hc : isVerbInitial c)
    (h : symbolStops text (c :: r) = true) (r' : Text) : symbolStops text ('I' :: r') = true := by
  obtain ⟨-, -, htag, hspace, -, -⟩ := IsVerbInitial.facts hc
  cases text with
  | nil => rfl
  | cons x xs =>
      have hop : x :: xs ++ ['I'] ∉ operatorTexts := fun ho =>
        not_operator_of_isAlphabetic (c := 'I') (by decide) _ ho (by simp)
      have hnumeric : isNumeric 'I' = false := by decide
      unfold symbolStops at h ⊢
      dsimp only at h ⊢
      split
      · rfl
      rename_i hE
      rw [if_neg hE] at h
      split
      · simpa [operatorStops] using hop
      rename_i hx
      rw [if_neg hx] at h
      split
      · rename_i hhash
        rw [if_pos hhash] at h
        split
        · rename_i hnil
          simp [hnil, signStops, hspace] at h
        · simp
      rename_i hhash
      rw [if_neg hhash] at h
      split
      · rename_i hat
        rw [if_pos hat] at h
        split
        · rename_i hsign
          simp [hsign, signStops, hspace] at h
        · rfl
      rename_i hat
      rw [if_neg hat] at h
      split
      · simp [hnumeric]
      rename_i hquestion
      rw [if_neg hquestion] at h
      split
      · rename_i hdollar
        -- a letter goes on with a tag, so the dollar sign does not begin one
        have hall : xs.all isTagChar = false := by simpa [hdollar, htag] using h
        rw [hall]
        rfl
      · rfl

/-- Whatever stands directly before a verb may stand before an `I`. -/
theorem stops_initial {kind : Kind} {text r : Text} {c : Char} (hc : isVerbInitial c)
    (h : stops kind text (c :: r) = true) (r' : Text) : stops kind text ('I' :: r') = true := by
  obtain ⟨hpart, hhex, -, -, -, -⟩ := IsVerbInitial.facts hc
  cases kind with
  | keyword | identifier | atName => simp [stops, wordStops, hpart] at h
  | quotedIdentifier =>
      have hne : ∀ q : Char, q = ']' ∨ q = '"' → 'I' ≠ q := by
        rintro q (rfl | rfl) <;> decide
      simpa [stops] using hne (if text.head? = some '[' then ']' else '"') (by split <;> simp)
  | stringLiteral =>
      by_cases h0 : text.head? = some '0'
      · simp [stops, h0, hhex] at h
      · simp [stops, h0]
  | numberLiteral => simp [stops, numberStops, exponentExtent]
  | dot => rfl
  | symbol => exact symbolStops_initial hc h r'
  | lineComment => simpa [stops] using h
  | whitespace => simp [stops]
  | _ => rfl

/-- A lexeme somewhere before a verb stays one when the verb gives way to
a word that begins with `I`. -/
theorem cuts_append_initial {kind : Kind} {text between r : Text} {c : Char}
    (hc : isVerbInitial c) (h : Cuts kind text (between ++ c :: r)) (r' : Text) :
    Cuts kind text (between ++ 'I' :: r') := by
  obtain ⟨-, -, -, -, hcloses, hdigit⟩ := IsVerbInitial.facts hc
  rw [cuts_iff] at h ⊢
  refine ⟨h.1, ?_⟩
  cases between with
  | nil => exact stops_initial hc h.2 r'
  | cons x xs =>
      rw [← h.2]
      apply stops_congr
      · rfl
      · exact exponentExtent_append_cons (by decide) hcloses (by rw [hdigit]; rfl) (x :: xs) r' r

end Lexeme

/-! ## The fixed part of a guard -/

/-- The token as it is read: blanks in a row are tokens of their own. -/
def Token.settled (t : Token) : List Token :=
  if t.kind = .whitespace ∧ t.text.all (· = ' ') then
    t.text.map fun c => ⟨.whitespace, [c], t.position⟩
  else [t]

/-- The token with no more of a literal than its first character. -/
def Token.shape (t : Token) : Token :=
  if t.kind = .stringLiteral then { t with text := t.text.take 1 } else t

/-- Each token may stand before the first character of the next. -/
def fits : List Token → Bool
  | [] => true
  | [_] => true
  | t :: u :: ts =>
    (t.kind ≠ .numberLiteral && stops t.kind t.text (u.text.take 1)) && fits (u :: ts)

/-- Each token but the literals is one by itself. -/
def standsAlone (ts : List Token) : Bool :=
  ts.all fun t => t.kind = .stringLiteral || decide (Cuts t.kind t.text [])

/-- A number apart, the next character decides. -/
theorem stops_of_head {kind : Kind} (hkind : kind ≠ .numberLiteral) (text : Text)
    {rest rest' : Text} (h : rest.head? = rest'.head?) :
    stops kind text rest = stops kind text rest' := by
  have hnil : rest = [] ↔ rest' = [] := by
    rw [← List.head?_eq_none_iff, h, List.head?_eq_none_iff]
  cases kind <;>
    simp_all only [stops, wordStops, symbolStops, operatorStops, signStops, ne_eq,
      not_true_eq_false]

theorem readsBefore_of_fits {ts : List Token} {rest : Text} (hfits : fits ts = true)
    (halone : ∀ t ∈ ts, Cuts t.kind t.text [])
    (hlast : ∀ t, ts.getLast? = some t → stops t.kind t.text rest = true) :
    ReadsBefore ts rest := by
  fun_induction fits ts with
  | case1 => exact trivial
  | case2 t =>
      refine ⟨(cuts_iff _ _ _).mpr ⟨halone t List.mem_cons_self, ?_⟩, trivial⟩
      exact hlast t rfl
  | case3 t u ts ih =>
      simp only [Bool.and_eq_true, decide_eq_true_eq] at hfits
      obtain ⟨⟨hkind, hstops⟩, hmore⟩ := hfits
      have hu := (halone u (by simp)).text_ne_nil
      refine ⟨(cuts_iff _ _ _).mpr ⟨halone t List.mem_cons_self, ?_⟩, ?_⟩
      · rw [← hstops]
        apply stops_of_head hkind
        rw [Token.textOf_cons, List.append_assoc]
        cases hut : u.text with
        | nil => exact absurd hut hu
        | cons c cs => rfl
      · exact ih hmore (fun v hv => halone v (List.mem_cons_of_mem _ hv))
          fun v hv => hlast v (by rw [List.getLast?_cons_cons]; exact hv)

theorem Token.shape_kind (t : Token) : t.shape.kind = t.kind := by
  unfold Token.shape
  split <;> rfl

/-- Of a literal only the first character shows. -/
theorem stops_shape (t : Token) (rest : Text) :
    stops t.kind t.shape.text rest = stops t.kind t.text rest := by
  unfold Token.shape
  split
  · rename_i h
    rw [h]
    cases htext : t.text <;> simp [stops]
  · rfl

theorem take_one_shape (t : Token) : t.shape.text.take 1 = t.text.take 1 := by
  unfold Token.shape
  split
  · exact List.take_take ..
  · rfl

theorem fits_map_shape (ts : List Token) : fits (ts.map Token.shape) = fits ts := by
  fun_induction fits ts with
  | case1 => rfl
  | case2 t => rfl
  | case3 t u ts ih =>
      rw [List.map_cons] at ih
      rw [List.map_cons, List.map_cons, fits, ih, Token.shape_kind, stops_shape, take_one_shape]

/-! ## Guards -/

inductive Guarded where
  | procedure (name : QualifiedName)
  | function (name : QualifiedName)
  | view (name : QualifiedName)
  | schema (name : Text) (owner : Option Token)

namespace Guarded

def tokens (ending : LineEnding) : Guarded → List Token
  | procedure name => Guard.procedure ending name
  | function name => Guard.function ending name
  | view name => Guard.view ending name
  | schema name owner => Guard.schema ending name owner

/-- How many upcoming tokens are taken with the verb. -/
def taken : Guarded → Nat
  | schema _ owner => if owner.isSome then 4 else 2
  | _ => 0

def isSchema : Guarded → Bool
  | schema _ _ => true
  | _ => false

/-- Whether the name breaks out of the national literal it is written
in. -/
def breaksOut : Guarded → Bool
  | function name | view name => escapesQuote name.schemaText
  | _ => false

/-- The tokens as they are read. -/
def written (ending : LineEnding) (g : Guarded) : List Token :=
  (g.tokens ending).flatMap Token.settled

/-- The tokens before batch separators are told apart. -/
def raw (ending : LineEnding) (g : Guarded) : List Token :=
  (g.written ending).map Token.unmarked

def samples : List Guarded :=
  let name : QualifiedName := ⟨none, none, ⟨[], none⟩⟩
  [procedure name, function name, view name]

/-- What the samples look like, all guards of their sorts look like. -/
theorem shape_of_samples {p : List Token → Prop}
    (hsamples : ∀ g ∈ samples, ∀ ending ∈ [LineEnding.crlf, .lf],
      p ((g.raw ending).map Token.shape))
    {g : Guarded} (hg : g.isSchema = false) (ending : LineEnding) :
    p ((g.raw ending).map Token.shape) := by
  have hending : ending ∈ [LineEnding.crlf, .lf] := by cases ending <;> simp
  obtain ⟨sample, hmem, hshape⟩ : ∃ sample ∈ samples,
      (g.raw ending).map Token.shape = (sample.raw ending).map Token.shape := by
    cases g with
    | procedure name => exact ⟨_, List.mem_cons_self, by cases ending <;> rfl⟩
    | function name =>
        exact ⟨_, List.mem_cons_of_mem _ List.mem_cons_self, by cases ending <;> rfl⟩
    | view name =>
        exact ⟨_, List.mem_cons_of_mem _ (List.mem_cons_of_mem _ List.mem_cons_self),
          by cases ending <;> rfl⟩
    | schema name owner => cases hg
  rw [hshape]
  exact hsamples sample hmem ending hending

theorem fits_raw {g : Guarded} (hg : g.isSchema = false) (ending : LineEnding) :
    fits (g.raw ending) = true := by
  rw [← fits_map_shape]
  exact shape_of_samples (p := fun ts => fits ts = true) (by decide +kernel) hg ending

theorem standsAlone_raw {g : Guarded} (hg : g.isSchema = false) (ending : LineEnding) :
    standsAlone ((g.raw ending).map Token.shape) = true :=
  shape_of_samples (p := fun ts => standsAlone ts = true) (by decide +kernel) hg ending

def literals : Guarded → List Token
  | procedure name =>
    [Guard.literal name.object.value, Guard.literal ['P'],
      Guard.literal ("CREATE PROCEDURE ".toList ++ name.schemaText ++ " AS".toList)]
  | function name =>
    [Guard.nationalLiteral name.schemaText, Guard.nationalLiteral ['F', 'N'],
      Guard.nationalLiteral ['T', 'F'], Guard.nationalLiteral ['I', 'F'],
      Guard.nationalLiteral ['T', 'F'],
      Guard.literal ("DROP FUNCTION ".toList ++ name.schemaText)]
  | view name =>
    [Guard.nationalLiteral name.schemaText, Guard.nationalLiteral ['V'],
      Guard.literal ("CREATE VIEW ".toList ++ name.schemaText ++
        " AS SELECT 1 AS placeholder".toList)]
  | schema _ _ => []

theorem filter_raw {g : Guarded} (hg : g.isSchema = false) (ending : LineEnding) :
    (g.raw ending).filter (·.kind = .stringLiteral) = g.literals := by
  cases g with
  | procedure name => cases ending <;> rfl
  | function name => cases ending <;> rfl
  | view name => cases ending <;> rfl
  | schema name owner => cases hg

/-- A literal of a guard reads back, unless it is of a name that breaks
out. -/
theorem cuts_of_mem_literals {g : Guarded} (hname : g.breaksOut = false) {t : Token}
    (ht : t ∈ g.literals) : Cuts t.kind t.text [] := by
  have hplain : ∀ text, Cuts .stringLiteral (Guard.literal text).text [] :=
    fun text => cuts_literal text (by simp)
  have hnational : ∀ text, escapesQuote text = false →
      Cuts .stringLiteral (Guard.nationalLiteral text).text [] :=
    fun text h => (cuts_nationalLiteral_iff text (by simp)).mpr h
  cases g with
  | procedure name =>
      simp only [literals, List.mem_cons, List.not_mem_nil, or_false] at ht
      rcases ht with rfl | rfl | rfl <;> exact hplain _
  | function name =>
      simp only [literals, List.mem_cons, List.not_mem_nil, or_false] at ht
      rcases ht with rfl | rfl | rfl | rfl | rfl | rfl
      · exact hnational _ hname
      · exact hnational _ (by decide)
      · exact hnational _ (by decide)
      · exact hnational _ (by decide)
      · exact hnational _ (by decide)
      · exact hplain _
  | view name =>
      simp only [literals, List.mem_cons, List.not_mem_nil, or_false] at ht
      rcases ht with rfl | rfl | rfl
      · exact hnational _ hname
      · exact hnational _ (by decide)
      · exact hplain _
  | schema name owner => cases ht

/-- A name that breaks out is written in a literal that does not read
back. -/
theorem exists_broken {g : Guarded} (hname : g.breaksOut = true) (ending : LineEnding) :
    ∃ t ∈ g.raw ending, t.kind = .stringLiteral ∧ ¬ Cuts t.kind t.text [] := by
  have hmem : ∀ {text : Text}, g.isSchema = false → Guard.nationalLiteral text ∈ g.literals →
      escapesQuote text = true →
      ∃ t ∈ g.raw ending, t.kind = .stringLiteral ∧ ¬ Cuts t.kind t.text [] := by
    intro text hg hliteral hescapes
    rw [← filter_raw hg ending] at hliteral
    refine ⟨_, (List.mem_filter.mp hliteral).1, rfl, fun hcuts => ?_⟩
    have hfalse := (cuts_nationalLiteral_iff text (by simp)).mp hcuts
    rw [hescapes] at hfalse
    cases hfalse
  cases g with
  | procedure name => cases hname
  | function name => exact hmem rfl List.mem_cons_self hname
  | view name => exact hmem rfl List.mem_cons_self hname
  | schema name owner => cases hname

/-- Each token of a guard is one by itself, unless the name breaks
out. -/
theorem cuts_of_mem_raw {ending : LineEnding} {g : Guarded} (hg : g.isSchema = false)
    (hname : g.breaksOut = false) {t : Token} (ht : t ∈ g.raw ending) :
    Cuts t.kind t.text [] := by
  by_cases hkind : t.kind = .stringLiteral
  · have hmem : t ∈ (g.raw ending).filter (·.kind = .stringLiteral) :=
      List.mem_filter.mpr ⟨ht, by simpa using hkind⟩
    rw [filter_raw hg] at hmem
    exact cuts_of_mem_literals hname hmem
  · have hall := List.all_eq_true.mp (standsAlone_raw hg ending) t.shape (List.mem_map_of_mem ht)
    have hshape : t.shape = t := if_neg hkind
    rw [hshape] at hall
    simpa [hkind] using hall

theorem getLast?_raw {g : Guarded} (hg : g.isSchema = false) (ending : LineEnding) :
    (g.raw ending).getLast? = some (Guard.keyword "ALTER") ∨
      (g.raw ending).getLast? = some (Guard.keyword "CREATE") := by
  cases g with
  | procedure name => exact Or.inl (by cases ending <;> rfl)
  | function name => exact Or.inr (by cases ending <;> rfl)
  | view name => exact Or.inl (by cases ending <;> rfl)
  | schema name owner => cases hg

/-- The text of a guard is read as its tokens, in front of whatever may
stand behind a word. -/
theorem readsBefore_raw {g : Guarded} (hg : g.isSchema = false) (hname : g.breaksOut = false)
    (ending : LineEnding) {rest : Text} (hrest : rest.head?.any isIdentifierPart = false) :
    ReadsBefore (g.raw ending) rest := by
  refine readsBefore_of_fits (fits_raw hg ending) (fun t ht => cuts_of_mem_raw hg hname ht) ?_
  intro t ht
  rcases getLast?_raw hg ending with h | h
  · obtain rfl := Option.some.inj (h.symm.trans ht)
    simp [Guard.keyword, Token.synthetic, stops, wordStops, hrest]
  · obtain rfl := Option.some.inj (h.symm.trans ht)
    simp [Guard.keyword, Token.synthetic, stops, wordStops, hrest]

end Guarded

end Tsql
