import Tsql.Proofs.Actions
import Tsql.Proofs.FunctionHeaders
import Tsql.Proofs.NameForms

/-!
# Names ahead of a cursor

`Reads` tells the forms of a name by a token list. A program that reads
names has no such list; it has a cursor and asks for one token after the
other. Here the forms are told by what the cursor shows at the offsets
(`Shown`), the end of the tokens included: there it shows neither a name
nor a dot.

To take a name is to move on as often as the name has tokens. Each move
shifts what is shown by one (`peek_consume`), so that behind the name the
cursor shows what it showed behind it before, and it has stepped over the
tokens of the name and the white space between them (`names_ahead`).
-/

namespace Tsql

/-! ## Moving on -/

theorem head?_dropWhile_isWhitespace (ts : List Token) :
    (ts.dropWhile (·.isWhitespace)).head? = (ts.filter (!·.isWhitespace)).head? := by
  induction ts with
  | nil => rfl
  | cons t ts ih => cases ht : t.isWhitespace <;> simp [ht, ih]

theorem filter_tail_dropWhile_isWhitespace (ts : List Token) :
    (ts.dropWhile (·.isWhitespace)).tail.filter (!·.isWhitespace) =
      (ts.filter (!·.isWhitespace)).tail := by
  induction ts with
  | nil => rfl
  | cons t ts ih => cases ht : t.isWhitespace <;> simp [ht, ih]

namespace Cursor

/-- A move shifts what is shown by one. -/
theorem peek_consume (c : Cursor) (i : Nat) : c.consume.peek i = c.peek (i + 1) := by
  cases i with
  | zero =>
      rw [peek, current, ahead_consume, head?_dropWhile_isWhitespace, peek, upcoming,
        List.head?_eq_getElem?]
  | succ i =>
      rw [peek, peek, upcoming, ahead_consume, filter_tail_dropWhile_isWhitespace, upcoming,
        List.getElem?_tail]

theorem peek_consumeN (c : Cursor) (n i : Nat) : (c.consumeN n).peek i = c.peek (n + i) := by
  induction n generalizing c with
  | zero => rw [consumeN, Nat.zero_add]
  | succ n ih =>
      rw [consumeN, ih, peek_consume]
      congr 1
      omega

theorem On.consumeN {tokens : List Token} {c : Cursor} (h : c.On tokens) (n : Nat) :
    (c.consumeN n).On tokens := by
  induction n generalizing c with
  | zero => exact h
  | succ n ih => exact ih h.consume.1

theorem On.eq_seek {tokens : List Token} {c : Cursor} (h : c.On tokens) :
    c = (seek tokens c.position).report c.diagnostics := by
  obtain ⟨size, position, ahead, diagnostics⟩ := c
  obtain ⟨hsize, hahead, -⟩ := h
  simp only at hsize hahead
  rw [hsize, hahead, seek, Cursor.report, List.nil_append]

theorem map_some_take {α : Type} {l : List α} {n : Nat} (h : n ≤ l.length) :
    (l.take n).map some = (List.range n).map (l[·]?) := by
  apply List.ext_getElem
  · simp [h]
  · intro i hi _
    have hlt : i < l.length := by
      rw [List.length_map, List.length_take] at hi
      omega
    simp [hlt]

/-- What is stepped over on the way to an upcoming token: white space and
the upcoming tokens up to that one. -/
theorem consumeN_seek {tokens : List Token} {position n : Nat} {messages : List String} {t : Token}
    (h : ((seek tokens position).report messages).peek (n + 1) = some t) :
    ∃ stepped rest, tokens.drop (position + 1) = stepped ++ rest ∧
      ((seek tokens position).report messages).consumeN (n + 1) =
        (seek tokens (position + stepped.length)).report messages ∧
      (stepped.filter (!·.isWhitespace)).map some =
        (List.range (n + 1)).map
          (fun i => ((seek tokens position).report messages).peek (1 + i)) ∧
      stepped.getLast? = some t := by
  have htail : ((seek tokens position).report messages).ahead.tail =
      tokens.drop (position + 1) := by
    rw [ahead_report, seek, List.tail_drop]
  generalize hc : (seek tokens position).report messages = c at h htail ⊢
  have hget : ((tokens.drop (position + 1)).filter (!·.isWhitespace))[n]? = some t := by
    rwa [peek, upcoming, htail] at h
  have hwithin : position + 1 ≤ tokens.length := by
    by_contra hout
    rw [List.drop_eq_nil_of_le (by omega)] at hget
    cases hget
  have hon : c.On tokens := by
    rw [← hc]
    exact ⟨rfl, rfl, Nat.le_of_succ_le hwithin⟩
  have hmoved := hon.consumeN (n + 1)
  have hbehind : (c.consumeN (n + 1)).ahead.tail = behind (n + 1) (tokens.drop (position + 1)) := by
    rw [← ahead_advance, ahead_consumeN_advance, htail]
  have hcurrent : (c.consumeN (n + 1)).ahead.head? = some t := by
    have hpeek := peek_consumeN c (n + 1) 0
    rwa [Nat.add_zero, h] at hpeek
  have hsplit := header_append_behind (n + 1) (tokens.drop (position + 1))
  -- the place is told by how many tokens are left
  have hplace : (c.consumeN (n + 1)).position =
      position + (header (n + 1) (tokens.drop (position + 1))).length := by
    have hleft := congrArg List.length hmoved.ahead
    have hall := congrArg List.length hsplit
    have hcons : (c.consumeN (n + 1)).ahead ≠ [] := by
      intro hnil
      rw [hnil] at hcurrent
      cases hcurrent
    have hpos := List.length_pos_iff.mpr hcons
    rw [← hbehind, List.length_append, List.length_tail, List.length_drop] at hall
    rw [List.length_drop] at hleft
    have := hmoved.within
    omega
  refine ⟨header (n + 1) (tokens.drop (position + 1)), behind (n + 1) (tokens.drop (position + 1)),
    hsplit.symm, ?_, ?_, getLast?_header hget⟩
  · rw [hmoved.eq_seek, hplace, Pass.diagnostics_consumeN, ← hc]
    rfl
  · rw [(filter_header_behind _ _).1, map_some_take (List.getElem?_eq_some_iff.mp hget).1]
    refine List.map_congr_left fun i _ => ?_
    rw [Nat.add_comm 1 i, peek, upcoming, htail]

/-! ## Names and dots in view -/

/-- The cursor shows a name at an offset. -/
def ShowsName (c : Cursor) (offset : Nat) (t : Token) : Prop :=
  c.peek offset = some t ∧ t.isIdentifier = true

/-- The cursor shows a dot at an offset. -/
def ShowsDot (c : Cursor) (offset : Nat) : Prop := ∃ t, c.peek offset = some t ∧ t.kind = .dot

end Cursor

namespace QualifiedName

/-- The name that a cursor shows from an offset on, and the number of
tokens it takes. -/
inductive Shown (c : Cursor) (k : Nat) : QualifiedName → Nat → Prop where
  | object {t : Token} (object : c.ShowsName k t) (ends : ¬ c.ShowsDot (k + 1)) :
      Shown c k ⟨none, none, .ofToken t⟩ 1
  | schema {s t : Token} (schema : c.ShowsName k s) (dot : c.ShowsDot (k + 1))
      (object : c.ShowsName (k + 2) t) (ends : ¬ c.ShowsDot (k + 3)) :
      Shown c k ⟨none, some (.ofToken s), .ofToken t⟩ 3
  | emptySchema {b t : Token} (database : c.ShowsName k b) (dot : c.ShowsDot (k + 1))
      (second : c.ShowsDot (k + 2)) (object : c.ShowsName (k + 3) t) :
      Shown c k ⟨some (.ofToken b), some ⟨defaultSchema, none⟩, .ofToken t⟩ 4
  | database {b s t : Token} (database : c.ShowsName k b) (dot : c.ShowsDot (k + 1))
      (schema : c.ShowsName (k + 2) s) (second : c.ShowsDot (k + 3))
      (object : c.ShowsName (k + 4) t) :
      Shown c k ⟨some (.ofToken b), some (.ofToken s), .ofToken t⟩ 5

variable {c : Cursor} {k span : Nat} {name : QualifiedName}

/-- The token that stands first among those a cursor shows, and the others. -/
theorem view_eq_cons {t : Token} (h : c.peek k = some t) : c.view k = t :: c.view (k + 1) := by
  have hget := c.getElem?_view k 0
  rw [Nat.add_zero, h] at hget
  have hdrop := c.drop_view k 0
  rw [Nat.add_zero] at hdrop
  rw [← hdrop]
  cases hview : c.view k with
  | nil => rw [hview] at hget; cases hget
  | cons u us =>
      rw [hview] at hget
      obtain rfl := Option.some.inj hget
      rfl

theorem head?_view (c : Cursor) (k : Nat) : (c.view k).head? = c.peek k := by
  rw [List.head?_eq_getElem?, Cursor.getElem?_view, Nat.add_zero]

theorem not_showsDot_iff : ¬ c.ShowsDot k ↔ ∀ u ∈ (c.view k).head?, u.kind ≠ .dot := by
  rw [head?_view]
  simp only [Cursor.ShowsDot, not_exists, not_and, Option.mem_def]

theorem Shown.reads (h : Shown c k name span) : Reads (c.view k) name span := by
  cases h with
  | object object ends =>
      rw [view_eq_cons object.1]
      exact .object object.2 (not_showsDot_iff.mp ends)
  | schema schema dot object ends =>
      obtain ⟨d, hd, hdot⟩ := dot
      rw [view_eq_cons schema.1, view_eq_cons hd, view_eq_cons object.1]
      exact .schema schema.2 hdot object.2 (not_showsDot_iff.mp ends)
  | emptySchema database dot second object =>
      obtain ⟨d, hd, hdot⟩ := dot
      obtain ⟨e, he, hsecond⟩ := second
      rw [view_eq_cons database.1, view_eq_cons hd, view_eq_cons he, view_eq_cons object.1]
      exact .emptySchema database.2 hdot hsecond object.2
  | database database dot schema second object =>
      obtain ⟨d, hd, hdot⟩ := dot
      obtain ⟨e, he, hsecond⟩ := second
      rw [view_eq_cons database.1, view_eq_cons hd, view_eq_cons schema.1, view_eq_cons he,
        view_eq_cons object.1]
      exact .database database.2 hdot schema.2 hsecond object.2

theorem shown_of_reads (h : Reads (c.view k) name span) : Shown c k name span := by
  have hpeek : ∀ {ts : List Token}, c.view k = ts → ∀ i, c.peek (k + i) = ts[i]? := by
    rintro _ rfl i
    exact (c.getElem?_view k i).symm
  generalize hview : c.view k = ts at h
  have hget := hpeek hview
  cases h with
  | object object ends =>
      refine .object ⟨hget 0, object⟩ ?_
      rintro ⟨u, hu, hdot⟩
      rw [hget 1, List.getElem?_cons_succ, ← List.head?_eq_getElem?] at hu
      exact ends u hu hdot
  | schema schema dot object ends =>
      refine .schema ⟨hget 0, schema⟩ ⟨_, hget 1, dot⟩ ⟨hget 2, object⟩ ?_
      rintro ⟨u, hu, hdot⟩
      rw [hget 3, List.getElem?_cons_succ, List.getElem?_cons_succ, List.getElem?_cons_succ,
        ← List.head?_eq_getElem?] at hu
      exact ends u hu hdot
  | emptySchema database dot second object =>
      exact .emptySchema ⟨hget 0, database⟩ ⟨_, hget 1, dot⟩ ⟨_, hget 2, second⟩ ⟨hget 3, object⟩
  | database database dot schema second object =>
      exact .database ⟨hget 0, database⟩ ⟨_, hget 1, dot⟩ ⟨hget 2, schema⟩ ⟨_, hget 3, second⟩
        ⟨hget 4, object⟩

theorem peek_eq_some_iff : peek c k = some (name, span) ↔ Shown c k name span :=
  read_eq_some_iff.trans ⟨shown_of_reads, Shown.reads⟩

/-! ## Taking a name -/

/-- Where taking a name leaves a cursor: where it is if there is no name
behind it. -/
def taken (c : Cursor) : Cursor :=
  match consume c with
  | some (_, left) => left
  | none => c

theorem taken_of_peek (h : peek c 1 = some (name, span)) : taken c = c.consumeN span := by
  rw [taken, consume, h]
  rfl

theorem consume_eq_some_iff {left : Cursor} :
    consume c = some (name, left) ↔
      ∃ span, peek c 1 = some (name, span) ∧ left = c.consumeN span := by
  rw [consume]
  cases peek c 1 with
  | none => simp
  | some found =>
      obtain ⟨name', span'⟩ := found
      simp only [Option.map_some, Option.some.injEq, Prod.mk.injEq]
      constructor
      · rintro ⟨rfl, rfl⟩
        exact ⟨span', ⟨rfl, rfl⟩, rfl⟩
      · rintro ⟨span, ⟨rfl, rfl⟩, rfl⟩
        exact ⟨rfl, rfl⟩

/-- The last token of a name is shown. -/
theorem Shown.last (h : Shown c k name span) : ∃ n t, span = n + 1 ∧ c.peek (k + n) = some t := by
  cases h with
  | object object _ => exact ⟨0, _, rfl, object.1⟩
  | schema _ _ object _ => exact ⟨2, _, rfl, object.1⟩
  | emptySchema _ _ _ object => exact ⟨3, _, rfl, object.1⟩
  | database _ _ _ _ object => exact ⟨4, _, rfl, object.1⟩

/-! ## The result -/

/-- Let a cursor be anywhere in the tokens of a script, or behind them. It
shows a name from an offset on in four forms and no other. A name behind
the current token can be taken just if it is shown there, and then the
cursor goes to its last token: over the tokens of the name and white space
between them, to where it shows what it showed before, shifted by the
tokens of the name. Where no name is shown, it stays. -/
theorem names_ahead (tokens : List Token) (position : Nat) (messages : List String) :
    let c := (Cursor.seek tokens position).report messages
    (∀ k name span, peek c k = some (name, span) ↔ Shown c k name span) ∧
    (∀ k, peek c k = none ↔ ∀ name span, ¬ Shown c k name span) ∧
    (∀ name, (∃ left, consume c = some (name, left)) ↔ ∃ span, peek c 1 = some (name, span)) ∧
    (∀ name span, peek c 1 = some (name, span) →
      (∀ i, (taken c).peek i = c.peek (span + i)) ∧
      ∃ stepped rest, tokens.drop (position + 1) = stepped ++ rest ∧
        taken c = (Cursor.seek tokens (position + stepped.length)).report messages ∧
        (stepped.filter (!·.isWhitespace)).map some =
          (List.range span).map (fun i => c.peek (1 + i)) ∧
        stepped.getLast? = (taken c).current) ∧
    (peek c 1 = none → consume c = none ∧ taken c = c) := by
  intro c
  refine ⟨fun k name span => peek_eq_some_iff, fun k => ?_, fun name => ?_, fun name span h => ?_,
    fun h => ?_⟩
  · rw [Option.eq_none_iff_forall_ne_some]
    constructor
    · intro hnone name span hshown
      exact hnone (name, span) (peek_eq_some_iff.mpr hshown)
    · rintro hnot ⟨name, span⟩ h
      exact hnot name span (peek_eq_some_iff.mp h)
  · simp only [consume_eq_some_iff]
    constructor
    · rintro ⟨left, span, h, -⟩
      exact ⟨span, h⟩
    · rintro ⟨span, h⟩
      exact ⟨_, span, h, rfl⟩
  · obtain ⟨n, t, rfl, hlast⟩ := (peek_eq_some_iff.mp h).last
    rw [Nat.add_comm] at hlast
    obtain ⟨stepped, rest, hsplit, hmoved, hnames, hend⟩ := Cursor.consumeN_seek hlast
    have hcurrent : (c.consumeN (n + 1)).current = some t := by
      rw [← hlast, ← Nat.add_zero (n + 1), ← c.peek_consumeN]
      rfl
    rw [taken_of_peek h]
    exact ⟨c.peek_consumeN (n + 1), stepped, rest, hsplit, hmoved, hnames,
      hend.trans hcurrent.symm⟩
  · rw [taken, consume, h]
    exact ⟨rfl, rfl⟩

/-- A name with white space around its dots, and no name behind it. -/
def spacedName : Text := "EXEC [d]]b] . .\n p @x".toList

theorem names_ahead_spacedName :
    let tokens := (Script.parse .sql110 spacedName).body
    let c := (Cursor.seek tokens 0).report []
    let last := (Cursor.seek tokens 9).report []
    let name : QualifiedName :=
      ⟨some ⟨"d]b".toList, some .bracket⟩, some ⟨"dbo".toList, none⟩, ⟨['p'], none⟩⟩
    peek c 1 = some (name, 4) ∧ Shown c 1 name 4 ∧ (taken c).position = 9 ∧
      (∀ i, (taken c).peek i = c.peek (4 + i)) ∧ peek last 1 = none ∧ taken last = last := by
  intro tokens c last name
  have hname : peek c 1 = some (name, 4) := by decide +kernel
  have hlast : peek last 1 = none := by decide +kernel
  obtain ⟨hshown, -, -, htaken, -⟩ := names_ahead tokens 0 []
  obtain ⟨-, -, -, -, hstays⟩ := names_ahead tokens 9 []
  exact ⟨hname, (hshown 1 name 4).mp hname, by decide +kernel, (htaken name 4 hname).1, hlast,
    (hstays hlast).2⟩

end QualifiedName

end Tsql
