import Tsql.Proofs.WhiteSpace

/-!
# Function headers told by counting

`Signature.classify` goes over a parameter list with a count of the
parentheses that are open. Here the list is told by counting alone: it ends
with the first token up to which there are as many right as left
parentheses (`Closes`), and `afterParameters_eq_some_iff` says that the
count of open ones finds that token, by induction on the tokens with the
number of parentheses still open generalized.

So of a parameter list nothing counts but where it ends
(`classify_parameterList`), and `peek_sort` puts the whole together: the
sort of a function is read off the two or three tokens behind its list.
-/

namespace Tsql

/-! ## What a cursor shows -/

namespace Cursor

/-- From an offset on, a cursor shows what it shows at that offset and
behind. -/
theorem getElem?_view (c : Cursor) (k i : Nat) : (c.view k)[i]? = c.peek (k + i) := by
  cases k with
  | zero =>
      rw [view, Nat.zero_add]
      cases hahead : c.ahead with
      | nil =>
          have hnone : c.upcoming = [] := by rw [upcoming, hahead]; rfl
          cases i with
          | zero => simp [peek, current, hahead, hnone]
          | succ i => simp [peek, hnone]
      | cons t ts =>
          cases i with
          | zero => simp [peek, current, hahead]
          | succ i => simp [peek]
  | succ k => rw [view, List.getElem?_drop, Nat.add_right_comm, peek]

theorem drop_view (c : Cursor) (k j : Nat) : (c.view k).drop (j + 1) = c.view (k + j + 1) := by
  apply List.ext_getElem?
  intro i
  rw [List.getElem?_drop, getElem?_view, getElem?_view]
  congr 1
  omega

/-- What stands behind a stretch of tokens is seen from the offset that
stretch takes up. -/
theorem view_seek_append {front ts : List Token} {i : Nat} (hi : i ≤ front.length)
    (hhead : ∀ t ∈ ts.head?, t.isWhitespace = false) :
    (seek (front ++ ts) i).view ((seek front i).view 0).length =
      ts.filter (!·.isWhitespace) := by
  have hahead : (seek (front ++ ts) i).ahead = front.drop i ++ ts :=
    List.drop_append_of_le_length hi
  cases hdrop : front.drop i with
  | nil =>
      have hfront : (seek front i).ahead = [] := hdrop
      rw [hdrop, List.nil_append] at hahead
      simp only [view, upcoming, hahead, hfront, List.take_nil, List.tail_nil, List.filter_nil,
        List.append_nil, List.length_nil]
      cases ts with
      | nil => rfl
      | cons t more => simp [hhead t rfl]
  | cons t more =>
      have hfront : (seek front i).ahead = t :: more := hdrop
      rw [hdrop, List.cons_append] at hahead
      have hlength : ((seek front i).view 0).length =
          (more.filter (!·.isWhitespace)).length + 1 := by
        simp [view, upcoming, hfront]
      rw [hlength, view, upcoming, hahead, List.tail_cons, List.filter_append, List.drop_left]

end Cursor

namespace Signature

/-! ## Where a list ends -/

/-- There are as many right as left parentheses. -/
def Matched (ts : List Token) : Prop :=
  ts.countP (·.kind = .rightParen) = ts.countP (·.kind = .leftParen)

instance (ts : List Token) : Decidable (Matched ts) :=
  inferInstanceAs (Decidable (ts.countP _ = ts.countP _))

/-- The token with index `j` is the first up to which there are as many
right as left parentheses. -/
structure Closes (ts : List Token) (j : Nat) : Prop where
  within : j < ts.length
  matched : Matched (ts.take (j + 1))
  first : ∀ i < j, ¬ Matched (ts.take (i + 1))

theorem Closes.unique {ts : List Token} {i j : Nat} (hi : Closes ts i) (hj : Closes ts j) :
    i = j := by
  rcases Nat.lt_trichotomy i j with hlt | heq | hgt
  · exact absurd hi.matched (hj.first i hlt)
  · exact heq
  · exact absurd hj.matched (hi.first j hgt)

/-- Nowhere among the tokens more than `depth` parentheses are closed that
were not opened there. -/
def KeepsOpen (depth : Nat) (ts : List Token) : Prop :=
  ∀ i, (ts.take i).countP (·.kind = .rightParen) ≤
    (ts.take i).countP (·.kind = .leftParen) + depth

theorem keepsOpen_cons {depth depth' : Nat} {t : Token}
    (hdepth : depth' + (if t.kind = .rightParen then 1 else 0) =
      depth + (if t.kind = .leftParen then 1 else 0))
    {ts : List Token} (h : KeepsOpen depth' ts) : KeepsOpen depth (t :: ts) := by
  intro i
  cases i with
  | zero => simp
  | succ i =>
      have hmore := h i
      simp only [List.take_succ_cons, List.countP_cons, decide_eq_true_eq]
      omega

/-- What stands behind a list, if it ends: the list is closed by a right
parenthesis where none is left open. -/
theorem split_of_afterParameters {depth : Nat} {ts rest : List Token}
    (h : afterParameters depth ts = some rest) :
    ∃ inner close, ts = inner ++ close :: rest ∧ close.kind = .rightParen ∧
      KeepsOpen depth inner ∧
      inner.countP (·.kind = .rightParen) = inner.countP (·.kind = .leftParen) + depth := by
  fun_induction afterParameters depth ts with
  | case1 => cases h
  | case2 depth t ts hleft ih =>
      obtain ⟨inner, close, rfl, hclose, hopen, hcount⟩ := ih h
      refine ⟨t :: inner, close, rfl, hclose, keepsOpen_cons (by simp [hleft]) hopen, ?_⟩
      simp [hleft, hcount]
      omega
  | case3 t ts _ hright =>
      obtain rfl := Option.some.inj h
      exact ⟨[], t, rfl, hright, fun i => by simp, rfl⟩
  | case4 t ts _ hright depth ih =>
      obtain ⟨inner, close, rfl, hclose, hopen, hcount⟩ := ih h
      refine ⟨t :: inner, close, rfl, hclose, keepsOpen_cons (by simp [hright]) hopen, ?_⟩
      simp [hright, hcount]
      omega
  | case5 depth t ts hleft hright ih =>
      obtain ⟨inner, close, rfl, hclose, hopen, hcount⟩ := ih h
      refine ⟨t :: inner, close, rfl, hclose, keepsOpen_cons (by simp [hleft, hright]) hopen, ?_⟩
      simp [hleft, hright, hcount]

theorem keepsOpen_of_afterParameters {depth : Nat} {ts : List Token}
    (h : afterParameters depth ts = none) : KeepsOpen depth ts := by
  fun_induction afterParameters depth ts with
  | case1 => exact fun i => by simp
  | case2 depth t ts hleft ih => exact keepsOpen_cons (by simp [hleft]) (ih h)
  | case3 => cases h
  | case4 t ts _ hright depth ih => exact keepsOpen_cons (by simp [hright]) (ih h)
  | case5 depth t ts hleft hright ih => exact keepsOpen_cons (by simp [hleft, hright]) (ih h)

section List

variable {t : Token} {ts : List Token}

theorem not_matched_of_keepsOpen (ht : t.kind = .leftParen) (h : KeepsOpen 0 ts) (i : Nat) :
    ¬ Matched ((t :: ts).take (i + 1)) := by
  have hopen := h i
  rw [List.take_succ_cons, Matched, List.countP_cons, List.countP_cons]
  simp only [ht, decide_true, if_true]
  simp only [show (Kind.leftParen = Kind.rightParen) = False by simp, decide_false,
    Bool.false_eq_true, if_false]
  omega

theorem closes_of_afterParameters (ht : t.kind = .leftParen) {rest : List Token}
    (h : afterParameters 0 ts = some rest) :
    ∃ j, Closes (t :: ts) j ∧ (t :: ts).drop (j + 1) = rest := by
  obtain ⟨inner, close, rfl, hclose, hopen, hcount⟩ := split_of_afterParameters h
  have htake : (t :: (inner ++ close :: rest)).take (inner.length + 2) =
      t :: (inner ++ [close]) := by
    rw [List.take_succ_cons, List.take_append, List.take_of_length_le (Nat.le_succ _)]
    simp
  refine ⟨inner.length + 1, ⟨by simp, ?_, fun i hi => ?_⟩, by simp⟩
  · rw [htake, Matched]
    simp [List.countP_append, ht, hclose, hcount]
  · have hfront : (t :: (inner ++ close :: rest)).take (i + 1) = (t :: inner).take (i + 1) := by
      rw [← List.cons_append, List.take_append_of_le_length (by rw [List.length_cons]; omega)]
    rw [hfront]
    exact not_matched_of_keepsOpen ht hopen i

/-- A list that begins with the tokens is passed over up to where it
ends. -/
theorem classify_of_closes {j : Nat} (ht : t.kind = .leftParen) (h : Closes (t :: ts) j) :
    classify (t :: ts) = ofReturns ((t :: ts).drop (j + 1)) := by
  rw [classify, if_pos ht]
  cases hrest : afterParameters 0 ts with
  | some rest =>
      obtain ⟨i, hi, rfl⟩ := closes_of_afterParameters ht hrest
      rw [h.unique hi]
  | none =>
      have hopen := keepsOpen_of_afterParameters hrest
      exact absurd h.matched (not_matched_of_keepsOpen ht hopen j)

theorem classify_of_not_matched (ht : t.kind = .leftParen)
    (h : ∀ j < (t :: ts).length, ¬ Matched ((t :: ts).take (j + 1))) :
    classify (t :: ts) = .invalid := by
  rw [classify, if_pos ht]
  cases hrest : afterParameters 0 ts with
  | some rest =>
      obtain ⟨j, hj, -⟩ := closes_of_afterParameters ht hrest
      exact absurd hj.matched (h j hj.within)
  | none => rfl

end List

/-! ## Whole lists -/

/-- A list in parentheses: it opens with a left one, and the right one that
belongs to it is the last of its tokens. -/
structure ParameterList (ps : List Token) : Prop where
  opens : ∃ t more, ps = t :: more ∧ t.kind = .leftParen
  matched : Matched ps
  whole : ∀ front back, ps = front ++ back → front ≠ [] → back ≠ [] → ¬ Matched front

theorem parameterList_of_closes {ts : List Token} {j : Nat}
    (hopens : ts.head?.any (·.kind = .leftParen) = true) (h : Closes ts j) :
    ParameterList (ts.take (j + 1)) := by
  have hfirst : ∃ t more, ts.take (j + 1) = t :: more ∧ t.kind = .leftParen := by
    cases ts with
    | nil => cases hopens
    | cons t ts => exact ⟨t, ts.take j, List.take_succ_cons, by simpa using hopens⟩
  refine ⟨hfirst, h.matched, ?_⟩
  intro front back heq hfront hback hmatched
  have hlength := congrArg List.length heq
  have hpos := List.length_pos_iff.mpr hfront
  have hrest := List.length_pos_iff.mpr hback
  rw [List.length_take, List.length_append] at hlength
  have htake : front = ts.take (front.length - 1 + 1) := by
    have hle : front.length ≤ j + 1 := by omega
    rw [Nat.sub_add_cancel hpos, ← Nat.min_eq_left hle, ← List.take_take, heq, List.take_left]
  rw [htake] at hmatched
  exact h.first _ (by omega) hmatched

theorem matched_filter {p : Token → Bool}
    (hp : ∀ t : Token, t.kind = .leftParen ∨ t.kind = .rightParen → p t = true)
    (ts : List Token) : Matched (ts.filter p) ↔ Matched ts := by
  have hcount : ∀ kind, (kind = .leftParen ∨ kind = .rightParen) →
      (ts.filter p).countP (·.kind = kind) = ts.countP (·.kind = kind) := by
    intro kind hkind
    rw [List.countP_filter]
    refine List.countP_congr fun t _ => ?_
    simp only [Bool.and_eq_true, decide_eq_true_eq, and_iff_left_iff_imp]
    exact fun ht => hp t (ht ▸ hkind)
  rw [Matched, Matched, hcount _ (Or.inl rfl), hcount _ (Or.inr rfl)]

theorem not_isWhitespace_of_paren {t : Token}
    (h : t.kind = .leftParen ∨ t.kind = .rightParen) : (!t.isWhitespace) = true := by
  rcases h with h | h <;> simp [Token.isWhitespace, h]

/-- White space in a list does not count. -/
theorem ParameterList.filter {ps : List Token} (h : ParameterList ps) :
    ParameterList (ps.filter (!·.isWhitespace)) := by
  obtain ⟨t, more, rfl, ht⟩ := h.opens
  refine ⟨⟨t, more.filter (!·.isWhitespace), ?_, ht⟩, ?_, ?_⟩
  · exact List.filter_cons_of_pos (p := fun u : Token => !u.isWhitespace)
      (not_isWhitespace_of_paren (Or.inl ht))
  · exact (matched_filter (fun _ => not_isWhitespace_of_paren) _).mpr h.matched
  · intro front back heq hfront hback
    obtain ⟨front', back', hsplit, rfl, rfl⟩ := List.filter_eq_append_iff.mp heq
    rw [matched_filter fun _ => not_isWhitespace_of_paren]
    exact h.whole front' back' hsplit (fun hnil => hfront (by rw [hnil]; rfl))
      fun hnil => hback (by rw [hnil]; rfl)

/-- Of a parameter list the sort of the function shows nothing. -/
theorem classify_parameterList {ps : List Token} (h : ParameterList ps) (rest : List Token) :
    classify (ps ++ rest) = ofReturns rest := by
  obtain ⟨t, more, rfl, ht⟩ := h.opens
  have hcloses : Closes (t :: more ++ rest) more.length := by
    refine ⟨by rw [List.length_append, List.length_cons]; omega, ?_, fun i hi => ?_⟩
    · rw [List.take_append_of_le_length (by simp), List.take_of_length_le (by simp)]
      exact h.matched
    · rw [List.take_append_of_le_length (by rw [List.length_cons]; omega)]
      refine h.whole _ ((t :: more).drop (i + 1)) (List.take_append_drop _ _).symm (by simp) ?_
      rw [← List.length_pos_iff, List.length_drop, List.length_cons]
      omega
  rw [List.cons_append] at hcloses ⊢
  rw [classify_of_closes ht hcloses, List.drop_succ_cons, List.drop_left]

/-! ## The sort of a function -/

/-- The sort told by the tokens that are seen behind a parameter list, the
first of them from an offset. -/
def sortBehind (c : Cursor) (offset : Nat) : Signature :=
  if (c.peek offset).any (·.isWord "RETURNS") then
    if (c.peek (offset + 1)).any (·.isKeyword "TABLE") then .inlineTable
    else if (c.peek (offset + 1)).any (·.kind = .atName) ∧
        (c.peek (offset + 2)).any (·.isKeyword "TABLE") then
      .multiStatementTable
    else .scalar
  else .invalid

theorem ofReturns_view (c : Cursor) (offset : Nat) :
    ofReturns (c.view offset) = sortBehind c offset := by
  have hget : ∀ i, c.peek (offset + i) = (c.view offset)[i]? :=
    fun i => (c.getElem?_view offset i).symm
  have hzero := hget 0
  rw [Nat.add_zero] at hzero
  rw [sortBehind, hzero, hget 1, hget 2]
  match c.view offset with
  | [] => rfl
  | [r] => cases hr : r.isWord "RETURNS" <;> simp [ofReturns, hr]
  | [r, t] => cases hr : r.isWord "RETURNS" <;> simp [ofReturns, hr]
  | r :: t :: u :: more =>
      cases hr : r.isWord "RETURNS" with
      | false => simp [ofReturns, hr]
      | true => by_cases ht : t.kind = .atName <;> simp [ofReturns, hr, ht]

/-! ## The result -/

/-- A list that is replaced by another one makes no difference, wherever
the cursor stands before it. -/
theorem peek_replaced {params params' : List Token} (h : ParameterList params)
    (h' : ParameterList params') (behind : List Token) {front : List Token} {i : Nat}
    (hi : i ≤ front.length) :
    peek (.seek (front ++ params ++ behind) i) ((Cursor.seek front i).view 0).length =
      peek (.seek (front ++ params' ++ behind) i) ((Cursor.seek front i).view 0).length := by
  have hpeek : ∀ ps, ParameterList ps →
      peek (.seek (front ++ ps ++ behind) i) ((Cursor.seek front i).view 0).length =
        ofReturns (behind.filter (!·.isWhitespace)) := by
    intro ps hps
    obtain ⟨t, more, rfl, ht⟩ := hps.opens
    have hhead : ∀ u ∈ (t :: more ++ behind).head?, u.isWhitespace = false := by
      intro u hu
      obtain rfl := Option.some.inj hu
      simpa using not_isWhitespace_of_paren (Or.inl ht)
    rw [peek, List.append_assoc, Cursor.view_seek_append hi hhead, List.filter_append,
      classify_parameterList hps.filter]
  rw [hpeek _ h, hpeek _ h']

/-- What is before the current token, and white space behind it, makes no
difference. -/
theorem peek_solid {c c' : Cursor}
    (hcurrent : c.current.map Token.face = c'.current.map Token.face)
    (htail : solid c.ahead.tail = solid c'.ahead.tail) (k : Nat) : peek c k = peek c' k := by
  have hupcoming : c.upcoming.map Token.placeless = c'.upcoming.map Token.placeless := htail
  have hview : (c.view k).map Token.placeless = (c'.view k).map Token.placeless := by
    cases k with
    | succ k => rw [Cursor.view, Cursor.view, List.map_drop, List.map_drop, hupcoming]
    | zero =>
        rw [Cursor.view, Cursor.view, List.map_append, List.map_append, hupcoming]
        congr 1
        rw [Cursor.current, Cursor.current] at hcurrent
        cases hahead : c.ahead with
        | nil =>
            rw [hahead] at hcurrent
            cases hahead' : c'.ahead with
            | nil => rfl
            | cons u us => rw [hahead'] at hcurrent; cases hcurrent
        | cons t ts =>
            rw [hahead] at hcurrent
            cases hahead' : c'.ahead with
            | nil => rw [hahead'] at hcurrent; cases hcurrent
            | cons u us =>
                rw [hahead'] at hcurrent
                obtain ⟨hkind, htext⟩ := Prod.mk.inj (Option.some.inj hcurrent)
                simp only [List.take_succ_cons, List.take_zero, List.map_cons, List.map_nil,
                  Token.placeless]
                rw [hkind, htext]
  rw [peek, peek, ← classify_placeless, hview, classify_placeless]

/-- Let a parameter list be looked for among the tokens that a cursor shows
from an offset on. There is no function header unless the first of them is
a left parenthesis and up to some token there are as many right as left
ones. Up to the first such token the list reaches, and what is seen behind
it tells the sort of the function. So another list in its place, and other
white space behind the current token, make no difference. -/
theorem peek_sort :
    (∀ (c : Cursor) (k : Nat),
      (∀ i, (c.view k)[i]? = c.peek (k + i)) ∧
      ((∀ t ∈ c.peek k, t.kind ≠ .leftParen) → peek c k = .invalid) ∧
      ((∀ j < (c.view k).length, ¬ Matched ((c.view k).take (j + 1))) → peek c k = .invalid) ∧
      ∀ t ∈ c.peek k, t.kind = .leftParen → ∀ j, Closes (c.view k) j →
        peek c k = sortBehind c (k + j + 1)) ∧
    (∀ front params params' behind : List Token, ∀ i ≤ front.length,
      ParameterList params → ParameterList params' →
      peek (.seek (front ++ params ++ behind) i) ((Cursor.seek front i).view 0).length =
        peek (.seek (front ++ params' ++ behind) i) ((Cursor.seek front i).view 0).length) ∧
    ∀ (c c' : Cursor) (k : Nat), c.current.map Token.face = c'.current.map Token.face →
      solid c.ahead.tail = solid c'.ahead.tail → peek c k = peek c' k := by
  refine ⟨fun c k => ?_, fun _ _ _ behind i hi h h' => peek_replaced h h' behind hi,
    fun c c' k hcurrent htail => peek_solid hcurrent htail k⟩
  have hget := c.getElem?_view k
  have hzero : (c.view k).head? = c.peek k := by
    rw [List.head?_eq_getElem?, hget, Nat.add_zero]
  rw [← hzero]
  refine ⟨hget, ?_⟩
  cases hview : c.view k with
  | nil => simp [peek, hview, classify]
  | cons t ts =>
      refine ⟨fun hnot => ?_, fun hnot => ?_, fun u hu hleft j hcloses => ?_⟩
      · rw [peek, hview, classify, if_neg (hnot t rfl)]
      · by_cases hleft : t.kind = .leftParen
        · rw [peek, hview, classify_of_not_matched hleft hnot]
        · rw [peek, hview, classify, if_neg hleft]
      · obtain rfl := Option.some.inj hu
        rw [peek, hview, classify_of_closes hleft hcloses, ← hview, Cursor.drop_view,
          ofReturns_view]

/-- `CREATE FUNCTION f` and behind it a list with a list in it. -/
def nestedHeader : List Token :=
  [Guard.keyword "CREATE", Guard.space, Guard.keyword "FUNCTION", Guard.space,
    Guard.identifier "f"]

def nestedList : List Token :=
  [Guard.leftParen, .synthetic .atName ['@', 'a'], Guard.space, Guard.identifier "DECIMAL",
    Guard.leftParen, .synthetic .numberLiteral ['9'], Guard.rightParen, Guard.rightParen]

def returnsTable : List Token :=
  [Guard.space, Guard.identifier "returns", Guard.space, .synthetic .atName ['@', 't'],
    Guard.space, Guard.keyword "TABLE"]

/-- The list in the list does not end it, and an empty list in its place
makes no difference. -/
theorem peek_sort_nestedList :
    let c := Cursor.start (nestedHeader ++ nestedList ++ returnsTable)
    let empty := [Guard.leftParen, Guard.rightParen]
    Closes (c.view 3) 6 ∧ peek c 3 = .multiStatementTable ∧
    ParameterList nestedList ∧ ParameterList empty ∧
    peek (.start (nestedHeader ++ empty ++ returnsTable)) 3 = .multiStatementTable := by
  intro c empty
  obtain ⟨hsort, hlist, -⟩ := peek_sort
  have hcloses : Closes (c.view 3) 6 := ⟨by decide, by decide, by decide⟩
  have hfirst : peek c 3 = .multiStatementTable :=
    ((hsort c 3).2.2.2 Guard.leftParen rfl rfl 6 hcloses).trans (by decide)
  have hparams : ParameterList nestedList :=
    @parameterList_of_closes nestedList 7 (by decide)
      ⟨by decide, by decide, by decide⟩
  have hempty : ParameterList empty :=
    @parameterList_of_closes empty 1 (by decide)
      ⟨by decide, by decide, by decide⟩
  refine ⟨hcloses, hfirst, hparams, hempty, ?_⟩
  exact (hlist nestedHeader nestedList empty returnsTable 0 (Nat.zero_le _) hparams
    hempty).symm.trans hfirst

end Signature

end Tsql
