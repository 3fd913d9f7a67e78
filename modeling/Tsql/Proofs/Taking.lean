import Tsql.Proofs.Trace

/-!
# Passes that take upcoming tokens

A decision may take tokens with the one it is made at: so many of those
that are not white space, and the white space before them. `header` are
the tokens that go, `behind` are those that stay, and the run goes on
there. `Passed` relates the tokens of a script to the decisions made on
the way, and `traceFrom_of_passed` says that a run is these decisions put
together.
-/

namespace Tsql

/-! ## Tokens taken and left -/

/-- What is left of the tokens when `n` that are not white space are
taken from the front. -/
def behind : Nat → List Token → List Token
  | 0, ts => ts
  | _ + 1, [] => []
  | n + 1, t :: ts => if t.isWhitespace then behind (n + 1) ts else behind n ts

/-- The tokens that are taken. -/
def header : Nat → List Token → List Token
  | 0, _ => []
  | _ + 1, [] => []
  | n + 1, t :: ts => t :: if t.isWhitespace then header (n + 1) ts else header n ts

@[simp] theorem behind_zero (ts : List Token) : behind 0 ts = ts := by
  cases ts <;> rfl

@[simp] theorem header_zero (ts : List Token) : header 0 ts = [] := by
  cases ts <;> rfl

theorem header_append_behind (n : Nat) (ts : List Token) : header n ts ++ behind n ts = ts := by
  induction ts generalizing n with
  | nil => cases n <;> rfl
  | cons t ts ih =>
      cases n with
      | zero => simp
      | succ n =>
          rw [header, behind]
          split <;> rw [List.cons_append, ih]

theorem length_behind_le (n : Nat) (ts : List Token) : (behind n ts).length ≤ ts.length := by
  have hlen := congrArg List.length (header_append_behind n ts)
  rw [List.length_append] at hlen
  omega

theorem behind_succ (n : Nat) (ts : List Token) :
    behind (n + 1) ts = behind n (ts.dropWhile (·.isWhitespace)).tail := by
  induction ts with
  | nil => cases n <;> rfl
  | cons t ts ih =>
      rw [behind, List.dropWhile_cons]
      split
      · exact ih
      · rfl

theorem behind_cons_of_isWhitespace {n : Nat} (hn : n ≠ 0) {t : Token} (ht : t.isWhitespace = true)
    (ts : List Token) : behind n (t :: ts) = behind n ts := by
  cases n with
  | zero => exact absurd rfl hn
  | succ n => rw [behind, if_pos ht]

theorem behind_append {front : List Token} (hfront : ∀ t ∈ front, t.isWhitespace = false)
    (ts : List Token) : behind front.length (front ++ ts) = ts := by
  induction front with
  | nil => simp
  | cons t front ih =>
      rw [List.cons_append, List.length_cons, behind, hfront t List.mem_cons_self]
      exact ih fun u hu => hfront u (List.mem_cons_of_mem t hu)

/-- Of the tokens that count, the first are taken and the others left. -/
theorem filter_header_behind (n : Nat) (ts : List Token) :
    (header n ts).filter (!·.isWhitespace) = (ts.filter (!·.isWhitespace)).take n ∧
      (behind n ts).filter (!·.isWhitespace) = (ts.filter (!·.isWhitespace)).drop n := by
  induction ts generalizing n with
  | nil => cases n <;> exact ⟨rfl, rfl⟩
  | cons t ts ih =>
      cases n with
      | zero => simp
      | succ n =>
          rw [header, behind]
          cases ht : t.isWhitespace with
          | true => simpa [ht] using ih (n + 1)
          | false => simpa [ht] using ih n

/-- A token that is taken is white space or one of those that count. -/
theorem mem_header {n : Nat} {ts : List Token} {t : Token} (h : t ∈ header n ts) :
    t.isWhitespace = true ∨ ∃ i < n, (ts.filter (!·.isWhitespace))[i]? = some t := by
  induction ts generalizing n with
  | nil => cases n <;> cases h
  | cons u us ih =>
      cases n with
      | zero => simp at h
      | succ n =>
          rw [header] at h
          rcases List.mem_cons.mp h with rfl | hmore
          · cases ht : t.isWhitespace with
            | true => exact Or.inl rfl
            | false => exact Or.inr ⟨0, Nat.succ_pos n, by simp [ht]⟩
          · cases hu : u.isWhitespace with
            | true =>
                rw [if_pos hu] at hmore
                rcases ih hmore with hblank | ⟨i, hi, hget⟩
                · exact Or.inl hblank
                · exact Or.inr ⟨i, hi, by simpa [hu] using hget⟩
            | false =>
                rw [if_neg (by simp [hu])] at hmore
                rcases ih hmore with hblank | ⟨i, hi, hget⟩
                · exact Or.inl hblank
                · exact Or.inr ⟨i + 1, Nat.succ_lt_succ hi, by simpa [hu] using hget⟩

/-- The last token that is taken is the last of those that count. -/
theorem getLast?_header {n : Nat} {ts : List Token} {t : Token}
    (h : (ts.filter (!·.isWhitespace))[n]? = some t) : (header (n + 1) ts).getLast? = some t := by
  induction ts generalizing n with
  | nil => simp at h
  | cons u us ih =>
      rw [header]
      cases hu : u.isWhitespace with
      | true =>
          have hmore := ih (n := n) (by simpa [hu] using h)
          rw [if_pos rfl, List.getLast?_cons, hmore]
          rfl
      | false =>
          cases n with
          | zero =>
              obtain rfl : u = t := by simpa [hu] using h
              simp
          | succ n =>
              have hmore := ih (n := n) (by simpa [hu] using h)
              rw [if_neg (by simp), List.getLast?_cons, hmore]
              rfl

theorem ahead_consumeN_advance (c : Cursor) (n : Nat) :
    (c.consumeN n).advance.ahead = behind n c.ahead.tail := by
  induction n generalizing c with
  | zero => rw [behind_zero, Cursor.ahead_advance]; rfl
  | succ n ih => rw [Cursor.consumeN, ih, Cursor.ahead_consume, behind_succ]

/-! ## Runs -/

namespace Pass

/-- The decisions made at the tokens that are not taken by others. -/
inductive Passed (choose : List Token → Except Error Decision) :
    List Token → List Decision → Prop where
  | nil : Passed choose [] []
  | cons {t : Token} {ts : List Token} {d : Decision} {ds : List Decision}
      (here : choose (t :: ts) = .ok d) (more : Passed choose (behind d.consumed ts) ds) :
      Passed choose (t :: ts) (d :: ds)

variable {pass : Pass} {choose : List Token → Except Error Decision}

theorem ahead_move_advance (d : Decision) {c : Cursor} {t : Token} {ts : List Token}
    (hc : c.ahead = t :: ts) : (d.move c).advance.ahead = behind d.consumed ts := by
  rw [Decision.move, Cursor.ahead_advance, Cursor.ahead_report, ← Cursor.ahead_advance,
    ahead_consumeN_advance, hc]
  rfl

/-- A run is the decisions made on the way, put together. -/
theorem traceFrom_of_passed (hsees : pass.Sees choose) {tokens : List Token} {ds : List Decision}
    (h : Passed choose tokens ds) (c : Cursor) (hc : c.ahead = tokens) :
    pass.traceFrom c = .ok ⟨ds.flatMap Decision.emitted, ds.flatMap Decision.asked,
      c.diagnostics ++ ds.flatMap Decision.reports⟩ := by
  induction h generalizing c with
  | nil =>
      rw [traceFrom_nil hc]
      simp
  | @cons t ts d ds hhere _ ih =>
      rw [traceFrom_cons hc, hsees c t ts hc, hhere]
      simp only [bind, Except.bind, ih _ (ahead_move_advance d hc), diagnostics_move_advance,
        pure, Except.pure, List.flatMap_cons, List.append_assoc]

end Pass

end Tsql
