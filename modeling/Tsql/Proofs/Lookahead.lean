import Mathlib.Data.List.TakeWhile
import Mathlib.Order.Interval.Finset.Nat
import Tsql.Proofs.NamesAhead

/-!
# Looking ahead and moving on

A cursor shows what is ahead by offsets and moves on by one token that is
not white space. Both are told here by the indices of the tokens alone. A
move goes to the next index that counts (`consume_seek`), and to the number
of tokens when there is none, from behind the end too; so `n` moves go to
the `n`-th such index (`consumeN_seek_cases`). Since a move shifts what is
shown by one (`peek_consume`), the token shown at an offset is the one that
as many moves lead to.
-/

namespace Tsql

namespace Cursor

variable {tokens : List Token} {position i j m : Nat}

/-! ## Indices that count -/

/-- There is a token of this index, and it is not white space. -/
def counts (tokens : List Token) (i : Nat) : Bool := tokens[i]?.any (!·.isWhitespace)

theorem counts_eq_true_iff :
    counts tokens i = true ↔ ∃ t, tokens[i]? = some t ∧ t.isWhitespace = false := by
  simp [counts, Option.any_eq_true]

theorem lt_of_counts (h : counts tokens i = true) : i < tokens.length := by
  obtain ⟨t, ht, -⟩ := counts_eq_true_iff.mp h
  exact (List.getElem?_eq_some_iff.mp ht).1

/-- How many indices behind a place count, up to and with `i`. -/
def countUpTo (tokens : List Token) (position i : Nat) : Nat :=
  ((Finset.Ioc position i).filter (counts tokens ·)).card

/-- The index of the `n`-th token strictly behind a place that is not white
space. -/
structure Nth (tokens : List Token) (position n i : Nat) : Prop where
  behind : position < i
  counts : counts tokens i = true
  number : countUpTo tokens position i = n

/-- The next index that counts behind a place. -/
structure Next (tokens : List Token) (position i : Nat) : Prop where
  behind : position < i
  counts : counts tokens i = true
  first : ∀ j, position < j → j < i → Cursor.counts tokens j = false

theorem countUpTo_mono (h : i ≤ j) : countUpTo tokens position i ≤ countUpTo tokens position j := by
  refine Finset.card_le_card (Finset.filter_subset_filter _ ?_)
  exact Finset.Ioc_subset_Ioc_right h

theorem countUpTo_lt (h : i < j) (hbehind : position < j) (hj : counts tokens j = true) :
    countUpTo tokens position i < countUpTo tokens position j := by
  refine Finset.card_lt_card (Finset.ssubset_iff_of_subset ?_ |>.mpr ⟨j, ?_, ?_⟩)
  · exact Finset.filter_subset_filter _ (Finset.Ioc_subset_Ioc_right (Nat.le_of_lt h))
  · simp [hbehind, hj]
  · simp [h]

theorem Nth.unique {n : Nat} (h : Nth tokens position n i) (h' : Nth tokens position n j) :
    i = j := by
  have hnumber := h.number.trans h'.number.symm
  rcases Nat.lt_trichotomy i j with hlt | heq | hlt
  · exact absurd hnumber (Nat.ne_of_lt (countUpTo_lt hlt h'.behind h'.counts))
  · exact heq
  · exact absurd hnumber.symm (Nat.ne_of_lt (countUpTo_lt hlt h.behind h.counts))

theorem countUpTo_of_none (h : ∀ j, position < j → counts tokens j = false) (m : Nat) :
    countUpTo tokens position m = 0 := by
  rw [countUpTo, Finset.card_eq_zero, Finset.filter_eq_empty_iff]
  intro j hj
  simp [h j (Finset.mem_Ioc.mp hj).1]

/-- Behind the next index that counts, one less is left to count. -/
theorem Next.countUpTo_eq (h : Next tokens position i) (hm : i ≤ m) :
    countUpTo tokens position m = countUpTo tokens i m + 1 := by
  have hsplit : (Finset.Ioc position m).filter (Cursor.counts tokens ·) =
      insert i ((Finset.Ioc i m).filter (Cursor.counts tokens ·)) := by
    ext j
    simp only [Finset.mem_filter, Finset.mem_Ioc, Finset.mem_insert]
    constructor
    · rintro ⟨⟨hpos, hle⟩, hj⟩
      rcases Nat.lt_trichotomy j i with hlt | heq | hlt
      · rw [h.first j hpos hlt] at hj
        cases hj
      · exact Or.inl heq
      · exact Or.inr ⟨⟨hlt, hle⟩, hj⟩
    · rintro (rfl | ⟨⟨hlt, hle⟩, hj⟩)
      · exact ⟨⟨h.behind, hm⟩, h.counts⟩
      · exact ⟨⟨h.behind.trans hlt, hle⟩, hj⟩
  rw [countUpTo, hsplit, Finset.card_insert_of_notMem (by simp), countUpTo]

theorem Next.nth_one (h : Next tokens position i) : Nth tokens position 1 i := by
  refine ⟨h.behind, h.counts, ?_⟩
  rw [h.countUpTo_eq (Nat.le_refl i), countUpTo, Finset.Ioc_self]
  rfl

theorem Next.nth_succ {n : Nat} (h : Next tokens position i) (hn : Nth tokens i n j) :
    Nth tokens position (n + 1) j := by
  refine ⟨h.behind.trans hn.behind, hn.counts, ?_⟩
  rw [h.countUpTo_eq (Nat.le_of_lt hn.behind), hn.number]

/-! ## Moves -/

/-- A move goes to the next index that counts, and behind the tokens when
there is none. -/
theorem consume_seek (tokens : List Token) (position : Nat) (messages : List String) :
    (∃ i, Next tokens position i ∧
      ((seek tokens position).report messages).consume = (seek tokens i).report messages) ∨
    ((∀ j, position < j → counts tokens j = false) ∧
      ((seek tokens position).report messages).consume =
        (seek tokens tokens.length).report messages) := by
  have htail : ((seek tokens position).report messages).ahead.tail =
      tokens.drop (position + 1) := by
    rw [ahead_report, seek, List.tail_drop]
  have hindex : ∀ j, position < j →
      tokens[j]? = (tokens.drop (position + 1))[j - (position + 1)]? := by
    intro j hj
    rw [List.getElem?_drop]
    congr 1
    omega
  cases hrest : (tokens.drop (position + 1)).dropWhile (·.isWhitespace) with
  | nil =>
      refine Or.inr ⟨fun j hj => ?_, ?_⟩
      · rw [counts, hindex j hj, Option.any_eq_false]
        intro t ht
        have hblank := List.dropWhile_eq_nil_iff.mp hrest t (List.mem_of_getElem? ht)
        simp [hblank]
      · rw [consume, htail, hrest, seek, seek, List.drop_length]
        rfl
  | cons t ts =>
      let blanks := (tokens.drop (position + 1)).takeWhile (·.isWhitespace)
      have hsplit : tokens.drop (position + 1) = blanks ++ t :: ts := by
        rw [← hrest, List.takeWhile_append_dropWhile]
      have hdrop : tokens.drop (position + 1 + blanks.length) = t :: ts := by
        rw [← List.drop_drop, hsplit, List.drop_left]
      have ht : t.isWhitespace = false := by
        have hhead := List.head?_dropWhile_not (·.isWhitespace) (tokens.drop (position + 1))
        rwa [hrest] at hhead
      refine Or.inl ⟨position + 1 + blanks.length, ⟨by omega, ?_, ?_⟩, ?_⟩
      · rw [counts, ← List.head?_drop, hdrop]
        simp [ht]
      · intro j hj hlt
        have hwithin : j - (position + 1) < blanks.length := by omega
        rw [counts, hindex j hj, hsplit, List.getElem?_append_left hwithin, Option.any_eq_false]
        intro u hu
        have hblank := List.mem_takeWhile_imp (List.mem_of_getElem? hu)
        simp [hblank]
      · rw [consume, htail, hrest, seek, seek, hdrop]
        rfl

/-- As many moves lead to the index that comes so far behind, or behind the
tokens. -/
theorem consumeN_seek_cases (tokens : List Token) (position n : Nat) (messages : List String) :
    (∃ i, Nth tokens position (n + 1) i ∧
      ((seek tokens position).report messages).consumeN (n + 1) =
        (seek tokens i).report messages) ∨
    (countUpTo tokens position tokens.length < n + 1 ∧
      ((seek tokens position).report messages).consumeN (n + 1) =
        (seek tokens tokens.length).report messages) := by
  induction n generalizing position with
  | zero =>
      rw [Nat.zero_add, consumeN, consumeN]
      rcases consume_seek tokens position messages with ⟨i, hnext, hmove⟩ | ⟨hnone, hmove⟩
      · exact Or.inl ⟨i, hnext.nth_one, hmove⟩
      · exact Or.inr ⟨by rw [countUpTo_of_none hnone]; exact Nat.zero_lt_one, hmove⟩
  | succ n ih =>
      rw [consumeN]
      rcases consume_seek tokens position messages with ⟨k, hnext, hmove⟩ | ⟨hnone, hmove⟩
      · rw [hmove]
        rcases ih k with ⟨i, hnth, hmoves⟩ | ⟨hfewer, hmoves⟩
        · exact Or.inl ⟨i, hnext.nth_succ hnth, hmoves⟩
        · refine Or.inr ⟨?_, hmoves⟩
          rw [hnext.countUpTo_eq (Nat.le_of_lt (lt_of_counts hnext.counts))]
          omega
      · rw [hmove]
        rcases ih tokens.length with ⟨i, hnth, -⟩ | ⟨-, hmoves⟩
        · exact absurd hnth.behind (Nat.lt_asymm (lt_of_counts hnth.counts))
        · exact Or.inr ⟨by rw [countUpTo_of_none hnone]; exact Nat.succ_pos _, hmoves⟩

theorem current_seek (tokens : List Token) (i : Nat) (messages : List String) :
    ((seek tokens i).report messages).current = tokens[i]? := by
  rw [current, ahead_report, seek, List.head?_drop]

/-- The token that as many moves lead to is shown. -/
theorem current_consumeN (c : Cursor) (n : Nat) : (c.consumeN n).current = c.peek n := by
  have hpeek := c.peek_consumeN n 0
  rwa [Nat.add_zero] at hpeek

/-- Let a cursor be anywhere in the tokens of a script, or behind them. A
move leads to the token shown first and shifts what is shown by one, so
that `n` moves lead to the `n`-th shown. This is the `n`-th token strictly
behind the place that is not white space; if there are fewer, none is shown
and the moves lead behind the tokens. -/
theorem lookahead_in_step (tokens : List Token) (position : Nat) (messages : List String) :
    let c := (seek tokens position).report messages
    (c.consume.current = c.peek 1 ∧ ∀ i, c.consume.peek i = c.peek (i + 1)) ∧
    (∀ n, (c.consumeN n).current = c.peek n) ∧
    (∀ n, 0 < n → ∀ t,
      c.peek n = some t ↔ ∃ i, Nth tokens position n i ∧ tokens[i]? = some t) ∧
    (∀ n, 0 < n → (c.peek n = none ↔ countUpTo tokens position tokens.length < n)) ∧
    (∀ n i, Nth tokens position n i → c.consumeN n = (seek tokens i).report messages) ∧
    (∀ n, countUpTo tokens position tokens.length < n →
      c.consumeN n = (seek tokens tokens.length).report messages) := by
  intro c
  -- too few tokens for an `n`-th
  have hexcludes : ∀ n i, Nth tokens position n i →
      ¬ countUpTo tokens position tokens.length < n := by
    intro n i hnth hfewer
    have hle : countUpTo tokens position i ≤ countUpTo tokens position tokens.length :=
      countUpTo_mono (Nat.le_of_lt (lt_of_counts hnth.counts))
    rw [hnth.number] at hle
    exact Nat.not_lt_of_le hle hfewer
  have hcases : ∀ n, 0 < n →
      (∃ i, Nth tokens position n i ∧ c.consumeN n = (seek tokens i).report messages) ∨
      (countUpTo tokens position tokens.length < n ∧
        c.consumeN n = (seek tokens tokens.length).report messages) := by
    intro n hn
    obtain ⟨k, rfl⟩ := Nat.exists_eq_add_of_lt hn
    rw [Nat.zero_add]
    exact consumeN_seek_cases tokens position k messages
  have hshown : ∀ n i, c.consumeN n = (seek tokens i).report messages →
      c.peek n = tokens[i]? := by
    intro n i hmoves
    rw [← current_consumeN, hmoves, current_seek]
  refine ⟨⟨c.peek_consume 0, c.peek_consume⟩, c.current_consumeN, fun n hn t => ?_,
    fun n hn => ?_, fun n i hnth => ?_, fun n hfewer => ?_⟩
  · rcases hcases n hn with ⟨i, hnth, hmoves⟩ | ⟨hfewer, hmoves⟩
    · rw [hshown n i hmoves]
      constructor
      · exact fun ht => ⟨i, hnth, ht⟩
      · rintro ⟨j, hnth', ht⟩
        rwa [hnth.unique hnth']
    · rw [hshown n _ hmoves, List.getElem?_length]
      constructor
      · intro h
        cases h
      · rintro ⟨i, hnth, -⟩
        exact absurd hfewer (hexcludes n i hnth)
  · rcases hcases n hn with ⟨i, hnth, hmoves⟩ | ⟨hfewer, hmoves⟩
    · rw [hshown n i hmoves, List.getElem?_eq_none_iff]
      have hlt := lt_of_counts hnth.counts
      have hnot := hexcludes n i hnth
      omega
    · rw [hshown n _ hmoves]
      simp [hfewer]
  · have hn : 0 < n := by
      have hlt := countUpTo_lt hnth.behind hnth.behind hnth.counts
      rw [hnth.number] at hlt
      exact Nat.zero_lt_of_lt hlt
    rcases hcases n hn with ⟨j, hnth', hmoves⟩ | ⟨hfewer, -⟩
    · rw [hmoves, hnth.unique hnth']
    · exact absurd hfewer (hexcludes n i hnth)
  · rcases hcases n (Nat.zero_lt_of_lt hfewer) with ⟨i, hnth, -⟩ | ⟨-, hmoves⟩
    · exact absurd hfewer (hexcludes n i hnth)
    · exact hmoves

/-- White space at the place, between the tokens and at the end. -/
def spacedTokens : List Token := (Script.parse .sql110 "EXEC  /* c */ Foo ".toList).body

theorem lookahead_in_step_spaces :
    let c := (seek spacedTokens 1).report []
    let past := (seek spacedTokens 9).report []
    spacedTokens.length = 7 ∧ Nth spacedTokens 1 2 5 ∧ c.peek 2 = spacedTokens[5]? ∧
      c.consumeN 2 = (seek spacedTokens 5).report [] ∧ c.peek 3 = none ∧
      c.consumeN 3 = (seek spacedTokens 7).report [] ∧ past.peek 1 = none ∧
      past.consumeN 1 = (seek spacedTokens 7).report [] := by
  intro c past
  have hlength : spacedTokens.length = 7 := by decide +kernel
  have hnth : Nth spacedTokens 1 2 5 :=
    ⟨by decide, by decide +kernel, by decide +kernel⟩
  have hfewer : countUpTo spacedTokens 1 spacedTokens.length < 3 := by decide +kernel
  have hnone : countUpTo spacedTokens 9 spacedTokens.length < 1 := by decide +kernel
  obtain ⟨-, hcurrent, -, hends, hmoves, hfails⟩ := lookahead_in_step spacedTokens 1 []
  obtain ⟨-, -, -, hpastEnds, -, hpastFails⟩ := lookahead_in_step spacedTokens 9 []
  rw [hlength] at hfails hpastFails hfewer hnone hends hpastEnds
  refine ⟨hlength, hnth, ?_, hmoves 2 5 hnth, (hends 3 (by decide)).mpr hfewer, hfails 3 hfewer,
    (hpastEnds 1 (by decide)).mpr hnone, hpastFails 1 hnone⟩
  rw [← hcurrent 2, hmoves 2 5 hnth, current_seek]

end Cursor

end Tsql
