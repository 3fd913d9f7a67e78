import Tsql.Lexeme

/-!
# How far a lexeme reaches

Every reader of `Tsql.Lexeme` answers with a count. For each of them this
file says two things.

- **bound** (`_le`): the count stays within the text that was read.
- **what is behind** (`_append_iff`): a reader that ends exactly at `cs`
  when `rest` stands behind it ends there also when nothing does, and the
  other way round if `rest` does not begin with a character that carries
  the reader on. Most readers look at one character behind their lexeme;
  the ones that end in a mark of their own look at none.

`Tsql.Proofs.Seam` puts these together over the whole table.
-/

namespace Tsql

namespace Lexeme

theorem map_add_eq_some {o : Option Nat} {k n : Nat} :
    o.map (· + k) = some (n + k) ↔ o = some n := by
  cases o with
  | none => simp
  | some m => simp

/-- A count that grows by `k` ends behind at least `k` characters. -/
theorem map_add_ne_some {o : Option Nat} {k n : Nat} (h : n < k) :
    o.map (· + k) ≠ some n := by
  cases o with
  | none => simp
  | some m =>
      simp only [Option.map_some, ne_eq, Option.some.injEq]
      omega

/-! ## Runs of a class -/

theorem runExtent_nil (p : Char → Bool) : runExtent p [] = 0 := rfl

theorem runExtent_cons (p : Char → Bool) (c : Char) (cs : Text) :
    runExtent p (c :: cs) = if p c then runExtent p cs + 1 else 0 := by
  unfold runExtent
  rw [List.takeWhile_cons]
  split <;> rfl

theorem runExtent_le (p : Char → Bool) (cs : Text) : runExtent p cs ≤ cs.length :=
  (List.takeWhile_prefix p).length_le

theorem runExtent_eq_zero_iff (p : Char → Bool) (cs : Text) :
    runExtent p cs = 0 ↔ cs.head?.any p = false := by
  cases cs with
  | nil => simp [runExtent_nil]
  | cons c cs =>
      rw [runExtent_cons]
      cases hc : p c <;> simp [hc]

theorem exists_runExtent_eq_succ {p : Char → Bool} {cs : Text} (h : cs.head?.any p = true) :
    ∃ n, runExtent p cs = n + 1 := by
  apply Nat.exists_eq_succ_of_ne_zero
  rw [ne_eq, runExtent_eq_zero_iff, h]
  simp

theorem runExtent_append_iff (p : Char → Bool) (cs rest : Text) :
    runExtent p (cs ++ rest) = cs.length ↔
      runExtent p cs = cs.length ∧ rest.head?.any p = false := by
  induction cs with
  | nil => simpa [runExtent_nil] using runExtent_eq_zero_iff p rest
  | cons c cs ih =>
      rw [List.cons_append, runExtent_cons, runExtent_cons, List.length_cons]
      cases hc : p c with
      | false => simp
      | true => simpa using ih

theorem runExtent_append {p : Char → Bool} {cs : Text} (h : cs.all p) (rest : Text) :
    runExtent p (cs ++ rest) = cs.length + runExtent p rest := by
  unfold runExtent
  rw [List.takeWhile_append_of_pos (by simpa using h), List.length_append]

/-- A run that takes a whole text takes only characters of its class. -/
theorem runExtent_eq_length_iff (p : Char → Bool) (cs : Text) :
    runExtent p cs = cs.length ↔ cs.all p := by
  induction cs with
  | nil => simp [runExtent_nil]
  | cons c cs ih =>
      rw [runExtent_cons, List.all_cons, List.length_cons]
      cases hc : p c with
      | false => simp
      | true => simpa using ih

/-! ## Delimited lexemes -/

theorem closeExtent_le (q : Char) {cs : Text} {n : Nat} (h : closeExtent q cs = some n) :
    0 < n ∧ n ≤ cs.length := by
  fun_induction closeExtent q cs generalizing n with
  | case1 => cases h
  | case2 =>
      obtain rfl := Option.some.inj h
      exact ⟨Nat.one_pos, Nat.le_refl _⟩
  | case3 => cases h
  | case4 cs ih =>
      obtain ⟨m, hm, rfl⟩ := Option.map_eq_some_iff.mp h
      have := ih hm
      simp only [List.length_cons]
      omega
  | case5 =>
      obtain rfl := Option.some.inj h
      simp
  | case6 c d cs _ ih =>
      obtain ⟨m, hm, rfl⟩ := Option.map_eq_some_iff.mp h
      have := ih hm
      simp only [List.length_cons] at this ⊢
      omega

theorem closeExtent_append_iff (q : Char) (cs rest : Text) :
    closeExtent q (cs ++ rest) = some cs.length ↔
      closeExtent q cs = some cs.length ∧ rest.head? ≠ some q := by
  fun_induction closeExtent q cs with
  | case1 =>
      refine ⟨fun h => ?_, fun h => by cases h.1⟩
      have := (closeExtent_le q h).1
      simp at this
  | case2 =>
      cases rest with
      | nil => simp [closeExtent]
      | cons d ds =>
          by_cases hd : d = q
          · simp [closeExtent, hd]
          · simp [closeExtent, hd]
  | case3 c hc =>
      refine ⟨fun h => ?_, fun h => by cases h.1⟩
      cases rest with
      | nil => simp [closeExtent, hc] at h
      | cons d ds =>
          rw [List.cons_append, List.nil_append, closeExtent, if_neg hc] at h
          obtain ⟨m, hm, hlen⟩ := Option.map_eq_some_iff.mp h
          have := (closeExtent_le q hm).1
          simp only [List.length_cons, List.length_nil] at hlen
          omega
  | case4 cs ih =>
      rw [List.cons_append, List.cons_append, closeExtent, if_pos rfl, if_pos rfl]
      simp only [List.length_cons, Nat.add_assoc, Nat.reduceAdd, map_add_eq_some]
      exact ih
  | case5 d cs hd =>
      rw [List.cons_append, List.cons_append, closeExtent, if_pos rfl, if_neg hd]
      simp
  | case6 c d cs hc ih =>
      rw [List.cons_append, List.cons_append, closeExtent, if_neg hc, List.length_cons,
        map_add_eq_some, map_add_eq_some]
      exact ih

theorem escapedExtent_le {cs : Text} {n : Nat} (h : escapedExtent cs = some n) :
    0 < n ∧ n ≤ cs.length := by
  fun_induction escapedExtent cs generalizing n with
  | case1 => cases h
  | case2 =>
      obtain rfl := Option.some.inj h
      exact ⟨Nat.one_pos, Nat.le_refl _⟩
  | case3 => cases h
  | case4 d cs ih =>
      obtain ⟨m, hm, rfl⟩ := Option.map_eq_some_iff.mp h
      have := ih hm
      simp only [List.length_cons]
      omega
  | case5 cs _ ih =>
      obtain ⟨m, hm, rfl⟩ := Option.map_eq_some_iff.mp h
      have := ih hm
      simp only [List.length_cons]
      omega
  | case6 =>
      obtain rfl := Option.some.inj h
      simp
  | case7 c d cs _ _ ih =>
      obtain ⟨m, hm, rfl⟩ := Option.map_eq_some_iff.mp h
      have := ih hm
      simp only [List.length_cons] at this ⊢
      omega

theorem escapedExtent_append_iff (cs rest : Text) :
    escapedExtent (cs ++ rest) = some cs.length ↔
      escapedExtent cs = some cs.length ∧ rest.head? ≠ some '\'' := by
  fun_induction escapedExtent cs with
  | case1 =>
      refine ⟨fun h => ?_, fun h => by cases h.1⟩
      have := (escapedExtent_le h).1
      simp at this
  | case2 =>
      cases rest with
      | nil => simp [escapedExtent]
      | cons d ds =>
          by_cases hd : d = '\''
          · simp [escapedExtent, hd]
          · simp [escapedExtent, hd]
  | case3 c hc =>
      refine ⟨fun h => ?_, fun h => by cases h.1⟩
      cases rest with
      | nil => simp [escapedExtent, hc] at h
      | cons d ds =>
          rw [List.cons_append, List.nil_append, escapedExtent, if_neg hc] at h
          split at h
          · exact absurd h (map_add_ne_some (by simp))
          · obtain ⟨m, hm, hlen⟩ := Option.map_eq_some_iff.mp h
            have := (escapedExtent_le hm).1
            simp only [List.length_cons, List.length_nil] at hlen
            omega
  | case4 d cs ih =>
      rw [List.cons_append, List.cons_append, escapedExtent, if_pos rfl]
      simp only [List.length_cons, Nat.add_assoc, Nat.reduceAdd, map_add_eq_some]
      exact ih
  | case5 cs hc ih =>
      rw [List.cons_append, List.cons_append, escapedExtent, if_neg hc, if_pos rfl, if_pos rfl]
      simp only [List.length_cons, Nat.add_assoc, Nat.reduceAdd, map_add_eq_some]
      exact ih
  | case6 d cs hc hd =>
      rw [List.cons_append, List.cons_append, escapedExtent, if_neg hc, if_pos rfl, if_neg hd]
      simp
  | case7 c d cs hb hc ih =>
      rw [List.cons_append, List.cons_append, escapedExtent, if_neg hb, if_neg hc,
        List.length_cons, map_add_eq_some, map_add_eq_some]
      exact ih

/-! ## Comments -/

theorem commentExtent_cons (last : Char) (depth : Nat) (c : Char) (cs : Text) :
    commentExtent last depth (c :: cs) =
      if last = '/' ∧ c = '*' then (commentExtent c (depth + 1) cs).map (· + 1)
      else if last = '*' ∧ c = '/' then
        match depth with
        | 0 => some 1
        | d + 1 => (commentExtent c d cs).map (· + 1)
      else (commentExtent c depth cs).map (· + 1) := by
  cases depth <;> rfl

theorem commentExtent_le {last : Char} {depth : Nat} {cs : Text} {n : Nat}
    (h : commentExtent last depth cs = some n) : 0 < n ∧ n ≤ cs.length := by
  fun_induction commentExtent last depth cs generalizing n with
  | case1 => cases h
  | case2 last depth c cs _ ih =>
      obtain ⟨m, hm, rfl⟩ := Option.map_eq_some_iff.mp h
      have := ih hm
      simp only [List.length_cons]
      omega
  | case3 =>
      obtain rfl := Option.some.inj h
      simp
  | case4 last c cs _ _ d ih =>
      obtain ⟨m, hm, rfl⟩ := Option.map_eq_some_iff.mp h
      have := ih hm
      simp only [List.length_cons]
      omega
  | case5 last depth c cs _ _ ih =>
      obtain ⟨m, hm, rfl⟩ := Option.map_eq_some_iff.mp h
      have := ih hm
      simp only [List.length_cons]
      omega

/-- A comment ends in its own mark, whatever stands behind. -/
theorem commentExtent_append_iff (last : Char) (depth : Nat) (cs rest : Text) :
    commentExtent last depth (cs ++ rest) = some cs.length ↔
      commentExtent last depth cs = some cs.length := by
  fun_induction commentExtent last depth cs with
  | case1 =>
      refine ⟨fun h => ?_, fun h => by cases h⟩
      have := (commentExtent_le h).1
      simp at this
  | case2 last depth c cs hopen ih =>
      rw [List.cons_append, commentExtent_cons, if_pos hopen, List.length_cons, map_add_eq_some,
        map_add_eq_some]
      exact ih
  | case3 last c cs hopen hclose =>
      rw [List.cons_append, commentExtent_cons, if_neg hopen, if_pos hclose]
  | case4 last c cs hopen hclose d ih =>
      rw [List.cons_append, commentExtent_cons, if_neg hopen, if_pos hclose, List.length_cons,
        map_add_eq_some, map_add_eq_some]
      exact ih
  | case5 last depth c cs hopen hclose ih =>
      rw [List.cons_append, commentExtent_cons, if_neg hopen, if_neg hclose, List.length_cons,
        map_add_eq_some, map_add_eq_some]
      exact ih

theorem lineExtent_le (cs : Text) : lineExtent cs ≤ cs.length := by
  induction cs with
  | nil => exact Nat.le_refl _
  | cons c cs ih =>
      rw [lineExtent, List.length_cons]
      split <;> omega

/-- A line ends at its line feed, or with the text. -/
theorem lineExtent_append_iff (cs rest : Text) :
    lineExtent (cs ++ rest) = cs.length ↔
      lineExtent cs = cs.length ∧ (cs.getLast? = some '\n' ∨ rest = []) := by
  induction cs with
  | nil =>
      cases rest with
      | nil => simp [lineExtent]
      | cons d ds =>
          simp only [List.nil_append, lineExtent]
          split <;> simp
  | cons c cs ih =>
      rw [List.cons_append, lineExtent, lineExtent, List.length_cons]
      by_cases hc : c = '\n'
      · rw [if_pos hc, if_pos hc]
        cases cs with
        | nil => simp [hc]
        | cons d ds => simp
      · rw [if_neg hc, if_neg hc, Nat.add_right_cancel_iff, Nat.add_right_cancel_iff, ih]
        cases cs with
        | nil => simp [hc]
        | cons d ds => rw [List.getLast?_cons_cons]

/-! ## Dollar quotes -/

theorem dollarExtent_le {seen : Bool} {cs : Text} {n : Nat}
    (h : dollarExtent seen cs = some n) : 0 < n ∧ n ≤ cs.length := by
  induction cs generalizing seen n with
  | nil => cases h
  | cons c cs ih =>
      rw [dollarExtent] at h
      split at h
      · obtain rfl := Option.some.inj h
        simp
      · obtain ⟨m, hm, rfl⟩ := Option.map_eq_some_iff.mp h
        have := ih hm
        simp only [List.length_cons]
        omega

theorem dollarExtent_append_iff (seen : Bool) (cs rest : Text) :
    dollarExtent seen (cs ++ rest) = some cs.length ↔
      dollarExtent seen cs = some cs.length := by
  induction cs generalizing seen with
  | nil =>
      refine ⟨fun h => ?_, fun h => by cases h⟩
      have := (dollarExtent_le h).1
      simp at this
  | cons c cs ih =>
      rw [List.cons_append, dollarExtent, dollarExtent, List.length_cons]
      split
      · simp
      · rw [map_add_eq_some, map_add_eq_some]
        exact ih _

theorem taggedExtent_le {tag : Text} {left : Option Text} {cs : Text} {n : Nat}
    (h : taggedExtent tag left cs = some n) : 0 < n ∧ n ≤ cs.length := by
  fun_induction taggedExtent tag left cs generalizing n with
  | case1 => cases h
  | case2 c cs ih =>
      obtain ⟨m, hm, rfl⟩ := Option.map_eq_some_iff.mp h
      have := ih hm
      simp only [List.length_cons]
      omega
  | case3 =>
      obtain rfl := Option.some.inj h
      simp
  | case4 c cs _ ih =>
      obtain ⟨m, hm, rfl⟩ := Option.map_eq_some_iff.mp h
      have := ih hm
      simp only [List.length_cons]
      omega
  | case5 t ts c cs ih =>
      obtain ⟨m, hm, rfl⟩ := Option.map_eq_some_iff.mp h
      have := ih hm
      simp only [List.length_cons]
      omega

theorem taggedExtent_append_iff (tag : Text) (left : Option Text) (cs rest : Text) :
    taggedExtent tag left (cs ++ rest) = some cs.length ↔
      taggedExtent tag left cs = some cs.length := by
  fun_induction taggedExtent tag left cs with
  | case1 =>
      refine ⟨fun h => ?_, fun h => by cases h⟩
      have := (taggedExtent_le h).1
      simp at this
  | case2 c cs ih =>
      rw [List.cons_append, taggedExtent, List.length_cons, map_add_eq_some, map_add_eq_some]
      exact ih
  | case3 cs =>
      rw [List.cons_append, taggedExtent, if_pos rfl]
  | case4 c cs hc ih =>
      rw [List.cons_append, taggedExtent, if_neg hc, List.length_cons, map_add_eq_some,
        map_add_eq_some]
      exact ih
  | case5 t ts c cs ih =>
      rw [List.cons_append, taggedExtent, List.length_cons, map_add_eq_some, map_add_eq_some]
      exact ih

/-! ## Encoded strings -/

/-- The characters of a class among the first `k` do not depend on what
stands behind `cs`, unless all of `cs` is of the class. -/
theorem takeWhile_take_append (p : Char → Bool) (k : Nat) (cs rest : Text)
    (h : ((cs.take k).takeWhile p).length < cs.length ∨
      (((cs ++ rest).take k).takeWhile p).length < cs.length) :
    ((cs ++ rest).take k).takeWhile p = (cs.take k).takeWhile p := by
  by_cases hk : k ≤ cs.length
  · rw [List.take_append_of_le_length hk]
  · have htake : cs.take k = cs := List.take_of_length_le (by omega)
    have hlong : (cs ++ rest).take k = cs ++ rest.take (k - cs.length) := by
      rw [List.take_append, htake]
    rw [hlong, htake, List.takeWhile_append] at h ⊢
    split
    · rename_i hall
      rw [if_pos hall, List.length_append] at h
      omega
    · rfl

/-- An escape of `k` digits that name a scalar value. -/
theorem scalarEscape_append_iff {cs : Text} {n : Nat} (k : Nat) (rest : Text)
    (hn : n ≤ cs.length) :
    (if k ≤ (cs ++ rest).length ∧ scalarOk ((cs ++ rest).take k) then some (k + 1) else none)
        = some n ↔
      (if k ≤ cs.length ∧ scalarOk (cs.take k) then some (k + 1) else none) = some n := by
  by_cases hk : n = k + 1
  · have hlen : k ≤ cs.length ∧ k ≤ (cs ++ rest).length := by
      rw [List.length_append]
      omega
    rw [List.take_append_of_le_length hlen.1]
    simp only [hlen.1, hlen.2]
  · have hne : some (k + 1) ≠ some n := fun h => hk (Option.some.inj h).symm
    constructor <;> intro h <;> split at h <;> first | exact absurd h hne | cases h

theorem byteOk_eq_some {value : Option Nat} {extent n : Nat}
    (h : escapeExtent.byteOk value extent = some n) : n = extent := by
  unfold escapeExtent.byteOk at h
  split at h
  · split at h
    · exact (Option.some.inj h).symm
    · cases h
  · cases h

/-- An escape that ends before the last character of `cs` is the same
whatever stands behind. -/
theorem escapeExtent_append_iff {cs : Text} {n : Nat} (rest : Text) (hn : n < cs.length) :
    escapeExtent (cs ++ rest) = some n ↔ escapeExtent cs = some n := by
  cases cs with
  | nil => simp at hn
  | cons c cs =>
      rw [List.length_cons] at hn
      rw [List.cons_append]
      simp only [escapeExtent]
      by_cases hu : c = 'u'
      · rw [if_pos hu, if_pos hu]
        exact scalarEscape_append_iff 4 rest (by omega)
      rw [if_neg hu, if_neg hu]
      by_cases hU : c = 'U'
      · rw [if_pos hU, if_pos hU]
        exact scalarEscape_append_iff 8 rest (by omega)
      rw [if_neg hU, if_neg hU]
      by_cases hx : c = 'x'
      · rw [if_pos hx, if_pos hx]
        have hextent : ∀ digits : Text,
            (if digits = [] then some 1
              else escapeExtent.byteOk (numeral? 16 digits) (1 + digits.length)) = some n →
            n = 1 + digits.length := by
          intro digits h
          split at h
          · rename_i hnil
            rw [hnil]
            exact (Option.some.inj h).symm
          · exact byteOk_eq_some h
        constructor <;> intro h
        · have := hextent _ h
          rwa [takeWhile_take_append _ _ _ _ (Or.inr (by omega))] at h
        · have := hextent _ h
          rwa [takeWhile_take_append _ _ _ _ (Or.inl (by omega))]
      rw [if_neg hx, if_neg hx]
      by_cases ho : (digit? 8 c).isSome
      · rw [if_pos ho, if_pos ho]
        constructor <;> intro h
        · have := byteOk_eq_some h
          rw [List.length_cons] at this
          rwa [takeWhile_take_append _ _ _ _ (Or.inr (by omega))] at h
        · have := byteOk_eq_some h
          rw [List.length_cons] at this
          rwa [takeWhile_take_append _ _ _ _ (Or.inl (by omega))]
      rw [if_neg ho, if_neg ho]

theorem encodedExtent_le {skip : Nat} {cs : Text} {n : Nat}
    (h : encodedExtent skip cs = some n) : skip < n ∧ n ≤ cs.length := by
  fun_induction encodedExtent skip cs generalizing n with
  | case1 => cases h
  | case2 skip c cs ih =>
      obtain ⟨m, hm, rfl⟩ := Option.map_eq_some_iff.mp h
      have := ih hm
      simp only [List.length_cons]
      omega
  | case3 cs _ ih =>
      obtain ⟨m, hm, rfl⟩ := Option.map_eq_some_iff.mp h
      have := ih hm
      simp only [List.length_cons]
      omega
  | case4 =>
      obtain rfl := Option.some.inj h
      simp
  | case5 cs m _ _ ih =>
      obtain ⟨m, hm, rfl⟩ := Option.map_eq_some_iff.mp h
      have := ih hm
      simp only [List.length_cons]
      omega
  | case6 => cases h
  | case7 c cs _ _ ih =>
      obtain ⟨m, hm, rfl⟩ := Option.map_eq_some_iff.mp h
      have := ih hm
      simp only [List.length_cons]
      omega

theorem encodedExtent_append_iff (skip : Nat) (cs rest : Text) :
    encodedExtent skip (cs ++ rest) = some cs.length ↔
      encodedExtent skip cs = some cs.length ∧ rest.head? ≠ some '\'' := by
  induction cs generalizing skip with
  | nil =>
      refine ⟨fun h => ?_, fun h => by simp [encodedExtent] at h⟩
      have := (encodedExtent_le h).1
      simp at this
  | cons c cs ih =>
      rw [List.cons_append, List.length_cons]
      cases skip with
      | succ skip =>
          rw [encodedExtent, encodedExtent, map_add_eq_some, map_add_eq_some]
          exact ih skip
      | zero =>
          rw [encodedExtent, encodedExtent]
          by_cases hq : c = '\''
          · rw [if_pos hq, if_pos hq]
            cases cs with
            | nil =>
                by_cases hr : rest.head? = some '\''
                · simp only [List.nil_append, hr, if_true, ne_eq, not_true, and_false, iff_false]
                  intro h
                  have := (encodedExtent_le (map_add_eq_some.mp h)).1
                  simp at this
                · simp [hr]
            | cons d ds =>
                rw [List.cons_append, List.head?_cons, List.head?_cons]
                split
                · rw [map_add_eq_some, map_add_eq_some, ← List.cons_append]
                  exact ih 1
                · simp
          rw [if_neg hq, if_neg hq]
          by_cases hb : c = '\\'
          · rw [if_pos hb, if_pos hb]
            constructor
            · intro h
              split at h
              · rename_i m hm
                have hread := (ih m).mp (map_add_eq_some.mp h)
                have hm' := (escapeExtent_append_iff rest (encodedExtent_le hread.1).1).mp hm
                rw [hm']
                exact ⟨map_add_eq_some.mpr hread.1, hread.2⟩
              · cases h
            · rintro ⟨h, hr⟩
              split at h
              · rename_i m hm
                have hread := map_add_eq_some.mp h
                have hm' := (escapeExtent_append_iff rest (encodedExtent_le hread).1).mpr hm
                rw [hm']
                exact map_add_eq_some.mpr ((ih m).mpr ⟨hread, hr⟩)
              · cases h
          rw [if_neg hb, if_neg hb, map_add_eq_some, map_add_eq_some]
          exact ih 0

end Lexeme

end Tsql
