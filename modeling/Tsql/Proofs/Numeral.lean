import Tsql.Proofs.Extent

/-!
# How far a number reaches

A number is read in stages: digits, a dot and digits, an exponent, the
letter `L`. The exponent is the one place where a reader looks at more
than the next character: the letter `e` belongs to the number only if a
digit follows, perhaps behind a sign. So a number ends where three
characters behind it say so, and `numberStops` is what they must say.

The counts `digitsExtent`, `fractionExtent` and `numeralExtent` are those
of a number from its exponent's digits, from behind its dot, and from its
first digit on; each satisfies a recursion on the digits, and the law
about what is behind follows by induction from the inner ones.
-/

namespace Tsql

namespace Lexeme

def isExponentMark (c : Char) : Bool := c = 'e' || c = 'E'

def isSign (c : Char) : Bool := c = '+' || c = '-'

/-- Whether the characters behind a number leave it as it is: no digit
and no `L` follows, no exponent unless it has one, no dot unless it has
one or an exponent. Behind an `L` anything may follow. -/
def numberStops (text rest : Text) : Bool :=
  text.getLast? = some 'L' ||
    (!rest.head?.any Char.isDigit && rest.head? ≠ some 'L' &&
      (text.any isExponentMark ||
        (exponentExtent rest = 0 && (text.contains '.' || rest.head? ≠ some '.'))))

/-! ## The stages -/

/-- Digits and an `L` if there is one. -/
def digitsExtent (cs : Text) : Nat :=
  runExtent Char.isDigit cs +
    if (cs.drop (runExtent Char.isDigit cs)).head? = some 'L' then 1 else 0

/-- Digits, and what may follow them. -/
def fractionExtent (cs : Text) : Nat :=
  runExtent Char.isDigit cs + numberTail (cs.drop (runExtent Char.isDigit cs))

/-- Digits, a dot and digits if there is one, and what may follow. -/
def numeralExtent (cs : Text) : Nat :=
  let whole := runExtent Char.isDigit cs
  let part := whole +
    if (cs.drop whole).head? = some '.' then
      1 + runExtent Char.isDigit (cs.drop whole).tail
    else 0
  part + numberTail (cs.drop part)

theorem digitsExtent_cons_digit {c : Char} (hc : c.isDigit) (cs : Text) :
    digitsExtent (c :: cs) = digitsExtent cs + 1 := by
  unfold digitsExtent
  rw [runExtent_cons, if_pos hc, List.drop_succ_cons]
  omega

theorem digitsExtent_of_head {cs : Text} (h : cs.head?.any Char.isDigit = false) :
    digitsExtent cs = if cs.head? = some 'L' then 1 else 0 := by
  unfold digitsExtent
  rw [(runExtent_eq_zero_iff _ _).mpr h]
  simp

theorem fractionExtent_cons_digit {c : Char} (hc : c.isDigit) (cs : Text) :
    fractionExtent (c :: cs) = fractionExtent cs + 1 := by
  unfold fractionExtent
  rw [runExtent_cons, if_pos hc, List.drop_succ_cons]
  omega

theorem fractionExtent_of_head {cs : Text} (h : cs.head?.any Char.isDigit = false) :
    fractionExtent cs = numberTail cs := by
  unfold fractionExtent
  rw [(runExtent_eq_zero_iff _ _).mpr h]
  simp

theorem numeralExtent_cons_digit {c : Char} (hc : c.isDigit) (cs : Text) :
    numeralExtent (c :: cs) = numeralExtent cs + 1 := by
  unfold numeralExtent
  simp only [runExtent_cons, if_pos hc, List.drop_succ_cons, Nat.add_right_comm _ 1]

theorem numeralExtent_cons_dot (cs : Text) :
    numeralExtent ('.' :: cs) = fractionExtent cs + 1 := by
  have hd : ('.' : Char).isDigit = false := by decide
  unfold numeralExtent fractionExtent
  simp only [runExtent_cons, hd, Bool.false_eq_true, if_false, List.drop_zero, List.head?_cons,
    if_true, List.tail_cons, Nat.zero_add, Nat.add_comm 1, List.drop_succ_cons]
  omega

theorem numeralExtent_of_head {cs : Text} (h : cs.head?.any Char.isDigit = false)
    (hdot : cs.head? ≠ some '.') : numeralExtent cs = numberTail cs := by
  unfold numeralExtent
  simp [(runExtent_eq_zero_iff _ _).mpr h, hdot]

/-! ## The tail -/

theorem exponentExtent_of_head {cs : Text} (h : cs.head?.any isExponentMark = false) :
    exponentExtent cs = 0 := by
  cases cs with
  | nil => rfl
  | cons c cs =>
      simp only [List.head?_cons, Option.any_some, isExponentMark, Bool.or_eq_false_iff,
        decide_eq_false_iff_not] at h
      simp [exponentExtent, h.1, h.2]

/-- An exponent begins with its letter and a digit, perhaps behind a
sign: three characters tell. -/
theorem exponentExtent_eq_zero_iff (cs : Text) :
    exponentExtent cs = 0 ↔
      ¬ (cs.head?.any isExponentMark ∧ (cs.tail.head?.any Char.isDigit ∨
        (cs.tail.head?.any isSign ∧ cs.tail.tail.head?.any Char.isDigit))) := by
  cases cs with
  | nil => simp [exponentExtent]
  | cons e ds =>
      by_cases he : e = 'e' ∨ e = 'E'
      · have hmark : isExponentMark e := by simpa [isExponentMark] using he
        -- the digits stand behind the sign, if there is one
        by_cases hs : ds.head? = some '+' ∨ ds.head? = some '-'
        · have hsign : ds.head?.any isSign ∧ ds.head?.any Char.isDigit = false := by
            rcases hs with h | h <;> rw [h] <;> decide
          simp only [exponentExtent, if_pos he, if_pos hs, Nat.add_one_sub_one, List.drop_one]
          split
          · rename_i hzero
            rw [runExtent_eq_zero_iff] at hzero
            simpa [hmark, hsign] using hzero
          · rename_i n hn
            have hdigit : ds.tail.head?.any Char.isDigit ≠ false := by
              rw [ne_eq, ← runExtent_eq_zero_iff, hn]
              exact Nat.succ_ne_zero n
            simpa [hmark, hsign] using hdigit
        · have hsign : ds.head?.any isSign = false := by
            cases ds with
            | nil => rfl
            | cons d ds => simpa [isSign] using hs
          simp only [exponentExtent, if_pos he, if_neg hs, Nat.sub_self, List.drop_zero]
          split
          · rename_i hzero
            rw [runExtent_eq_zero_iff] at hzero
            simp [hmark, hsign, hzero]
          · rename_i n hn
            have hdigit : ds.head?.any Char.isDigit ≠ false := by
              rw [ne_eq, ← runExtent_eq_zero_iff, hn]
              exact Nat.succ_ne_zero n
            simp [hmark, hdigit]
      · have hmark : isExponentMark e = false := by simpa [isExponentMark] using he
        simp [exponentExtent, he, hmark]

theorem numberTail_of_head {cs : Text} (h : cs.head?.any isExponentMark = false) :
    numberTail cs = if cs.head? = some 'L' then 1 else 0 := by
  unfold numberTail
  rw [exponentExtent_of_head h]
  simp

theorem numberTail_eq_zero_iff (cs : Text) :
    numberTail cs = 0 ↔ exponentExtent cs = 0 ∧ cs.head? ≠ some 'L' := by
  unfold numberTail
  constructor
  · intro h
    have he : exponentExtent cs = 0 := Nat.eq_zero_of_add_eq_zero_right h
    simp only [he, List.drop_zero] at h
    refine ⟨he, fun hL => ?_⟩
    rw [if_pos hL] at h
    cases h
  · rintro ⟨he, hL⟩
    simp [he, hL]

theorem numberTail_mark_sign {c s : Char} (hc : isExponentMark c) (hs : isSign s) (cs : Text) :
    numberTail (c :: s :: cs) =
      if cs.head?.any Char.isDigit then digitsExtent cs + 2 else 0 := by
  have hmark : c = 'e' ∨ c = 'E' := by simpa [isExponentMark] using hc
  have hsign : s = '+' ∨ s = '-' := by simpa [isSign] using hs
  have hL : c ≠ 'L' := by rcases hmark with rfl | rfl <;> decide
  unfold numberTail
  simp only [exponentExtent, hmark, if_true, List.head?_cons, Option.some.injEq, hsign,
    Nat.reduceSub, List.drop_one, List.tail_cons]
  cases hd : cs.head?.any Char.isDigit with
  | false =>
      rw [(runExtent_eq_zero_iff _ _).mpr hd]
      simp [hL]
  | true =>
      obtain ⟨n, hn⟩ := exists_runExtent_eq_succ hd
      unfold digitsExtent
      simp only [hn, Nat.add_comm 2, List.drop_succ_cons, if_true]
      omega

theorem numberTail_mark {c : Char} (hc : isExponentMark c) {cs : Text}
    (hs : cs.head?.any isSign = false) :
    numberTail (c :: cs) =
      if cs.head?.any Char.isDigit then digitsExtent cs + 1 else 0 := by
  have hmark : c = 'e' ∨ c = 'E' := by simpa [isExponentMark] using hc
  have hsign : ¬ (cs.head? = some '+' ∨ cs.head? = some '-') := by
    rintro (h | h) <;> · rw [h] at hs; cases hs
  have hL : c ≠ 'L' := by rcases hmark with rfl | rfl <;> decide
  unfold numberTail
  simp only [exponentExtent, hmark, if_true, hsign, if_false, Nat.sub_self, List.drop_zero]
  cases hd : cs.head?.any Char.isDigit with
  | false =>
      rw [(runExtent_eq_zero_iff _ _).mpr hd]
      simp [hL]
  | true =>
      obtain ⟨n, hn⟩ := exists_runExtent_eq_succ hd
      unfold digitsExtent
      simp only [hn, Nat.add_comm 1, List.drop_succ_cons, if_true]
      omega

/-! ## What is behind a number -/

theorem digit_ne_of_isDigit {c d : Char} (hc : c.isDigit) (hd : d.isDigit = false) : c ≠ d := by
  rintro rfl
  rw [hc] at hd
  cases hd

theorem not_isExponentMark_of_isDigit {c : Char} (hc : c.isDigit) : isExponentMark c = false := by
  simp [isExponentMark, digit_ne_of_isDigit hc (d := 'e') (by decide),
    digit_ne_of_isDigit hc (d := 'E') (by decide)]

/-- The last character of a text, a digit before it apart. -/
theorem getLast?_cons_digit {c : Char} (hc : c.isDigit) (cs : Text) :
    (c :: cs).getLast? = some 'L' ↔ cs.getLast? = some 'L' := by
  cases cs with
  | nil => simpa using digit_ne_of_isDigit hc (by decide)
  | cons d ds => rw [List.getLast?_cons_cons]

theorem digitsExtent_append_iff (cs rest : Text) :
    digitsExtent (cs ++ rest) = cs.length ↔
      digitsExtent cs = cs.length ∧ (cs.getLast? = some 'L' ∨
        (rest.head?.any Char.isDigit = false ∧ rest.head? ≠ some 'L')) := by
  induction cs with
  | nil =>
      cases hd : rest.head?.any Char.isDigit with
      | true =>
          obtain ⟨n, hn⟩ := exists_runExtent_eq_succ hd
          simp [digitsExtent, hn]
      | false =>
          rw [List.nil_append, digitsExtent_of_head hd]
          by_cases hL : rest.head? = some 'L' <;> simp [hL, digitsExtent, runExtent_nil]
  | cons c cs ih =>
      rw [List.cons_append, List.length_cons]
      by_cases hc : c.isDigit
      · rw [digitsExtent_cons_digit hc, digitsExtent_cons_digit hc, getLast?_cons_digit hc,
          Nat.add_right_cancel_iff, Nat.add_right_cancel_iff]
        exact ih
      · have hhead : ∀ ds : Text, (c :: ds).head?.any Char.isDigit = false := by
          intro ds
          simpa using hc
        rw [digitsExtent_of_head (hhead _), digitsExtent_of_head (hhead _), List.head?_cons,
          List.head?_cons]
        by_cases hL : c = 'L'
        · subst hL
          cases cs with
          | nil => simp
          | cons d ds => simp
        · simp [hL]

/-- The letter alone is no exponent, and any exponent is longer. -/
theorem numberTail_mark_ne_one {c : Char} (hc : isExponentMark c) (cs : Text) :
    numberTail (c :: cs) ≠ 1 := by
  cases hs : cs.head?.any isSign with
  | false =>
      rw [numberTail_mark hc hs]
      split
      · rename_i hd
        obtain ⟨n, hn⟩ := exists_runExtent_eq_succ hd
        unfold digitsExtent
        omega
      · simp
  | true =>
      cases cs with
      | nil => cases hs
      | cons s cs =>
          rw [numberTail_mark_sign hc (by simpa using hs)]
          split <;> omega

theorem numberTail_sign_append_iff {c s : Char} (hc : isExponentMark c) (hs : isSign s)
    (cs rest : Text) :
    numberTail (c :: s :: (cs ++ rest)) = cs.length + 2 ↔
      numberTail (c :: s :: cs) = cs.length + 2 ∧ ((s :: cs).getLast? = some 'L' ∨
        (rest.head?.any Char.isDigit = false ∧ rest.head? ≠ some 'L')) := by
  rw [numberTail_mark_sign hc hs, numberTail_mark_sign hc hs]
  cases cs with
  | nil =>
      -- a sign that no digit follows yet does not end an exponent
      refine ⟨fun h => ?_, fun h => by simp at h⟩
      split at h
      · rename_i hd
        obtain ⟨n, hn⟩ := exists_runExtent_eq_succ hd
        unfold digitsExtent at h
        rw [List.nil_append] at h hn
        simp only [List.length_nil] at h
        omega
      · simp at h
  | cons d ds =>
      rw [List.cons_append, List.head?_cons, List.head?_cons, List.getLast?_cons_cons,
        ← List.cons_append]
      split
      · rw [Nat.add_right_cancel_iff, Nat.add_right_cancel_iff]
        exact digitsExtent_append_iff (d :: ds) rest
      · simp

theorem numberTail_append_iff (c : Char) (cs rest : Text) :
    numberTail (c :: cs ++ rest) = (c :: cs).length ↔
      numberTail (c :: cs) = (c :: cs).length ∧ ((c :: cs).getLast? = some 'L' ∨
        (rest.head?.any Char.isDigit = false ∧ rest.head? ≠ some 'L')) := by
  rw [List.cons_append, List.length_cons]
  by_cases hc : isExponentMark c
  · cases cs with
    | nil =>
        have hne := numberTail_mark_ne_one hc
        exact ⟨fun h => absurd h (hne _), fun h => absurd h.1 (hne _)⟩
    | cons s cs =>
        rw [List.cons_append, List.length_cons, List.getLast?_cons_cons]
        by_cases hs : isSign s
        · exact numberTail_sign_append_iff hc hs cs rest
        · have hhead : ∀ ds : Text, (s :: ds).head?.any isSign = false := by
            intro ds
            simpa using hs
          rw [numberTail_mark hc (hhead _), numberTail_mark hc (hhead _), List.head?_cons,
            List.head?_cons, ← List.cons_append, ← List.length_cons]
          split
          · rw [Nat.add_right_cancel_iff, Nat.add_right_cancel_iff]
            exact digitsExtent_append_iff (s :: cs) rest
          · simp
  · have hhead : ∀ ds : Text, (c :: ds).head?.any isExponentMark = false := by
      intro ds
      simpa using hc
    rw [numberTail_of_head (hhead _), numberTail_of_head (hhead _), List.head?_cons,
      List.head?_cons]
    by_cases hL : c = 'L'
    · subst hL
      cases cs with
      | nil => simp
      | cons d ds => simp
    · simp [hL]

/-- What follows the digits is an exponent, unless it is only an `L`. -/
theorem mark_of_numberTail {c : Char} {cs : Text}
    (h : numberTail (c :: cs) = (c :: cs).length) :
    (c :: cs).getLast? = some 'L' ∨ isExponentMark c = true := by
  cases hc : isExponentMark c with
  | true => exact Or.inr rfl
  | false =>
      rw [numberTail_of_head (by simpa using hc)] at h
      split at h
      · rename_i hL
        have hnil : cs = [] := by simpa using h.symm
        subst hnil
        exact Or.inl hL
      · simp at h

theorem fractionExtent_append_iff (cs rest : Text) :
    fractionExtent (cs ++ rest) = cs.length ↔
      fractionExtent cs = cs.length ∧ (cs.getLast? = some 'L' ∨
        (rest.head?.any Char.isDigit = false ∧ rest.head? ≠ some 'L' ∧
          (cs.any isExponentMark = true ∨ exponentExtent rest = 0))) := by
  induction cs with
  | nil =>
      cases hd : rest.head?.any Char.isDigit with
      | true =>
          obtain ⟨n, hn⟩ := exists_runExtent_eq_succ hd
          simp [fractionExtent, hn]
      | false =>
          rw [List.nil_append, fractionExtent_of_head hd, List.length_nil, numberTail_eq_zero_iff]
          simp [fractionExtent, runExtent_nil, numberTail, exponentExtent, and_comm]
  | cons c cs ih =>
      by_cases hc : c.isDigit
      · rw [List.cons_append, List.length_cons, fractionExtent_cons_digit hc,
          fractionExtent_cons_digit hc, getLast?_cons_digit hc, Nat.add_right_cancel_iff,
          Nat.add_right_cancel_iff, List.any_cons, not_isExponentMark_of_isDigit hc,
          Bool.false_or]
        exact ih
      · have hhead : ∀ ds : Text, (c :: ds).head?.any Char.isDigit = false := by
          intro ds
          simpa using hc
        rw [fractionExtent_of_head (by simpa using hc), fractionExtent_of_head (hhead _),
          numberTail_append_iff]
        refine and_congr_right fun htail => ?_
        rcases mark_of_numberTail htail with hL | hmark
        · simp [hL]
        · simp [hmark]

theorem numberStops_cons_digit {c : Char} (hc : c.isDigit) (cs rest : Text) :
    numberStops (c :: cs) rest = numberStops cs rest := by
  have hdot : ('.' == c) = false := by
    simpa using (digit_ne_of_isDigit hc (d := '.') (by decide)).symm
  unfold numberStops
  simp only [getLast?_cons_digit hc, List.any_cons, not_isExponentMark_of_isDigit hc,
    Bool.false_or, List.contains_cons, hdot]

theorem numberStops_cons_dot {cs : Text} (hcs : cs ≠ []) (rest : Text) :
    numberStops ('.' :: cs) rest = true ↔ (cs.getLast? = some 'L' ∨
      (rest.head?.any Char.isDigit = false ∧ rest.head? ≠ some 'L' ∧
        (cs.any isExponentMark = true ∨ exponentExtent rest = 0))) := by
  cases cs with
  | nil => exact absurd rfl hcs
  | cons d ds =>
      rw [numberStops, List.getLast?_cons_cons]
      simp [isExponentMark, and_assoc]

/-- A number ends where the characters behind it let it end. -/
theorem numeralExtent_append_iff (cs rest : Text) :
    numeralExtent (cs ++ rest) = cs.length ↔
      numeralExtent cs = cs.length ∧ numberStops cs rest = true := by
  induction cs with
  | nil =>
      cases hd : rest.head?.any Char.isDigit with
      | true =>
          obtain ⟨n, hn⟩ := exists_runExtent_eq_succ hd
          have hpos : numeralExtent rest ≠ 0 := by
            unfold numeralExtent
            simp only [hn]
            omega
          simp [hpos, numberStops, hd]
      | false =>
          by_cases hdot : rest.head? = some '.'
          · obtain ⟨ds, rfl⟩ : ∃ ds, rest = '.' :: ds := by
              cases rest with
              | nil => cases hdot
              | cons d ds => exact ⟨ds, by rw [Option.some.inj hdot]⟩
            rw [List.nil_append, numeralExtent_cons_dot]
            simp [numberStops]
          · rw [List.nil_append, numeralExtent_of_head hd hdot, List.length_nil,
              numberTail_eq_zero_iff]
            simp [numberStops, hd, hdot, numeralExtent, runExtent_nil, numberTail,
              exponentExtent, and_comm]
  | cons c cs ih =>
      by_cases hc : c.isDigit
      · rw [List.cons_append, List.length_cons, numeralExtent_cons_digit hc,
          numeralExtent_cons_digit hc, Nat.add_right_cancel_iff, Nat.add_right_cancel_iff,
          numberStops_cons_digit hc]
        exact ih
      · have hhead : ∀ ds : Text, (c :: ds).head?.any Char.isDigit = false := by
          intro ds
          simpa using hc
        by_cases hdot : c = '.'
        · subst hdot
          rw [List.cons_append, numeralExtent_cons_dot, numeralExtent_cons_dot, List.length_cons,
            Nat.add_right_cancel_iff, Nat.add_right_cancel_iff, fractionExtent_append_iff]
          refine and_congr_right fun _ => ?_
          cases cs with
          | nil => simp [numberStops, isExponentMark, and_assoc]
          | cons d ds => exact (numberStops_cons_dot (by simp) rest).symm
        · rw [numeralExtent_of_head (by simpa using hc) (by simpa using hdot),
            numeralExtent_of_head (hhead _) (by simpa using hdot), numberTail_append_iff]
          refine and_congr_right fun htail => ?_
          rcases mark_of_numberTail htail with hL | hmark
          · simp [numberStops, hL]
          · simp [numberStops, hmark]

/-! ## Bounds -/

theorem exponentExtent_le (cs : Text) : exponentExtent cs ≤ cs.length := by
  cases cs with
  | nil => exact Nat.le_refl _
  | cons c cs =>
      simp only [exponentExtent]
      split
      · split
        · exact Nat.zero_le _
        · rename_i n hn
          have hrun := runExtent_le Char.isDigit
            (cs.drop ((if cs.head? = some '+' ∨ cs.head? = some '-' then 2 else 1) - 1))
          rw [hn, List.length_drop] at hrun
          rw [List.length_cons]
          split at hrun <;> simp_all <;> omega
      · exact Nat.zero_le _

theorem numberTail_le (cs : Text) : numberTail cs ≤ cs.length := by
  have he := exponentExtent_le cs
  unfold numberTail
  dsimp only
  split
  · rename_i hL
    have hne : cs.drop (exponentExtent cs) ≠ [] := by
      intro hnil
      rw [hnil] at hL
      cases hL
    have := List.length_pos_iff.mpr hne
    rw [List.length_drop] at this
    omega
  · omega

theorem fractionExtent_le (cs : Text) : fractionExtent cs ≤ cs.length := by
  have hrun := runExtent_le Char.isDigit cs
  have htail := numberTail_le (cs.drop (runExtent Char.isDigit cs))
  rw [List.length_drop] at htail
  unfold fractionExtent
  omega

theorem numeralExtent_le (cs : Text) : numeralExtent cs ≤ cs.length := by
  induction cs with
  | nil => simp [numeralExtent, runExtent_nil, numberTail, exponentExtent]
  | cons c cs ih =>
      by_cases hc : c.isDigit
      · rw [numeralExtent_cons_digit hc, List.length_cons]
        omega
      · by_cases hdot : c = '.'
        · subst hdot
          have := fractionExtent_le cs
          rw [numeralExtent_cons_dot, List.length_cons]
          omega
        · rw [numeralExtent_of_head (by simpa using hc) (by simpa using hdot)]
          exact numberTail_le _

end Lexeme

end Tsql
