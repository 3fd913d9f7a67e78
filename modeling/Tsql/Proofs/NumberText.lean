import Mathlib.Data.List.TakeWhile
import Tsql.Document.Atom
import Tsql.Proofs.ShortestDigits

/-!
# The text of a number is a numeral

Numbers are written in one of four layouts: an integer by its digits, and
a binary number with its point before, behind or among its digits or with
an exponent. Each of them is a numeral as a JSON text may hold it, of few
digits, and its digits say zero just if the number is zero
(`exists_numeral`). The value a numeral stands for is an exact decimal
(`Numeral.value`); nothing is rounded here.
-/

namespace Tsql

/-! ## Digits -/

/-- Digits, at least one. -/
structure IsDigits (t : Text) : Prop where
  nonempty : t ≠ []
  all : ∀ c ∈ t, c.isDigit = true

theorem digitsValue_eq (t : Text) : digitsValue t = Nat.ofDigitChars 10 t 0 := rfl

theorem digitsValue_append (a b : Text) :
    digitsValue (a ++ b) = digitsValue a * 10 ^ b.length + digitsValue b := by
  rw [digitsValue_eq, Nat.ofDigitChars_append, Nat.ofDigitChars_eq_ofDigitChars_zero,
    Nat.mul_comm, digitsValue_eq, digitsValue_eq]

theorem digitsValue_toDigits (n : Nat) : digitsValue (Nat.toDigits 10 n) = n :=
  Nat.ofDigitChars_ten_toDigits

theorem digitsValue_zeros (k : Nat) : digitsValue (List.replicate k '0') = 0 := by
  rw [digitsValue_eq, Nat.ofDigitChars_replicate_zero, Nat.mul_zero]

theorem digitsValue_lt {t : Text} (h : ∀ c ∈ t, c.isDigit = true) :
    digitsValue t < 10 ^ t.length := by
  induction t with
  | nil => exact Nat.one_pos
  | cons c cs ih =>
      have hmore := ih fun d hd => h d (List.mem_cons_of_mem c hd)
      have hdigit := (Char.isDigit_iff_toNat.mp (h c List.mem_cons_self)).2
      have hfirst : digitsValue [c] ≤ 9 := by
        simp only [digitsValue, List.foldl_cons, List.foldl_nil, Nat.mul_zero, Nat.zero_add]
        exact Nat.sub_le_of_le_add hdigit
      rw [← List.singleton_append, digitsValue_append, List.singleton_append, List.length_cons,
        Nat.pow_succ]
      have : digitsValue [c] * 10 ^ cs.length ≤ 9 * 10 ^ cs.length :=
        Nat.mul_le_mul_right _ hfirst
      omega

theorem isDigits_toDigits (n : Nat) : IsDigits (Nat.toDigits 10 n) :=
  ⟨Nat.toDigits_ne_nil, fun _ hc => Nat.isDigit_of_mem_toDigits (by decide) (by decide) hc⟩

theorem isDigits_append_left {a b : Text} (ha : IsDigits a) (hb : ∀ c ∈ b, c.isDigit = true) :
    IsDigits (a ++ b) := by
  refine ⟨List.append_ne_nil_of_left_ne_nil ha.nonempty b, fun c hc => ?_⟩
  rcases List.mem_append.mp hc with hc | hc
  · exact ha.all c hc
  · exact hb c hc

theorem isDigit_of_mem_zeros {k : Nat} : ∀ c ∈ List.replicate k '0', c.isDigit = true := by
  intro c hc
  rw [List.eq_of_mem_replicate hc]
  rfl

/-- The leading digit of a number other than zero. -/
theorem head?_toDigits {n : Nat} (hn : n ≠ 0) : (Nat.toDigits 10 n).head? ≠ some '0' := by
  induction n using Nat.strongRecOn with
  | ind n ih =>
      rcases Nat.lt_or_ge n 10 with hlt | hge
      · rw [Nat.toDigits_of_lt_base hlt]
        intro hzero
        have hvalue := Nat.toNat_digitChar_sub_48_of_lt_ten hlt
        rw [Option.some.inj hzero] at hvalue
        exact hn hvalue.symm
      · rw [Nat.toDigits_of_base_le (by decide) hge,
          List.head?_append_of_ne_nil _ Nat.toDigits_ne_nil]
        exact ih (n / 10) (Nat.div_lt_self (Nat.pos_of_ne_zero hn) (by decide))
          (Nat.div_pos hge (by decide)).ne'

/-- Digits that do not begin with a zero. -/
structure IsSignificant (t : Text) : Prop extends IsDigits t where
  leads : t.head? ≠ some '0'

theorem isSignificant_toDigits {n : Nat} (hn : n ≠ 0) : IsSignificant (Nat.toDigits 10 n) :=
  ⟨isDigits_toDigits n, head?_toDigits hn⟩

theorem IsSignificant.value_ne_zero {t : Text} (h : IsSignificant t) : digitsValue t ≠ 0 := by
  obtain ⟨⟨hne, hall⟩, hleads⟩ := h
  cases t with
  | nil => exact absurd rfl hne
  | cons c cs =>
      have hc : c ≠ '0' := fun heq => hleads (congrArg some heq)
      have hdigit := Char.isDigit_iff_toNat.mp (hall c List.mem_cons_self)
      have hpos : '0'.toNat < c.toNat :=
        Nat.lt_of_le_of_ne hdigit.1 fun heq => hc (Char.toNat_inj.mp heq.symm)
      have hfirst : digitsValue [c] = c.toNat - '0'.toNat := by simp [digitsValue]
      rw [← List.singleton_append, digitsValue_append, hfirst]
      have : 0 < (c.toNat - '0'.toNat) * 10 ^ cs.length :=
        Nat.mul_pos (Nat.sub_pos_of_lt hpos) (Nat.pow_pos (by decide))
      omega

/-- Zeros around digits do not make them zero. -/
theorem IsSignificant.padded_ne_zero {t : Text} (h : IsSignificant t) (front back : Nat) :
    digitsValue (List.replicate front '0' ++ t ++ List.replicate back '0') ≠ 0 := by
  rw [digitsValue_append, digitsValue_append, digitsValue_zeros, digitsValue_zeros, Nat.zero_mul,
    Nat.zero_add, Nat.add_zero]
  exact Nat.mul_ne_zero h.value_ne_zero (pow_ne_zero _ (by decide))

/-- Digits without the zeros at their end. -/
theorem layoutDigits_spec {digits : Nat} (hdigits : digits ≠ 0) (power : Int) :
    ∃ t point, Decimal.layoutDigits digits power = (t, point) ∧ IsSignificant t ∧
      t.length ≤ Decimal.digitCount digits := by
  refine ⟨_, _, rfl, ?_⟩
  have hsplit := List.takeWhile_append_dropWhile (p := (· = '0'))
    (l := (Nat.toDigits 10 digits).reverse)
  generalize hzeros : (Nat.toDigits 10 digits).reverse.takeWhile (· = '0') = zeros at hsplit
  generalize (Nat.toDigits 10 digits).reverse.dropWhile (· = '0') = kept at hsplit
  have hall : Nat.toDigits 10 digits = kept.reverse ++ zeros.reverse := by
    rw [← List.reverse_append, hsplit, List.reverse_reverse]
  obtain ⟨⟨hne, hdigits'⟩, hleads⟩ := isSignificant_toDigits hdigits
  rw [hall] at hdigits' hleads
  have hkept : kept.reverse ≠ [] := by
    intro hnil
    rw [hnil, List.nil_append] at hall hleads
    cases hfirst : zeros.reverse with
    | nil => exact hne (hall.trans hfirst)
    | cons c cs =>
        have hmem : c ∈ zeros := List.mem_reverse.mp (hfirst ▸ List.mem_cons_self)
        rw [← hzeros] at hmem
        have hc := List.mem_takeWhile_imp hmem
        rw [hfirst] at hleads
        exact hleads (congrArg some (of_decide_eq_true hc))
  refine ⟨⟨⟨hkept, fun c hc => hdigits' c (List.mem_append_left _ hc)⟩, ?_⟩, ?_⟩
  · rwa [List.head?_append_of_ne_nil _ hkept] at hleads
  · rw [Decimal.digitCount, hall, List.length_append]
    exact Nat.le_add_right _ _

/-! ## Numerals -/

namespace Numeral

/-- The digits of a numeral, without its point. -/
def digits (m : Numeral) : Text := m.whole ++ m.fraction.getD []

/-- The power of ten that the last of the digits counts. -/
def power (m : Numeral) : Int :=
  (match m.exponent with
    | none => 0
    | some (minus, ds) => if minus then -(digitsValue ds : Int) else digitsValue ds) -
  (m.fraction.getD []).length

/-- The exact decimal. -/
def value (m : Numeral) : ℚ :=
  (if m.negative then -1 else 1) * digitsValue m.digits * 10 ^ m.power

theorem value_eq_zero_iff (m : Numeral) : m.value = 0 ↔ digitsValue m.digits = 0 := by
  have hsign : (if m.negative then (-1 : ℚ) else 1) ≠ 0 := by
    split
    · exact neg_ne_zero.mpr one_ne_zero
    · exact one_ne_zero
  have hpower : (10 : ℚ) ^ m.power ≠ 0 := zpow_ne_zero _ (by norm_num)
  rw [value, mul_eq_zero_iff_right hpower, mul_eq_zero_iff_left hsign, Nat.cast_eq_zero]

/-- A point and the digits behind it. -/
def fractionText : Option Text → Text
  | none => []
  | some ds => '.' :: ds

/-- An exponent with its sign. -/
def exponentText : Option (Bool × Text) → Text
  | none => []
  | some (minus, ds) => 'e' :: (if minus then '-' else '+') :: ds

/-- A numeral as it is printed. -/
def text (m : Numeral) : Text :=
  (if m.negative then ['-'] else []) ++
    (m.whole ++ (fractionText m.fraction ++ exponentText m.exponent))

/-- What a JSON text takes for a numeral: digits in each part, and no zero
in front of others. -/
structure WellFormed (m : Numeral) : Prop where
  whole : IsDigits m.whole
  leads : m.whole = ['0'] ∨ m.whole.head? ≠ some '0'
  fraction : ∀ ds ∈ m.fraction, IsDigits ds
  exponent : ∀ e ∈ m.exponent, IsDigits e.2

end Numeral

namespace Document

theorem takeDigits_append {digits rest : Text} (h : IsDigits digits)
    (hrest : ∀ c ∈ rest.head?, c.isDigit = false) :
    takeDigits (digits ++ rest) = .ok (digits, rest) := by
  obtain ⟨hne, hall⟩ := h
  have htake : (digits ++ rest).takeWhile Char.isDigit = digits := by
    rw [List.takeWhile_append_of_pos hall]
    cases rest with
    | nil => exact List.append_nil digits
    | cons c cs => rw [List.takeWhile_cons_of_neg (by simp [hrest c rfl]), List.append_nil]
  have hdrop : (digits ++ rest).dropWhile Char.isDigit = rest := by
    rw [List.dropWhile_append_of_pos hall]
    cases rest with
    | nil => rfl
    | cons c cs => exact List.dropWhile_cons_of_neg (by simp [hrest c rfl])
  cases digits with
  | nil => exact absurd rfl hne
  | cons c cs =>
      rw [List.cons_append] at htake hdrop ⊢
      rw [takeDigits, if_pos (hall c List.mem_cons_self), htake, hdrop]

theorem takeWhole_append {digits rest : Text} (h : IsDigits digits)
    (hleads : digits = ['0'] ∨ digits.head? ≠ some '0')
    (hrest : ∀ c ∈ rest.head?, c.isDigit = false) :
    takeWhole (digits ++ rest) = .ok (digits, rest) := by
  rcases hleads with rfl | hleads
  · have hends : rest.head?.any Char.isDigit = false := by
      cases rest with
      | nil => rfl
      | cons c cs => exact hrest c rfl
    rw [List.singleton_append, takeWhole, hends]
    rfl
  · have hdigits := takeDigits_append h hrest
    unfold takeWhole
    split
    · rename_i cs heq
      cases digits with
      | nil => exact absurd rfl h.nonempty
      | cons c ds =>
          obtain ⟨rfl, -⟩ := List.cons.inj heq
          exact absurd rfl hleads
    · exact hdigits

theorem takeFraction_text {fraction : Option Text} {rest : Text}
    (h : ∀ ds ∈ fraction, IsDigits ds) (hdigit : ∀ c ∈ rest.head?, c.isDigit = false)
    (hpoint : rest.head? ≠ some '.') :
    takeFraction (Numeral.fractionText fraction ++ rest) = .ok (fraction, rest) := by
  cases fraction with
  | none =>
      rw [Numeral.fractionText, List.nil_append]
      unfold takeFraction
      split
      · exact absurd rfl hpoint
      · rfl
  | some ds =>
      rw [Numeral.fractionText, List.cons_append, takeFraction, takeDigits_append (h ds rfl) hdigit]

theorem takeExponent_text {exponent : Option (Bool × Text)} (h : ∀ e ∈ exponent, IsDigits e.2) :
    takeExponent (Numeral.exponentText exponent) = .ok (exponent, []) := by
  cases exponent with
  | none => rfl
  | some e =>
      obtain ⟨minus, ds⟩ := e
      have hdigits : takeDigits ds = .ok (ds, []) := by
        have := takeDigits_append (h _ rfl) (fun c (hc : c ∈ ([] : Text).head?) => nomatch hc)
        rwa [List.append_nil] at this
      have hsign : takeSign ((if minus then '-' else '+') :: ds) = (minus, ds) := by
        cases minus with
        | true => rfl
        | false => rfl
      rw [Numeral.exponentText, takeExponent, if_pos (Or.inl rfl), hsign]
      simp only [hdigits]

/-- What stands behind the whole part is no digit of it. -/
theorem head?_exponentText (exponent : Option (Bool × Text)) :
    ∀ c ∈ (Numeral.exponentText exponent).head?, c = 'e' := by
  intro c hc
  cases exponent with
  | none => cases hc
  | some e =>
      cases hc
      rfl

theorem takeUnsigned_text {m : Numeral} (h : m.WellFormed) :
    takeUnsigned m.negative
      (m.whole ++ (Numeral.fractionText m.fraction ++ Numeral.exponentText m.exponent)) =
      .ok (m, []) := by
  have hexponent := head?_exponentText m.exponent
  have hfraction : ∀ c ∈ (Numeral.fractionText m.fraction ++
      Numeral.exponentText m.exponent).head?, c.isDigit = false := by
    intro c hc
    cases hpoint : m.fraction with
    | none =>
        rw [hpoint] at hc
        rw [hexponent c hc]
        rfl
    | some ds =>
        rw [hpoint] at hc
        cases hc
        rfl
  rw [takeUnsigned, takeWhole_append h.whole h.leads hfraction]
  simp only [bind, Except.bind]
  rw [takeFraction_text h.fraction (fun c hc => by rw [hexponent c hc]; rfl)
    (fun hpoint => absurd (hexponent _ hpoint) (by decide))]
  simp only [takeExponent_text h.exponent]
  rfl

/-- A numeral is read as what it was printed from. -/
theorem takeNumeral_text {m : Numeral} (h : m.WellFormed) : takeNumeral m.text = .ok (m, []) := by
  have hunsigned := takeUnsigned_text h
  obtain ⟨c, cs, hwhole⟩ := List.exists_cons_of_ne_nil h.whole.nonempty
  have hminus : c ≠ '-' := by
    rintro rfl
    exact absurd (h.whole.all '-' (hwhole ▸ List.mem_cons_self)) (by decide)
  rw [Numeral.text]
  cases hnegative : m.negative with
  | true =>
      rw [hnegative] at hunsigned
      exact hunsigned
  | false =>
      rw [hnegative] at hunsigned
      show takeNumeral (m.whole ++ _) = _
      rw [hwhole] at hunsigned ⊢
      unfold takeNumeral
      split
      · rename_i heq
        obtain ⟨rfl, -⟩ := List.cons.inj heq
        exact absurd rfl hminus
      · exact hunsigned

end Document

/-! ## Layouts -/

/-- The digits of a numeral are digits. -/
theorem Numeral.WellFormed.isDigit {m : Numeral} (h : m.WellFormed) :
    ∀ c ∈ m.digits, c.isDigit = true := by
  intro c hc
  rcases List.mem_append.mp hc with hc | hc
  · exact h.whole.all c hc
  · cases hfraction : m.fraction with
    | none =>
        rw [hfraction] at hc
        cases hc
    | some ds =>
        rw [hfraction] at hc
        exact (h.fraction ds hfraction).all c hc

/-- A numeral that a number is printed as: of few digits, and without an
exponent if they say zero. -/
structure Numeral.Printed (m : Numeral) (isZero : Prop) : Prop where
  wellFormed : m.WellFormed
  short : m.digits.length ≤ 28
  zero_iff : digitsValue m.digits = 0 ↔ isZero
  plain : isZero → m.exponent = none

theorem Numeral.Printed.of_padded {m : Numeral} {t : Text} (hm : m.WellFormed)
    (ht : IsSignificant t) (front back : Nat)
    (hdigits : m.digits = List.replicate front '0' ++ t ++ List.replicate back '0')
    (hlength : front + t.length + back ≤ 28) : m.Printed False := by
  refine ⟨hm, ?_, iff_of_false ?_ id, False.elim⟩
  · rw [hdigits, List.length_append, List.length_append, List.length_replicate,
      List.length_replicate]
    exact hlength
  · rw [hdigits]
    exact ht.padded_ne_zero front back

section Layouts

variable {t : Text} {point : Int}

/-- The point stands before the digits. -/
theorem exists_layout_before (ht : IsSignificant t) (hlength : t.length ≤ 18)
    (hpositional : Decimal.isPositional (point - 1) = true) (hpoint : point ≤ 0) :
    ∃ m : Numeral, m.negative = false ∧ Decimal.layout t point = m.text ∧ m.Printed False := by
  have hrange : -5 ≤ point - 1 := by
    simp only [Decimal.isPositional, Bool.and_eq_true, decide_eq_true_eq] at hpositional
    exact hpositional.1
  refine ⟨⟨false, ['0'], some (List.replicate (-point).toNat '0' ++ t), none⟩, rfl, ?_, ?_⟩
  · unfold Decimal.layout
    rw [if_pos hpositional, if_pos hpoint]
    simp [Numeral.text, Numeral.fractionText, Numeral.exponentText]
  · refine .of_padded ⟨isDigits_toDigits 0, Or.inl rfl, ?_, nofun⟩ ht ((-point).toNat + 1) 0 ?_ ?_
    · rintro ds ⟨⟩
      refine ⟨List.append_ne_nil_of_right_ne_nil _ ht.nonempty, fun c hc => ?_⟩
      rcases List.mem_append.mp hc with hc | hc
      · exact isDigit_of_mem_zeros c hc
      · exact ht.all c hc
    · simp [Numeral.digits, List.replicate_succ]
    · omega

/-- The point stands behind the digits. -/
theorem exists_layout_behind (ht : IsSignificant t)
    (hpositional : Decimal.isPositional (point - 1) = true) (hpoint : 0 < point)
    (hfits : t.length ≤ point.toNat) :
    ∃ m : Numeral, m.negative = false ∧ Decimal.layout t point = m.text ∧ m.Printed False := by
  have hrange : point - 1 < 16 := by
    simp only [Decimal.isPositional, Bool.and_eq_true, decide_eq_true_eq] at hpositional
    exact hpositional.2
  refine ⟨⟨false, t ++ List.replicate (point.toNat - t.length) '0', some ['0'], none⟩, rfl, ?_, ?_⟩
  · unfold Decimal.layout
    rw [if_pos hpositional, if_neg (not_le.mpr hpoint), if_pos hfits]
    simp [Numeral.text, Numeral.fractionText, Numeral.exponentText]
  · have hwhole := isDigits_append_left ht.toIsDigits
      (isDigit_of_mem_zeros (k := point.toNat - t.length))
    refine .of_padded ⟨hwhole, Or.inr ?_, ?_, nofun⟩ ht 0 (point.toNat - t.length + 1) ?_ ?_
    · simp only
      rw [List.head?_append_of_ne_nil _ ht.nonempty]
      exact ht.leads
    · rintro ds ⟨⟩
      exact isDigits_toDigits 0
    · simp [Numeral.digits, List.replicate_succ']
    · omega

/-- The point stands among the digits. -/
theorem exists_layout_among (ht : IsSignificant t) (hlength : t.length ≤ 18)
    (hpositional : Decimal.isPositional (point - 1) = true) (hpoint : 0 < point)
    (hlong : point.toNat < t.length) :
    ∃ m : Numeral, m.negative = false ∧ Decimal.layout t point = m.text ∧ m.Printed False := by
  have hwhole : t.take point.toNat ≠ [] := by
    intro hnil
    rcases List.take_eq_nil_iff.mp hnil with hnil | hnil
    · omega
    · exact ht.nonempty hnil
  have hfraction : t.drop point.toNat ≠ [] := by
    intro hnil
    have := List.drop_eq_nil_iff.mp hnil
    omega
  refine ⟨⟨false, t.take point.toNat, some (t.drop point.toNat), none⟩, rfl, ?_, ?_⟩
  · unfold Decimal.layout
    rw [if_pos hpositional, if_neg (not_le.mpr hpoint), if_neg (not_le.mpr hlong)]
    simp [Numeral.text, Numeral.fractionText, Numeral.exponentText]
  · have hdigits : IsDigits (t.take point.toNat) :=
      ⟨hwhole, fun c hc => ht.all c (List.mem_of_mem_take hc)⟩
    refine .of_padded ⟨hdigits, Or.inr ?_, ?_, nofun⟩ ht 0 0 ?_ (by omega)
    · simp only
      rw [← List.head?_append_of_ne_nil _ hwhole, List.take_append_drop]
      exact ht.leads
    · rintro ds ⟨⟩
      exact ⟨hfraction, fun c hc => ht.all c (List.mem_of_mem_drop hc)⟩
    · simp [Numeral.digits]

/-- The point stands behind the first digit, and an exponent says where it
belongs. -/
theorem exists_layout_scientific (ht : IsSignificant t) (hlength : t.length ≤ 18)
    (hscientific : Decimal.isPositional (point - 1) = false) :
    ∃ m : Numeral, m.negative = false ∧ Decimal.layout t point = m.text ∧ m.Printed False := by
  have hexponent := isDigits_toDigits (point - 1).natAbs
  obtain ⟨d, ds, rfl⟩ := List.exists_cons_of_ne_nil ht.nonempty
  have hfirst : IsDigits [d] :=
    ⟨List.cons_ne_nil d [], by simpa using ht.all d List.mem_cons_self⟩
  have hleads : [d].head? ≠ some '0' := ht.leads
  refine ⟨⟨false, [d], if ds = [] then none else some ds,
    some (decide (point - 1 < 0), Nat.toDigits 10 (point - 1).natAbs)⟩, rfl, ?_, ?_⟩
  · unfold Decimal.layout
    rw [if_neg (by simp [hscientific])]
    cases ds with
    | nil => simp [Numeral.text, Numeral.fractionText, Numeral.exponentText]
    | cons e es => simp [Numeral.text, Numeral.fractionText, Numeral.exponentText]
  · refine .of_padded ⟨hfirst, Or.inr hleads, ?_, ?_⟩ ht 0 0 ?_ (by omega)
    · intro fraction hfraction
      simp only at hfraction
      split at hfraction
      · cases hfraction
      · rename_i hne
        cases hfraction
        exact ⟨hne, fun c hc => ht.all c (List.mem_cons_of_mem d hc)⟩
    · rintro e ⟨⟩
      exact hexponent
    · cases ds with
      | nil => simp [Numeral.digits]
      | cons e es => simp [Numeral.digits]

end Layouts

/-- Significant digits are laid out as a numeral, wherever the point is. -/
theorem exists_layout {t : Text} (ht : IsSignificant t) (hlength : t.length ≤ 18) (point : Int) :
    ∃ m : Numeral, m.negative = false ∧ Decimal.layout t point = m.text ∧ m.Printed False := by
  cases hpositional : Decimal.isPositional (point - 1) with
  | false => exact exists_layout_scientific ht hlength hpositional
  | true =>
      rcases le_or_gt point 0 with hpoint | hpoint
      · exact exists_layout_before ht hlength hpositional hpoint
      · rcases le_or_gt t.length point.toNat with hfits | hlong
        · exact exists_layout_behind ht hpositional hpoint hfits
        · exact exists_layout_among ht hlength hpositional hpoint hlong

/-! ## Numbers -/

/-- The numbers a value can hold. -/
def Number.Storable : Number → Prop
  | integer i => -(Number.signedLimit : Int) ≤ i ∧ i ≤ Numeral.maxWord
  | double d => d.IsFinite

theorem isFinite_of_readDouble? {t : Text} {d : Double} (h : Number.readDouble? t = some d) :
    d.IsFinite := by
  simp only [Number.readDouble?] at h
  split at h
  all_goals
    -- with or without a point, the exponent comes last
    split at h
    · cases h
    · split at h
      · exact Double.isFinite_of_ofDecimal h
      · cases h

/-- Typed numerals are read as numbers that a value can hold. -/
theorem Number.storable_of_read? {t : Text} {n : Number} (h : Number.read? t = some n) :
    n.Storable := by
  rw [Number.read?] at h
  split at h
  · rename_i i hi
    cases h
    simp only [Number.readInteger?] at hi
    generalize (if (takeSign t).1 then -(digitsValue (takeSign t).2 : Int)
      else digitsValue (takeSign t).2) = value at hi
    split at hi
    · rename_i hrange
      cases hi
      obtain ⟨-, -, hlow, hhigh⟩ := hrange
      refine ⟨hlow, hhigh.le.trans ?_⟩
      decide
    · cases hi
  · obtain ⟨d, hd, rfl⟩ := Option.map_eq_some_iff.mp h
    exact isFinite_of_readDouble? hd

namespace Numeral

theorem isFinite_of_scale {d e : Double} {power : Int} (hd : d.IsFinite)
    (h : scale d power = some e) : e.IsFinite := by
  rw [scale] at h
  split at h
  · split at h
    · obtain ⟨ten, -, hmul⟩ := Option.bind_eq_some_iff.mp h
      exact Double.isFinite_of_mul hmul
    · split at h
      · cases h
        exact hd
      · cases h
  · obtain ⟨smaller, -, h⟩ := Option.bind_eq_some_iff.mp h
    obtain ⟨ten, hten, hdiv⟩ := Option.bind_eq_some_iff.mp h
    exact Double.isFinite_of_div (Double.tenTo_ne_zero hten) hdiv

theorem isFinite_of_word {word : Nat} {power : Int} {d : Double}
    (h : (Double.ofRatio false word 1).bind (scale · power) = some d) : d.IsFinite := by
  obtain ⟨whole, hwhole, hscale⟩ := Option.bind_eq_some_iff.mp h
  exact isFinite_of_scale (Double.isFinite_of_ofRatio one_ne_zero hwhole) hscale

theorem isFinite_of_double? {m : Numeral} {d : Double} (h : m.double? = some d) : d.IsFinite := by
  simp only [double?] at h
  obtain ⟨size, hsize, rfl⟩ := Option.map_eq_some_iff.mp h
  have hfinite : size.IsFinite := by
    split at hsize
    · exact isFinite_of_word hsize
    · split at hsize
      · split at hsize
        · cases hsize
          exact Double.isFinite_zero false
        · cases hsize
      · exact isFinite_of_word hsize
  exact ⟨hfinite.significand_lt, hfinite.min_le, hfinite.le_max, hfinite.full⟩

/-- So are the numerals of a JSON text. -/
theorem storable_of_number? {m : Numeral} {n : Number} (h : m.number? = some n) : n.Storable := by
  simp only [number?] at h
  split at h
  · rename_i hfits
    cases h
    refine ⟨?_, ?_⟩
    · exact (neg_nonpos.mpr (Int.natCast_nonneg _)).trans (Int.natCast_nonneg _)
    · exact_mod_cast hfits.2.2.2
  · split at h
    · rename_i hfits
      cases h
      refine ⟨?_, ?_⟩
      · exact neg_le_neg (by exact_mod_cast hfits.2.2.2.2)
      · exact (neg_nonpos.mpr (Int.natCast_nonneg _)).trans (Int.natCast_nonneg _)
    · obtain ⟨d, hd, rfl⟩ := Option.map_eq_some_iff.mp h
      exact isFinite_of_double? hd

end Numeral

/-- A sign changes nothing about the digits. -/
theorem Numeral.Printed.exists_signed {m : Numeral} {isZero : Prop} (h : m.Printed isZero)
    (hnegative : m.negative = false) (minus : Prop) [Decidable minus] :
    ∃ m' : Numeral, (if minus then '-' :: m.text else m.text) = m'.text ∧ m'.Printed isZero := by
  split
  · refine ⟨{ m with negative := true }, ?_, ⟨h.wellFormed.whole, h.wellFormed.leads,
      h.wellFormed.fraction, h.wellFormed.exponent⟩, h.short, h.zero_iff, h.plain⟩
    rw [Numeral.text, Numeral.text, hnegative]
    rfl
  · exact ⟨m, rfl, h⟩

theorem printed_integer {i : Int} (hi : (Number.integer i).Storable) :
    (⟨false, Nat.toDigits 10 i.natAbs, none, none⟩ : Numeral).Printed
      ((Number.integer i).isZero = true) := by
  refine ⟨⟨isDigits_toDigits _, ?_, nofun, nofun⟩, ?_, ?_, fun _ => rfl⟩
  · by_cases hzero : i.natAbs = 0
    · exact Or.inl (hzero ▸ Nat.toDigits_zero 10)
    · exact Or.inr (head?_toDigits hzero)
  · obtain ⟨hlow, hhigh⟩ := hi
    simp only [Numeral.digits, Option.getD_none, List.append_nil]
    refine (Nat.length_toDigits_le_iff (by decide) (by decide)).mpr ?_
    simp only [Number.signedLimit, Numeral.maxWord, Nat.pow_eq] at hlow hhigh
    omega
  · simp [Numeral.digits, digitsValue_toDigits, Number.isZero]

theorem exists_magnitude {d : Double} (hd : d.IsFinite) :
    ∃ m : Numeral, m.negative = false ∧ d.text = (if d.negative then '-' :: m.text else m.text) ∧
      m.Printed ((Number.double d).isZero = true) := by
  rw [Double.text]
  by_cases hzero : d.isZero = true
  · refine ⟨⟨false, ['0'], some ['0'], none⟩, rfl, ?_, ⟨isDigits_toDigits 0, Or.inl rfl, ?_, nofun⟩,
      by decide, iff_of_true rfl hzero, fun _ => rfl⟩
    · rw [if_pos hzero]
      rfl
    · rintro ds ⟨⟩
      exact isDigits_toDigits 0
  · have hsignificand : d.significand ≠ 0 := fun h => hzero (beq_iff_eq.mpr h)
    obtain ⟨digits, power, hshortest, hdigits, hle, -⟩ :=
      Decimal.shortest_spec hd hsignificand
    obtain ⟨t, point, hlayout, ht, hlength⟩ := layoutDigits_spec hdigits power
    have hcount : Decimal.digitCount digits ≤ 18 :=
      (Nat.length_toDigits_le_iff (by decide) (by decide)).mpr (by omega)
    obtain ⟨m, hnegative, htext, hprinted⟩ := exists_layout ht (hlength.trans hcount) point
    refine ⟨m, hnegative, ?_, ?_⟩
    · rw [if_neg hzero, hshortest]
      simp only [hlayout, htext]
    · rwa [show ((Number.double d).isZero = true) = False from eq_false hzero]

/-- A number is printed as a numeral. -/
theorem exists_numeral {n : Number} (hn : n.Storable) :
    ∃ m : Numeral, n.text = m.text ∧ m.Printed (n.isZero = true) := by
  cases n with
  | integer i =>
      obtain ⟨m, htext, hprinted⟩ := (printed_integer hn).exists_signed rfl (i < 0)
      refine ⟨m, ?_, hprinted⟩
      rw [← htext, Number.text]
      simp [Numeral.text, Numeral.fractionText, Numeral.exponentText]
  | double d =>
      obtain ⟨m, hnegative, htext, hprinted⟩ := exists_magnitude hn
      obtain ⟨m', htext', hprinted'⟩ := hprinted.exists_signed hnegative (d.negative = true)
      exact ⟨m', htext.trans htext', hprinted'⟩

end Tsql
