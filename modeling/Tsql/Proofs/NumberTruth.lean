import Tsql.Json
import Tsql.Proofs.NumberText

/-!
# The truth of a number by its text

`Json.isTruthy` asks a number itself whether it is zero. The same can be
asked of its text: a decimal of fixed width is read from it, in plain or
else in scientific notation, and is zero or not; a number that no such
decimal can hold is true. The reader of decimals is a parameter here.
It reads what it can hold exactly, and refuses the rest of the scientific
notation (`DecimalReader.Lawful`); what it does with plain decimals that it
cannot hold need not be known.

That the two ways agree rests on the text: plain layouts have too few
places for anything to be lost, and an exponent is only written for
numbers other than zero (`exists_numeral`).
-/

namespace Tsql

/-! ## Decimals of fixed width -/

/-- A decimal of 96 binary digits with at most 28 places. -/
structure Fixed where
  mantissa : Int
  scale : Nat
  mantissa_lt : mantissa.natAbs < 2 ^ 96
  scale_le : scale ≤ 28

namespace Fixed

def value (f : Fixed) : ℚ := f.mantissa / 10 ^ f.scale

def isZero (f : Fixed) : Bool := f.mantissa == 0

theorem isZero_iff (f : Fixed) : f.isZero = true ↔ f.value = 0 := by
  have hscale : (10 : ℚ) ^ f.scale ≠ 0 := pow_ne_zero _ (by norm_num)
  rw [isZero, beq_iff_eq, value, div_eq_zero_iff, or_iff_left hscale, Int.cast_eq_zero]

end Fixed

/-- The digits of a numeral and its places fit a decimal. -/
def Numeral.Fits (m : Numeral) : Prop :=
  digitsValue m.digits < 2 ^ 96 ∧ (m.fraction.getD []).length ≤ 28

/-- Two readers of decimals, one for each notation. -/
structure DecimalReader where
  plain : Text → Option Fixed
  scientific : Text → Option Fixed

namespace DecimalReader

/-- What is known of the readers. -/
structure Lawful (reader : DecimalReader) : Prop where
  /-- A plain decimal that fits is read as it is -/
  plain_fits : ∀ t m, Document.takeNumeral t = .ok (m, []) → m.exponent = none → m.Fits →
    ∃ f, reader.plain t = some f ∧ f.value = m.value
  /-- A plain decimal has no exponent -/
  plain_exponent : ∀ t m, Document.takeNumeral t = .ok (m, []) → m.exponent ≠ none →
    reader.plain t = none
  /-- Digits that fit are moved by their exponent without a loss, or not
  read -/
  scientific_exact : ∀ t m, Document.takeNumeral t = .ok (m, []) → m.exponent ≠ none → m.Fits →
    ∀ f, reader.scientific t = some f → f.value = m.value

/-- The decimal of a text in either notation. -/
def read? (reader : DecimalReader) (t : Text) : Option Fixed :=
  (reader.plain t).or (reader.scientific t)

end DecimalReader

/-- Truth by the text of a number. -/
def Json.isTruthyBy (reader : DecimalReader) : Json → Bool
  | .number n => (reader.read? n.text).all (!·.isZero)
  | other => other.isTruthy

/-! ## The two ways agree -/

theorem Numeral.Printed.fits {m : Numeral} {isZero : Prop} (h : m.Printed isZero) : m.Fits := by
  constructor
  · calc digitsValue m.digits < 10 ^ m.digits.length := digitsValue_lt h.wellFormed.isDigit
      _ ≤ 10 ^ 28 := Nat.pow_le_pow_right (by decide) h.short
      _ < 2 ^ 96 := by decide
  · have hshort := h.short
    rw [Numeral.digits, List.length_append] at hshort
    exact (Nat.le_add_left _ _).trans hshort

theorem DecimalReader.Lawful.value_of_read? {reader : DecimalReader} (h : reader.Lawful)
    {t : Text} {m : Numeral} (ht : Document.takeNumeral t = .ok (m, [])) (hm : m.Fits) {f : Fixed}
    (hread : reader.read? t = some f) : f.value = m.value := by
  rw [DecimalReader.read?] at hread
  by_cases hexponent : m.exponent = none
  · obtain ⟨g, hplain, hvalue⟩ := h.plain_fits t m ht hexponent hm
    rw [hplain, Option.some_or] at hread
    obtain rfl := Option.some.inj hread
    exact hvalue
  · rw [h.plain_exponent t m ht hexponent, Option.none_or] at hread
    exact h.scientific_exact t m ht hexponent hm f hread

/-- A number that is read as no decimal is written with an exponent. -/
theorem DecimalReader.Lawful.exponent_of_read? {reader : DecimalReader} (h : reader.Lawful)
    {t : Text} {m : Numeral} (ht : Document.takeNumeral t = .ok (m, [])) (hm : m.Fits)
    (hread : reader.read? t = none) : m.exponent ≠ none := by
  intro hexponent
  obtain ⟨g, hplain, -⟩ := h.plain_fits t m ht hexponent hm
  rw [DecimalReader.read?, hplain] at hread
  cases hread

/-- The truth of a number is that of the exact decimal its text writes:
whatever decimal is read from the text is that one, and a text that writes
zero is read. -/
theorem isTruthyBy_number {reader : DecimalReader} (h : reader.Lawful) {n : Number}
    (hn : n.Storable) :
    ∃ m, Document.takeNumeral n.text = .ok (m, []) ∧ (m.value = 0 ↔ n.isZero = true) ∧
      (∀ f, reader.read? n.text = some f → f.value = m.value) ∧
      (reader.read? n.text = none → m.value ≠ 0) ∧
      ((Json.number n).isTruthyBy reader = false ↔ m.value = 0) ∧
      (Json.number n).isTruthyBy reader = (Json.number n).isTruthy := by
  obtain ⟨m, htext, hprinted⟩ := exists_numeral hn
  have htake := Document.takeNumeral_text hprinted.wellFormed
  rw [← htext] at htake
  have hzero : m.value = 0 ↔ n.isZero = true :=
    m.value_eq_zero_iff.trans hprinted.zero_iff
  have hsome : ∀ f, reader.read? n.text = some f → f.value = m.value := fun f =>
    h.value_of_read? htake hprinted.fits
  have hnone : reader.read? n.text = none → m.value ≠ 0 := by
    intro hread hvalue
    exact h.exponent_of_read? htake hprinted.fits hread (hprinted.plain (hzero.mp hvalue))
  have htruth : (Json.number n).isTruthyBy reader = false ↔ m.value = 0 := by
    rw [Json.isTruthyBy]
    cases hread : reader.read? n.text with
    | none => exact iff_of_false nofun (hnone hread)
    | some f =>
        rw [← hsome f hread, ← f.isZero_iff]
        simp
  refine ⟨m, htake, hzero, hsome, hnone, htruth, ?_⟩
  rw [Json.isTruthy]
  cases hcase : n.isZero with
  | true => exact htruth.mpr (hzero.mpr hcase)
  | false =>
      rw [Bool.not_false, ← Bool.not_eq_false, htruth, hzero, hcase]
      exact Bool.false_ne_true

/-! ## Readers -/

theorem natAbs_signed (negative : Bool) (n : Nat) :
    (if negative then -(n : Int) else n).natAbs = n := by
  cases negative with
  | true => exact Int.natAbs_neg n
  | false => rfl

/-- The decimal of these digits, if it can hold them. -/
def Fixed.of? (negative : Bool) (digits scale : Nat) : Option Fixed :=
  if h : digits < 2 ^ 96 ∧ scale ≤ 28 then
    some ⟨if negative then -(digits : Int) else digits, scale,
      (natAbs_signed negative digits).symm ▸ h.1, h.2⟩
  else none

theorem Fixed.value_of_of? {negative : Bool} {digits scale : Nat} {f : Fixed}
    (h : Fixed.of? negative digits scale = some f) :
    f.value = (if negative then -1 else 1) * digits / 10 ^ scale := by
  rw [Fixed.of?] at h
  split at h
  · cases h
    cases negative with
    | true => simp [Fixed.value]
    | false => simp [Fixed.value]
  · cases h

namespace DecimalReader

/-- Readers that hold what they can. An exponent moves the point, and
fills up with zeros if it moves it behind the digits. -/
def exact : DecimalReader where
  plain t :=
    match Document.takeNumeral t with
    | .ok (m, []) =>
      if m.exponent = none then
        Fixed.of? m.negative (digitsValue m.digits) (m.fraction.getD []).length
      else none
    | _ => none
  scientific t :=
    match Document.takeNumeral t with
    | .ok (m, []) =>
      if m.exponent = none then none
      else if 0 ≤ m.power then
        Fixed.of? m.negative (digitsValue m.digits * 10 ^ m.power.toNat) 0
      else Fixed.of? m.negative (digitsValue m.digits) (-m.power).toNat
    | _ => none

theorem lawful_exact : exact.Lawful := by
  refine ⟨?_, ?_, ?_⟩
  · intro t m ht hexponent hfits
    simp only [exact, ht, if_pos hexponent]
    have hread : Fixed.of? m.negative (digitsValue m.digits) (m.fraction.getD []).length =
        some _ := dif_pos hfits
    refine ⟨_, hread, ?_⟩
    rw [Fixed.value_of_of? hread, Numeral.value, Numeral.power, hexponent]
    simp [div_eq_mul_inv]
  · intro t m ht hexponent
    simp only [exact, ht, if_neg hexponent]
  · intro t m ht hexponent hfits f hread
    simp only [exact, ht, if_neg hexponent] at hread
    rw [Numeral.value, zpow_eq_div]
    split at hread
    · rename_i hpower
      have hneg : (-m.power).toNat = 0 := by omega
      rw [Fixed.value_of_of? hread, hneg]
      push_cast
      ring
    · rename_i hpower
      have hpos : m.power.toNat = 0 := by omega
      rw [Fixed.value_of_of? hread, hpos]
      ring

end DecimalReader

/-- The smallest binary number. -/
def leastDouble : Double := ⟨false, 1, Double.minExponent⟩

/-- It is too small for a decimal, and true; minus zero is read, and
false. -/
theorem isTruthyBy_number_edges :
    (∃ m, Document.takeNumeral (Number.double leastDouble).text = .ok (m, []) ∧
      m.exponent = some (true, "324".toList) ∧ m.value ≠ 0 ∧
      DecimalReader.exact.read? (Number.double leastDouble).text = none ∧
      (Json.number (.double leastDouble)).isTruthyBy .exact = true) ∧
    (Json.number (.double (.zero true))).isTruthyBy .exact = false ∧
    (Json.number (.integer (-9223372036854775808))).isTruthyBy .exact = true := by
  have hleast : leastDouble.IsFinite := ⟨by decide, le_rfl, by decide, Or.inl rfl⟩
  have hinteger : (Number.integer (-9223372036854775808)).Storable := by
    constructor
    · decide
    · decide
  obtain ⟨m, htake, hzero, -, -, -, htrue⟩ :=
    isTruthyBy_number DecimalReader.lawful_exact (n := .double leastDouble) hleast
  obtain ⟨-, -, -, -, -, -, hfalse⟩ :=
    isTruthyBy_number DecimalReader.lawful_exact (n := .double (.zero true))
      (Double.isFinite_zero true)
  obtain ⟨-, -, -, -, -, -, hmost⟩ :=
    isTruthyBy_number DecimalReader.lawful_exact hinteger
  have hm : m.exponent = some (true, "324".toList) := by
    have hcut : ((Document.takeNumeral (Number.double leastDouble).text).toOption.bind
        (·.1.exponent)) = some (true, "324".toList) := by
      decide +kernel
    rw [htake] at hcut
    exact hcut
  have hread : (DecimalReader.exact.read? (Number.double leastDouble).text).isNone = true := by
    decide +kernel
  refine ⟨⟨m, htake, hm, ?_, Option.isNone_iff_eq_none.mp hread, htrue⟩, hfalse, hmost⟩
  intro hvalue
  cases hzero.mp hvalue

end Tsql
