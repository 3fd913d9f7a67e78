import Mathlib.Algebra.Order.Field.Power
import Mathlib.Algebra.Order.Field.Rat
import Mathlib.Tactic.FieldSimp
import Mathlib.Tactic.Linarith
import Mathlib.Tactic.NormNum
import Mathlib.Tactic.Positivity
import Mathlib.Tactic.Ring
import Tsql.Double

/-!
# What rounds to a binary number

`Double.ofRatio` rounds on natural numbers: it guesses an exponent from
the lengths of numerator and denominator, corrects the guess, and rounds a
quotient by its remainder. Said of the fraction as a rational number: the
exponent is the only one at which the fraction has 53 binary digits before
the point (`InBinade`), and a whole number less than half a unit away is
what it is rounded to (`ofRatio_of_inBinade`).

From this a number can be found again from any fraction near to it: one
that is off by less than a `2 ^ 54`th part of it (`ofRatio_of_near`).
-/

namespace Tsql

/-! ## Powers with a sign -/

theorem zpow_eq_div (b : ℚ) (e : Int) : b ^ e = b ^ e.toNat / b ^ (-e).toNat := by
  obtain ⟨n, rfl | rfl⟩ := e.eq_nat_or_neg
  · simp
  · simp

namespace Double

/-- A finite binary64 number: a significand of at most 53 binary digits,
and of no fewer unless the exponent is the least. -/
structure IsFinite (d : Double) : Prop where
  significand_lt : d.significand < significandLimit
  min_le : minExponent ≤ d.exponent
  le_max : d.exponent ≤ maxExponent
  full : d.exponent = minExponent ∨ significandLimit / 2 ≤ d.significand

/-- The magnitude of a number. -/
def size (d : Double) : ℚ := d.significand * 2 ^ d.exponent

theorem ratio_eq (d : Double) :
    ((d.ratio.1 : ℕ) : ℚ) / (d.ratio.2 : ℕ) = d.size ∧ d.ratio.2 ≠ 0 := by
  rw [ratio, size, zpow_eq_div]
  split
  · rename_i h
    have hneg : (-d.exponent).toNat = 0 := by omega
    simp [hneg, Nat.pow_eq]
  · rename_i h
    have hpos : d.exponent.toNat = 0 := by omega
    simp [hpos, Nat.pow_eq, div_eq_mul_inv]

theorem significandLimit_eq : significandLimit = 2 ^ 53 := rfl

/-! ## Quotient and remainder -/

/-- Quotient and remainder are the whole and the fractional part. -/
theorem inUnits_spec (num : Nat) {den : Nat} (hden : den ≠ 0) (e : Int) {q r u : Nat}
    (h : inUnits num den e = (q, r, u)) :
    r < u ∧ (num / den : ℚ) / 2 ^ e = q + r / u := by
  simp only [inUnits, Prod.mk.injEq, Nat.pow_eq] at h
  obtain ⟨rfl, rfl, rfl⟩ := h
  have hunit : 0 < den * 2 ^ e.toNat := by positivity
  refine ⟨Nat.mod_lt _ hunit, ?_⟩
  have hsplit := Nat.div_add_mod (num * 2 ^ (-e).toNat) (den * 2 ^ e.toNat)
  have hcast : (num * 2 ^ (-e).toNat : ℚ) =
      (den * 2 ^ e.toNat : ℕ) * (num * 2 ^ (-e).toNat / (den * 2 ^ e.toNat) : ℕ) +
        (num * 2 ^ (-e).toNat % (den * 2 ^ e.toNat) : ℕ) := by
    exact_mod_cast hsplit.symm
  have hunit' : ((den * 2 ^ e.toNat : ℕ) : ℚ) ≠ 0 := by exact_mod_cast hunit.ne'
  have hvalue : (num / den : ℚ) / 2 ^ e = num * 2 ^ (-e).toNat / (den * 2 ^ e.toNat : ℕ) := by
    rw [zpow_eq_div]
    push_cast
    field_simp
  rw [hvalue, hcast, add_div, mul_div_cancel_left₀ _ hunit']

/-! ## The exponent -/

/-- In units of `2 ^ e` the fraction has 53 binary digits before the point,
or fewer at the least exponent. -/
structure InBinade (y : ℚ) (e : Int) : Prop where
  min_le : minExponent ≤ e
  lt : y < 2 ^ 53 * 2 ^ e
  le : e = minExponent ∨ 2 ^ 52 * 2 ^ e ≤ y

theorem InBinade.le_of_inBinade {y : ℚ} {e e' : Int} (h : InBinade y e) (h' : InBinade y e') :
    e' ≤ e := by
  by_contra hlt
  have hmin := h.min_le
  rcases h'.le with hmin' | hle
  · omega
  · have hstep : (2 : ℚ) ^ (e + 1) ≤ 2 ^ e' := zpow_le_zpow_right₀ one_le_two (by omega)
    rw [zpow_add_one₀ two_ne_zero] at hstep
    have hy := h.lt
    linarith

theorem InBinade.unique {y : ℚ} {e e' : Int} (h : InBinade y e) (h' : InBinade y e') : e = e' :=
  Int.le_antisymm (h'.le_of_inBinade h) (h.le_of_inBinade h')

/-- The exponent that is found: a guess from the binary lengths, one more
if there are 54 digits. -/
def exponentOf (num den : Nat) : Int :=
  let low := max ((num.log2 : Int) - den.log2 - 53) minExponent
  if significandLimit ≤ (inUnits num den low).1 then low + 1 else low

theorem log2_bounds {n : Nat} (hn : n ≠ 0) :
    (2 : ℚ) ^ n.log2 ≤ n ∧ (n : ℚ) < 2 ^ (n.log2 + 1) := by
  constructor
  · exact_mod_cast Nat.log2_self_le hn
  · exact_mod_cast Nat.lt_log2_self

/-- A fraction by the binary lengths of its parts. -/
theorem ratio_bounds {num den : Nat} (hnum : num ≠ 0) (hden : den ≠ 0) :
    2 ^ ((num.log2 : Int) - den.log2 - 1) < (num / den : ℚ) ∧
      (num / den : ℚ) < 2 ^ ((num.log2 : Int) - den.log2 + 1) := by
  obtain ⟨hnumLow, hnumHigh⟩ := log2_bounds hnum
  obtain ⟨hdenLow, hdenHigh⟩ := log2_bounds hden
  have hpos : (0 : ℚ) < den := by exact_mod_cast Nat.pos_of_ne_zero hden
  constructor
  · rw [lt_div_iff₀ hpos]
    calc (2 : ℚ) ^ ((num.log2 : Int) - den.log2 - 1) * den
        < 2 ^ ((num.log2 : Int) - den.log2 - 1) * 2 ^ (den.log2 + 1) := by gcongr
      _ = 2 ^ num.log2 := by
        rw [← zpow_natCast, ← zpow_natCast, ← zpow_add₀ two_ne_zero]
        congr 1
        push_cast
        ring
      _ ≤ num := hnumLow
  · rw [div_lt_iff₀ hpos]
    calc (num : ℚ) < 2 ^ (num.log2 + 1) := hnumHigh
      _ = 2 ^ ((num.log2 : Int) - den.log2 + 1) * 2 ^ den.log2 := by
        rw [← zpow_natCast, ← zpow_natCast, ← zpow_add₀ two_ne_zero]
        congr 1
        push_cast
        ring
      _ ≤ 2 ^ ((num.log2 : Int) - den.log2 + 1) * den := by gcongr

/-- The quotient is below a whole number just if the fraction is. -/
theorem quotient_lt_iff (num : Nat) {den : Nat} (hden : den ≠ 0) (e : Int) (n : Nat) :
    (inUnits num den e).1 < n ↔ (num / den : ℚ) < n * 2 ^ e := by
  generalize hunits : inUnits num den e = units
  obtain ⟨q, r, u⟩ := units
  obtain ⟨hr, hvalue⟩ := inUnits_spec num hden e hunits
  have hu : (0 : ℚ) < u := by exact_mod_cast Nat.zero_lt_of_lt hr
  have hpart : (r : ℚ) / u < 1 := (div_lt_one hu).mpr (by exact_mod_cast hr)
  have hpos : (0 : ℚ) ≤ r / u := by positivity
  rw [← div_lt_iff₀ (by positivity), hvalue]
  constructor
  · intro h
    have : (q + 1 : ℚ) ≤ n := by exact_mod_cast h
    linarith
  · intro h
    have : (q : ℚ) < n := by linarith
    exact_mod_cast this

theorem inBinade_exponentOf {num den : Nat} (hnum : num ≠ 0) (hden : den ≠ 0) :
    InBinade (num / den) (exponentOf num den) := by
  obtain ⟨hlow, hhigh⟩ := ratio_bounds hnum hden
  generalize hguess : (num.log2 : Int) - den.log2 - 53 = guess
  have hlow' : (2 : ℚ) ^ 52 * 2 ^ guess < num / den := by
    rw [← zpow_natCast, ← zpow_add₀ two_ne_zero]
    convert hlow using 2
    omega
  have hhigh' : (num / den : ℚ) < 2 ^ 54 * 2 ^ guess := by
    rw [← zpow_natCast, ← zpow_add₀ two_ne_zero]
    convert hhigh using 2
    omega
  have hlt : ∀ e, (inUnits num den e).1 < significandLimit ↔ (num / den : ℚ) < 2 ^ 53 * 2 ^ e := by
    intro e
    rw [quotient_lt_iff num hden e, significandLimit_eq]
    norm_num
  simp only [exponentOf, hguess]
  rcases le_or_gt minExponent guess with hmin | hmin
  · rw [max_eq_left hmin]
    split
    · rename_i hlong
      refine ⟨by omega, ?_, Or.inr ?_⟩
      · rw [zpow_add_one₀ two_ne_zero]
        linarith
      · have := not_lt.mp (mt (hlt guess).mpr (not_lt.mpr hlong))
        rw [zpow_add_one₀ two_ne_zero]
        linarith
    · rename_i hshort
      exact ⟨hmin, (hlt guess).mp (not_le.mp hshort), Or.inr hlow'.le⟩
  · -- the guess is below the least exponent, where there are fewer digits
    rw [max_eq_right hmin.le]
    have hfew : (num / den : ℚ) < 2 ^ 53 * 2 ^ minExponent := by
      have hstep : (2 : ℚ) ^ (guess + 1) ≤ 2 ^ minExponent :=
        zpow_le_zpow_right₀ one_le_two (by omega)
      rw [zpow_add_one₀ two_ne_zero] at hstep
      linarith
    rw [if_neg (not_le.mpr ((hlt minExponent).mpr hfew))]
    exact ⟨le_rfl, hfew, Or.inl rfl⟩

/-! ## Rounding -/

/-- The quotient that `q` and a remainder of `r` out of `u` are rounded to. -/
def roundedUp (q r u : Nat) : Nat :=
  if u < 2 * r ∨ (u = 2 * r ∧ q % 2 = 1) then q + 1 else q

theorem le_roundedUp (q r u : Nat) : q ≤ roundedUp q r u := by
  rw [roundedUp]
  split
  · exact Nat.le_succ q
  · exact le_rfl

theorem roundedUp_le (q r u : Nat) : roundedUp q r u ≤ q + 1 := by
  rw [roundedUp]
  split
  · exact le_rfl
  · exact Nat.le_succ q

/-- A whole number less than half away is what is rounded to. -/
theorem roundedUp_eq {q r u n : Nat} (hr : r < u) (h : |(q + r / u : ℚ) - n| < 1 / 2) :
    roundedUp q r u = n := by
  have hu : (0 : ℚ) < u := by exact_mod_cast Nat.zero_lt_of_lt hr
  obtain ⟨hlow, hhigh⟩ := abs_lt.mp h
  have hpart : (r : ℚ) / u < 1 := (div_lt_one hu).mpr (by exact_mod_cast hr)
  have hpos : (0 : ℚ) ≤ r / u := by positivity
  have hle : q ≤ n := by
    have : (q : ℚ) < n + 1 := by linarith
    exact Nat.le_of_lt_succ (by exact_mod_cast this)
  have hge : n ≤ q + 1 := by
    have : (n : ℚ) < q + 1 + 1 := by linarith
    exact Nat.le_of_lt_succ (by exact_mod_cast this)
  rw [roundedUp]
  rcases Nat.eq_or_lt_of_le hle with rfl | hlt
  · -- the remainder is less than half a unit
    have hhalf : (r : ℚ) / u < 1 / 2 := by linarith
    rw [div_lt_div_iff₀ hu two_pos] at hhalf
    have : 2 * r < u := by
      have : (2 * r : ℚ) < u := by linarith
      exact_mod_cast this
    rw [if_neg (by omega)]
  · obtain rfl : n = q + 1 := by omega
    have hhalf : (1 : ℚ) / 2 < r / u := by
      push_cast at hlow
      linarith
    rw [div_lt_div_iff₀ two_pos hu] at hhalf
    have : u < 2 * r := by
      have : (u : ℚ) < 2 * r := by linarith
      exact_mod_cast this
    rw [if_pos (Or.inl this)]

/-- One digit too many makes it the next exponent's. -/
theorem ofRatio_eq (negative : Bool) {num den q r u : Nat} (hnum : num ≠ 0)
    (hunits : inUnits num den (exponentOf num den) = (q, r, u)) :
    ofRatio negative num den =
      if roundedUp q r u = significandLimit then
        if maxExponent < exponentOf num den + 1 then none
        else some ⟨negative, significandLimit / 2, exponentOf num den + 1⟩
      else if maxExponent < exponentOf num den then none
      else some ⟨negative, roundedUp q r u, exponentOf num den⟩ := by
  have hexponent :
      (if significandLimit ≤ (inUnits num den
          (max ((num.log2 : Int) - den.log2 - 53) minExponent)).1 then
        max ((num.log2 : Int) - den.log2 - 53) minExponent + 1
      else max ((num.log2 : Int) - den.log2 - 53) minExponent) = exponentOf num den := rfl
  simp only [ofRatio, if_neg hnum, hexponent, hunits]
  rw [← roundedUp]
  split <;> rfl

/-- The digits and the exponent that come of a fraction, whichever of the
two exponents it is. -/
theorem ofRatio_cases {negative : Bool} {num den q r u : Nat} {d : Double} (hnum : num ≠ 0)
    (hunits : inUnits num den (exponentOf num den) = (q, r, u))
    (h : ofRatio negative num den = some d) :
    d.exponent ≤ maxExponent ∧
      (roundedUp q r u = significandLimit ∧ d.significand = significandLimit / 2 ∧
          d.exponent = exponentOf num den + 1 ∨
        roundedUp q r u ≠ significandLimit ∧ d.significand = roundedUp q r u ∧
          d.exponent = exponentOf num den) := by
  rw [ofRatio_eq negative hnum hunits] at h
  split at h
  · rename_i hlong
    split at h
    · cases h
    · rename_i hmax
      cases h
      exact ⟨not_lt.mp hmax, Or.inl ⟨hlong, rfl, rfl⟩⟩
  · rename_i hshort
    split at h
    · cases h
    · rename_i hmax
      cases h
      exact ⟨not_lt.mp hmax, Or.inr ⟨hshort, rfl, rfl⟩⟩

/-- A fraction is rounded to the whole number that it is less than half a
unit away from. -/
theorem ofRatio_of_inBinade (negative : Bool) {num den n : Nat} {e : Int} (hnum : num ≠ 0)
    (hden : den ≠ 0) (he : InBinade (num / den) e)
    (hn : |(num / den : ℚ) / 2 ^ e - n| < 1 / 2) :
    ofRatio negative num den =
      if n = significandLimit then
        if maxExponent < e + 1 then none else some ⟨negative, significandLimit / 2, e + 1⟩
      else if maxExponent < e then none else some ⟨negative, n, e⟩ := by
  obtain rfl := he.unique (inBinade_exponentOf hnum hden)
  generalize hunits : inUnits num den (exponentOf num den) = units
  obtain ⟨q, r, u⟩ := units
  obtain ⟨hr, hvalue⟩ := inUnits_spec num hden _ hunits
  rw [hvalue] at hn
  rw [ofRatio_eq negative hnum hunits, roundedUp_eq hr hn]

theorem isFinite_zero (negative : Bool) : (zero negative).IsFinite :=
  ⟨Nat.two_pow_pos 53, le_rfl, by simp [zero, minExponent, maxExponent], Or.inl rfl⟩

/-- Rounding gives finite numbers only. -/
theorem isFinite_of_ofRatio {negative : Bool} {num den : Nat} {d : Double} (hden : den ≠ 0)
    (h : ofRatio negative num den = some d) : d.IsFinite := by
  by_cases hnum : num = 0
  · rw [ofRatio, if_pos hnum] at h
    cases h
    exact isFinite_zero negative
  obtain ⟨hmin, hlt, hle⟩ := inBinade_exponentOf hnum hden
  generalize hunits : inUnits num den (exponentOf num den) = units at hlt hle
  obtain ⟨q, r, u⟩ := units
  have hlong : q < 2 ^ 53 := by
    have := (quotient_lt_iff num hden (exponentOf num den) (2 ^ 53)).mpr (by exact_mod_cast hlt)
    rwa [hunits] at this
  have hfull : exponentOf num den = minExponent ∨ 2 ^ 52 ≤ q := by
    refine hle.imp_right fun hle => ?_
    have := mt (quotient_lt_iff num hden (exponentOf num den) (2 ^ 52)).mp
      (not_lt.mpr (by exact_mod_cast hle))
    rw [hunits] at this
    exact not_lt.mp this
  obtain ⟨hmax, ⟨-, hdigits, hexponent⟩ | ⟨hshort, hdigits, hexponent⟩⟩ :=
    ofRatio_cases hnum hunits h
  · refine ⟨?_, hexponent ▸ hmin.trans (Int.le_add_one le_rfl), hmax, Or.inr hdigits.ge⟩
    rw [hdigits]
    exact Nat.div_lt_self (Nat.two_pow_pos 53) one_lt_two
  · refine ⟨?_, hexponent ▸ hmin, hmax, ?_⟩
    · rw [hdigits]
      exact Nat.lt_of_le_of_ne ((roundedUp_le q r u).trans hlong) hshort
    · rw [hexponent, hdigits]
      exact hfull.imp_right fun hq => hq.trans (le_roundedUp q r u)

/-- A fraction of one or more is not rounded to zero. -/
theorem significand_ne_zero_of_ofRatio {negative : Bool} {num den : Nat} {d : Double}
    (hden : den ≠ 0) (hle : den ≤ num) (h : ofRatio negative num den = some d) :
    d.significand ≠ 0 := by
  have hnum : num ≠ 0 := by omega
  have hone : (1 : ℚ) ≤ num / den := by
    rw [le_div_iff₀ (by exact_mod_cast Nat.pos_of_ne_zero hden), one_mul]
    exact_mod_cast hle
  generalize hunits : inUnits num den (exponentOf num den) = units
  obtain ⟨q, r, u⟩ := units
  have hq : 1 ≤ q := by
    by_contra hzero
    have hlt := (quotient_lt_iff num hden (exponentOf num den) 1).mp
      (by rw [hunits]; exact not_le.mp hzero)
    rw [Nat.cast_one, one_mul] at hlt
    rcases (inBinade_exponentOf hnum hden).le with hmin | hle
    · have : (2 : ℚ) ^ exponentOf num den ≤ 2 ^ (0 : Int) :=
        zpow_le_zpow_right₀ one_le_two (by rw [hmin, minExponent]; decide)
      rw [zpow_zero] at this
      linarith
    · have : (0 : ℚ) < 2 ^ exponentOf num den := by positivity
      linarith
  obtain ⟨-, ⟨-, hdigits, -⟩ | ⟨-, hdigits, -⟩⟩ := ofRatio_cases hnum hunits h
  · rw [hdigits]
    decide
  · rw [hdigits]
    exact (Nat.lt_of_lt_of_le hq (le_roundedUp q r u)).ne'

/-- Just below a power of two units are half as large. -/
theorem ofRatio_below_power (negative : Bool) {num den : Nat} {e : Int} (hnum : num ≠ 0)
    (hden : den ≠ 0) (hmin : minExponent < e) (hmax : e ≤ maxExponent)
    (hlt : (num / den : ℚ) / 2 ^ e < 2 ^ 52)
    (hnear : |(num / den : ℚ) / 2 ^ e - 2 ^ 52| < 1 / 4) :
    ofRatio negative num den = some ⟨negative, significandLimit / 2, e⟩ := by
  have hpred : (2 : ℚ) ^ e = 2 ^ (e - 1) * 2 := by
    rw [← zpow_add_one₀ two_ne_zero, sub_add_cancel]
  have hdouble : (num / den : ℚ) / 2 ^ (e - 1) = 2 * ((num / den : ℚ) / 2 ^ e) := by
    rw [hpred]
    field_simp
  have hbinade : InBinade (num / den) (e - 1) := by
    refine ⟨by omega, ?_, Or.inr ?_⟩
    · rw [← div_lt_iff₀ (by positivity), hdouble]
      linarith
    · rw [← le_div_iff₀ (by positivity), hdouble]
      linarith [(abs_lt.mp hnear).1]
  have hlimit : |(num / den : ℚ) / 2 ^ (e - 1) - (significandLimit : ℕ)| < 1 / 2 := by
    have htwice : 2 * ((num / den : ℚ) / 2 ^ e) - (significandLimit : ℕ) =
        2 * ((num / den : ℚ) / 2 ^ e - 2 ^ 52) := by
      rw [significandLimit_eq]
      push_cast
      ring
    rw [hdouble, htwice, abs_mul, abs_two]
    linarith
  rw [ofRatio_of_inBinade negative hnum hden hbinade hlimit, if_pos rfl, sub_add_cancel,
    if_neg (not_lt.mpr hmax)]

/-- Every fraction that is off by less than a `2 ^ 54`th part of a number
is rounded to that number. -/
theorem ofRatio_of_near {d : Double} (hd : d.IsFinite) (hzero : d.significand ≠ 0)
    {num den : Nat} (hden : den ≠ 0) (h : |(num / den : ℚ) - d.size| * 2 ^ 54 < d.size) :
    ofRatio d.negative num den = some d := by
  obtain ⟨negative, s, e⟩ := d
  have hlimit : s < significandLimit := hd.significand_lt
  have hmin : minExponent ≤ e := hd.min_le
  have hmax : e ≤ maxExponent := hd.le_max
  have hnum : num ≠ 0 := by
    rintro rfl
    rw [Nat.cast_zero, zero_div, zero_sub, abs_neg] at h
    have := le_abs_self (size ⟨negative, s, e⟩)
    linarith [abs_nonneg (size ⟨negative, s, e⟩)]
  -- everything in units of the last digit
  have hunit : (0 : ℚ) < 2 ^ e := by positivity
  have hnear : |(num / den : ℚ) / 2 ^ e - s| * 2 ^ 54 < s := by
    have hscaled : (num / den : ℚ) - s * 2 ^ e = ((num / den : ℚ) / 2 ^ e - s) * 2 ^ e := by
      field_simp
    rw [size, hscaled, abs_mul, abs_of_pos hunit] at h
    nlinarith
  have hs : (s : ℚ) + 1 ≤ 2 ^ 53 := by exact_mod_cast hlimit
  have hhalf : |(num / den : ℚ) / 2 ^ e - s| < 1 / 2 := by linarith
  obtain ⟨habove, hbelow⟩ := abs_lt.mp hhalf
  have hlt : (num / den : ℚ) < 2 ^ 53 * 2 ^ e := by
    rw [← div_lt_iff₀ hunit]
    linarith
  by_cases hle : e = minExponent ∨ 2 ^ 52 * 2 ^ e ≤ (num / den : ℚ)
  · rw [ofRatio_of_inBinade negative hnum hden ⟨hmin, hlt, hle⟩ hhalf, if_neg hlimit.ne,
      if_neg (not_lt.mpr hmax)]
  · obtain ⟨hne, hshort⟩ := not_or.mp hle
    rw [not_le, ← div_lt_iff₀ hunit] at hshort
    have hfull : 2 ^ 52 ≤ s := hd.full.resolve_left hne
    obtain rfl : s = 2 ^ 52 := by
      have : (s : ℚ) < 2 ^ 52 + 1 := by linarith
      have : s < 2 ^ 52 + 1 := by exact_mod_cast this
      omega
    push_cast at hnear
    exact ofRatio_below_power negative hnum hden (lt_of_le_of_ne hmin (Ne.symm hne)) hmax hshort
      (by linarith)

/-! ## Arithmetic stays finite -/

theorem isFinite_of_ofDecimal {negative : Bool} {digits : Nat} {power : Int} {d : Double}
    (h : ofDecimal negative digits power = some d) : d.IsFinite := by
  rw [ofDecimal] at h
  split at h
  · cases h
    exact isFinite_zero negative
  · split at h
    · cases h
    · exact isFinite_of_ofRatio (pow_ne_zero _ (by decide)) h

theorem isFinite_of_mul {d e f : Double} (h : d.mul e = some f) : f.IsFinite :=
  isFinite_of_ofRatio (Nat.mul_ne_zero d.ratio_eq.2 e.ratio_eq.2) h

theorem isFinite_of_div {d e f : Double} (he : e.significand ≠ 0) (h : d.div e = some f) :
    f.IsFinite := by
  have hnum : e.ratio.1 ≠ 0 := by
    unfold ratio
    split
    · exact Nat.mul_ne_zero he (pow_ne_zero _ (by decide))
    · exact he
  exact isFinite_of_ofRatio (Nat.mul_ne_zero d.ratio_eq.2 hnum) h

theorem tenTo_ne_zero {power : Nat} {d : Double} (h : tenTo power = some d) :
    d.significand ≠ 0 :=
  significand_ne_zero_of_ofRatio one_ne_zero (Nat.one_le_iff_ne_zero.mpr
    (pow_ne_zero _ (by decide))) h

end Double

end Tsql
