import Tsql.Decimal
import Tsql.Proofs.Rounding

/-!
# Seventeen digits are enough

The shortest digits of a number are searched for from one digit up to
seventeen, on the grid of multiples of a power of ten, and a search that
found nothing would leave zero in the number's place. It never does: with
seventeen digits the grid is so fine that the nearer of the two multiples
around a number rounds to it (`exists_onGrid?`).
-/

namespace Tsql

namespace Double

/-! ## Sizes -/

theorem IsFinite.size_pos {d : Double} (hzero : d.significand ≠ 0) : 0 < d.size := by
  have : (0 : ℚ) < d.significand := by exact_mod_cast Nat.pos_of_ne_zero hzero
  rw [size]
  positivity

/-- The powers of two in question, against powers of ten. -/
theorem two_pow_le_ten_pow : (2 : ℚ) ^ 1074 ≤ 10 ^ 399 := by
  have h : 2 ^ 1074 ≤ 10 ^ 399 := by decide +kernel
  exact_mod_cast h

/-- All sizes but zero are well inside the powers of ten that are told
apart. -/
theorem IsFinite.size_bounds {d : Double} (hd : d.IsFinite) (hzero : d.significand ≠ 0) :
    (10 : ℚ) ^ (-399 : Int) ≤ d.size ∧ d.size ≤ 10 ^ (399 : Int) := by
  have hpos : (1 : ℚ) ≤ d.significand := by exact_mod_cast Nat.one_le_iff_ne_zero.mpr hzero
  have hlimit : (d.significand : ℚ) ≤ 2 ^ 53 := by exact_mod_cast hd.significand_lt.le
  have hmin : (2 : ℚ) ^ (-1074 : Int) ≤ 2 ^ d.exponent :=
    zpow_le_zpow_right₀ one_le_two hd.min_le
  have hmax : (2 : ℚ) ^ d.exponent ≤ 2 ^ (971 : Int) :=
    zpow_le_zpow_right₀ one_le_two hd.le_max
  constructor
  · calc (10 : ℚ) ^ (-399 : Int) ≤ 2 ^ (-1074 : Int) := by
          rw [zpow_neg, zpow_neg]
          exact inv_anti₀ (by positivity) two_pow_le_ten_pow
      _ ≤ 2 ^ d.exponent := hmin
      _ = 1 * 2 ^ d.exponent := (one_mul _).symm
      _ ≤ d.size := by
          rw [size]
          gcongr
  · calc d.size ≤ 2 ^ 53 * 2 ^ (971 : Int) := by
          rw [size]
          gcongr
      _ = 2 ^ 1024 := by
          rw [← zpow_natCast, ← zpow_natCast, ← zpow_add₀ two_ne_zero]
          rfl
      _ ≤ 2 ^ 1074 := pow_le_pow_right₀ one_le_two (by decide)
      _ ≤ 10 ^ (399 : Int) := two_pow_le_ten_pow

end Double

namespace Decimal

/-! ## Lengths -/

theorem digitCount_pos (n : Nat) : 0 < digitCount n := Nat.length_toDigits_pos

theorem lt_pow_digitCount (n : Nat) : n < 10 ^ digitCount n :=
  (Nat.length_toDigits_le_iff (by decide) (digitCount_pos n)).mp le_rfl

theorem pow_digitCount_le {n : Nat} (hn : n ≠ 0) : 10 ^ (digitCount n - 1) ≤ n := by
  rcases Nat.eq_zero_or_pos (digitCount n - 1) with hone | hmore
  · rw [hone, pow_zero]
    exact Nat.one_le_iff_ne_zero.mpr hn
  · by_contra hlt
    have := (Nat.length_toDigits_le_iff (by decide) hmore).mpr (not_le.mp hlt)
    rw [← digitCount] at this
    omega

/-- The length of a number as a rational bound. -/
theorem digitCount_bounds {n : Nat} (hn : n ≠ 0) :
    (10 : ℚ) ^ ((digitCount n : Int) - 1) ≤ n ∧ (n : ℚ) < 10 ^ (digitCount n : Int) := by
  constructor
  · have hcount : (digitCount n : Int) - 1 = (digitCount n - 1 : ℕ) := by
      have := digitCount_pos n
      omega
    rw [hcount, zpow_natCast]
    exact_mod_cast pow_digitCount_le hn
  · rw [zpow_natCast]
    exact_mod_cast lt_pow_digitCount n

/-- A fraction of one or more has as many digits before the point as its
whole part. -/
theorem quotient_bounds {num den : Nat} (hden : den ≠ 0) (hle : den ≤ num) :
    (10 : ℚ) ^ ((digitCount (num / den) : Int) - 1) ≤ num / den ∧
      (num / den : ℚ) < 10 ^ (digitCount (num / den) : Int) := by
  have hpos : (0 : ℚ) < den := by exact_mod_cast Nat.pos_of_ne_zero hden
  have hquotient : num / den ≠ 0 := (Nat.div_pos hle (Nat.pos_of_ne_zero hden)).ne'
  obtain ⟨hlow, -⟩ := digitCount_bounds hquotient
  have hhigh : num / den + 1 ≤ 10 ^ digitCount (num / den) := lt_pow_digitCount (num / den)
  constructor
  · refine hlow.trans ?_
    rw [le_div_iff₀ hpos]
    exact_mod_cast Nat.div_mul_le_self num den
  · rw [div_lt_iff₀ hpos, zpow_natCast]
    have hnext : num < (num / den + 1) * den :=
      Nat.lt_mul_of_div_lt (Nat.lt_succ_self _) (Nat.pos_of_ne_zero hden)
    calc (num : ℚ) < (num / den + 1 : ℕ) * den := by exact_mod_cast hnext
      _ ≤ 10 ^ digitCount (num / den) * den := by
        gcongr
        exact_mod_cast hhigh

/-- A fraction below one by the length of its reciprocal, which is rounded
up to one more than `m`. -/
theorem reciprocal_bounds {num den m : Nat} (hm : m ≠ 0) (hden : den ≠ 0)
    (hbelow : m * num < den) (habove : den ≤ (m + 1) * num) :
    (10 : ℚ) ^ (-(digitCount m : Int)) ≤ num / den ∧
      (num / den : ℚ) < 10 ^ (1 - (digitCount m : Int)) := by
  have hpos : (0 : ℚ) < den := by exact_mod_cast Nat.pos_of_ne_zero hden
  obtain ⟨hlow, -⟩ := digitCount_bounds hm
  have hhigh : m + 1 ≤ 10 ^ digitCount m := lt_pow_digitCount m
  constructor
  · rw [le_div_iff₀ hpos]
    calc (10 : ℚ) ^ (-(digitCount m : Int)) * den
        ≤ 10 ^ (-(digitCount m : Int)) * (((m + 1) * num : ℕ) : ℚ) := by gcongr
      _ ≤ 10 ^ (-(digitCount m : Int)) * ((10 ^ digitCount m * num : ℕ) : ℚ) := by gcongr
      _ = num := by
          rw [zpow_neg, zpow_natCast]
          push_cast
          field_simp
  · rw [div_lt_iff₀ hpos]
    have hone : (10 : ℚ) ^ (1 - (digitCount m : Int)) * 10 ^ ((digitCount m : Int) - 1) = 1 := by
      rw [← zpow_add₀ (by norm_num), sub_add_sub_cancel, sub_self, zpow_zero]
    calc (num : ℚ)
        = 10 ^ (1 - (digitCount m : Int)) * (10 ^ ((digitCount m : Int) - 1) * num) := by
          rw [← mul_assoc, hone, one_mul]
      _ ≤ 10 ^ (1 - (digitCount m : Int)) * (m * num) := by gcongr
      _ < 10 ^ (1 - (digitCount m : Int)) * den := by
          gcongr
          exact_mod_cast hbelow

theorem magnitude_bounds {num den : Nat} (hnum : num ≠ 0) (hden : den ≠ 0) :
    (10 : ℚ) ^ (magnitude num den - 1) ≤ num / den ∧
      (num / den : ℚ) < 10 ^ magnitude num den := by
  rw [magnitude]
  split
  · rename_i hle
    exact quotient_bounds hden hle
  · rename_i hlt
    have hnumPos := Nat.pos_of_ne_zero hnum
    have htwo : 2 ≤ (den + num - 1) / num := (Nat.le_div_iff_mul_le hnumPos).mpr (by omega)
    generalize hrest : (den + num - 1) / num - 1 = m
    have hceil : (den + num - 1) / num = m + 1 := by omega
    have hbelow : m * num < den := by
      have := Nat.div_mul_le_self (den + num - 1) num
      rw [hceil, Nat.succ_mul] at this
      omega
    have habove : den ≤ (m + 1) * num := by
      have := Nat.lt_mul_of_div_lt (Nat.lt_succ_self ((den + num - 1) / num)) hnumPos
      rw [hceil, Nat.succ_mul] at this
      omega
    rw [sub_sub_cancel_left]
    exact reciprocal_bounds (by omega) hden hbelow habove

/-! ## The grid -/

/-- The multiple of a power of ten at or below a number. -/
def gridLow (d : Double) (power : Int) : Nat :=
  d.ratio.1 * 10 ^ (-power).toNat / (d.ratio.2 * 10 ^ power.toNat)

theorem gridLow_bounds (d : Double) (power : Int) :
    (gridLow d power : ℚ) * 10 ^ power ≤ d.size ∧
      d.size < ((gridLow d power + 1 : ℕ) : ℚ) * 10 ^ power := by
  obtain ⟨hratio, hden⟩ := d.ratio_eq
  have hdenPos : 0 < d.ratio.2 * 10 ^ power.toNat := by positivity
  have hscaled : d.size / 10 ^ power =
      ((d.ratio.1 * 10 ^ (-power).toNat : ℕ) : ℚ) / ((d.ratio.2 * 10 ^ power.toNat : ℕ) : ℚ) := by
    rw [← hratio, zpow_eq_div]
    push_cast
    field_simp
  constructor
  · rw [← le_div_iff₀ (by positivity), hscaled]
    rw [le_div_iff₀ (by exact_mod_cast hdenPos)]
    exact_mod_cast Nat.div_mul_le_self (d.ratio.1 * 10 ^ (-power).toNat) _
  · rw [← div_lt_iff₀ (by positivity), hscaled, div_lt_iff₀ (by exact_mod_cast hdenPos)]
    exact_mod_cast Nat.lt_mul_of_div_lt (Nat.lt_succ_self _) hdenPos

/-- A number is read back from a decimal. -/
def ReadsBack (d : Double) (power : Int) (n : Nat) : Prop :=
  Double.ofDecimal d.negative n power = some d

/-- What is found is one of the two neighbours, and reads back. -/
theorem onGrid?_cases {d : Double} {power : Int} {n : Nat} (h : onGrid? d power = some n) :
    ReadsBack d power n ∧ (n = gridLow d power ∨ n = gridLow d power + 1) := by
  simp only [onGrid?] at h
  split at h
  · cases h
  · rename_i hlow hnext
    cases h
    exact ⟨beq_iff_eq.mp hlow, Or.inl rfl⟩
  · rename_i hlow hnext
    cases h
    exact ⟨beq_iff_eq.mp hnext, Or.inr rfl⟩
  · rename_i hlow hnext
    split at h
    · cases h
      exact ⟨beq_iff_eq.mp hlow, Or.inl rfl⟩
    · cases h
      exact ⟨beq_iff_eq.mp hnext, Or.inr rfl⟩

/-- If a neighbour reads back, one is found. -/
theorem exists_onGrid? {d : Double} {power : Int}
    (h : ReadsBack d power (gridLow d power) ∨ ReadsBack d power (gridLow d power + 1)) :
    ∃ n, onGrid? d power = some n := by
  simp only [onGrid?]
  split
  · rename_i hlow hnext
    rcases h with h | h
    · cases hlow.symm.trans (beq_iff_eq.mpr h)
    · cases hnext.symm.trans (beq_iff_eq.mpr h)
  · exact ⟨_, rfl⟩
  · exact ⟨_, rfl⟩
  · split
    · exact ⟨_, rfl⟩
    · exact ⟨_, rfl⟩

/-! ## Reading back -/

/-- A decimal is between two powers of ten by its length. -/
theorem decimal_bounds {n : Nat} (hn : n ≠ 0) (power : Int) :
    (10 : ℚ) ^ ((digitCount n : Int) + power - 1) ≤ n * 10 ^ power ∧
      (n * 10 ^ power : ℚ) < 10 ^ ((digitCount n : Int) + power) := by
  obtain ⟨hlow, hhigh⟩ := digitCount_bounds hn
  have hpower : (0 : ℚ) < 10 ^ power := by positivity
  rw [add_sub_right_comm, zpow_add₀ (by norm_num), zpow_add₀ (by norm_num)]
  constructor
  · gcongr
  · gcongr

/-- A decimal that is not far off a number is neither so large nor so small
that it is not read. -/
theorem length_of_near {d : Double} (hd : d.IsFinite) (hzero : d.significand ≠ 0) {n : Nat}
    (hn : n ≠ 0) {power : Int} (hlow : d.size / 2 < n * 10 ^ power)
    (hhigh : (n * 10 ^ power : ℚ) < 2 * d.size) :
    -400 ≤ (digitCount n : Int) + power ∧ (digitCount n : Int) + power ≤ 400 := by
  obtain ⟨hleast, hmost⟩ := hd.size_bounds hzero
  obtain ⟨hbelow, habove⟩ := decimal_bounds hn power
  constructor
  · have htenth : (10 : ℚ) ^ (-400 : Int) * 10 = 10 ^ (-399 : Int) := by
      rw [← zpow_add_one₀ (by norm_num)]
      rfl
    have hpos : (0 : ℚ) < 10 ^ (-400 : Int) := by positivity
    have hlt : (10 : ℚ) ^ (-400 : Int) < 10 ^ ((digitCount n : Int) + power) := by
      rw [← htenth] at hleast
      generalize (10 : ℚ) ^ (-400 : Int) = least at hleast hpos ⊢
      linarith
    exact ((zpow_lt_zpow_iff_right₀ (by norm_num)).mp hlt).le
  · have hten : (10 : ℚ) ^ (399 : Int) * 10 = 10 ^ (400 : Int) := by
      rw [← zpow_add_one₀ (by norm_num)]
      rfl
    have hpos : (0 : ℚ) < 10 ^ (399 : Int) := by positivity
    have hlt : (10 : ℚ) ^ ((digitCount n : Int) + power - 1) < 10 ^ (400 : Int) := by
      rw [← hten]
      generalize (10 : ℚ) ^ (399 : Int) = most at hmost hpos ⊢
      linarith
    have := (zpow_lt_zpow_iff_right₀ (by norm_num)).mp hlt
    omega

/-- A decimal that is off by less than a `2 ^ 54`th part of a number reads
back as it. -/
theorem readsBack_of_near {d : Double} (hd : d.IsFinite) (hzero : d.significand ≠ 0) {n : Nat}
    {power : Int} (h : |n * 10 ^ power - d.size| * 2 ^ 54 < d.size) : ReadsBack d power n := by
  have hsize := Double.IsFinite.size_pos hzero
  have hhalf : |n * 10 ^ power - d.size| < d.size / 2 := by linarith
  obtain ⟨habove, hbelow⟩ := abs_lt.mp hhalf
  have hn : n ≠ 0 := by
    rintro rfl
    rw [Nat.cast_zero, zero_mul] at habove
    linarith
  have hlow : d.size / 2 < n * 10 ^ power := by linarith
  have hhigh : (n * 10 ^ power : ℚ) < 2 * d.size := by linarith
  obtain ⟨hlong, hshort⟩ := length_of_near hd hzero hn hlow hhigh
  have hvalue : ((n * Nat.pow 10 power.toNat : ℕ) : ℚ) / (Nat.pow 10 (-power).toNat : ℕ) =
      n * 10 ^ power := by
    rw [zpow_eq_div, Nat.pow_eq, Nat.pow_eq]
    push_cast
    ring
  have hden : Nat.pow 10 (-power).toNat ≠ 0 := pow_ne_zero _ (by decide)
  rw [← hvalue] at h
  rw [ReadsBack, Double.ofDecimal, ← digitCount, if_neg (by omega), if_neg (by omega)]
  exact Double.ofRatio_of_near hd hzero hden h

/-- With seventeen digits a neighbour is near enough. -/
theorem exists_seventeen {d : Double} (hd : d.IsFinite) (hzero : d.significand ≠ 0) {k : Int}
    (hk : (10 : ℚ) ^ (k - 1) ≤ d.size) : ∃ n, onGrid? d (k - 17) = some n := by
  obtain ⟨hlow, hhigh⟩ := gridLow_bounds d (k - 17)
  have hgap : (0 : ℚ) < 10 ^ (k - 17) := by positivity
  have hfine : 10 ^ 16 * (10 : ℚ) ^ (k - 17) ≤ d.size := by
    refine le_of_eq_of_le ?_ hk
    rw [← zpow_natCast, ← zpow_add₀ (by norm_num)]
    congr 1
    push_cast
    ring
  have hclose : ∀ n : Nat, |n * 10 ^ (k - 17) - d.size| ≤ 10 ^ (k - 17) / 2 →
      ReadsBack d (k - 17) n := by
    intro n hn
    refine readsBack_of_near hd hzero ?_
    linarith
  push_cast at hhigh
  rcases le_total (d.size - gridLow d (k - 17) * 10 ^ (k - 17)) (10 ^ (k - 17) / 2) with h | h
  · refine exists_onGrid? (Or.inl (hclose _ (abs_le.mpr ⟨?_, ?_⟩)))
    · linarith
    · linarith
  · refine exists_onGrid? (Or.inr (hclose _ (abs_le.mpr ⟨?_, ?_⟩)))
    · push_cast
      linarith
    · push_cast
      linarith

/-- A multiple found on the grid of `n` digits has no more digits, or is
the power of ten behind those. -/
theorem le_pow_of_onGrid? {d : Double} {k : Int} {n m : Nat} (hk : d.size < 10 ^ k)
    (h : onGrid? d (k - n) = some m) : m ≤ 10 ^ n := by
  obtain ⟨-, hcases⟩ := onGrid?_cases h
  have hgap : (0 : ℚ) < 10 ^ (k - n) := by positivity
  have hsplit : (10 : ℚ) ^ k = 10 ^ n * 10 ^ (k - n) := by
    rw [← zpow_natCast, ← zpow_add₀ (by norm_num), add_sub_cancel]
  have hlow : (gridLow d (k - n) : ℚ) * 10 ^ (k - n) < 10 ^ n * 10 ^ (k - n) :=
    hsplit ▸ (gridLow_bounds d (k - n)).1.trans_lt hk
  have hlt : gridLow d (k - n) < 10 ^ n := by
    exact_mod_cast lt_of_mul_lt_mul_right hlow hgap.le
  rcases hcases with rfl | rfl
  · exact hlt.le
  · exact hlt

/-- The shortest digits of a number other than zero are no more than
seventeen, and are read back as the number. -/
theorem shortest_spec {d : Double} (hd : d.IsFinite) (hzero : d.significand ≠ 0) :
    ∃ digits power, shortest d = (digits, power) ∧ digits ≠ 0 ∧ digits ≤ 10 ^ 17 ∧
      ReadsBack d power digits := by
  obtain ⟨hratio, hden⟩ := d.ratio_eq
  have hnum : d.ratio.1 ≠ 0 := by
    intro hnum
    rw [hnum, Nat.cast_zero, zero_div] at hratio
    exact (Double.IsFinite.size_pos hzero).ne hratio
  obtain ⟨hlow, hhigh⟩ := magnitude_bounds hnum hden
  rw [hratio] at hlow hhigh
  have hshortest : shortest d =
      ((List.range 17).findSome? fun n =>
        (onGrid? d (magnitude d.ratio.1 d.ratio.2 - (n + 1 : Nat))).map fun digits =>
          (digits, magnitude d.ratio.1 d.ratio.2 - (n + 1 : Nat))).getD (0, 0) := rfl
  rw [hshortest]
  generalize magnitude d.ratio.1 d.ratio.2 = k at hlow hhigh
  cases hfound : (List.range 17).findSome? fun n =>
      (onGrid? d (k - (n + 1 : Nat))).map fun digits => (digits, k - (n + 1 : Nat)) with
  | none =>
      obtain ⟨n, hn⟩ := exists_seventeen hd hzero hlow
      have hnone := List.findSome?_eq_none_iff.mp hfound 16 (by decide)
      rw [Option.map_eq_none_iff] at hnone
      cases hn.symm.trans hnone
  | some found =>
      obtain ⟨n, hmem, hn⟩ := List.exists_of_findSome?_eq_some hfound
      obtain ⟨digits, hgrid, rfl⟩ := Option.map_eq_some_iff.mp hn
      have hback := (onGrid?_cases hgrid).1
      refine ⟨digits, _, rfl, ?_, ?_, hback⟩
      · -- zero reads back as zero
        rintro rfl
        rw [ReadsBack, Double.ofDecimal, if_pos (Or.inl rfl)] at hback
        exact hzero (congrArg Double.significand (Option.some.inj hback)).symm
      · have hn : n < 17 := List.mem_range.mp hmem
        calc digits ≤ 10 ^ (n + 1) := le_pow_of_onGrid? hhigh hgrid
          _ ≤ 10 ^ 17 := Nat.pow_le_pow_right (by decide) hn

end Decimal

end Tsql
