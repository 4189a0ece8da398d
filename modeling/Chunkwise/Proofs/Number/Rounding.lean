import Chunkwise.Number.Binary
import Mathlib.Tactic

/-!
# Values and rounding of binary fractions

The value of a binary fraction as a rational number, and how far rounding can take a quotient up: a quotient
below a power of two is not rounded beyond it. So a quotient that is small enough lies in the range of the format.
-/

namespace Chunkwise.Binary

/-- The rational number that a fraction stands for. -/
def value (b : Binary) : ℚ := b.mantissa * 2 ^ b.exponent

/-! ## Powers of two with integer exponents -/

theorem twoPow_eq (n : ℕ) : twoPow n = 2 ^ n := rfl

private theorem two_zpow_eq (x : ℤ) : (2 : ℚ) ^ x = (twoPow x.toNat : ℚ) / twoPow (-x).toNat := by
  rcases le_total 0 x with up | down
  · obtain ⟨n, rfl⟩ := Int.eq_ofNat_of_zero_le up
    simp [twoPow_eq]
  · obtain ⟨n, same⟩ := Int.eq_ofNat_of_zero_le (show 0 ≤ -x by omega)
    obtain rfl : x = -(n : ℤ) := by omega
    simp [twoPow_eq, Int.toNat_of_nonpos down]

theorem two_zpow_pos (x : ℤ) : (0 : ℚ) < 2 ^ x := by positivity

theorem value_eq_div (b : Binary) : b.value = (b.num : ℚ) / b.den := by
  rw [value, two_zpow_eq, num, den, Nat.cast_mul, mul_div_assoc]

/-- The quotient that a product is rounded from. -/
theorem mul_quotient (a b : Binary) : ((a.num * b.num : ℕ) : ℚ) / (a.den * b.den : ℕ) = a.value * b.value := by
  rw [Nat.cast_mul, Nat.cast_mul, mul_div_mul_comm, ← value_eq_div, ← value_eq_div]

theorem mul_den_pos (a b : Binary) : 0 < a.den * b.den := Nat.mul_pos a.den_pos b.den_pos

/-- A quotient in units of `2 ^ e`, as the quotient of natural numbers that rounding works with. -/
theorem scaled_quotient (num den : ℕ) (e : ℤ) :
    ((num * twoPow (-e).toNat : ℕ) : ℚ) / (den * twoPow e.toNat : ℕ) = (num : ℚ) / den / 2 ^ e := by
  rw [two_zpow_eq e, Nat.cast_mul, Nat.cast_mul, div_div_eq_mul_div, div_mul_eq_mul_div, div_div]

/-! ## The magnitude of a quotient -/

private theorem log2_bounds {n : ℕ} (positive : 0 < n) :
    (2 : ℚ) ^ (n.log2 : ℤ) ≤ n ∧ (n : ℚ) < 2 ^ ((n.log2 : ℤ) + 1) := by
  have low : 2 ^ n.log2 ≤ n := Nat.log2_self_le positive.ne'
  have high : n < 2 ^ (n.log2 + 1) := Nat.lt_log2_self
  constructor
  · rw [zpow_natCast]; exact_mod_cast low
  · rw [← Nat.cast_succ, zpow_natCast]; exact_mod_cast high

/-- The magnitude of a quotient is its binary logarithm, rounded down. -/
theorem magnitude_spec {num den : ℕ} (numPos : 0 < num) (denPos : 0 < den) :
    (2 : ℚ) ^ magnitude num den ≤ (num : ℚ) / den ∧ (num : ℚ) / den < 2 ^ (magnitude num den + 1) := by
  have denPos' : (0 : ℚ) < den := by exact_mod_cast denPos
  obtain ⟨numLow, numHigh⟩ := log2_bounds numPos
  obtain ⟨denLow, denHigh⟩ := log2_bounds denPos
  -- Whether the guess is kept depends on whether the quotient reaches that power of two.
  have kept : ∀ g : ℤ, den * twoPow g.toNat ≤ num * twoPow (-g).toNat ↔ (2 : ℚ) ^ g ≤ (num : ℚ) / den := by
    intro g
    have scale : (0 : ℚ) < twoPow (-g).toNat := by exact_mod_cast Nat.pow_pos (by decide : 0 < 2)
    rw [two_zpow_eq g, div_le_div_iff₀ scale denPos', mul_comm (twoPow g.toNat : ℚ)]
    exact_mod_cast Iff.rfl
  have upper : (num : ℚ) / den < 2 ^ ((num.log2 : ℤ) - den.log2 + 1) := by
    rw [div_lt_iff₀ denPos']
    calc (num : ℚ) < 2 ^ ((num.log2 : ℤ) + 1) := numHigh
      _ = 2 ^ ((num.log2 : ℤ) - den.log2 + 1) * 2 ^ (den.log2 : ℤ) := by
        rw [← zpow_add₀ two_ne_zero]; congr 1; ring
      _ ≤ 2 ^ ((num.log2 : ℤ) - den.log2 + 1) * den := by gcongr
  have lower : (2 : ℚ) ^ ((num.log2 : ℤ) - den.log2 - 1) ≤ (num : ℚ) / den := by
    rw [le_div_iff₀ denPos']
    calc (2 : ℚ) ^ ((num.log2 : ℤ) - den.log2 - 1) * den
        ≤ 2 ^ ((num.log2 : ℤ) - den.log2 - 1) * 2 ^ ((den.log2 : ℤ) + 1) := by gcongr
      _ = 2 ^ (num.log2 : ℤ) := by rw [← zpow_add₀ two_ne_zero]; congr 1; ring
      _ ≤ num := numLow
  simp only [magnitude, kept]
  split_ifs with reached
  · exact ⟨reached, upper⟩
  · exact ⟨lower, by simpa using not_le.mp reached⟩

/-! ## Rounding up -/

/-- A quotient below `bound` is not rounded beyond it. -/
theorem roundDiv_le {num den bound : ℕ} (denPos : 0 < den) (small : num < den * bound) : roundDiv num den ≤ bound := by
  have near := (roundDiv_near num denPos).1
  have double : 2 * (roundDiv num den * den) < (2 * bound + 1) * den := by
    calc 2 * (roundDiv num den * den) ≤ 2 * num + den := near
      _ < 2 * (den * bound) + den := by omega
      _ = (2 * bound + 1) * den := by ring
  have : 2 * roundDiv num den < 2 * bound + 1 := by
    refine Nat.lt_of_mul_lt_mul_right (a := den) ?_
    rwa [mul_assoc]
  omega

/-- What rounding makes of a positive quotient below `2 ^ k`: the unit is one of at most `2 ^ k`, and no more of
    them are taken than make `2 ^ k`. -/
private theorem nearest_bounds {num den : ℕ} {k : ℤ} (numPos : 0 < num) (denPos : 0 < den)
    (small : (num : ℚ) / den < 2 ^ k) (low : -1021 ≤ k) :
    ∃ t : ℕ, (nearest num den).exponent + t = k ∧ (nearest num den).mantissa ≤ 2 ^ t := by
  obtain ⟨atLeast, _⟩ := magnitude_spec numPos denPos
  have below : magnitude num den < k := by
    have := lt_of_le_of_lt atLeast small
    exact (zpow_lt_zpow_iff_right₀ (by norm_num : (1 : ℚ) < 2)).mp this
  set e := unitExponent num den with unit
  have unitLe : e ≤ k := by simp only [unit, unitExponent]; omega
  obtain ⟨t, steps⟩ := Int.eq_ofNat_of_zero_le (show 0 ≤ k - e by omega)
  have shape : nearest num den = ⟨roundDiv (num * twoPow (-e).toNat) (den * twoPow e.toNat), e⟩ := by
    simp [nearest, numPos.ne', unit]
  have scaledPos : 0 < den * twoPow e.toNat := Nat.mul_pos denPos (Nat.pow_pos (by decide))
  refine ⟨t, by rw [shape]; simp only; omega, ?_⟩
  rw [shape]
  refine roundDiv_le scaledPos ?_
  have : ((num * twoPow (-e).toNat : ℕ) : ℚ) / (den * twoPow e.toNat : ℕ) < 2 ^ t := by
    rw [scaled_quotient, div_lt_iff₀ (two_zpow_pos e), ← zpow_natCast, ← zpow_add₀ two_ne_zero]
    rwa [show (t : ℤ) + e = k by omega]
  rw [div_lt_iff₀ (by exact_mod_cast scaledPos)] at this
  rw [Nat.mul_comm (den * twoPow e.toNat)]
  exact_mod_cast this

/-- A quotient below a power of two is not rounded beyond it. -/
theorem value_nearest_le {num den : ℕ} {k : ℤ} (denPos : 0 < den) (small : (num : ℚ) / den < 2 ^ k)
    (low : -1021 ≤ k) : (nearest num den).value ≤ 2 ^ k := by
  rcases Nat.eq_zero_or_pos num with zero | numPos
  · simp [nearest, zero, value]
    exact (two_zpow_pos k).le
  · obtain ⟨t, steps, few⟩ := nearest_bounds numPos denPos small low
    calc (nearest num den).value ≤ 2 ^ t * 2 ^ (nearest num den).exponent := by
          rw [value]; gcongr; exact_mod_cast few
      _ = 2 ^ k := by rw [← zpow_natCast, ← zpow_add₀ two_ne_zero]; congr 1; omega

/-- A quotient below `2 ^ k` lies in the range of the format, when `2 ^ k` does. -/
theorem fits_nearest {num den : ℕ} {k : ℤ} (denPos : 0 < den) (small : (num : ℚ) / den < 2 ^ k) (low : -1021 ≤ k)
    (range : k < 1024) : (nearest num den).fits := by
  rcases Nat.eq_zero_or_pos num with zero | numPos
  · simp [nearest, zero, fits]
  · obtain ⟨t, steps, few⟩ := nearest_bounds numPos denPos small low
    have digits : (nearest num den).mantissa.log2 ≤ t := by
      rcases Nat.eq_zero_or_pos (nearest num den).mantissa with zero | positive
      · simp [zero]
      · exact (Nat.pow_le_pow_iff_right (by decide : 1 < 2)).mp ((Nat.log2_self_le positive.ne').trans few)
    simp only [fits, decide_eq_true_eq]
    omega

/-! ## The range of the format -/

theorem twoPow_pos (n : ℕ) : 0 < twoPow n := Nat.pow_pos (by decide)

theorem twoPow_le_twoPow {m n : ℕ} (le : m ≤ n) : twoPow m ≤ twoPow n := Nat.pow_le_pow_right (by decide) le

/-- The least number that is rounded out of the range: half a unit below 2¹⁰²⁴. -/
@[irreducible] def limit : ℕ := (2 ^ 54 - 1) * twoPow 970

theorem limit_eq : limit = (2 ^ 54 - 1) * twoPow 970 := by
  delta limit
  rfl

theorem limit_pos : 0 < limit := by
  rw [limit_eq]
  exact Nat.mul_pos (by norm_num) (twoPow_pos 970)

theorem twoPow_le_limit : twoPow 1023 ≤ limit := by
  have split : twoPow 1023 = 2 ^ 53 * twoPow 970 := by rw [twoPow_eq, twoPow_eq, ← pow_add]
  rw [split, limit_eq]
  omega

theorem limit_le_twoPow : limit ≤ twoPow 1024 := by
  have split : twoPow 1024 = 2 ^ 54 * twoPow 970 := by rw [twoPow_eq, twoPow_eq, ← pow_add]
  rw [split, limit_eq]
  omega

theorem lt_two_pow {n k : ℕ} (below : n < k) : n < 2 ^ k := below.trans Nat.lt_two_pow_self

theorem lt_limit {n k : ℕ} (small : n < 2 ^ k) (range : k ≤ 1023) : n < limit :=
  small.trans_le ((twoPow_le_twoPow range).trans twoPow_le_limit)

theorem le_roundDiv {num den bound : ℕ} (denPos : 0 < den) (atLeast : den * bound ≤ num) :
    bound ≤ roundDiv num den := by
  have floor : bound ≤ num / den := (Nat.le_div_iff_mul_le denPos).mpr (by rwa [Nat.mul_comm])
  unfold roundDiv
  dsimp only
  split_ifs <;> omega

/-- A quotient is rounded to an even bound as soon as it is within half a unit of it. -/
theorem roundDiv_lt_iff {num den half : ℕ} (denPos : 0 < den) (some : 0 < half) :
    roundDiv num den < 2 * half ↔ 2 * num < (4 * half - 1) * den := by
  obtain ⟨q, quotient⟩ : ∃ q, num / den = q := ⟨_, rfl⟩
  have split := Nat.div_add_mod num den
  have small := Nat.mod_lt num denPos
  have bound : (4 * half - 1) * den + den = 2 * (2 * half * den) := by
    rw [Nat.sub_mul, one_mul, Nat.sub_add_cancel (Nat.le_mul_of_pos_left den (by omega))]
    ring
  rw [quotient] at split
  have rounded : roundDiv num den = if 2 * (num % den) < den then q else if den < 2 * (num % den) then q + 1
      else if q % 2 == 0 then q else q + 1 := by rw [roundDiv, quotient]
  rw [rounded]
  rcases lt_trichotomy (q + 1) (2 * half) with below | last | above
  · have : (q + 2) * den ≤ 2 * half * den := Nat.mul_le_mul_right den below
    rw [Nat.add_mul, Nat.mul_comm q] at this
    split_ifs <;> omega
  · have : (q + 1) * den = 2 * half * den := by rw [last]
    rw [Nat.add_mul, Nat.mul_comm q, one_mul] at this
    split_ifs with low high even
    · omega
    · omega
    · rw [beq_iff_eq] at even
      omega
    · omega
  · have : 2 * half * den ≤ q * den := Nat.mul_le_mul_right den (by omega)
    rw [Nat.mul_comm q] at this
    split_ifs <;> omega

private theorem quotient_lt_iff {num den k : ℕ} (denPos : 0 < den) :
    (num : ℚ) / den < 2 ^ (k : ℤ) ↔ num < den * twoPow k := by
  rw [div_lt_iff₀ (by exact_mod_cast denPos), mul_comm, twoPow_eq]
  exact_mod_cast Iff.rfl

/-- From the highest binade of the format on, rounding decides. -/
private theorem fits_iff_of_magnitude_ge {num den : ℕ} (numPos : 0 < num) (denPos : 0 < den)
    (reached : 1023 ≤ magnitude num den) : (nearest num den).fits ↔ num < den * limit := by
  have denPos' : (0 : ℚ) < den := by exact_mod_cast denPos
  obtain ⟨low, -⟩ := magnitude_spec numPos denPos
  obtain ⟨t, exponent, magnitudeIs, far⟩ :
      ∃ t : ℕ, unitExponent num den = t ∧ magnitude num den = t + 52 ∧ 971 ≤ t :=
    ⟨(magnitude num den - 52).toNat, by unfold unitExponent; omega, by omega, by omega⟩
  have shape : nearest num den = ⟨roundDiv num (den * twoPow t), t⟩ := by
    simp [nearest, numPos.ne', exponent, twoPow_eq]
  have scaledPos : 0 < den * twoPow t := Nat.mul_pos denPos (twoPow_pos t)
  have atLeast : den * twoPow t * 2 ^ 52 ≤ num := by
    rw [magnitudeIs, le_div_iff₀ denPos', zpow_add₀ two_ne_zero] at low
    rw [twoPow_eq, mul_assoc, mul_comm]
    exact_mod_cast low
  have mantissaLow : 2 ^ 52 ≤ roundDiv num (den * twoPow t) := le_roundDiv scaledPos atLeast
  have digits : (nearest num den).fits ↔ (roundDiv num (den * twoPow t)).log2 + t < 1024 := by
    simp only [fits, shape, decide_eq_true_eq]
    omega
  have atLeastDigits : 52 ≤ (roundDiv num (den * twoPow t)).log2 := (Nat.le_log2 (by omega)).mpr mantissaLow
  rw [digits]
  rcases far.eq_or_lt with rfl | farther
  · have lastUnit : twoPow 971 = 2 * twoPow 970 := by
      rw [twoPow_eq, twoPow_eq, ← pow_succ']
    calc (roundDiv num (den * twoPow 971)).log2 + 971 < 1024
        ↔ (roundDiv num (den * twoPow 971)).log2 < 53 := by omega
      _ ↔ roundDiv num (den * twoPow 971) < 2 * 2 ^ 52 := Nat.log2_lt (by omega)
      _ ↔ 2 * num < (4 * 2 ^ 52 - 1) * (den * twoPow 971) := roundDiv_lt_iff scaledPos (by positivity)
      _ ↔ num < den * limit := by
        rw [lastUnit, limit_eq, Nat.mul_left_comm den, Nat.mul_left_comm den, Nat.mul_left_comm (4 * 2 ^ 52 - 1)]
        norm_num
  · have out : 1024 ≤ (roundDiv num (den * twoPow t)).log2 + t := by omega
    have beyond : limit ≤ twoPow t * 2 ^ 52 := by
      calc limit ≤ twoPow 1024 := limit_le_twoPow
        _ ≤ twoPow (t + 52) := twoPow_le_twoPow (by omega)
        _ = twoPow t * 2 ^ 52 := by rw [twoPow_eq, twoPow_eq, ← pow_add]
    have above : den * limit ≤ num := by
      calc den * limit ≤ den * (twoPow t * 2 ^ 52) := Nat.mul_le_mul_left den beyond
        _ = den * twoPow t * 2 ^ 52 := (Nat.mul_assoc ..).symm
        _ ≤ num := atLeast
    exact iff_of_false (Nat.not_lt.mpr out) (Nat.not_lt.mpr above)

/-- A quotient is in the range of the format when it is below the limit, and only then. -/
theorem fits_nearest_iff {num den : ℕ} (denPos : 0 < den) : (nearest num den).fits ↔ num < den * limit := by
  rcases Nat.eq_zero_or_pos num with zero | numPos
  · simp [nearest, zero, fits, Nat.mul_pos denPos limit_pos]
  rcases lt_or_ge (magnitude num den) 1023 with below | reached
  · have small : (num : ℚ) / den < 2 ^ ((1023 : ℕ) : ℤ) :=
      (magnitude_spec numPos denPos).2.trans_le (zpow_le_zpow_right₀ (by norm_num) (by omega))
    have natural : num < den * twoPow 1023 := (quotient_lt_iff denPos).mp small
    exact iff_of_true (fits_nearest denPos small (by norm_num) (by norm_num))
      (natural.trans_le (Nat.mul_le_mul_left den twoPow_le_limit))
  · exact fits_iff_of_magnitude_ge numPos denPos reached

end Chunkwise.Binary
