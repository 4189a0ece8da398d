import Chunkwise.Proofs.Number.Rounding
import Mathlib.Algebra.Order.Floor.Semifield

/-!
# Order and accuracy of rounding

A larger quotient is never rounded to a smaller fraction, and a rounded quotient is within half a unit of the exact
one. Half a unit is at most a 2⁵³rd part of a quotient that is not too small.
-/

namespace Chunkwise

/-! ## Rounding to an integer -/

/-- Rounding looks at the quotient alone. -/
theorem roundDiv_mul_left {k : ℕ} (positive : 0 < k) (num den : ℕ) :
    roundDiv (k * num) (k * den) = roundDiv num den := by
  have half : 2 * (k * num % (k * den)) < k * den ↔ 2 * (num % den) < den := by
    rw [Nat.mul_mod_mul_left, Nat.mul_left_comm, Nat.mul_lt_mul_left positive]
  have half' : k * den < 2 * (k * num % (k * den)) ↔ den < 2 * (num % den) := by
    rw [Nat.mul_mod_mul_left, Nat.mul_left_comm, Nat.mul_lt_mul_left positive]
  simp only [roundDiv, half, half', Nat.mul_div_mul_left num den positive]

/-- A larger quotient is not rounded to a smaller integer. -/
theorem roundDiv_mono {num den num' den' : ℕ} (denPos : 0 < den) (denPos' : 0 < den')
    (le : num * den' ≤ num' * den) : roundDiv num den ≤ roundDiv num' den' := by
  rw [← roundDiv_mul_left denPos' num den, ← roundDiv_mul_left denPos num' den', Nat.mul_comm den' den,
    Nat.mul_comm den' num, Nat.mul_comm den num']
  have common : 0 < den * den' := Nat.mul_pos denPos denPos'
  generalize den * den' = d at common ⊢
  rcases le.eq_or_lt with same | less
  · rw [same]
  · have near := (roundDiv_near (num * den') common).1
    have near' := (roundDiv_near (num' * den) common).2
    by_contra below
    have step : (roundDiv (num' * den) d + 1) * d ≤ roundDiv (num * den') d * d := Nat.mul_le_mul_right d (by omega)
    rw [Nat.add_mul] at step
    omega

/-- Equal quotients are rounded to the same integer. -/
theorem roundDiv_congr {num den num' den' : ℕ} (denPos : 0 < den) (denPos' : 0 < den')
    (same : num * den' = num' * den) : roundDiv num den = roundDiv num' den' :=
  le_antisymm (roundDiv_mono denPos denPos' same.le) (roundDiv_mono denPos' denPos same.ge)

theorem abs_roundDiv_sub_le (num : ℕ) {den : ℕ} (denPos : 0 < den) : |(roundDiv num den : ℚ) - num / den| ≤ 1 / 2 := by
  have denPos' : (0 : ℚ) < den := by exact_mod_cast denPos
  obtain ⟨above, below⟩ := roundDiv_near num denPos
  have above' : 2 * ((roundDiv num den : ℚ) * den) ≤ 2 * num + den := by exact_mod_cast above
  have below' : 2 * (num : ℚ) ≤ 2 * ((roundDiv num den : ℚ) * den) + den := by exact_mod_cast below
  rw [abs_le, neg_le_sub_iff_le_add, sub_le_iff_le_add, div_le_iff₀ denPos', ← sub_le_iff_le_add', le_div_iff₀ denPos']
  constructor <;> linarith

/-- A quotient is rounded to the integer that is less than half a unit away from it. -/
theorem roundDiv_eq_of_abs_lt {num den m : ℕ} (denPos : 0 < den) (near : |(num : ℚ) / den - m| < 1 / 2) :
    roundDiv num den = m := by
  have apart : |(roundDiv num den : ℚ) - m| < 1 := by
    calc |(roundDiv num den : ℚ) - m| ≤ |(roundDiv num den : ℚ) - num / den| + |(num : ℚ) / den - m| :=
          abs_sub_le ..
      _ < 1 / 2 + 1 / 2 := add_lt_add_of_le_of_lt (abs_roundDiv_sub_le num denPos) near
      _ = 1 := by norm_num
  have integers : |(roundDiv num den : ℤ) - m| < 1 := by exact_mod_cast apart
  rw [Int.abs_lt_one_iff] at integers
  omega

namespace Binary

variable {num den : ℕ}

theorem value_nonneg (b : Binary) : 0 ≤ b.value := by
  rw [value]
  positivity

/-- A rounded quotient in units of its last place. -/
theorem value_nearest (numPos : 0 < num) : (nearest num den).value =
    roundDiv (num * twoPow (-unitExponent num den).toNat) (den * twoPow (unitExponent num den).toNat) *
      2 ^ unitExponent num den := by simp [nearest, numPos.ne', value]

theorem value_nearest_zero (den : ℕ) : (nearest 0 den).value = 0 := by simp [nearest, value]

theorem num_pos_of_le {k : ℤ} (denPos : 0 < den) (reached : (2 : ℚ) ^ k ≤ (num : ℚ) / den) : 0 < num := by
  have positive := (two_zpow_pos k).trans_le reached
  rw [div_pos_iff_of_pos_right (by exact_mod_cast denPos)] at positive
  exact_mod_cast positive

/-! ## Accuracy -/

/-- A rounded quotient is within half a unit of the exact one. -/
theorem abs_value_nearest_sub_le (numPos : 0 < num) (denPos : 0 < den) :
    |(nearest num den).value - num / den| ≤ 2 ^ unitExponent num den / 2 := by
  have unitPos := two_zpow_pos (unitExponent num den)
  have near := abs_roundDiv_sub_le (num * twoPow (-unitExponent num den).toNat)
    (Nat.mul_pos denPos (twoPow_pos (unitExponent num den).toNat))
  rw [scaled_quotient] at near
  calc |(nearest num den).value - num / den|
      = |(roundDiv (num * twoPow (-unitExponent num den).toNat) (den * twoPow (unitExponent num den).toNat) : ℚ) -
          num / den / 2 ^ unitExponent num den| * 2 ^ unitExponent num den := by
        rw [value_nearest numPos, ← abs_of_pos unitPos, ← abs_mul, sub_mul, abs_of_pos unitPos,
          div_mul_cancel₀ _ unitPos.ne']
    _ ≤ 1 / 2 * 2 ^ unitExponent num den := by gcongr
    _ = 2 ^ unitExponent num den / 2 := by ring

/-- A quotient that is not too small is rounded up by at most a 2⁵³rd part of it. -/
theorem value_nearest_le_mul (denPos : 0 < den) (reached : (2 : ℚ) ^ (-1022 : ℤ) ≤ (num : ℚ) / den) :
    (nearest num den).value ≤ (num : ℚ) / den * (1 + 2 ^ (-53 : ℤ)) := by
  have numPos : 0 < num := num_pos_of_le denPos reached
  obtain ⟨low, high⟩ := magnitude_spec numPos denPos
  have normal : -1022 ≤ magnitude num den :=
    Int.lt_add_one_iff.mp ((zpow_lt_zpow_iff_right₀ one_lt_two).mp (reached.trans_lt high))
  have unit : unitExponent num den = magnitude num den - 52 := by
    unfold unitExponent
    omega
  have half : (2 : ℚ) ^ unitExponent num den / 2 = 2 ^ magnitude num den * 2 ^ (-53 : ℤ) := by
    rw [unit, ← zpow_add₀ two_ne_zero, div_eq_mul_inv, ← zpow_sub_one₀ two_ne_zero]
    congr 1
    omega
  have near := (abs_le.mp (abs_value_nearest_sub_le numPos denPos)).2
  rw [half] at near
  calc (nearest num den).value ≤ (num : ℚ) / den + 2 ^ magnitude num den * 2 ^ (-53 : ℤ) := by linarith
    _ ≤ (num : ℚ) / den + (num : ℚ) / den * 2 ^ (-53 : ℤ) := by gcongr
    _ = (num : ℚ) / den * (1 + 2 ^ (-53 : ℤ)) := by ring

/-- A quotient below `2 ^ k` is rounded by at most `2 ^ (k - 54)`, when it is not too small. -/
theorem abs_value_nearest_sub_le_of_lt {k : ℤ} (denPos : 0 < den) (small : (num : ℚ) / den < 2 ^ k)
    (low : -1021 ≤ k) : |(nearest num den).value - num / den| ≤ 2 ^ (k - 54) := by
  rcases Nat.eq_zero_or_pos num with rfl | numPos
  · rw [value_nearest_zero, Nat.cast_zero, zero_div, sub_zero, abs_zero]
    positivity
  · have atLeast := (magnitude_spec numPos denPos).1
    have magnitudeLt : magnitude num den < k := (zpow_lt_zpow_iff_right₀ one_lt_two).mp (atLeast.trans_lt small)
    have unit : unitExponent num den ≤ k - 53 := by
      unfold unitExponent
      omega
    calc |(nearest num den).value - num / den| ≤ 2 ^ unitExponent num den / 2 :=
          abs_value_nearest_sub_le numPos denPos
      _ = 2 ^ (unitExponent num den - 1) := by rw [div_eq_mul_inv, ← zpow_sub_one₀ two_ne_zero]
      _ ≤ 2 ^ (k - 54) := zpow_le_zpow_right₀ one_le_two (by omega)

/-- A quotient up to one is rounded by at most 2⁻⁵³. -/
theorem abs_value_nearest_sub_le_of_le_one (denPos : 0 < den) (le : num ≤ den) :
    |(nearest num den).value - num / den| ≤ 2 ^ (-53 : ℤ) := by
  have atMost : (num : ℚ) / den ≤ 1 := by
    rw [div_le_one (by exact_mod_cast denPos)]
    exact_mod_cast le
  have below : (num : ℚ) / den < 2 ^ (1 : ℤ) := atMost.trans_lt (by norm_num)
  have near := abs_value_nearest_sub_le_of_lt denPos below (by norm_num)
  rwa [Int.sub_eq_add_neg, show (1 + -54 : ℤ) = -53 from rfl] at near

/-- A fraction with at most 53 bits is not rounded at all. -/
theorem value_nearest_eq {n j : ℕ} (small : n < 2 ^ 53) (range : j ≤ 1074) :
    (nearest n (twoPow j)).value = n / 2 ^ j := by
  rcases Nat.eq_zero_or_pos n with rfl | positive
  · rw [value_nearest_zero, Nat.cast_zero, zero_div]
  · have atLeast := (magnitude_spec positive (twoPow_pos j)).1
    have below : (n : ℚ) / twoPow j < 2 ^ (53 - j : ℤ) := by
      rw [twoPow_eq, zpow_sub₀ two_ne_zero, zpow_natCast, Nat.cast_pow, Nat.cast_ofNat]
      gcongr
      exact_mod_cast small
    have magnitudeLt : magnitude n (twoPow j) < 53 - j :=
      (zpow_lt_zpow_iff_right₀ one_lt_two).mp (atLeast.trans_lt below)
    -- The unit divides the fraction.
    obtain ⟨t, unit⟩ : ∃ t : ℕ, unitExponent n (twoPow j) = -(j + t : ℤ) := by
      refine ⟨(-unitExponent n (twoPow j) - j).toNat, ?_⟩
      unfold unitExponent
      omega
    have whole : (n : ℚ) / twoPow j / 2 ^ unitExponent n (twoPow j) = (n * 2 ^ t : ℕ) := by
      rw [unit, zpow_neg, zpow_add₀ two_ne_zero, zpow_natCast, zpow_natCast, twoPow_eq]
      push_cast
      field_simp
    have scaledPos := Nat.mul_pos (twoPow_pos j) (twoPow_pos (unitExponent n (twoPow j)).toNat)
    rw [value_nearest positive, roundDiv_eq_of_abs_lt scaledPos (by rw [scaled_quotient, whole, sub_self]; norm_num),
      ← whole, div_mul_cancel₀ _ (two_zpow_pos _).ne', twoPow_eq]
    norm_num

/-! ## Order -/

/-- A quotient that reaches a power of two is not rounded below it. -/
theorem le_value_nearest {k : ℤ} (denPos : 0 < den) (reached : (2 : ℚ) ^ k ≤ (num : ℚ) / den) (low : -1074 ≤ k) :
    (2 : ℚ) ^ k ≤ (nearest num den).value := by
  have numPos : 0 < num := num_pos_of_le denPos reached
  obtain ⟨atLeast, high⟩ := magnitude_spec numPos denPos
  have magnitudeGe : k ≤ magnitude num den :=
    Int.lt_add_one_iff.mp ((zpow_lt_zpow_iff_right₀ one_lt_two).mp (reached.trans_lt high))
  set e := unitExponent num den with unit
  obtain ⟨t, steps⟩ : ∃ t : ℕ, magnitude num den = t + e := by
    refine ⟨(magnitude num den - e).toNat, ?_⟩
    simp only [unit, unitExponent]
    omega
  have scaledPos : 0 < den * twoPow e.toNat := Nat.mul_pos denPos (twoPow_pos _)
  have many : den * twoPow e.toNat * 2 ^ t ≤ num * twoPow (-e).toNat := by
    have scaled : (2 : ℚ) ^ t ≤ ((num * twoPow (-e).toNat : ℕ) : ℚ) / (den * twoPow e.toNat : ℕ) := by
      rw [scaled_quotient, le_div_iff₀ (two_zpow_pos e), ← zpow_natCast, ← zpow_add₀ two_ne_zero, ← steps]
      exact atLeast
    rw [le_div_iff₀ (by exact_mod_cast scaledPos), mul_comm] at scaled
    exact_mod_cast scaled
  have units : (2 : ℚ) ^ t ≤ roundDiv (num * twoPow (-e).toNat) (den * twoPow e.toNat) := by
    exact_mod_cast le_roundDiv scaledPos many
  calc (2 : ℚ) ^ k ≤ 2 ^ magnitude num den := zpow_le_zpow_right₀ one_le_two magnitudeGe
    _ = 2 ^ t * 2 ^ e := by rw [steps, zpow_add₀ two_ne_zero, zpow_natCast]
    _ ≤ (nearest num den).value := by
      rw [value_nearest numPos]
      gcongr

theorem one_le_value_iff (b : Binary) : 1 ≤ b.value ↔ b.den ≤ b.num := by
  rw [value_eq_div, one_le_div (by exact_mod_cast b.den_pos)]
  exact_mod_cast Iff.rfl

theorem one_le_value_nearest (denPos : 0 < den) (le : den ≤ num) : 1 ≤ (nearest num den).value := by
  have reached : (2 : ℚ) ^ (0 : ℤ) ≤ (num : ℚ) / den := by
    rw [zpow_zero, one_le_div (by exact_mod_cast denPos)]
    exact_mod_cast le
  have kept := le_value_nearest denPos reached (by norm_num)
  rwa [zpow_zero] at kept

/-- A fraction of at least one is still that when it is rounded to a tenth. -/
theorem one_le_value_roundTenth {b : Binary} (reached : 1 ≤ b.value) : 1 ≤ b.roundTenth.value := by
  have whole := (one_le_value_iff b).mp reached
  have tenths : 10 ≤ roundDiv (10 * b.num) b.den := le_roundDiv b.den_pos (by omega)
  exact one_le_value_nearest (by decide) tenths

/-- A larger quotient is not rounded to a smaller fraction. -/
theorem value_nearest_mono {num' den' : ℕ} (denPos : 0 < den) (denPos' : 0 < den')
    (le : (num : ℚ) / den ≤ num' / den') : (nearest num den).value ≤ (nearest num' den').value := by
  rcases Nat.eq_zero_or_pos num with rfl | numPos
  · rw [value_nearest_zero]
    exact value_nonneg _
  have positive : (0 : ℚ) < num / den := div_pos (by exact_mod_cast numPos) (by exact_mod_cast denPos)
  have numPos' : 0 < num' := by
    rcases Nat.eq_zero_or_pos num' with rfl | some
    · simp only [Nat.cast_zero, zero_div] at le
      exact absurd le positive.not_ge
    · exact some
  obtain ⟨low, high⟩ := magnitude_spec numPos denPos
  obtain ⟨low', high'⟩ := magnitude_spec numPos' denPos'
  have magnitudeLe : magnitude num den ≤ magnitude num' den' :=
    Int.lt_add_one_iff.mp ((zpow_lt_zpow_iff_right₀ one_lt_two).mp ((low.trans le).trans_lt high'))
  by_cases same : unitExponent num den = unitExponent num' den'
  · -- In one unit the mantissas are compared.
    rw [value_nearest numPos, value_nearest numPos', same]
    have scaled := div_le_div_of_nonneg_right le (two_zpow_pos (unitExponent num' den')).le
    rw [← scaled_quotient, ← scaled_quotient] at scaled
    have scaledPos : 0 < den * twoPow (unitExponent num' den').toNat := Nat.mul_pos denPos (twoPow_pos _)
    have scaledPos' : 0 < den' * twoPow (unitExponent num' den').toNat := Nat.mul_pos denPos' (twoPow_pos _)
    rw [div_le_div_iff₀ (by exact_mod_cast scaledPos) (by exact_mod_cast scaledPos')] at scaled
    gcongr
    exact roundDiv_mono scaledPos scaledPos' (by exact_mod_cast scaled)
  · -- Between different units there is a power of two.
    have higher : magnitude num den < magnitude num' den' ∧ -1021 ≤ magnitude num' den' := by
      unfold unitExponent at same
      omega
    have below : (num : ℚ) / den < 2 ^ magnitude num' den' :=
      high.trans_le (zpow_le_zpow_right₀ one_le_two higher.1)
    exact (value_nearest_le denPos below higher.2).trans (le_value_nearest denPos' low' (by omega))

/-- The difference of a rounded quotient from one is rounded once more. -/
theorem abs_value_oneMinus_sub_le (denPos : 0 < den) (le : num ≤ den) :
    |(nearest num den).oneMinus.value - (1 - (num : ℚ) / den)| ≤ 2 ^ (-52 : ℤ) := by
  set b := nearest num den
  have denPos' : (0 : ℚ) < den := by exact_mod_cast denPos
  have atMost : b.value ≤ 1 := by
    have one : (nearest 1 1).value = 1 := by
      have is : nearest 1 1 = ⟨2 ^ 52, -52⟩ := by decide
      rw [is, value]
      norm_num
    rw [← one]
    refine value_nearest_mono denPos one_pos ?_
    rw [Nat.cast_one, div_one, div_le_one denPos']
    exact_mod_cast le
  have numLe : b.num ≤ b.den := by
    rw [value_eq_div, div_le_one (by exact_mod_cast b.den_pos)] at atMost
    exact_mod_cast atMost
  have exact : ((b.den - b.num : ℕ) : ℚ) / b.den = 1 - b.value := by
    have den' : (b.den : ℚ) ≠ 0 := by exact_mod_cast b.den_pos.ne'
    rw [Nat.cast_sub numLe, sub_div, div_self den', value_eq_div]
  have first : |b.value - (num : ℚ) / den| ≤ 2 ^ (-53 : ℤ) := abs_value_nearest_sub_le_of_le_one denPos le
  have second : |b.oneMinus.value - (1 - b.value)| ≤ 2 ^ (-53 : ℤ) := by
    rw [← exact]
    exact abs_value_nearest_sub_le_of_le_one b.den_pos (Nat.sub_le ..)
  calc |b.oneMinus.value - (1 - (num : ℚ) / den)|
      = |(b.oneMinus.value - (1 - b.value)) - (b.value - (num : ℚ) / den)| := by ring_nf
    _ ≤ 2 ^ (-53 : ℤ) + 2 ^ (-53 : ℤ) := (abs_sub ..).trans (add_le_add second first)
    _ = 2 ^ (-52 : ℤ) := by norm_num

/-! ## Integers and products -/

theorem value_ofNat_mono {n m : ℕ} (le : n ≤ m) : (ofNat n).value ≤ (ofNat m).value := by
  refine value_nearest_mono one_pos one_pos ?_
  gcongr

/-- A positive integer is rounded to at least one and up by at most a 2⁵³rd part. -/
theorem value_ofNat_bounds {n : ℕ} (positive : 0 < n) :
    1 ≤ (ofNat n).value ∧ (ofNat n).value ≤ n * (1 + 2 ^ (-53 : ℤ)) := by
  have reached : 1 ≤ (n : ℚ) / (1 : ℕ) := by
    rw [Nat.cast_one, div_one]
    exact_mod_cast positive
  have high := value_nearest_le_mul one_pos ((zpow_le_one_of_nonpos₀ one_le_two (by norm_num)).trans reached)
  rw [Nat.cast_one, div_one] at high
  exact ⟨one_le_value_nearest one_pos positive, high⟩

theorem value_mul_mono {a b : Binary} (le : a.value ≤ b.value) (c : Binary) : (a.mul c).value ≤ (b.mul c).value := by
  refine value_nearest_mono (mul_den_pos a c) (mul_den_pos b c) ?_
  rw [mul_quotient, mul_quotient]
  exact mul_le_mul_of_nonneg_right le (value_nonneg c)

/-- A product that is not too small is rounded up by at most a 2⁵³rd part of it. -/
theorem value_mul_le {a b : Binary} (reached : (2 : ℚ) ^ (-1022 : ℤ) ≤ a.value * b.value) :
    (a.mul b).value ≤ a.value * b.value * (1 + 2 ^ (-53 : ℤ)) := by
  rw [← mul_quotient] at reached ⊢
  exact value_nearest_le_mul (mul_den_pos a b) reached

/-! ## Whole parts -/

theorem floor_eq (b : Binary) : b.floor = ⌊b.value⌋₊ := by
  rw [value_eq_div, Nat.floor_div_eq_div, floor]

theorem floor_mono {a b : Binary} (le : a.value ≤ b.value) : a.floor ≤ b.floor := by
  rw [floor_eq, floor_eq]
  exact Nat.floor_le_floor le

end Binary

end Chunkwise
