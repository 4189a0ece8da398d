import Chunkwise.Proofs.Size

/-!
# Units of written sizes

A written size is read back as a number of at least one and the unit that was chosen for it. Below a megabyte the number
is the exact quotient, rounded once to a tenth. The unit is chosen before the rounding, so the last sizes below a
megabyte are written with a number that the next unit should have taken over: for them, and for no other size, the unit
is the wrong one.
-/

namespace Chunkwise.Size

open Text

/-! ## Reading -/

def Unit.ofSign? (sign : Text) : Option Unit := [Unit.bytes, .kilobytes, .megabytes].find? (·.sign == sign)

theorem Unit.ofSign?_sign (u : Unit) : ofSign? u.sign = some u := by cases u <;> rfl

/-- The number and the unit of a written size. -/
def read? (t : Text) : Option (ℚ × Unit) := do
  let (number, sign) ← cut? ' ' t
  return (← number? number, ← Unit.ofSign? sign)

theorem read?_append {t : Text} {q : ℚ} (read : number? t = some q) (u : Unit) :
    read? (t ++ ' ' :: u.sign) = some (q, u) := by
  have plain : ' ' ∉ t := fun blank => absurd ((figures_of_number? read).2 ' ' blank) (by decide)
  simp [read?, cut?_append plain, read, Unit.ofSign?_sign]

variable {size : ℕ}

theorem read?_text (positive : 1 ≤ size) : read? (text size) = some ((shown size).sixDigitValue, unit size) := by
  rw [text, if_neg (by omega)]
  exact read?_append (Binary.number?_sixDigits _) _

/-! ## At least one unit -/

theorem weight_le (positive : 1 ≤ size) : (unit size).weight ≤ size := by
  unfold unit
  split_ifs with small medium
  · exact positive
  · exact not_lt.mp small
  · exact not_lt.mp medium

theorem one_le_shown (positive : 1 ≤ size) : 1 ≤ (shown size).value :=
  Binary.one_le_value_roundTenth (Binary.one_le_value_nearest (weight_pos _) (weight_le positive))

/-! ## Below the largest unit -/

theorem lt_next_weight (within : unit size ≠ .megabytes) : size < 1024 * (unit size).weight := by
  unfold unit at within ⊢
  split_ifs at within ⊢ with small medium
  · exact small
  · exact medium
  · exact absurd rfl within

theorem exists_weight_eq (u : Unit) : ∃ j ≤ 20, u.weight = twoPow j := by
  cases u with
  | bytes => exact ⟨0, by decide, rfl⟩
  | kilobytes => exact ⟨10, by decide, rfl⟩
  | megabytes => exact ⟨20, by decide, rfl⟩

/-- The number of units in a size below a megabyte is a binary fraction, so that only tenths are rounded. -/
theorem value_units (within : unit size ≠ .megabytes) :
    (Binary.nearest size (unit size).weight).value = (size : ℚ) / (unit size).weight := by
  obtain ⟨j, range, power⟩ := exists_weight_eq (unit size)
  have small : size < 1024 * twoPow 20 := by
    calc size < 1024 * (unit size).weight := lt_next_weight within
      _ ≤ 1024 * twoPow 20 := by
        rw [power]
        exact Nat.mul_le_mul_left 1024 (Binary.twoPow_le_twoPow range)
  have bits : size < 2 ^ 53 := small.trans (by decide)
  rw [power, Binary.value_nearest_eq bits (by omega), Binary.twoPow_eq, Nat.cast_pow, Nat.cast_ofNat]

theorem tenths_le (within : unit size ≠ .megabytes) : roundDiv (10 * size) (unit size).weight ≤ 10240 := by
  have small := lt_next_weight within
  exact Binary.roundDiv_le (weight_pos _) (by omega)

/-- Below a megabyte the number that is read back is the exact quotient, rounded to a tenth. -/
theorem sixDigitValue_shown (within : unit size ≠ .megabytes) :
    (shown size).sixDigitValue = (roundDiv (10 * size) (unit size).weight : ℚ) / 10 := by
  have weightPos := weight_pos (unit size)
  have units := value_units within
  have few := tenths_le within
  rw [shown, Binary.roundTenth]
  generalize Binary.nearest size (unit size).weight = b at units ⊢
  have same : roundDiv (10 * b.num) b.den = roundDiv (10 * size) (unit size).weight := by
    rw [Binary.value_eq_div,
      div_eq_div_iff (by exact_mod_cast b.den_pos.ne') (by exact_mod_cast weightPos.ne')] at units
    refine roundDiv_congr b.den_pos weightPos ?_
    rw [mul_assoc, mul_assoc]
    congr 1
    exact_mod_cast units
  rw [same, Binary.sixDigitValue_nearest_tenths (by omega)]

/-! ## The right unit -/

/-- A number stands in the right unit: there is at least one of it, and not so many that they make a larger unit. -/
structure InUnit (q : ℚ) (u : Unit) : Prop where
  one_le : 1 ≤ q
  lt_next : u ≠ .megabytes → q < 1024

/-- Rounding reaches the next unit for the last 51 sizes below a megabyte only. -/
theorem tenths_lt_iff (within : unit size ≠ .megabytes) :
    (roundDiv (10 * size) (unit size).weight : ℚ) / 10 < 1024 ↔ ¬ (1048525 ≤ size ∧ size < 1048576) := by
  have tenths : (roundDiv (10 * size) (unit size).weight : ℚ) / 10 < 1024 ↔
      roundDiv (10 * size) (unit size).weight < 2 * 5120 := by
    rw [div_lt_iff₀ (by norm_num)]
    norm_num
  rw [tenths, Binary.roundDiv_lt_iff (weight_pos _) (by decide)]
  unfold unit at within ⊢
  split_ifs at within ⊢ with small medium
  · simp only [Unit.weight]
    omega
  · simp only [Unit.weight]
    omega
  · exact absurd rfl within

/-- Every size in range is written with a number of at least one, and with the right unit but for the last 51 sizes
    below a megabyte, of which the number is rounded up to 1024. -/
theorem inUnit_iff (size : ℕ) (positive : 1 ≤ size) :
    match write size with
    | .ok t => size < limit ∧ ∃ q, read? t = some (q, unit size) ∧ 1 ≤ q ∧
        (unit size ≠ .megabytes → q = (roundDiv (10 * size) (unit size).weight : ℚ) / 10 ∧ q ≤ 1024) ∧
        (InUnit q (unit size) ↔ ¬ (1048525 ≤ size ∧ size < 1048576))
    | .error fault => limit ≤ size ∧ fault = .quotientRange := by
  rcases lt_or_ge size limit with below | reached
  · rw [write_eq_ok positive below]
    have atLeast := Binary.one_le_sixDigitValue (one_le_shown positive)
    refine ⟨below, _, read?_text positive, atLeast, fun within => ?_, ?_⟩
    · rw [sixDigitValue_shown within]
      refine ⟨rfl, (div_le_iff₀ (by norm_num)).mpr ?_⟩
      exact_mod_cast tenths_le within
    · by_cases within : unit size = .megabytes
      · have large := weight_le positive
        rw [within, Unit.weight] at large
        exact iff_of_true ⟨atLeast, absurd within⟩ (by omega)
      · rw [← tenths_lt_iff within, ← sixDigitValue_shown within]
        exact ⟨fun right => right.lt_next within, fun small => ⟨atLeast, fun _ => small⟩⟩
  · rw [write_eq_error reached]
    exact ⟨reached, rfl⟩

theorem inUnit_last_tenth : 1 ≤ 1048524 ∧ ∃ q, write (1048524 : ℕ) = .ok "1023.9 KB".toList ∧
    read? "1023.9 KB".toList = some (q, .kilobytes) ∧ InUnit q .kilobytes := by
  have kilobytes : unit 1048524 = .kilobytes := by decide
  have written : write (1048524 : ℕ) = .ok "1023.9 KB".toList :=
    (write_eq_ok (by decide) ((isShowable_iff _).mp (by decide))).trans (congrArg _ (by decide))
  have right := inUnit_iff 1048524 (by decide)
  rw [written, kilobytes] at right
  obtain ⟨-, q, read, -, -, isRight⟩ := right
  exact ⟨by decide, q, written, read, isRight.mpr (by decide)⟩

/-- The last size below a megabyte is written in kilobytes, although there are as many as make a megabyte. -/
theorem next_unit_missed : write (1048575 : ℕ) = .ok "1024 KB".toList ∧
    read? "1024 KB".toList = some (1024, .kilobytes) ∧ ¬ InUnit 1024 .kilobytes := by
  refine ⟨?_, by cbv, fun right => absurd (right.lt_next (by decide)) (by norm_num)⟩
  exact (write_eq_ok (by decide) ((isShowable_iff _).mp (by decide))).trans (congrArg _ (by decide))

end Chunkwise.Size
