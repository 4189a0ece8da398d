import Chunkwise.Size
import Chunkwise.Proofs.Number.Reading
import Chunkwise.Proofs.Number.Rounding

/-!
# Written sizes

Sizes are refused only for their magnitude. A written size is a number and a unit with one space between them.
-/

namespace Chunkwise.Size

theorem weight_pos (u : Unit) : 0 < u.weight := by cases u <;> decide

/-- The first size without a written form: its number of megabytes is out of range. -/
def limit : ℕ := Unit.megabytes.weight * Binary.limit

theorem isShowable_iff (size : ℕ) : isShowable size ↔ size < limit := by
  rw [isShowable, Binary.fits_nearest_iff (weight_pos _), limit]
  have million : 1048576 ≤ Binary.limit :=
    (Binary.twoPow_le_twoPow (by decide : 20 ≤ 1023)).trans Binary.twoPow_le_limit
  unfold unit
  split
  · simp only [Unit.weight]
    omega
  · split
    · simp only [Unit.weight]
      omega
    · rfl

theorem write_eq_ok {size : ℕ} (positive : 1 ≤ size) (below : size < limit) : write size = .ok (text size) := by
  rw [write, if_neg (by omega), Int.toNat_natCast, if_pos ((isShowable_iff size).mpr below)]

theorem write_eq_error {size : ℕ} (reached : limit ≤ size) : write size = .error .quotientRange := by
  have positive : 0 < limit := Nat.mul_pos (weight_pos _) Binary.limit_pos
  have beyond : ¬ isShowable size := by rwa [isShowable_iff, not_lt]
  rw [write, if_neg (by omega), Int.toNat_natCast, if_neg beyond]

/-- A size has a written form up to a limit, and is refused for its magnitude from there on. -/
theorem write_cases (size : ℕ) :
    (size < limit ∧ ∃ t, write size = .ok t) ∨ limit ≤ size ∧ write size = .error .quotientRange := by
  rcases lt_or_ge size limit with below | reached
  · refine Or.inl ⟨below, ?_⟩
    rcases Nat.eq_zero_or_pos size with rfl | positive
    · exact ⟨_, rfl⟩
    · exact ⟨_, write_eq_ok positive below⟩
  · exact Or.inr ⟨reached, write_eq_error reached⟩

/-- The limit on written sizes is far below that on written integers. -/
theorem isWritable_of_lt_limit {n : ℤ} (natural : 0 ≤ n) (below : n < limit) : Text.isWritable n := by
  have megabytes : limit ≤ 10 ^ 7 * twoPow 1024 := Nat.mul_le_mul (by decide) Binary.limit_le_twoPow
  have tens (e : ℕ) : twoPow e ≤ 10 ^ e := Nat.pow_le_pow_left (by decide) e
  have digits {e : ℕ} (few : 7 + e ≤ Text.digitLimit) : 10 ^ 7 * 10 ^ e ≤ 10 ^ Text.digitLimit := by
    rw [← Nat.pow_add]
    exact Nat.pow_le_pow_right (by decide) few
  rw [isWritable_iff]
  have := megabytes.trans ((Nat.mul_le_mul_left _ (tens 1024)).trans (digits (by decide)))
  omega

/-- The length of a text that is held lies far below the limit on written sizes. -/
theorem lengthLimit_le_limit : Text.lengthLimit ≤ limit :=
  ((Nat.le_of_lt (by decide : Text.lengthLimit < 2 ^ 64)).trans
    ((Binary.twoPow_le_twoPow (by decide : 64 ≤ 1023)).trans Binary.twoPow_le_limit)).trans
      (Nat.le_mul_of_pos_left _ (weight_pos _))

/-- A size below a power of two has a written form, when the power lies in the range of binary fractions. -/
theorem write_total {n : Int} {k : ℕ} (small : n < 2 ^ k) (range : k < 1024) : ∃ t, write n = .ok t := by
  rcases lt_or_ge 0 n with positive | none
  · obtain ⟨size, rfl⟩ := Int.eq_ofNat_of_zero_le positive.le
    have natural : size < 2 ^ k := by exact_mod_cast small
    have below : size < limit :=
      (Binary.lt_limit natural (by omega)).trans_le (Nat.le_mul_of_pos_left _ (weight_pos _))
    exact ⟨_, write_eq_ok (by omega) below⟩
  · exact ⟨_, if_pos none⟩

theorem solid_sign (u : Unit) : Text.Solid u.sign := by cases u <;> decide

/-- A written size can be written as a value into a line. -/
theorem isValue_text (size : ℕ) : Text.IsValue (text size) := by
  unfold text
  split
  · decide
  · exact (Binary.figures_sixDigits _).solid.isValue_append (solid_sign _)

end Chunkwise.Size
