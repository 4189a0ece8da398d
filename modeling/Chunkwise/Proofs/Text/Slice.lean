import Chunkwise.Text.Basic
import Mathlib.Tactic

/-!
# Slices

Slices of one text that follow each other make up a slice.
-/

namespace Chunkwise.Text

theorem slice_append_drop (t : Text) {a b : Nat} (le : a ≤ b) : slice t a b ++ t.drop b = t.drop a := by
  have split := List.take_append_drop (b - a) (t.drop a)
  rwa [List.drop_drop, Nat.add_sub_cancel' le] at split

theorem slice_full (t : Text) : slice t 0 t.length = t := by simp [slice]

theorem length_slice (t : Text) (a : ℕ) {b : ℕ} (le : b ≤ t.length) : (slice t a b).length = b - a := by
  rw [slice, List.length_take, List.length_drop]
  omega

theorem slice_append (t : Text) {a b c : ℕ} (first : a ≤ b) (second : b ≤ c) :
    slice t a b ++ slice t b c = slice t a c := by
  have rest := slice_append_drop t second
  refine (List.append_left_inj (t.drop c)).mp ?_
  rw [List.append_assoc, rest, slice_append_drop t first, slice_append_drop t (first.trans second)]

/-- What is sliced out of the first of two texts. -/
theorem slice_append_left {a : Text} {j : ℕ} (le : j ≤ a.length) (b : Text) (i : ℕ) :
    slice (a ++ b) i j = slice a i j := by
  rw [slice, slice, List.drop_append, List.take_append_of_le_length]
  rw [List.length_drop]
  omega

theorem slice_append_right (a b : Text) (i j : ℕ) :
    slice (a ++ b) (a.length + i) (a.length + j) = slice b i j := by
  rw [slice, slice, List.drop_length_add_append, Nat.add_sub_add_left]

theorem dropEnding_append (t ending : Text) : dropEnding ending (t ++ ending) = t := by
  rw [dropEnding, if_pos (by simp), List.length_append, Nat.add_sub_cancel, List.take_left]

/-- A place within the text is the position itself. -/
theorem place_eq {t : Text} {p : ℤ} (nonneg : 0 ≤ p) (inside : p ≤ t.length) : t.place p = p.toNat := by
  rw [place, if_neg (not_lt.mpr nonneg)]
  omega

end Chunkwise.Text
