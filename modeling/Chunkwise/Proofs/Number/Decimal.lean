import Chunkwise.Number.Decimal
import Chunkwise.Proofs.Text.Blank
import Chunkwise.Text.Numeral

/-!
# Written numbers are solid

No blank comes up in a written number, and none is written as nothing at all: the first character is a digit. A number
is written as long as it is below a power of ten.
-/

namespace Chunkwise

open Text

theorem isBlank_of_isDigit {c : Char} (digit : c.isDigit) : isBlank c = false := by
  simp only [Char.isDigit, Bool.and_eq_true, decide_eq_true_eq, ge_iff_le, UInt32.le_iff_toNat_le] at digit
  have low : 48 ≤ c.toNat := digit.1
  have high : c.toNat ≤ 57 := digit.2
  simp only [isBlank, Bool.or_eq_false_iff, Bool.and_eq_false_iff, decide_eq_false_iff_not, beq_eq_false_iff_ne]
  omega

/-- A text begins with a digit and has no blanks. -/
def Figures (t : Text) : Prop := (∃ c rest, c.isDigit ∧ t = c :: rest) ∧ ∀ c ∈ t, isBlank c = false

theorem Figures.solid {t : Text} (figures : Figures t) : Solid t := by
  obtain ⟨⟨c, rest, _, rfl⟩, plain⟩ := figures
  exact ⟨List.cons_ne_nil c rest, plain⟩

theorem isDigit_of_mem_decimal {n : ℕ} {c : Char} (member : c ∈ decimal n) : c.isDigit :=
  Nat.isDigit_of_mem_toDigits (by decide) (by decide) member

theorem no_feed_decimal (n : ℕ) : '\n' ∉ decimal n :=
  fun feed => absurd (isDigit_of_mem_decimal feed) (by decide)

theorem isDigit_or_of_mem_decimalInt {n : ℤ} {c : Char} (member : c ∈ decimalInt n) : c.isDigit ∨ c = '-' := by
  cases n with
  | ofNat n => exact Or.inl (isDigit_of_mem_decimal member)
  | negSucc n =>
    rcases List.mem_cons.mp member with rfl | digit
    · exact Or.inr rfl
    · exact Or.inl (isDigit_of_mem_decimal digit)

theorem no_feed_decimalInt (n : ℤ) : '\n' ∉ decimalInt n :=
  fun feed => absurd (isDigit_or_of_mem_decimalInt feed) (by decide)

theorem figures_decimal (n : ℕ) : Figures (decimal n) := by
  constructor
  · obtain ⟨c, rest, is⟩ := List.exists_cons_of_ne_nil (Nat.toDigits_ne_nil (n := n) (b := 10))
    refine ⟨c, rest, isDigit_of_mem_decimal (n := n) ?_, is⟩
    rw [decimal, is]
    exact List.mem_cons_self
  · intro c member
    exact isBlank_of_isDigit (isDigit_of_mem_decimal member)

theorem Figures.append {s t : Text} (figures : Figures s) (plain : ∀ c ∈ t, isBlank c = false) : Figures (s ++ t) := by
  obtain ⟨⟨c, rest, digit, rfl⟩, solid⟩ := figures
  refine ⟨⟨c, rest ++ t, digit, rfl⟩, ?_⟩
  intro d member
  rcases List.mem_append.mp member with left | right
  · exact solid d left
  · exact plain d right

/-! ## The limit on digits -/

theorem isWritable_iff (n : ℤ) : isWritable n ↔ n.natAbs < 10 ^ digitLimit := by
  rw [isWritable, decide_eq_true_eq]
  exact Nat.length_toDigits_le_iff (by decide) (by decide)

end Chunkwise
