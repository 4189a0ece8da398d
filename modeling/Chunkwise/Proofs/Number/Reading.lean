import Chunkwise.Proofs.Number.Accuracy
import Chunkwise.Proofs.Number.Decimal
import Chunkwise.Proofs.Text.Parts

/-!
# Written numbers are read back

A number in writing has whole digits, then perhaps a point and its places, and then perhaps an exponent of ten. What is
written with six significant digits is read back as the number that these digits stand for. It is at least one if the
fraction is, and a number of tenths comes back as it is.
-/

namespace Chunkwise

namespace Text

/-! ## Reading -/

/-- The number that digits write: there is at least one, and nothing else. -/
def whole? (t : Text) : Option ℕ := if t ≠ [] ∧ t.all Char.isDigit then some (Nat.ofDigitChars 10 t 0) else none

/-- The number that digits write, with or without a point among them. -/
def positional? (t : Text) : Option ℚ :=
  match cut? '.' t with
  | none => (whole? t).map (↑)
  | some (front, places) => do return (← whole? front) + (← whole? places) / 10 ^ places.length

/-- A signed exponent. -/
def exponent? : Text → Option ℤ
  | '+' :: t => (whole? t).map (↑)
  | '-' :: t => (whole? t).map (-↑·)
  | _ => none

/-- The number that is written with or without an exponent of ten. -/
def number? (t : Text) : Option ℚ :=
  match cut? 'e' t with
  | none => positional? t
  | some (front, back) => do return (← positional? front) * 10 ^ (← exponent? back)

/-! ## Digits -/

variable {t front back : Text} {n p : ℕ} {q : ℚ}

theorem whole?_eq_some_iff : whole? t = some n ↔ (t ≠ [] ∧ ∀ c ∈ t, c.isDigit) ∧ Nat.ofDigitChars 10 t 0 = n := by
  simp [whole?]

theorem not_mem_of_whole? {c : Char} (read : whole? t = some n) (other : c.isDigit = false) : c ∉ t := by
  intro member
  rw [(whole?_eq_some_iff.mp read).1.2 c member] at other
  cases other

/-- Zeros in front of a number do not change it. -/
theorem whole?_padded (zeros n : ℕ) : whole? (List.replicate zeros '0' ++ decimal n) = some n := by
  refine whole?_eq_some_iff.mpr ⟨⟨?_, ?_⟩, ?_⟩
  · exact List.append_ne_nil_of_right_ne_nil _ Nat.toDigits_ne_nil
  · intro c member
    rcases List.mem_append.mp member with zero | digit
    · rw [List.eq_of_mem_replicate zero]
      decide
    · exact isDigit_of_mem_decimal digit
  · rw [Nat.ofDigitChars_append, Nat.ofDigitChars_replicate_zero, Nat.mul_zero, decimal, Nat.ofDigitChars_ten_toDigits]

/-- Zeros behind a number multiply it by ten each. -/
theorem whole?_append_zeros {zeros : ℕ} (read : whole? (t ++ List.replicate zeros '0') = some p) (nonempty : t ≠ []) :
    ∃ n, whole? t = some n ∧ p = 10 ^ zeros * n := by
  obtain ⟨⟨-, digits⟩, is⟩ := whole?_eq_some_iff.mp read
  rw [Nat.ofDigitChars_append, Nat.ofDigitChars_replicate_zero] at is
  exact ⟨_, whole?_eq_some_iff.mpr ⟨⟨nonempty, (List.forall_mem_append.mp digits).1⟩, rfl⟩, is.symm⟩

/-! ## Points -/

theorem positional?_of_whole? (read : whole? t = some n) : positional? t = some (n : ℚ) := by
  rw [positional?, cut?_eq_none_iff.mpr (not_mem_of_whole? read (by decide)), read]
  rfl

theorem positional?_point (read : whole? front = some n) (readBack : whole? back = some p) :
    positional? (front ++ '.' :: back) = some (n + p / 10 ^ back.length : ℚ) := by
  rw [positional?, cut?_append (not_mem_of_whole? read (by decide))]
  simp [read, readBack]

/-- A number without exponent has no point, or digits on both sides of its point. -/
theorem positional?_cases (read : positional? t = some q) :
    (∃ n, whole? t = some n ∧ q = n) ∨ ∃ front back n p, t = front ++ '.' :: back ∧ whole? front = some n ∧
      whole? back = some p ∧ q = n + p / 10 ^ back.length := by
  cases cut : cut? '.' t with
  | none =>
    simp only [positional?, cut, Option.map_eq_some_iff] at read
    obtain ⟨n, readWhole, is⟩ := read
    exact Or.inl ⟨n, readWhole, is.symm⟩
  | some parts =>
    obtain ⟨front, back⟩ := parts
    simp only [positional?, cut, Option.bind_eq_bind, Option.bind_eq_some_iff, Option.pure_def,
      Option.some.injEq] at read
    obtain ⟨n, readFront, p, readBack, is⟩ := read
    exact Or.inr ⟨front, back, n, p, (cut?_eq_some_iff.mp cut).2, readFront, readBack, is.symm⟩

/-- A point takes as many powers of ten from a number as there are digits behind it. -/
theorem positional?_divided (read : whole? (front ++ back) = some n) (nonempty : front ≠ []) (places : back ≠ []) :
    positional? (front ++ '.' :: back) = some (n / 10 ^ back.length : ℚ) := by
  obtain ⟨⟨-, digits⟩, is⟩ := whole?_eq_some_iff.mp read
  obtain ⟨inFront, inBack⟩ := List.forall_mem_append.mp digits
  rw [Nat.ofDigitChars_append, Nat.ofDigitChars_eq_ofDigitChars_zero] at is
  rw [positional?_point (whole?_eq_some_iff.mpr ⟨⟨nonempty, inFront⟩, rfl⟩)
    (whole?_eq_some_iff.mpr ⟨⟨places, inBack⟩, rfl⟩), ← is]
  congr 1
  push_cast
  field_simp

theorem positional?_withPoint (places n : ℕ) :
    positional? (withPoint places (decimal n)) = some (n / 10 ^ places : ℚ) := by
  set padded := List.replicate (places + 1 - (decimal n).length) '0' ++ decimal n with paddedIs
  have read : whole? padded = some n := whole?_padded _ n
  have long : places < padded.length := by
    rw [paddedIs, List.length_append, List.length_replicate]
    omega
  have shape : withPoint places (decimal n) = if places = 0 then padded
      else padded.take (padded.length - places) ++ '.' :: padded.drop (padded.length - places) := rfl
  by_cases none : places = 0
  · rw [shape, if_pos none, positional?_of_whole? read, none, pow_zero, div_one]
  · have behind : (padded.drop (padded.length - places)).length = places := by
      rw [List.length_drop]
      omega
    rw [← List.take_append_drop (padded.length - places) padded] at read
    rw [shape, if_neg none, positional?_divided read, behind]
    · exact List.ne_nil_of_length_pos (by rw [List.length_take]; omega)
    · exact List.ne_nil_of_length_pos (by omega)

theorem trimEnd_point (read : whole? t = some n) (front : Text) : trimEnd (· == '.') (front ++ t) = front ++ t := by
  obtain ⟨nonempty, digits⟩ := (whole?_eq_some_iff.mp read).1
  refine trimEnd_eq_self fun c last => ?_
  rw [List.getLast?_append_of_ne_nil _ nonempty] at last
  have digit := digits c (List.mem_of_getLast? last)
  by_contra point
  rw [beq_iff_eq.mp (Bool.eq_true_of_not_eq_false point)] at digit
  exact absurd digit (by decide)

/-- The zeros at the end of the places do not count, nor does a point behind which there is nothing. -/
theorem positional?_dropPlaceZeros (read : positional? t = some q) : positional? (dropPlaceZeros t) = some q := by
  rcases positional?_cases read with ⟨n, readWhole, -⟩ | ⟨front, places, n, p, rfl, readFront, readPlaces, rfl⟩
  · have unpointed := not_mem_of_whole? readWhole (c := '.') (by decide)
    rwa [dropPlaceZeros, if_neg (by simpa using unpointed)]
  · have trimmed : dropPlaceZeros (front ++ '.' :: places) =
        trimEnd (· == '.') (front ++ '.' :: trimEnd (· == '0') places) := by
      rw [dropPlaceZeros, if_pos (by simp), trimEnd_append_cons (by decide)]
    obtain ⟨zeros, places_eq⟩ := exists_eq_trimEnd_append '0' places
    rw [trimmed]
    generalize trimEnd (· == '0') places = kept at places_eq ⊢
    subst places_eq
    rcases eq_or_ne kept [] with rfl | nonempty
    · have none : p = 0 := by
        rw [← (whole?_eq_some_iff.mp readPlaces).2, List.nil_append, Nat.ofDigitChars_replicate_zero, Nat.mul_zero]
      have behind : trimEnd (· == '.') (front ++ ['.']) = trimEnd (· == '.') front := by simp [trimEnd]
      rw [behind, ← List.nil_append front, trimEnd_point readFront, List.nil_append,
        positional?_of_whole? readFront, none, Nat.cast_zero, zero_div, add_zero]
    · obtain ⟨m, readKept, rfl⟩ := whole?_append_zeros readPlaces nonempty
      rw [List.append_cons, trimEnd_point readKept, ← List.append_cons, positional?_point readFront readKept,
        List.length_append, List.length_replicate, pow_add]
      congr 2
      push_cast
      field_simp

/-! ## Exponents -/

theorem exponent?_exponentPart (x : ℤ) : ∃ back, exponentPart x = 'e' :: back ∧ exponent? back = some x := by
  refine ⟨_, rfl, ?_⟩
  rcases lt_or_ge x 0 with negative | positive
  · rw [if_pos negative, exponent?, whole?_padded]
    simp only [Option.map_some, Option.some.injEq]
    omega
  · rw [if_neg positive.not_gt, exponent?, whole?_padded]
    simp only [Option.map_some, Option.some.injEq]
    omega

theorem not_mem_of_positional? (read : positional? t = some q) : 'e' ∉ t := by
  rcases positional?_cases read with ⟨n, readWhole, -⟩ | ⟨front, back, n, p, rfl, readFront, readBack, -⟩
  · exact not_mem_of_whole? readWhole (by decide)
  · exact List.not_mem_append (not_mem_of_whole? readFront (by decide))
      (List.not_mem_cons_of_ne_of_not_mem (by decide) (not_mem_of_whole? readBack (by decide)))

theorem number?_of_positional? (read : positional? t = some q) : number? t = some q := by
  rw [number?, cut?_eq_none_iff.mpr (not_mem_of_positional? read), read]

theorem number?_append_exponentPart (read : positional? t = some q) (x : ℤ) :
    number? (t ++ exponentPart x) = some (q * 10 ^ x) := by
  obtain ⟨back, is, readBack⟩ := exponent?_exponentPart x
  rw [number?, is, cut?_append (not_mem_of_positional? read)]
  simp [read, readBack]

example : ["12", "0.50", "1.5e+06"].map (number? ·.toList) = [some 12, some (1 / 2), some 1500000] := by cbv

/-! ## Solid texts -/

theorem figures_of_whole? (read : whole? t = some n) : Figures t := by
  obtain ⟨nonempty, digits⟩ := (whole?_eq_some_iff.mp read).1
  obtain ⟨c, rest, rfl⟩ := List.exists_cons_of_ne_nil nonempty
  exact ⟨⟨c, rest, digits c List.mem_cons_self, rfl⟩, fun d member => isBlank_of_isDigit (digits d member)⟩

theorem figures_of_positional? (read : positional? t = some q) : Figures t := by
  rcases positional?_cases read with ⟨n, readWhole, -⟩ | ⟨front, back, n, p, rfl, readFront, readBack, -⟩
  · exact figures_of_whole? readWhole
  · exact (figures_of_whole? readFront).append
      (List.forall_mem_cons.mpr ⟨by decide, (figures_of_whole? readBack).2⟩)

theorem not_isBlank_of_exponent? {x : ℤ} (read : exponent? t = some x) : ∀ c ∈ t, isBlank c = false := by
  unfold exponent? at read
  split at read
  · obtain ⟨n, readWhole, -⟩ := Option.map_eq_some_iff.mp read
    exact List.forall_mem_cons.mpr ⟨by decide, (figures_of_whole? readWhole).2⟩
  · obtain ⟨n, readWhole, -⟩ := Option.map_eq_some_iff.mp read
    exact List.forall_mem_cons.mpr ⟨by decide, (figures_of_whole? readWhole).2⟩
  · cases read

/-- What is read as a number begins with a digit and has no blanks. -/
theorem figures_of_number? (read : number? t = some q) : Figures t := by
  cases cut : cut? 'e' t with
  | none =>
    rw [number?, cut] at read
    exact figures_of_positional? read
  | some parts =>
    obtain ⟨front, back⟩ := parts
    obtain ⟨-, rfl⟩ := cut?_eq_some_iff.mp cut
    simp only [number?, cut, Option.bind_eq_bind, Option.bind_eq_some_iff, Option.pure_def] at read
    obtain ⟨m, readFront, x, readBack, -⟩ := read
    exact (figures_of_positional? readFront).append
      (List.forall_mem_cons.mpr ⟨by decide, not_isBlank_of_exponent? readBack⟩)

end Text

/-! ## Six significant digits -/

namespace Binary

theorem tenPow_eq (n : ℕ) : tenPow n = 10 ^ n := rfl

/-- The exponent of the leading digit of a fraction that is at least one. -/
def leading (b : Binary) : ℕ := (Text.decimal b.floor).length - 1

/-- The number that six significant digits of a fraction stand for. -/
def sixDigitValue (b : Binary) : ℚ := roundDiv (b.num * tenPow 5) (b.den * tenPow b.leading) * 10 ^ (b.leading - 5 : ℤ)

/-- Six digits are read as they are written, with the leading one at the place `x`. -/
theorem number?_digits (digits x : ℕ) :
    Text.number? (if x < 6 then dropPlaceZeros (withPoint (5 - x) (Text.decimal digits))
      else dropPlaceZeros (withPoint 5 (Text.decimal digits)) ++ exponentPart x) =
    some (digits * 10 ^ (x - 5 : ℤ) : ℚ) := by
  split
  · rename_i small
    rw [Text.number?_of_positional? (Text.positional?_dropPlaceZeros (Text.positional?_withPoint ..)), div_eq_mul_inv,
      ← zpow_natCast, ← zpow_neg]
    congr 3
    omega
  · rw [Text.number?_append_exponentPart (Text.positional?_dropPlaceZeros (Text.positional?_withPoint ..)),
      div_mul_eq_mul_div, mul_div_assoc, ← zpow_natCast, ← zpow_sub₀ (by norm_num)]
    rfl

theorem number?_sixDigits (b : Binary) : Text.number? b.sixDigits = some b.sixDigitValue := by
  unfold sixDigits
  extract_lets guess rounded digits x
  rw [number?_digits]
  -- A seventh digit comes up only in a power of ten, and is carried into the exponent.
  have carried : (digits : ℚ) * 10 ^ (x - 5 : ℤ) = rounded * 10 ^ (guess - 5 : ℤ) := by
    simp only [digits, x]
    split
    · rename_i seven
      rw [seven, tenPow_eq, tenPow_eq, Nat.cast_succ, add_sub_right_comm, zpow_add_one₀ (by norm_num)]
      push_cast
      ring
    · rfl
  rw [carried]
  rfl

theorem figures_sixDigits (b : Binary) : Figures b.sixDigits := Text.figures_of_number? (number?_sixDigits b)

/-- A fraction reaches the power of ten that its leading digit stands for. -/
theorem den_mul_leading_le {b : Binary} (reached : 1 ≤ b.value) : b.den * tenPow b.leading ≤ b.num := by
  have least : 1 ≤ b.floor := by
    rw [floor_eq]
    exact Nat.le_floor (by exact_mod_cast reached)
  have power : 10 ^ b.leading ≤ b.floor := by
    rcases Nat.eq_zero_or_pos b.leading with zero | positive
    · rwa [zero, pow_zero]
    · by_contra below
      have short := (Nat.length_toDigits_le_iff (b := 10) (by decide) positive).mpr (not_le.mp below)
      have digits := Nat.length_toDigits_pos (b := 10) (n := b.floor)
      rw [leading, Text.decimal] at short
      omega
  rw [mul_comm]
  exact (Nat.le_div_iff_mul_le b.den_pos).mp power

/-- Six digits of which the first is not zero stand for a number of at least one. -/
theorem one_le_sixDigitValue {b : Binary} (reached : 1 ≤ b.value) : 1 ≤ b.sixDigitValue := by
  have scaledPos : 0 < b.den * tenPow b.leading := Nat.mul_pos b.den_pos (Nat.pow_pos (by decide))
  have digits : tenPow 5 ≤ roundDiv (b.num * tenPow 5) (b.den * tenPow b.leading) :=
    le_roundDiv scaledPos (Nat.mul_le_mul_right _ (den_mul_leading_le reached))
  calc (1 : ℚ) ≤ 10 ^ b.leading := one_le_pow₀ (by norm_num)
    _ = (tenPow 5 : ℕ) * 10 ^ (b.leading - 5 : ℤ) := by
      rw [tenPow_eq, Nat.cast_pow, Nat.cast_ofNat, zpow_sub₀ (by norm_num), zpow_natCast]
      exact (mul_div_cancel₀ _ (by norm_num)).symm
    _ ≤ b.sixDigitValue := by
      rw [sixDigitValue]
      gcongr

theorem leading_le {b : Binary} {k : ℕ} (below : b.value < 10 ^ (k + 1)) : b.leading ≤ k := by
  have small : b.floor < 10 ^ (k + 1) := by
    rw [floor_eq, Nat.floor_lt (value_nonneg b)]
    exact_mod_cast below
  have short := (Nat.length_toDigits_le_iff (b := 10) (by decide) k.succ_pos).mpr small
  rw [leading, Text.decimal]
  omega

/-- A number of tenths with no more than six digits is written as it is. -/
theorem sixDigitValue_nearest_tenths {n : ℕ} (small : n < 100000) : (nearest n 10).sixDigitValue = n / 10 := by
  have below : (n : ℚ) / (10 : ℕ) < 2 ^ (14 : ℤ) := by
    rw [div_lt_iff₀ (by norm_num)]
    norm_num
    exact_mod_cast (by omega : n < 163840)
  have near := abs_value_nearest_sub_le_of_lt (by decide) below (by norm_num)
  have fewDigits : (nearest n 10).leading ≤ 4 :=
    leading_le ((value_nearest_le (by decide) below (by norm_num)).trans_lt (by norm_num))
  generalize nearest n 10 = b at near fewDigits ⊢
  obtain ⟨more, places⟩ := Nat.exists_eq_add_of_le fewDigits
  have power : tenPow 5 = tenPow b.leading * 10 ^ (more + 1) := by
    rw [tenPow_eq, tenPow_eq, ← pow_add]
    congr 1
    omega
  have scaledPos : 0 < b.den * tenPow b.leading := Nat.mul_pos b.den_pos (Nat.pow_pos (by decide))
  -- In units of the sixth digit the tenths are an integer, and the fraction is less than half a unit away from it.
  have sixth : roundDiv (b.num * tenPow 5) (b.den * tenPow b.leading) = n * 10 ^ more := by
    refine roundDiv_eq_of_abs_lt scaledPos ?_
    have quotient : ((b.num * tenPow 5 : ℕ) : ℚ) / (b.den * tenPow b.leading : ℕ) = b.value * 10 ^ (more + 1) := by
      have tens : (tenPow b.leading : ℚ) ≠ 0 := by
        rw [tenPow_eq]
        positivity
      rw [value_eq_div, power]
      push_cast
      rw [mul_left_comm, mul_comm (b.den : ℚ), mul_div_mul_left _ _ tens, mul_div_right_comm]
    calc |((b.num * tenPow 5 : ℕ) : ℚ) / (b.den * tenPow b.leading : ℕ) - (n * 10 ^ more : ℕ)|
        = |b.value - n / (10 : ℕ)| * 10 ^ (more + 1) := by
          have scale : (0 : ℚ) < 10 ^ (more + 1) := by positivity
          rw [quotient, ← abs_of_pos scale, ← abs_mul, abs_of_pos scale, sub_mul, pow_succ]
          push_cast
          congr 2
          ring
      _ ≤ 2 ^ (14 - 54 : ℤ) * 10 ^ 5 := by
        gcongr
        · norm_num
        · omega
      _ < 1 / 2 := by norm_num
  have unit : (b.leading - 5 : ℤ) = -(more + 1 : ℕ) := by omega
  rw [sixDigitValue, sixth, unit, zpow_neg, zpow_natCast, pow_succ]
  push_cast
  field_simp

end Binary

end Chunkwise
