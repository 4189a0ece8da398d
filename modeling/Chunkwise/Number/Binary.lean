/-!
# Binary fractions of 53 bits

Averages and displayed sizes are computed in binary fractions with 53 significant bits and no unit smaller than
2⁻¹⁰⁷⁴. Each operation takes the exact result and rounds it once to the nearest such fraction, a tie going to the
even mantissa. Nothing here bounds a fraction from above: `fits` says whether it lies in the range of the format.
-/

namespace Chunkwise

def twoPow (n : Nat) : Nat := Nat.pow 2 n

def tenPow (n : Nat) : Nat := Nat.pow 10 n

def sumOf (ns : List Nat) : Nat := ns.foldr Nat.add 0

/-- The natural number nearest to `num / den`; of two nearest ones the even one. -/
def roundDiv (num den : Nat) : Nat :=
  let q := num / den
  let twice := 2 * (num % den)
  if twice < den then q
  else if den < twice then q + 1
  else if q % 2 == 0 then q else q + 1

/-- A rounded quotient is within half a unit of the exact one. -/
theorem roundDiv_near (num : Nat) {den : Nat} (h : 0 < den) :
    2 * (roundDiv num den * den) ≤ 2 * num + den ∧ 2 * num ≤ 2 * (roundDiv num den * den) + den := by
  have split := Nat.div_add_mod num den
  have small := Nat.mod_lt num h
  have next : (num / den + 1) * den = den * (num / den) + den := by rw [Nat.add_mul, Nat.mul_comm]; simp
  have here : num / den * den = den * (num / den) := Nat.mul_comm ..
  unfold roundDiv
  dsimp only
  split
  · omega
  · split
    · omega
    · split <;> omega

/-- The non-negative number `mantissa * 2 ^ exponent`. -/
structure Binary where
  mantissa : Nat
  exponent : Int
deriving Repr, DecidableEq

namespace Binary

/-! ## As a quotient of natural numbers -/

def num (b : Binary) : Nat := b.mantissa * twoPow b.exponent.toNat

def den (b : Binary) : Nat := twoPow (-b.exponent).toNat

theorem den_pos (b : Binary) : 0 < b.den := Nat.pow_pos (by decide)

def sameValue (a b : Binary) : Bool := a.num * b.den == b.num * a.den

def floor (b : Binary) : Nat := b.num / b.den

/-- Whether the fraction is below 2¹⁰²⁴ and so in the range of the format. -/
def fits (b : Binary) : Bool := (b.mantissa.log2 : Int) + b.exponent < 1024

/-! ## Rounding -/

/-- The exponent of the highest power of two that is at most the positive quotient `num / den`. -/
def magnitude (num den : Nat) : Int :=
  let guess : Int := (num.log2 : Int) - den.log2
  if den * twoPow guess.toNat ≤ num * twoPow (-guess).toNat then guess else guess - 1

/-- The exponent of the unit to which a positive quotient is rounded. -/
def unitExponent (num den : Nat) : Int := max (-1074) (magnitude num den - 52)

def nearest (num den : Nat) : Binary :=
  if num = 0 then ⟨0, 0⟩
  else
    let e := unitExponent num den
    ⟨roundDiv (num * twoPow (-e).toNat) (den * twoPow e.toNat), e⟩

def ofNat (n : Nat) : Binary := nearest n 1

def mul (a b : Binary) : Binary := nearest (a.num * b.num) (a.den * b.den)

/-- The rounded difference from one, of a fraction that is at most one. -/
def oneMinus (b : Binary) : Binary := nearest (b.den - b.num) b.den

/-- The fraction rounded to the nearest tenth, and that again to a binary fraction. -/
def roundTenth (b : Binary) : Binary := nearest (roundDiv (10 * b.num) b.den) 10

end Binary

end Chunkwise
