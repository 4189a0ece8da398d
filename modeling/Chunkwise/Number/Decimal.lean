import Chunkwise.Number.Binary
import Chunkwise.Text.Basic

/-!
# Decimal notation of binary fractions

A fraction is written with a fixed number of places, with six significant digits, or with the fewest digits that
read back as the same fraction. All digits come from exact arithmetic on natural numbers.
-/

namespace Chunkwise

open Text

/-! ## Digits and points -/

/-- Digits with a point before the last `places` of them. -/
def withPoint (places : Nat) (digits : Text) : Text :=
  let digits := List.replicate (places + 1 - digits.length) '0' ++ digits
  let whole := digits.length - places
  if places = 0 then digits else digits.take whole ++ '.' :: digits.drop whole

/-- Without the zeros at the end of the places, and without a point that then ends the number. -/
def dropPlaceZeros (t : Text) : Text :=
  if t.contains '.' then trimEnd (· == '.') (trimEnd (· == '0') t) else t

/-- An exponent of ten, signed and with at least two digits. -/
def exponentPart (x : Int) : Text :=
  let digits := decimal x.natAbs
  'e' :: (if x < 0 then '-' else '+') :: (List.replicate (2 - digits.length) '0' ++ digits)

/-! ## Fixed places -/

/-- A fraction with `places` places, a tie going to the even last digit. -/
def Binary.fixed (places : Nat) (b : Binary) : Text :=
  withPoint places (decimal (roundDiv (b.num * tenPow places) b.den))

/-! ## Six significant digits -/

/-- A fraction of at least one with six significant digits and no zeros at the end of its places; from a million
    on with an exponent. -/
def Binary.sixDigits (b : Binary) : Text :=
  let guess := (decimal b.floor).length - 1
  let rounded := roundDiv (b.num * tenPow 5) (b.den * tenPow guess)
  let digits := if rounded = tenPow 6 then tenPow 5 else rounded
  let x := if rounded = tenPow 6 then guess + 1 else guess
  if x < 6 then dropPlaceZeros (withPoint (5 - x) (decimal digits))
  else dropPlaceZeros (withPoint 5 (decimal digits)) ++ exponentPart x

/-! ## Fewest digits -/

/-- The exponent of the highest power of ten that is at most the positive `num / den`, searched for in `steps`
    steps downwards from `x`. -/
def tenMagnitude (num den : Nat) : Nat → Int → Int
  | 0, x => x
  | steps + 1, x =>
    if den * tenPow x.toNat ≤ num * tenPow (-x).toNat then x else tenMagnitude num den steps (x - 1)

/-- The binary fraction nearest to `digits * 10 ^ scale`. -/
def Binary.ofScaled (digits : Nat) (scale : Int) : Binary :=
  nearest (digits * tenPow scale.toNat) (tenPow (-scale).toNat)

/-- The multiple of `10 ^ scale` that is nearest to the fraction among its two neighbours on that grid that read
    back as the fraction. -/
def Binary.gridPoint? (b : Binary) (scale : Int) : Option Nat :=
  let num := b.num * tenPow (-scale).toNat
  let den := b.den * tenPow scale.toNat
  let below := num / den
  let reads (n : Nat) : Bool := (Binary.ofScaled n scale).sameValue b
  match reads below, reads (below + 1) with
  | true, true => some (roundDiv num den)
  | true, false => some below
  | false, true => some (below + 1)
  | false, false => none

/-- The digits and the scale of the shortest decimal that reads back as a positive fraction of magnitude `x`:
    seventeen digits always suffice. -/
def Binary.shortestDigits (b : Binary) (x : Int) : Nat × Int :=
  let found := (List.range 17).findSome? fun (places : Nat) =>
    (b.gridPoint? (x - (places : Int))).map fun n => (n, x - (places : Int))
  found.getD (b.num, 0)

/-- The shortest decimal that reads back as the fraction: positional for magnitudes from 10⁻⁴ to below 10¹⁶ and then
    with at least one place, otherwise with an exponent. -/
def Binary.shortest (b : Binary) : Text :=
  if b.mantissa = 0 then "0.0".toList
  else
    let (n, scale) := b.shortestDigits (tenMagnitude b.num b.den 700 330)
    let digits := decimal n
    let x : Int := digits.length - 1 + scale
    let kept := trimEnd (· == '0') digits
    if -4 ≤ x ∧ x < 16 then
      if x < 0 then '0' :: '.' :: (List.replicate (x.natAbs - 1) '0' ++ kept)
      else
        let whole := x.toNat + 1
        let padded := kept ++ List.replicate (whole + 1 - kept.length) '0'
        padded.take whole ++ '.' :: padded.drop whole
    else dropPlaceZeros (withPoint (kept.length - 1) kept) ++ exponentPart x

/-! ## Reading -/

/-- The fraction nearest to `digits * 10 ^ scale`, when it lies in the range of the format. -/
def Binary.ofDecimal? (digits : Nat) (scale : Int) : Option Binary :=
  let x : Int := (decimal digits).length + scale
  if digits = 0 ∨ x < -330 then some ⟨0, 0⟩
  else if 310 < x then none
  else
    let b := Binary.ofScaled digits scale
    if b.fits then some b else none

end Chunkwise
