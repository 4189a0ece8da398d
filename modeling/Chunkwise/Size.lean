import Chunkwise.Fault

/-!
# Sizes

A count of characters is shown in bytes, kilobytes or megabytes of 1024, rounded to one place. The unit is chosen
by the count itself, before rounding.
-/

namespace Chunkwise.Size

inductive Unit where
  | bytes
  | kilobytes
  | megabytes
deriving Repr, DecidableEq

/-- How many characters make one unit. -/
def Unit.weight : Unit → Nat
  | .bytes => 1
  | .kilobytes => 1024
  | .megabytes => 1048576

def Unit.sign : Unit → Text
  | .bytes => "B".toList
  | .kilobytes => "KB".toList
  | .megabytes => "MB".toList

def unit (size : Nat) : Unit :=
  if size < 1024 then .bytes else if size < 1048576 then .kilobytes else .megabytes

/-- The number of units in a size, to one place. -/
def shown (size : Nat) : Binary := (Binary.nearest size (unit size).weight).roundTenth

def text (size : Nat) : Text :=
  if size = 0 then "0 B".toList else (shown size).sixDigits ++ ' ' :: (unit size).sign

/-- Whether the number of units lies in the range of binary fractions. -/
def isShowable (size : Nat) : Bool := (Binary.nearest size (unit size).weight).fits

/-- The written form of an integer as a size: no integer below one has a size of its own, and one that is out of
    range is refused. -/
def write (size : Int) : Except Fault Text :=
  if size ≤ 0 then .ok "0 B".toList
  else if isShowable size.toNat then .ok (text size.toNat)
  else .error .quotientRange

end Chunkwise.Size
