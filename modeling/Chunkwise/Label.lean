import Chunkwise.Fault

/-!
# Chunk labels

Chunks are labelled a, b, …, z, aa, ab, …: bijective numeration in base 26, counted from zero.
-/

namespace Chunkwise.Label

/-- The small letter with a place in the alphabet counted from zero. -/
def letter (place : Nat) : Char := Char.ofNat ('a'.toNat + place)

/-- The letters of the positive number `n`, before the letters `tail` of lower weight. -/
def lettersBefore (n : Nat) (tail : Text) : Text :=
  if n = 0 then tail
  else lettersBefore ((n - 1) / 26) (letter ((n - 1) % 26) :: tail)
termination_by n
decreasing_by omega

/-- The label of the chunk with index `index`. -/
def ofNat (index : Nat) : Text := lettersBefore (index + 1) []

def ofInt (index : Int) : Except Fault Text :=
  if index < 0 then .error (Fault.labelIndex index).worded else .ok (ofNat index.toNat)

end Chunkwise.Label
