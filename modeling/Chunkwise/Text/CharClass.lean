/-!
# Character classes as edges

A class of characters is written as the ascending code points at which membership changes: the class begins at
the first, ends before the second, begins again at the third, and so on. So a character belongs to the class
when an odd number of edges lie at or below it.
-/

namespace Chunkwise.Text

/-- A class of characters, by its ascending edges. -/
structure CharClass where
  edges : Array Nat

/-- How many of the ascending edges from `lo` up to `hi` lie at or below `n`, counted from the first edge: the
    window halves in every step, so as many steps as there are edges suffice. -/
def CharClass.rank (k : CharClass) (n : Nat) : Nat → Nat → Nat → Nat
  | 0, lo, _ => lo
  | steps + 1, lo, hi =>
    if lo < hi then
      let mid := (lo + hi) / 2
      if k.edges.getD mid 0 ≤ n then k.rank n steps (mid + 1) hi else k.rank n steps lo mid
    else lo

def CharClass.mem (k : CharClass) (c : Char) : Bool :=
  k.rank c.toNat k.edges.size 0 k.edges.size % 2 == 1

end Chunkwise.Text
