import Chunkwise.Fault

/-!
# Strategies and target sizes

The two ways to divide a collection into chunks, and the size that chunks aim at.
-/

namespace Chunkwise

/-- A way to divide a collection: at boundaries, or by length alone. -/
inductive Strategy where
  | semantic
  | sizeBased
deriving Repr, DecidableEq

namespace Strategy

def word : Strategy → Text
  | semantic => "semantic".toList
  | sizeBased => "size-based".toList

def ofWord? (w : Text) : Option Strategy := [semantic, sizeBased].find? (·.word == w)

theorem ofWord?_word (s : Strategy) : ofWord? s.word = some s := by cases s <;> decide

/-- The strategy that an argument names: `semantic` when it names none at all. -/
def ofArgument : Argument → Except Fault Strategy
  | .null => .ok semantic
  | .text w =>
    match ofWord? w with
    | some s => .ok s
    | none => .error (.strategy (.text w))
  | given => .error (Fault.strategy given).worded

end Strategy

structure TargetSize where
  value : Nat
  positive : 0 < value := by decide
deriving Repr, DecidableEq

/-- The target size that an argument gives: a positive integer. -/
def TargetSize.ofArgument : Argument → Except Fault TargetSize
  | .int n => if h : 0 < n.toNat then .ok ⟨n.toNat, h⟩ else .error (Fault.targetSize (.int n)).worded
  | given => .error (Fault.targetSize given).worded

end Chunkwise
