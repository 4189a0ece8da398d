import Chunkwise.Fault

/-!
# Arguments as integers

A requested size may be given as a number or in writing: a fraction loses its places, a truth value counts as
zero or one, and a text is read as an integer.
-/

namespace Chunkwise

def Text.toInt (t : Text) : Except Fault Int :=
  match Text.readInt t with
  | .integer n => .ok n
  | .tooLong digits => .error (.numeralLength digits)
  | .malformed => .error (.notInteger t)

/-- The integer part of a number. -/
def Real.toInt : Real → Except Fault Int
  | .finite negative size => .ok (if negative then -(size.floor : Int) else size.floor)
  | .infinite _ => .error .infiniteInteger
  | .undefined => .error .undefinedInteger

def Argument.toInt : Argument → Except Fault Int
  | .int n => .ok n
  | .bool b => .ok (if b then 1 else 0)
  | .real r => r.toInt
  | .text t => t.toInt
  | .null | .list _ | .record _ => .error .wrongType

end Chunkwise
