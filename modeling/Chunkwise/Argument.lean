import Chunkwise.Number.Decimal
import Chunkwise.Text.Numeral
import Chunkwise.Text.Quoted

/-!
# Loosely typed arguments

A request may carry a value of any kind where a size or a name is wanted. A refused value is shown in the message
that refuses it, so every kind has a written form. Only integers with too many digits are not written.
-/

namespace Chunkwise

/-- A number with a fraction part or an exponent. -/
inductive Real where
  | finite (negative : Bool) (size : Binary)
  | infinite (negative : Bool)
  | undefined
deriving Repr, DecidableEq

def Real.written : Real → Text
  | .finite negative size => (if negative then ['-'] else []) ++ size.shortest
  | .infinite negative => (if negative then ['-'] else []) ++ "inf".toList
  | .undefined => "nan".toList

/-- A value as a request gives it. -/
inductive Argument where
  | null
  | bool (value : Bool)
  | int (value : Int)
  | real (value : Real)
  | text (value : Text)
  | list (values : List Argument)
  | record (fields : List (Text × Argument))
deriving Repr

namespace Argument

mutual

/-- The written form of a value: texts in quotes, lists in brackets, records in braces. -/
def written : Argument → Text
  | .null => "None".toList
  | .bool true => "True".toList
  | .bool false => "False".toList
  | .int n => Text.decimalInt n
  | .real r => r.written
  | .text t => Text.quoted t
  | .list values => '[' :: writtenItems values ++ [']']
  | .record fields => '\x7b' :: writtenFields fields ++ ['\x7d']

def writtenItems : List Argument → Text
  | [] => []
  | [v] => written v
  | v :: rest => written v ++ ',' :: ' ' :: writtenItems rest

def writtenFields : List (Text × Argument) → Text
  | [] => []
  | [(k, v)] => Text.quoted k ++ ':' :: ' ' :: written v
  | (k, v) :: rest => Text.quoted k ++ ':' :: ' ' :: (written v ++ ',' :: ' ' :: writtenFields rest)

end

/-- The plain form of a value: a text stands for itself. -/
def plain : Argument → Text
  | .text t => t
  | v => v.written

mutual

/-- Whether a value can be written: an integer with too many digits cannot, nor can what holds one. -/
def isWritable : Argument → Bool
  | .int n => Text.isWritable n
  | .list values => areWritable values
  | .record fields => areWritableFields fields
  | .null | .bool _ | .real _ | .text _ => true

def areWritable : List Argument → Bool
  | [] => true
  | v :: rest => isWritable v && areWritable rest

def areWritableFields : List (Text × Argument) → Bool
  | [] => true
  | (_, v) :: rest => isWritable v && areWritableFields rest

end

end Argument

end Chunkwise
