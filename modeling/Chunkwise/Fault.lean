import Chunkwise.Argument
import Chunkwise.Text.Numeral

/-!
# Faults

The causes for which a request is refused, and the one function that words them.
-/

namespace Chunkwise

/-- A closed vocabulary whose words a request may have to use. -/
inductive Vocabulary where
  | blockKind
  | boundaryKind
  | referenceKind
  | strategy
deriving Repr, DecidableEq

def Vocabulary.name : Vocabulary → Text
  | .blockKind => "BlockType".toList
  | .boundaryKind => "BoundaryType".toList
  | .referenceKind => "ReferenceType".toList
  | .strategy => "ChunkingStrategy".toList

/-- Why a request is refused. -/
inductive Fault where
  /-- The target size of a chunk is not a positive integer. -/
  | targetSize (given : Argument)
  /-- The word names no chunking strategy. -/
  | strategy (given : Argument)
  /-- The word is not in a closed vocabulary. -/
  | unknownWord (vocabulary : Vocabulary) (given : Argument)
  /-- Chunks are labelled from zero on. -/
  | labelIndex (index : Int)
  /-- The text writes no integer. -/
  | notInteger (given : Text)
  /-- The text writes an integer with more digits than are read. -/
  | numeralLength (digits : Nat)
  /-- An integer has more digits than are written. -/
  | numberLength
  /-- There is no chunk of that index. -/
  | chunkIndex (index : Int) (count : Nat)
  /-- The content of a file cannot be source code. -/
  | notSource (filename : Text)
  /-- A quotient of integers is beyond the range of binary fractions. -/
  | quotientRange
  /-- An integer is beyond the range of binary fractions. -/
  | integerRange
  /-- An integer is beyond the range of positions in a text. -/
  | positionRange
  /-- An infinite number has no integer part. -/
  | infiniteInteger
  /-- An undefined number has no integer part. -/
  | undefinedInteger
  /-- The name stands for a layout of messages, not for a level. -/
  | notLevel (layout : Text)
  /-- A value of another type is wanted. -/
  | wrongType
  /-- A pass was stopped from outside. -/
  | stopped (reason : Text)
deriving Repr

namespace Fault

def digitLimitWords : Text :=
  "Exceeds the limit (".toList ++ Text.decimal Text.digitLimit ++ " digits) for integer string conversion".toList

def digitLimitAdvice : Text := "; use sys.set_int_max_str_digits() to increase the limit".toList

/-- The wording of a fault. A number's text is shown up to two hundred characters. -/
def message : Fault → Text
  | .targetSize given => "Target chunk size must be a positive integer, got ".toList ++ given.written
  | .strategy given =>
    "Unsupported chunking strategy: ".toList ++ given.plain ++ ". Expected one of: semantic, size-based".toList
  | .unknownWord vocabulary given => given.written ++ " is not a valid ".toList ++ vocabulary.name
  | .labelIndex index => "Chunk index must be non-negative, got ".toList ++ Text.decimalInt index
  | .notInteger given => "invalid literal for int() with base 10: ".toList ++ (Text.quoted given).take 200
  | .numeralLength digits =>
    digitLimitWords ++ ": value has ".toList ++ Text.decimal digits ++ " digits".toList ++ digitLimitAdvice
  | .numberLength => digitLimitWords ++ digitLimitAdvice
  | .chunkIndex index count =>
    "Chunk index ".toList ++ Text.decimalInt index ++ " out of range for ".toList ++ Text.decimal count ++
      " chunks".toList
  | .notSource filename => "Cannot analyze ".toList ++ filename ++ ": content contains NUL bytes".toList
  | .quotientRange => "integer division result too large for a float".toList
  | .integerRange => "int too large to convert to float".toList
  | .positionRange => "cannot fit 'int' into an index-sized integer".toList
  | .infiniteInteger => "cannot convert float infinity to integer".toList
  | .undefinedInteger => "cannot convert float NaN to integer".toList
  | .notLevel layout => "Unknown level: ".toList ++ Text.quoted layout
  | .wrongType => "a value of another type is wanted".toList
  | .stopped reason => reason

/-- Whether the wording of a fault can be written: it may show a value that was given. -/
def isWritable : Fault → Bool
  | .targetSize given | .strategy given | .unknownWord _ given => given.isWritable
  | .labelIndex index | .chunkIndex index _ => Text.isWritable index
  | _ => true

/-- What becomes of a fault when it is put into words: it gives way to another one if it cannot be written. -/
def worded (f : Fault) : Fault := if f.isWritable then f else .numberLength

/-- Two steps in a row give a value when the first one does and the second one does after it. -/
theorem bind_ok {α β : Type} {first : Except Fault α} {second : α → Except Fault β} {b : β} :
    (first >>= second) = .ok b ↔ ∃ a, first = .ok a ∧ second a = .ok b := by
  cases first <;> simp [bind, Except.bind]

end Fault

end Chunkwise
