import Chunkwise.Text.Blank

/-!
# Integers in writing

An integer is written with an optional sign and decimal digits of any script, single underscores may stand
between digits, and blank characters other than the information separators may surround the whole. An integer with
too many digits is neither read nor written.
-/

namespace Chunkwise.Text

/-- The zeros of the decimal digits of Unicode 14; each is followed by its nine other digits. -/
def digitZeros : List Nat := [
  48, 1632, 1776, 1984, 2406, 2534, 2662, 2790, 2918, 3046, 3174, 3302, 3430, 3558, 3664, 3792, 3872, 4160,
  4240, 6112, 6160, 6470, 6608, 6784, 6800, 6992, 7088, 7232, 7248, 42528, 43216, 43264, 43472, 43504,
  43600, 44016, 65296, 66720, 68912, 69734, 69872, 69942, 70096, 70384, 70736, 70864, 71248, 71360, 71472,
  71904, 72016, 72784, 73040, 73120, 92768, 92864, 93008, 120782, 120792, 120802, 120812, 120822, 123200,
  123632, 125264, 130032]

def digitValue? (c : Char) : Option Nat :=
  digitZeros.findSome? fun first =>
    if first ≤ c.toNat && c.toNat < first + 10 then some (c.toNat - first) else none

/-- The blank characters that may surround a number. -/
def isNumberBlank (c : Char) : Bool := isBlank c && !(28 ≤ c.toNat && c.toNat < 32)

/-- The number that digits read so far as `value` go on to: an underscore needs a digit on both sides. -/
def readDigits? (value : Nat) : Text → Option Nat
  | [] => some value
  | '_' :: d :: rest =>
    match digitValue? d with
    | some n => readDigits? (10 * value + n) rest
    | none => none
  | d :: rest =>
    match digitValue? d with
    | some n => readDigits? (10 * value + n) rest
    | none => none

/-- A number without sign: at least one digit. -/
def readNat? : Text → Option Nat
  | [] => none
  | d :: rest => (digitValue? d).bind fun n => readDigits? n rest

/-! ## The limit on digits -/

/-- The most digits that an integer may have in writing. -/
def digitLimit : Nat := 4300

def isWritable (n : Int) : Bool := decide ((decimal n.natAbs).length ≤ digitLimit)

/-! ## Integers -/

/-- What a text says when it is read as an integer. -/
inductive Reading where
  | integer (value : Int)
  /-- The text begins like an integer with more digits than are read. -/
  | tooLong (digits : Nat)
  | malformed
deriving Repr, DecidableEq

def isNumeral (c : Char) : Bool := c == '_' || (digitValue? c).isSome

def countDigits (t : Text) : Nat := t.countP fun c => (digitValue? c).isSome

/-- Reads a text after its sign. The digits are counted before what follows them is looked at, so that too many of
    them are refused as such whatever follows. -/
def readUnsigned (negative : Bool) (t : Text) : Reading :=
  let numeral := t.takeWhile isNumeral
  match readNat? numeral with
  | none => .malformed
  | some n =>
    if digitLimit < countDigits numeral then .tooLong (countDigits numeral)
    else if (t.dropWhile isNumeral).all isNumberBlank then .integer (if negative then -(n : Int) else n)
    else .malformed

def readInt (t : Text) : Reading :=
  match t.dropWhile isNumberBlank with
  | '-' :: rest => readUnsigned true rest
  | '+' :: rest => readUnsigned false rest
  | rest => readUnsigned false rest

end Chunkwise.Text
