import Chunkwise.Text.Basic

/-!
# Blank characters and line breaks

The characters that separate words (the white space of Unicode and the four information separators of ASCII) and
those that end a line of a file's header.
-/

namespace Chunkwise.Text

/-- A blank character: white space, or one of the information separators U+001C to U+001F. -/
def isBlank (c : Char) : Bool :=
  let n := c.toNat
  (9 ≤ n && n ≤ 13) || (28 ≤ n && n ≤ 32) || n == 0x85 || n == 0xA0 || n == 0x1680 ||
    (0x2000 ≤ n && n ≤ 0x200A) || n == 0x2028 || n == 0x2029 || n == 0x202F || n == 0x205F || n == 0x3000

/-- A character that ends a header line: a line feed, carriage return, vertical tab, form feed, one of the
    separators U+001C to U+001E, next line, or the line and paragraph separators. -/
def isLineBreak (c : Char) : Bool :=
  let n := c.toNat
  (10 ≤ n && n ≤ 13) || (28 ≤ n && n ≤ 30) || n == 0x85 || n == 0x2028 || n == 0x2029

def strip (t : Text) : Text := trim isBlank t

def stripStart (t : Text) : Text := t.dropWhile isBlank

def isBlankText (t : Text) : Bool := t.all isBlank

/-- The non-blank items between the commas of a text, stripped. -/
def items (t : Text) : List Text :=
  (splitBy (· == ',') t).filterMap fun item =>
    let item := strip item
    if item.isEmpty then none else some item

end Chunkwise.Text
