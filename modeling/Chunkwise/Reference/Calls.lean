import Chunkwise.Text.Blank
import Chunkwise.Text.Word

/-!
# Call sites

A call site is a name with an opening parenthesis after it, blank characters between them or not. A name may hold
dollar signs, which are no word characters: a name begins where a word begins, or with a dollar sign right after a
word.
-/

namespace Chunkwise.Reference

def beginsName (c : Char) : Bool := c.isAlpha || c == '_' || c == '$'

def continuesName (c : Char) : Bool := Text.isWord c || c == '$'

/-- Whether a word begins or ends between a character and the one before it. -/
def isWordEdge (previous : Option Char) (c : Char) : Bool := previous.any Text.isWord != Text.isWord c

/-- The called name at the beginning of a text, and the length of the call up to its parenthesis. -/
def callAt? (previous : Option Char) (t : Text) : Option (Text × Nat) :=
  if t.head?.any fun c => beginsName c && isWordEdge previous c then
    let name := t.takeWhile continuesName
    let after := t.dropWhile continuesName
    if (after.dropWhile Text.isBlank).head? == some '(' then
      some (name, name.length + (after.takeWhile Text.isBlank).length + 1)
    else none
  else none

/-- The called names in a text that follows `previous`, from left to right; the next `skip` characters still belong
    to the call before. -/
def callsFrom (previous : Option Char) (skip : Nat) : Text → List Text
  | [] => []
  | c :: rest =>
    match skip with
    | k + 1 => callsFrom (some c) k rest
    | 0 =>
      match callAt? previous (c :: rest) with
      | some (name, length) => name :: callsFrom (some c) (length - 1) rest
      | none => callsFrom (some c) 0 rest

def calledNames (t : Text) : List Text := callsFrom none 0 t

end Chunkwise.Reference
