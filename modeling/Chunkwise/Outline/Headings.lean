import Chunkwise.Outline.Finding
import Chunkwise.Pattern

/-!
# Texts divided by headings

Documentation, settings and unknown files are divided into sections: by headings marked with number signs, by names
in brackets, and by lines in capital letters. Sections never nest.
-/

namespace Chunkwise.Headings

open Pattern

inductive Slot where
  | name
deriving Repr, DecidableEq

/-- A heading marked with one to six number signs, which may also close it. -/
def markedPattern : Pattern Slot :=
  upTo (word "#") 6 ++ gap ++
    capture .name (few1 (· != '\n')) ++ blanks ++ run (· == '#') ++ blanks ++ atEnd

def bracketPattern : Pattern Slot :=
  word "[" ++ capture .name (run1 fun c => !isOneOf "[]" c) ++ word "]" ++ atEnd

def isCapitalWord (c : Char) : Bool := c.isUpper || c.isDigit || c == '_'

/-- Words in capital letters, with a colon after them or not. -/
def capitalsPattern : Pattern Slot :=
  capture .name (one Char.isUpper ++ run (fun c => isCapitalWord c || c == ' ') ++ one isCapitalWord) ++
    maybe (word ":") ++ atEnd

def heading? (stripped : Text) : Option Text :=
  match markedPattern.match? stripped with
  | some caps => some (caps.text .name)
  | none =>
    match bracketPattern.match? stripped with
    | some caps => some (caps.text .name).strip
    | none =>
      match capitalsPattern.match? stripped with
      | some caps => if 2 ≤ stripped.countP Char.isAlpha then some (caps.text .name).strip else none
      | none => none

/-- What is found on the line with index `i`: a heading whose name is not blank. -/
def finding (i : Nat) (line : Text) : Finding :=
  match heading? line.strip with
  | some name => if name.isEmpty then .none else ⟨some ⟨i, 0, .heading name⟩, [], []⟩
  | none => .none

def findingsFrom (i : Nat) : List Text → List Finding
  | [] => []
  | line :: rest => finding i line :: findingsFrom (i + 1) rest

def findings (lines : List Text) : List Finding := findingsFrom 0 lines

end Chunkwise.Headings
