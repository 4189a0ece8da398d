import Chunkwise.Text.Basic

/-!
# Comments

A line of a source with braces is searched for declarations only outside its comments. A comment runs from two
slashes to the end of the line, or between the two block marks, possibly over several lines. Two slashes right
after a colon belong to an address.
-/

namespace Chunkwise.Comments

def blockOpen : Text := ['/', '*']

def blockClose : Text := ['*', '/']

/-- The mark of a comment that runs to the end of its line. -/
def lineMark : Text := ['/', '/']

def followsColon (t : Text) (i : Nat) : Bool := 0 < i && t[i - 1]? == some ':'

/-- Where a comment to the end of the line begins, if the first line mark stands before the first block mark and
    does not belong to an address. -/
def lineComment? (t : Text) : Option Nat :=
  match Text.firstAt? lineMark t, Text.firstAt? blockOpen t with
  | some i, some start => if i < start && !followsColon t i then some i else none
  | some i, none => if followsColon t i then none else some i
  | none, _ => none

/-- The code of what is left of a line, and whether a block comment is open at its end. Only the first line mark
    and the first block mark are looked at; when the line mark belongs to an address, the code up to the block mark
    is kept whole. -/
def strip (left : Text) (inBlock : Bool) : Text × Bool :=
  if _h : left = [] then ([], inBlock)
  else if inBlock then
    match Text.firstAt? blockClose left with
    | none => ([], true)
    | some stop => strip (left.drop (stop + 2)) false
  else
    match lineComment? left with
    | some i => (left.take i, false)
    | none =>
      match Text.firstAt? blockOpen left with
      | none => (left, false)
      | some start =>
        let (code, stillIn) := strip (left.drop (start + 2)) true
        (left.take start ++ code, stillIn)
termination_by left.length
decreasing_by
  all_goals
    have positive := List.length_pos_iff.mpr _h
    simp only [List.length_drop]
    omega

end Chunkwise.Comments
