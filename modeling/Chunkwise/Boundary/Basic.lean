import Chunkwise.Fault
import Chunkwise.Outline.Basic

/-!
# Boundaries

A boundary marks a place in the text of a collection where a file begins or ends, or where an important block of a
file begins.
-/

namespace Chunkwise

inductive BoundaryKind where
  | fileStart
  | fileEnd
  | functionStart
  | classStart
  | sectionStart
deriving Repr, DecidableEq

namespace BoundaryKind

def word : BoundaryKind → Text
  | fileStart => "file_start".toList
  | fileEnd => "file_end".toList
  | functionStart => "function_start".toList
  | classStart => "class_start".toList
  | sectionStart => "section_start".toList

def ofWord? (w : Text) : Option BoundaryKind :=
  [fileStart, fileEnd, functionStart, classStart, sectionStart].find? (·.word == w)

theorem ofWord?_word (k : BoundaryKind) : ofWord? k.word = some k := by cases k <;> decide

def ofBlock : BlockKind → BoundaryKind
  | .functionBlock => functionStart
  | .classBlock => classStart
  | .sectionBlock => sectionStart

/-- The order of boundaries of one file at one position: its start, then its blocks, then its end. -/
def rank : BoundaryKind → Nat
  | fileStart => 0
  | functionStart | classStart | sectionStart => 1
  | fileEnd => 2

end BoundaryKind

/-- A place in the text of a collection. -/
structure Boundary where
  kind : BoundaryKind
  position : Int
  /-- The key of the file. -/
  filename : Text
  importance : Int
  blockName : Option Text := none
deriving Repr, DecidableEq

namespace Boundary

def shownName (name : Option Text) : Text := name.getD "None".toList

def description (b : Boundary) : Text :=
  let block (word : String) : Text := word.toList ++ ' ' :: shownName b.blockName ++ " in ".toList ++ b.filename
  match b.kind with
  | .fileStart => "Start of ".toList ++ b.filename
  | .fileEnd => "End of ".toList ++ b.filename
  | .functionStart => block "function"
  | .classStart => block "class"
  | .sectionStart => block "section"

end Boundary

end Chunkwise
