import Chunkwise.Outline.Importance

/-!
# Tracking open blocks

A block stays open until another one opens at the same or a smaller depth, or until the end. The open blocks form
a stack of growing depth, and a closed block ends on the line before the one that closed it.
-/

namespace Chunkwise

/-- Ends a block on a line, but not before its first line. -/
def Block.endAt (last : Int) (b : Block) : Block := { b with endLine := max b.startLine last }

/-- The blocks met so far. -/
structure Tracker where
  /-- The open blocks, the innermost first. -/
  opened : List Block
  /-- The closed blocks, in the order of their closing. -/
  closed : List Block
deriving Repr, DecidableEq

namespace Tracker

def empty : Tracker := ⟨[], []⟩

def newBlock (kind : BlockKind) (name : Text) (line depth : Int) : Block :=
  ⟨kind, name, line, line, blockImportance name kind, depth⟩

/-- Opens a block and closes those of its depth or deeper, the innermost first. -/
def openBlock (kind : BlockKind) (name : Text) (line depth : Int) (t : Tracker) : Tracker :=
  let ending := t.opened.takeWhile fun b => decide (depth ≤ b.depth)
  let staying := t.opened.dropWhile fun b => decide (depth ≤ b.depth)
  ⟨newBlock kind name line depth :: staying, t.closed ++ ending.map (Block.endAt (line - 1))⟩

def closeAll (last : Int) (t : Tracker) : Tracker :=
  ⟨[], t.closed ++ t.opened.map (Block.endAt last)⟩

def blockOrder (a b : Block) : Bool :=
  decide (a.startLine < b.startLine) || (a.startLine == b.startLine && decide (a.depth ≤ b.depth))

/-- The closed blocks by first line, then by depth, then in the order of their closing. -/
def sorted (t : Tracker) : List Block := t.closed.mergeSort blockOrder

end Tracker

end Chunkwise
