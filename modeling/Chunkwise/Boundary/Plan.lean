import Chunkwise.Boundary.Basic
import Chunkwise.Boundary.Position
import Chunkwise.Keyed

/-!
# Planning boundaries

Every file has a boundary at its start and one at its end, and every block that is important enough has one between
them. The plan lists them by position; at one position by file, then start before blocks before end, then by block.
-/

namespace Chunkwise.Boundary

def fileStartImportance : Int := 10

def fileEndImportance : Int := 8

/-- A boundary with its place in the order of the plan. -/
structure Placed where
  boundary : Boundary
  /-- Which file of the collection. -/
  file : Nat
  /-- Which block of the file, counted from one; zero for the start and the end. -/
  block : Nat
deriving Repr, DecidableEq

def Placed.le (a b : Placed) : Bool :=
  if a.boundary.position ≠ b.boundary.position then decide (a.boundary.position < b.boundary.position)
  else if a.file ≠ b.file then decide (a.file < b.file)
  else if a.boundary.kind.rank ≠ b.boundary.kind.rank then decide (a.boundary.kind.rank < b.boundary.kind.rank)
  else decide (a.block ≤ b.block)

/-- The line of its entry on which a block begins: a block at the top of a file begins with the entry, so that no
    boundary comes between a header and its body. -/
def entryLine (text : Text) (file : SourceFile) (block : Block) : Int :=
  if block.startLine ≤ 0 then 0 else text.lineFeedsBetween file.start file.body + block.startLine

def ofBlock (text : Text) (file : SourceFile) (block : Block) : Except Fault Boundary := do
  let position ← linePosition text file (entryLine text file block)
  return ⟨.ofBlock block.kind, position, file.key, block.importance, some block.name⟩

/-- The boundaries of the blocks of one file that reach the threshold; `number` blocks came before. -/
def placedBlocks (text : Text) (file : SourceFile) (order : Nat) (threshold : Int) (number : Nat) :
    List Block → Except Fault (List Placed)
  | [] => .ok []
  | block :: rest => do
    if block.importance < threshold then placedBlocks text file order threshold (number + 1) rest
    else
      let boundary ← ofBlock text file block
      let others ← placedBlocks text file order threshold (number + 1) rest
      return ⟨boundary, order, number + 1⟩ :: others

def placedFile (text : Text) (file : SourceFile) (order : Nat) (threshold : Int) (blocks : List Block) :
    Except Fault (List Placed) := do
  let placed ← placedBlocks text file order threshold 0 blocks
  return ⟨⟨.fileStart, file.start, file.key, fileStartImportance, none⟩, order, 0⟩ :: placed ++
    [⟨⟨.fileEnd, file.stop, file.key, fileEndImportance, none⟩, order, 0⟩]

/-- The boundaries of files, the first of which has the place `order` in the collection. -/
def placedFiles (text : Text) (threshold : Int) (blocks : Keyed (List Block)) (order : Nat) :
    List SourceFile → Except Fault (List Placed)
  | [] => .ok []
  | file :: rest => do
    let first ← placedFile text file order threshold ((blocks.get? file.key).getD [])
    let others ← placedFiles text threshold blocks (order + 1) rest
    return first ++ others

/-- The boundaries of a collection in order, given the blocks of its files by key. -/
def plan (text : Text) (files : List SourceFile) (blocks : Keyed (List Block)) (threshold : Int) :
    Except Fault (List Boundary) := do
  let placed ← placedFiles text threshold blocks 0 files
  return (placed.mergeSort Placed.le).map (·.boundary)

end Chunkwise.Boundary
