import Chunkwise.Boundary.Basic
import Chunkwise.Keyed
import Chunkwise.Label
import Chunkwise.Reference.Basic
import Chunkwise.Strategy

/-!
# Chunks

A chunk is a contiguous part of the text of a collection, with what is known about the files in it.
-/

namespace Chunkwise

/-- What a chunk holds of one file. -/
structure FileShare where
  /-- The greatest importance of its boundaries, at least zero. -/
  importance : Int
  boundaries : List Boundary
  functions : List (Option Text)
  classes : List (Option Text)
deriving Repr, DecidableEq

/-- A contiguous part of a collection. -/
structure Chunk where
  index : Int
  label : Text
  start : Nat
  stop : Nat
  content : Text
  /-- A name for the chunk as a file. -/
  filename : Text
  boundaries : List Boundary := []
  shares : Keyed FileShare := []
  references : List CrossReference := []
  summary : Text := []
  /-- What the reader of the chunk is asked to do. -/
  instructions : Text := []
  /-- The content together with the instructions, ready to be sent. -/
  wrapped : Text := []
  importance : Binary := ⟨0, 0⟩
  strategy : Strategy := .semantic
deriving Repr, DecidableEq

namespace Chunk

/-- A content of which only the size is known, as a row of one letter. A size beyond the range of positions in a
    text is refused. -/
def standIn (size : Int) : Except Fault Text :=
  if size < Text.lengthLimit then .ok (List.replicate size.toNat 'x') else .error .positionRange

def size (c : Chunk) : Nat := c.content.length

def fileNames (c : Chunk) : List Text := c.shares.keys

end Chunk

/-- The indices of the chunks that hold part of each file, in the order in which the files come up. -/
def assignment (chunks : List Chunk) : Keyed (List Int) :=
  chunks.foldl (fun m c => c.fileNames.foldl (fun m key => m.push key c.index) m) []

end Chunkwise
