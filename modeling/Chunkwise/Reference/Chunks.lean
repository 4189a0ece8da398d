import Chunkwise.Chunk.Basic
import Chunkwise.Collection.SourceFile

/-!
# References between chunks

The references of the files in a chunk lead to the first chunk that holds part of the file referred to. A reference
within a chunk is dropped, and so is one that says the same as an earlier one of its chunk.
-/

namespace Chunkwise.Reference

/-- The keys of the files that have part in a chunk, in file order; a file counts once for every time that the chunk
    is listed for it. -/
def filesOfChunk (files : List SourceFile) (assigned : Keyed (List Int)) (chunk : Int) : List Text :=
  files.flatMap fun f => List.replicate (((assigned.get? f.key).getD []).count chunk) f.key

def firstChunk? (assigned : Keyed (List Int)) (key : Text) : Option Int := ((assigned.get? key).getD []).min?

/-- Where a reference of a file in a chunk leads: to another chunk, or nowhere. -/
def leadsTo? (assigned : Keyed (List Int)) (chunk : Int) (key : Text) (r : FileReference) : Option CrossReference :=
  match firstChunk? assigned r.target with
  | some target => if target = chunk then none else some ⟨r.kind, target, r.target, key, r.description⟩
  | none => none

/-- Whether two references say the same: the same kind, target chunk and description. -/
def saysSame (a b : CrossReference) : Bool :=
  a.kind == b.kind && a.targetChunk == b.targetChunk && a.description == b.description

def dropRepeated (seen : List CrossReference) : List CrossReference → List CrossReference
  | [] => []
  | r :: rest =>
    if seen.any (saysSame r) then dropRepeated seen rest else r :: dropRepeated (r :: seen) rest

def ofChunk (files : List SourceFile) (assigned : Keyed (List Int)) (references : Keyed (List FileReference))
    (chunk : Int) : List CrossReference :=
  dropRepeated [] <| (filesOfChunk files assigned chunk).flatMap fun key =>
    ((references.get? key).getD []).filterMap (leadsTo? assigned chunk key)

/-- The chunks that hold part of some file, in ascending order. -/
def assignedChunks (assigned : Keyed (List Int)) : List Int :=
  (assigned.flatMap (·.2)).eraseDups.mergeSort fun a b => decide (a ≤ b)

def resolve (files : List SourceFile) (assigned : Keyed (List Int)) (references : Keyed (List FileReference)) :
    List (Int × List CrossReference) :=
  (assignedChunks assigned).map fun chunk => (chunk, ofChunk files assigned references chunk)

end Chunkwise.Reference
