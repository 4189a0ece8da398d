import Chunkwise.Chunk.Basic
import Chunkwise.Size

/-!
# Packing segments into chunks

The boundaries of a collection, sorted by position, cut its text into segments. Chunks take whole segments: one is
closed before a segment that would make it longer than the target size, and a segment that is longer itself becomes
a chunk of its own. The boundary at the beginning of an empty segment goes with the next segment that has text.
-/

namespace Chunkwise

/-! ## Segments -/

/-- A part of the text between two neighbouring boundaries, with the boundary at its beginning. -/
structure Segment where
  start : Nat
  stop : Nat
  boundary : Option Boundary
deriving Repr, DecidableEq

namespace Segment

def clamp (length : Nat) (position : Int) : Nat := min length position.toNat

def fromBoundaries (length : Nat) : List Boundary → List Segment
  | [] => []
  | [b] => [⟨clamp length b.position, length, some b⟩]
  | b :: next :: rest =>
    ⟨clamp length b.position, clamp length next.position, some b⟩ :: fromBoundaries length (next :: rest)

/-- Boundaries in the order of their positions; those of one position keep their order. -/
def sortBoundaries (boundaries : List Boundary) : List Boundary :=
  boundaries.mergeSort fun a b => decide (a.position ≤ b.position)

/-- The segments into which boundaries cut a text. -/
def ofBoundaries (length : Nat) (boundaries : List Boundary) : List Segment :=
  match sortBoundaries boundaries with
  | [] => [⟨0, length, none⟩]
  | first :: rest =>
    let lead := clamp length first.position
    (if 0 < lead then [⟨0, lead, none⟩] else []) ++ fromBoundaries length (first :: rest)

end Segment

/-! ## Packing -/

/-- A chunk in the making: its range and its boundaries. -/
structure Draft where
  start : Nat
  stop : Nat
  boundaries : List Boundary
deriving Repr, DecidableEq

structure Packing where
  /-- The closed drafts, in order. -/
  closed : List Draft
  /-- The draft that may still grow. -/
  current : Option Draft
  /-- Boundaries of empty segments since the last segment that had text. -/
  pending : List Boundary
deriving Repr, DecidableEq

namespace Packing

def empty : Packing := ⟨[], none, []⟩

def add (target : Nat) (p : Packing) (s : Segment) : Packing :=
  let pending := p.pending ++ s.boundary.toList
  if s.stop ≤ s.start then { p with pending }
  else
    match p.current with
    | none => ⟨p.closed, some ⟨s.start, s.stop, pending⟩, []⟩
    | some d =>
      if target < (d.stop - d.start) + (s.stop - s.start) then
        ⟨p.closed ++ [d], some ⟨s.start, s.stop, pending⟩, []⟩
      else ⟨p.closed, some { d with stop := s.stop, boundaries := d.boundaries ++ pending }, []⟩

/-- All drafts; boundaries that are left over go to the last one. -/
def finish (p : Packing) : List Draft :=
  match p.current with
  | none => p.closed
  | some d => p.closed ++ [{ d with boundaries := d.boundaries ++ p.pending }]

end Packing

/-- The drafts into which a text of a given length is divided: a single one, with the boundaries in the order
    given, when the whole text is within the target size. -/
def drafts (length target : Nat) (boundaries : List Boundary) : List Draft :=
  if length ≤ target then [⟨0, length, boundaries⟩]
  else ((Segment.ofBoundaries length boundaries).foldl (Packing.add target) Packing.empty).finish

/-! ## From drafts to chunks -/

namespace FileShare

def empty : FileShare := ⟨0, [], [], []⟩

def add (b : Boundary) (share : FileShare) : FileShare where
  importance := max share.importance b.importance
  boundaries := share.boundaries ++ [b]
  functions := if b.kind = .functionStart then share.functions ++ [b.blockName] else share.functions
  classes := if b.kind = .classStart then share.classes ++ [b.blockName] else share.classes

/-- What boundaries say about the files in a chunk. The text after the end of a file is separator text, so an end
    says nothing. -/
def ofBoundaries (boundaries : List Boundary) : Keyed FileShare :=
  boundaries.foldl
    (fun m b => if b.kind = .fileEnd then m else m.update b.filename fun old => (old.getD empty).add b) []

end FileShare

namespace Chunk

/-- A chunk in one sentence: its files by name, three at most, and how many functions and classes begin in it. -/
def semanticSummary (shares : Keyed FileShare) : Text :=
  let names := shares.keys
  let functions := sumOf (shares.map fun (_, share) => share.functions.length)
  let classes := sumOf (shares.map fun (_, share) => share.classes.length)
  "Semantic chunk containing ".toList ++ Text.decimal names.length ++ " file(s)".toList ++
  (if names.isEmpty then []
   else if names.length ≤ 3 then ": ".toList ++ Text.join ", ".toList names
   else
    " including ".toList ++ Text.join ", ".toList (names.take 2) ++ " and ".toList ++
      Text.decimal (names.length - 2) ++ " others".toList) ++
  (if functions = 0 ∧ classes = 0 then []
   else
    " with ".toList ++ Text.decimal functions ++ " function(s) and ".toList ++ Text.decimal classes ++
      " class(es)".toList)

/-- A text in which every character other than an ASCII letter or digit is an underscore. -/
def plainName (t : Text) : Text := t.map fun c => if c.isAlphanum then c else '_'

/-- The name of a chunk as a file: its label and the names of the first three files. -/
def semanticFilename (label : Text) (names : List Text) : Text :=
  "semantic_chunk_".toList ++ label ++
    (if names.isEmpty then [] else '_' :: plainName (Text.join ['_'] (names.take 3)))

/-- The average importance of the files in a chunk, zero without files. -/
def averageImportance (shares : Keyed FileShare) : Except Fault Binary :=
  if shares.isEmpty then .ok ⟨0, 0⟩
  else
    let average := Binary.nearest (sumOf (shares.map fun (_, share) => share.importance.toNat)) shares.length
    if average.fits then .ok average else .error .quotientRange

def ofDraft (content : Text) (index : Nat) (d : Draft) : Except Fault Chunk := do
  let shares := FileShare.ofBoundaries d.boundaries
  let label := Label.ofNat index
  let importance ← averageImportance shares
  return {
    index := index
    label := label
    start := d.start
    stop := d.stop
    content := Text.slice content d.start d.stop
    filename := semanticFilename label shares.keys
    boundaries := d.boundaries
    shares := shares
    summary := semanticSummary shares
    importance := importance }

/-- The chunks that drafts become, the first of which has the given index. -/
def ofDrafts (content : Text) (index : Nat) : List Draft → Except Fault (List Chunk)
  | [] => .ok []
  | d :: rest => do
    let chunk ← ofDraft content index d
    let others ← ofDrafts content (index + 1) rest
    return chunk :: others

/-- The chunks into which boundaries divide a text. The target must have a written form as a size. -/
def semantic (content : Text) (boundaries : List Boundary) (target : TargetSize) : Except Fault (List Chunk) :=
  if content.isEmpty then .ok []
  else do
    let _ ← Size.write target.value
    ofDrafts content 0 (drafts content.length target.value boundaries)

end Chunk

end Chunkwise
