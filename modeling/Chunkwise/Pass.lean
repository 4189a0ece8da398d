import Chunkwise.Boundary.Plan
import Chunkwise.Chunk.Semantic
import Chunkwise.Chunk.Sized
import Chunkwise.Outline.Registry
import Chunkwise.Reference.Chunks
import Chunkwise.Reference.Files
import Chunkwise.Wrapping

/-!
# Passes

A pass turns a collection, a target size and a strategy into wrapped chunks. What is known about a collection
regardless of the size is its analysis, which can be kept from one pass to the next.
-/

namespace Chunkwise

/-! ## Analysis -/

/-- What is known about a collection regardless of the target size. -/
structure Analysis where
  content : Text
  files : List SourceFile
  outlines : Keyed Outline
  references : Keyed (List FileReference)
deriving Repr, DecidableEq

namespace Analysis

/-- The outlines of files by key; of files with one key the last one counts. -/
def outlinesOf (r : Registry) (files : List SourceFile) : Keyed Outline :=
  Keyed.ofList (files.map fun f => (f.key, Outline.ofFile r f.filename f.content f.isBinary))

/-- The shortest name whose calls are followed, when nothing else is asked for. -/
def defaultMinCallName : Int := 3

def ofContent (content : Text) : Analysis :=
  let files := Collection.parse content
  let outlines := outlinesOf Registry.builtIn files
  ⟨content, files, outlines, Reference.ofFiles files outlines defaultMinCallName⟩

def blocks (a : Analysis) : Keyed (List Block) := a.outlines.map fun (key, outline) => (key, outline.blocks)

def referenceCount (a : Analysis) : Nat := sumOf (a.references.map fun (_, rs) => rs.length)

end Analysis

/-! ## Running a pass -/

structure Outcome where
  chunks : List Chunk
  target : TargetSize
  strategy : Strategy
  /-- The strategy that was used in the end. -/
  used : Strategy
  boundaries : List Boundary
  analysis : Analysis
deriving Repr, DecidableEq

namespace Pass

/-- The importance from which on blocks are boundaries, when nothing else is asked for. -/
def defaultThreshold : Int := 7

/-- Gives every chunk the references that lead from it to other chunks. -/
def attachReferences (a : Analysis) (chunks : List Chunk) : List Chunk :=
  let assigned := assignment chunks
  chunks.map fun c => { c with references := Reference.ofChunk a.files assigned a.references c.index }

def boundariesFor (threshold : Int) (strategy : Strategy) (a : Analysis) : Except Fault (List Boundary) :=
  match strategy with
  | .semantic => Boundary.plan a.content a.files a.blocks threshold
  | .sizeBased => .ok []

/-- A pass over an analysed collection. Without boundaries the text is cut by size. -/
def runOn (threshold : Int) (a : Analysis) (target : TargetSize) (strategy : Strategy) : Except Fault Outcome := do
  let boundaries ← boundariesFor threshold strategy a
  if boundaries.isEmpty then
    return ⟨Wrapping.applyAll (Chunk.sized a.content target), target, strategy, .sizeBased, boundaries, a⟩
  else
    let chunks ← Chunk.semantic a.content boundaries target
    return ⟨Wrapping.applyAll (attachReferences a chunks), target, strategy, .semantic, boundaries, a⟩

/-- The analysis that a pass over a content works with: one that is kept is used again if it is of that content. -/
def analysisFor (content : Text) (kept : Option Analysis) : Analysis :=
  match kept with
  | some a => if a.content = content then a else Analysis.ofContent content
  | none => Analysis.ofContent content

/-- A pass over a content, with the target size and the strategy as a request gives them. -/
def run (threshold : Int) (content : Text) (size strategy : Argument) (kept : Option Analysis) :
    Except Fault Outcome := do
  let target ← TargetSize.ofArgument size
  let strategy ← Strategy.ofArgument strategy
  runOn threshold (analysisFor content kept) target strategy

end Pass

end Chunkwise
