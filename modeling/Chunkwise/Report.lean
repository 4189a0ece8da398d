import Chunkwise.Chunk.Basic
import Chunkwise.Size
import Chunkwise.Text.Case
import Chunkwise.Wrapping

/-!
# Reports

A report sums up a list of chunks: their sizes, their references, and over which chunks each file is spread.
-/

namespace Chunkwise

/-! ## Sizes -/

/-- The average size of chunks, rounded to the nearest integer, a half to the even one; zero without chunks. -/
def averageSize (chunks : List Chunk) : Nat :=
  if chunks.isEmpty then 0 else roundDiv (sumOf (chunks.map (·.size))) chunks.length

def largestSize (chunks : List Chunk) : Nat := (chunks.map (·.size)).max?.getD 0

def smallestSize (chunks : List Chunk) : Nat := (chunks.map (·.size)).min?.getD 0

/-! ## Summary -/

structure Summary where
  totalChunks : Nat
  strategy : Strategy
  average : Nat
  largest : Nat
  smallest : Nat
  references : Nat
  /-- The share of files that are not spread over several chunks. -/
  cohesion : Binary
  /-- The chunks that hold part of each file. -/
  files : Keyed (List Int)
deriving Repr, DecidableEq

namespace Summary

/-- The share of files that lie in one chunk; one when there are no files. -/
def cohesionOf (files : Keyed (List Int)) : Binary :=
  if files.isEmpty then Binary.ofNat 1
  else (Binary.nearest (files.countP fun (_, chunks) => 1 < chunks.length) files.length).oneMinus

def ofChunks (chunks : List Chunk) (strategy : Strategy) : Summary :=
  let files := assignment chunks
  { totalChunks := chunks.length
    strategy := strategy
    average := averageSize chunks
    largest := largestSize chunks
    smallest := smallestSize chunks
    references := sumOf (chunks.map (·.references.length))
    cohesion := cohesionOf files
    files := files }

end Summary

/-! ## Kinds of chunks -/

def topicWords : List (String × String) := [
  ("config", "Config"), ("test", "Tests"), ("api", "API"), ("component", "Components")]

/-- What a chunk mostly holds: classes, or else functions, or else what its filenames tell. -/
def Chunk.topic (c : Chunk) : Text :=
  if c.shares.any fun (_, share) => !share.classes.isEmpty then "Classes".toList
  else if c.shares.any fun (_, share) => !share.functions.isEmpty then "Functions".toList
  else
    let names := Text.lower (Text.join [' '] c.fileNames)
    match topicWords.find? fun (w, _) => names.holds w with
    | some (_, topic) => topic.toList
    | none => "Code".toList

/-! ## The text of a report -/

namespace Report

def overview (s : Summary) (time : Option Text) : List Text :=
  ["SEMANTIC CHUNKING ANALYSIS REPORT".toList, List.replicate 50 '=', []] ++
  (time.toList.map fun t => "Generated: ".toList ++ t) ++
  ["Strategy: ".toList ++ s.strategy.word,
    "Total Chunks: ".toList ++ Text.decimal s.totalChunks,
    "Average Chunk Size: ".toList ++ Size.text s.average,
    "Largest Chunk Size: ".toList ++ Size.text s.largest,
    "Smallest Chunk Size: ".toList ++ Size.text s.smallest,
    "Cross-References: ".toList ++ Text.decimal s.references,
    "Semantic Cohesion: ".toList ++ (s.cohesion.mul (Binary.ofNat 100)).fixed 1 ++ ['%'],
    []]

def listedReferences (c : Chunk) : List CrossReference := c.references.take Wrapping.defaultListed.toNat

def chunkLines (number : Nat) (c : Chunk) : List Text :=
  ["Chunk ".toList ++ Text.decimal number ++ " (".toList ++ c.label.upper ++ "):".toList,
    "  Size: ".toList ++ Size.text c.size,
    "  Type: ".toList ++ c.topic,
    "  Summary: ".toList ++ (if c.summary.isEmpty then "N/A".toList else c.summary)] ++
  (if c.references.isEmpty then []
   else
    ("  Cross-references: ".toList ++ Text.decimal c.references.length) ::
    (listedReferences c).map fun r =>
      "    → Chunk ".toList ++ Text.decimalInt (r.targetChunk + 1) ++ ": ".toList ++ r.description) ++
  [[]]

def breakdownFrom (number : Nat) : List Chunk → List Text
  | [] => []
  | c :: rest => chunkLines number c ++ breakdownFrom (number + 1) rest

def distributionLine (name : Text) (chunks : List Int) : Text :=
  name ++ ": Chunk(s) ".toList ++ Text.join ", ".toList (chunks.map fun i => Text.decimalInt (i + 1))

/-- The text of a report, with the time at which it is made or without. -/
def text (chunks : List Chunk) (strategy : Strategy) (time : Option Text) : Text :=
  let s := Summary.ofChunks chunks strategy
  let rule := List.replicate 30 '-'
  Wrapping.joinLines
    (overview s time ++ ["CHUNK BREAKDOWN".toList, rule] ++ breakdownFrom 1 chunks ++
      ["FILE DISTRIBUTION".toList, rule] ++ s.files.map fun (name, chunks) => distributionLine name chunks) ++
  ['\n']

/-- The numbers of chunks that a report writes out beside counts of its own. -/
def writtenNumbers (chunks : List Chunk) : List Int :=
  (chunks.flatMap fun c => (listedReferences c).map (·.targetChunk + 1)) ++
    (assignment chunks).flatMap fun (_, indices) => indices.map (· + 1)

/-- The text of a report, unless a number in it has too many digits. -/
def write (chunks : List Chunk) (strategy : Strategy) (time : Option Text) : Except Fault Text :=
  if (writtenNumbers chunks).all Text.isWritable then .ok (text chunks strategy time) else .error .numberLength

end Report

end Chunkwise
