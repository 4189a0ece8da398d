import Chunkwise.Chunk.Basic
import Chunkwise.Size

/-!
# Wrapping chunks

A chunk is sent together with what its reader is to do: how to pace the answers, what is in the chunk, and what to
attend to. The reader answers only after the last chunk, which ends with the completion marker.
-/

namespace Chunkwise.Wrapping

/-- Ends every line of the parts but the last with a line feed. -/
def joinLines (lines : List Text) : Text := Text.join ['\n'] lines

def sectionRule : Text := List.replicate 60 '='

def completionMarker : Text := "DONE WITH ALL CHUNKS".toList

/-- How many references are listed when nothing else is asked for. -/
def defaultListed : Int := 3

def codeRules : List Text := [
  "CODE OUTPUT RULES:".toList,
  "- Only write code when user explicitly requests it".toList,
  "- Always use code artifacts for any code/file output".toList,
  "- Do NOT write code for analysis or general questions".toList]

/-! ## Instructions -/

def placeLine (index total : Int) : Text :=
  if index = 0 then
    "FIRST CHUNK: Start by understanding the overall project structure and main entry points.".toList
  else if index = total - 1 then
    "FINAL CHUNK: Complete your analysis and provide comprehensive recommendations.".toList
  else
    "CHUNK ".toList ++ Text.decimalInt (index + 1) ++ '/' :: Text.decimalInt total ++
      ": Continue analysis building on previous context.".toList

/-- The numbers of the chunks that a chunk refers to, in ascending order. -/
def referencedNumbers (references : List CrossReference) : List Int :=
  (references.map (·.targetChunk + 1)).eraseDups.mergeSort fun a b => decide (a ≤ b)

/-- The lines on the references of a chunk, of which the first `listed` are listed. -/
def referenceLines (listed : Int) (references : List CrossReference) : List Text :=
  if references.isEmpty then []
  else
    ("CROSS-REFERENCES: This chunk references code in chunk(s) ".toList ++
      Text.join ", ".toList ((referencedNumbers references).map Text.decimalInt)) ::
    (Text.takeSigned listed references).map fun r => "  → ".toList ++ r.description

def primaryFiles (shares : Keyed FileShare) : List Text :=
  ((shares.mergeSort fun a b => decide (b.2.importance ≤ a.2.importance)).take 2).map (·.1)

def instructions (listed : Int) (c : Chunk) (index total : Int) : Text :=
  let primary := primaryFiles c.shares
  joinLines <|
    [placeLine index total, "SEMANTIC CONTEXT: ".toList ++ c.summary] ++
    referenceLines listed c.references ++
    (if primary.isEmpty then []
     else ["PRIMARY FOCUS: Pay special attention to ".toList ++ Text.join " and ".toList primary]) ++
    (if c.references.isEmpty then []
     else
      ["ANALYSIS APPROACH: Note relationships with other chunks for comprehensive understanding.".toList]) ++
    ["IMPORTANT: Analyze this chunk in context of the overall project architecture.".toList]

/-! ## The wrapped text -/

/-- How to answer a chunk that is not the last one. -/
def pacing (index : Int) : Text :=
  "I'm providing a semantic chunk of my project files. ".toList ++
  "IMPORTANT: Just respond with \"Ready for semantic chunk ".toList ++ Text.decimalInt (index + 2) ++
  "\" after receiving this chunk. Do not analyze until I say \"".toList ++ completionMarker ++ "\".\n\n".toList

def metadata (c : Chunk) : Text :=
  "CHUNK METADATA:\n".toList ++
  "- Files: ".toList ++ Text.join ", ".toList c.fileNames ++ "\n- Size: ".toList ++ Size.text c.size ++
  "\n- Semantic Summary: ".toList ++ c.summary ++ ['\n'] ++
  (if c.references.isEmpty then []
   else
    "- Cross-references: ".toList ++ Text.decimal c.references.length ++
      " reference(s) to other chunks\n".toList)

def contentHeading : Text := "CHUNK CONTENT:\n".toList ++ sectionRule ++ "\n\n".toList

def opening (listed : Int) (c : Chunk) (index total : Int) : Text :=
  (if index = total - 1 then [] else pacing index) ++
  "SEMANTIC CHUNK ".toList ++ Text.decimalInt (index + 1) ++ '/' :: Text.decimalInt total ++ '\n' :: sectionRule ++
  "\n\n".toList ++ metadata c ++ '\n' :: instructions listed c index total ++ "\n\n".toList ++
  joinLines codeRules ++ "\n\n".toList ++ contentHeading

def completion : Text :=
  "\n\n".toList ++ completionMarker ++ "\n\nYou can now analyze the complete project. ".toList ++
  "Use the semantic relationships and cross-references to understand the architecture.".toList

def wrap (listed : Int) (c : Chunk) (index total : Int) : Text :=
  opening listed c index total ++ c.content ++ (if index = total - 1 then completion else [])

/-- The numbers of chunks that the wrapped text writes out. -/
def writtenNumbers (c : Chunk) (index total : Int) : List Int :=
  (if index = total - 1 then [] else [index + 2]) ++ [index + 1, total] ++ c.references.map (·.targetChunk + 1)

/-- The instructions and the wrapped text of a chunk, unless a number in them has too many digits. -/
def write (listed : Int) (c : Chunk) (index total : Int) : Except Fault (Text × Text) :=
  if (writtenNumbers c index total).all Text.isWritable then
    .ok (instructions listed c index total, wrap listed c index total)
  else .error .numberLength

def apply (listed : Int) (index total : Int) (c : Chunk) : Chunk :=
  { c with instructions := instructions listed c index total, wrapped := wrap listed c index total }

/-- Chunks from place `index` of `total` on, with their instructions and wrapped texts. -/
def applyFrom (listed : Int) (total index : Nat) : List Chunk → List Chunk
  | [] => []
  | c :: rest => apply listed index total c :: applyFrom listed total (index + 1) rest

/-- All chunks of a pass, with their instructions and wrapped texts. -/
def applyAll (chunks : List Chunk) : List Chunk := applyFrom defaultListed chunks.length 0 chunks

end Chunkwise.Wrapping
