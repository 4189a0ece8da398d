import Chunkwise.Argument.Integer
import Chunkwise.Pass
import Chunkwise.Settings

/-!
# Sessions

A session holds a collection, the chunks of its latest pass and a place among them. A request never changes the
chunks one by one: a pass that succeeds replaces them all, and one that fails leaves them as they are.
-/

namespace Chunkwise

/-- A text that a session can be given: any that can be held at all. -/
structure Content where
  text : Text
  short : text.length < Text.lengthLimit := by decide
deriving Repr, DecidableEq

def Content.ofText (text : Text) : Except Fault Content :=
  if short : text.length < Text.lengthLimit then .ok ⟨text, short⟩ else .error .positionRange

/-- A request that comes in while a pass is running. -/
inductive Callback where
  /-- Asks whether a pass is running. -/
  | isBusy
  /-- Asks for another size. -/
  | resize (size : Argument)
  /-- Asks for a pass at a size. -/
  | rechunk (size : Argument)
deriving Repr

/-- What runs the passes of a session. -/
structure Engine where
  /-- The requests that come in when a pass begins, in their order. -/
  callbacks : List Callback := []
  /-- The reason for which every pass is stopped, if there is one. -/
  stop : Option Text := none
deriving Repr

namespace Engine

def working : Engine := {}

def failing (reason : Text) : Engine := { stop := some reason }

end Engine

structure Failure where
  /-- The target size, as it was given. -/
  target : Argument
  cause : Fault
deriving Repr

def Failure.message (f : Failure) : Text :=
  "Re-chunking at size ".toList ++ f.target.plain ++ " failed: ".toList ++ f.cause.message

/-- A collection, its chunks and a place among them. -/
structure Session where
  engine : Engine
  defaultSize : Int
  minSize : Int
  strategy : Strategy
  content : Text
  /-- The target size of the latest pass that succeeded, or of the next one. -/
  size : Int
  chunks : List Chunk
  /-- The place among the chunks. -/
  index : Nat
  /-- The analysis that is kept for the next pass. -/
  analysis : Option Analysis
  /-- The outcome of the latest pass that succeeded on the content. -/
  outcome : Option Outcome
  failure : Option Failure
  /-- Whether a pass is running; requests are ignored meanwhile. -/
  busy : Bool
deriving Repr

namespace Session

def hasOutcome (s : Session) : Bool := s.outcome.isSome

def current (s : Session) : Option Chunk := s.chunks[s.index]?

/-- The strategy that the chunks are made with, as far as there are chunks. -/
def reportedStrategy (s : Session) : Strategy := (s.outcome.map (·.used)).getD s.strategy

/-- A size within the session's bounds: no smaller than the smallest size, and no larger than the content. -/
def clamp (s : Session) (size : Int) : Int :=
  let size := max size (max s.minSize 1)
  if s.content.isEmpty then size else min size s.content.length

def clampArgument (s : Session) (size : Argument) : Except Fault Int := size.toInt.map s.clamp

/-- The place moved to the last chunk, if it is beyond that. -/
def clampIndex (s : Session) : Session := { s with index := min s.index (s.chunks.length - 1) }

/-- The whole content as a single chunk, without a pass. -/
def wholeContent (content : Text) : List Chunk :=
  if content.isEmpty then []
  else Wrapping.applyAll [{
    index := 0
    label := Label.ofNat 0
    start := 0
    stop := content.length
    content := content
    filename := "file_a".toList
    summary := "Complete file collection".toList
    strategy := .sizeBased }]

end Session

end Chunkwise
