import Chunkwise.Report
import Chunkwise.Session.Control

/-!
# Moving among the chunks

Requests that change the place of a session or only look at its chunks.
-/

namespace Chunkwise.Session

def hasChunk (s : Session) (index : Int) : Bool := decide (0 ≤ index) && decide (index < s.chunks.length)

def switchTo (index : Int) (s : Session) : Effect Text :=
  if s.hasChunk index then
    let moved := { s with index := index.toNat }
    (moved, .ok ((moved.current.map (·.label)).getD []))
  else (s, .error (Fault.chunkIndex index s.chunks.length).worded)

def next (s : Session) : Effect Bool :=
  if s.index + 1 < s.chunks.length then ({ s with index := s.index + 1 }, .ok true) else (s, .ok false)

def previous (s : Session) : Effect Bool :=
  if 0 < s.index then ({ s with index := s.index - 1 }, .ok true) else (s, .ok false)

def navigate (index : Int) (s : Session) : Effect Bool :=
  if s.hasChunk index then ({ s with index := index.toNat }, .ok true) else (s, .ok false)

/-- The wrapped texts of all chunks, one after the other. -/
def allContent (s : Session) : Text := Text.join ['\n'] (s.chunks.map (·.wrapped))

def summary (s : Session) : Summary := Summary.ofChunks s.chunks s.reportedStrategy

def report (s : Session) : Text := Report.text s.chunks s.reportedStrategy none

end Chunkwise.Session
