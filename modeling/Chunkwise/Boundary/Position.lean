import Chunkwise.Collection.SourceFile
import Chunkwise.Fault

/-!
# Places of lines

The place of a line in a collection is estimated: as many average lines of its entry as the line's number says,
taken back to the beginning of the line it falls on. So a place is the start of the entry or follows a line feed.
-/

namespace Chunkwise

def Text.lineFeedsBetween (t : Text) (start stop : Int) : Nat :=
  (Text.slice t (t.place start) (t.place stop)).count '\n'

def Text.lastLineFeed? (t : Text) (start stop : Int) : Option Nat :=
  (Text.lastAt? ['\n'] (Text.slice t (t.place start) (t.place stop))).map (t.place start + ·)

namespace Boundary

/-- The average length of the lines of an entry of `span` characters. -/
def averageLine (span lines : Nat) : Except Fault Binary :=
  let average := Binary.nearest span lines
  if average.fits then .ok average else .error .quotientRange

/-- The whole characters in `line` lines of an average length. -/
def estimate (line : Nat) (average : Binary) : Except Fault Nat :=
  let number := Binary.ofNat line
  if !number.fits then .error .integerRange
  else
    let product := number.mul average
    if product.fits then .ok product.floor else .error .infiniteInteger

/-- The place of a line of an entry, whose lines count from zero at its header. -/
def linePosition (text : Text) (file : SourceFile) (line : Int) : Except Fault Int := do
  let span := file.stop - file.start
  if span ≤ 0 ∨ line ≤ 0 then return file.start
  let average ← averageLine span.toNat (text.lineFeedsBetween file.start file.stop + 1)
  let distance ← estimate line.toNat average
  let position := min (file.start + distance) file.stop
  match text.lastLineFeed? file.start position with
  | some i => return i + 1
  | none => return file.start

end Boundary

end Chunkwise
