import Chunkwise.Text.Basic
import Chunkwise.Text.CaseTable

/-!
# Small and capital letters

Case mapping of whole texts by the full rules of Unicode: one letter may become several, and a capital sigma at
the end of a word becomes the final small sigma.
-/

namespace Chunkwise.Text

/-! ## Small letters -/

/-- The first character that is not case-ignorable is a cased letter. -/
def meetsCased : Text → Bool
  | [] => false
  | c :: rest => if ignorableEdges.mem c then meetsCased rest else casedEdges.mem c

/-- The small form of one character: the capital I with a dot above keeps its dot as a combining mark. -/
def smallForm (c : Char) : Text :=
  if c.toNat < 128 then [c.toLower]
  else if c.toNat == 0x130 then ['i', Char.ofNat 0x307]
  else [mapByRuns smallRuns c]

/-- Small forms of a text that follows `done`, read backwards. A capital sigma is final when a cased letter stands
    before it and none after it. -/
def lowerAfter (done : Text) : Text → Text
  | [] => []
  | c :: rest =>
    let small :=
      if c.toNat == 0x3A3 then
        [Char.ofNat (if meetsCased done && !meetsCased rest then 0x3C2 else 0x3C3)]
      else smallForm c
    small ++ lowerAfter (c :: done) rest

def lower (t : Text) : Text := lowerAfter [] t

/-! ## Capital letters -/

def capitalForm (c : Char) : Text :=
  if c.toNat < 128 then [c.toUpper]
  else
    match capitalSequences.lookup c.toNat with
    | some codes => codes.map Char.ofNat
    | none => [mapByRuns capitalRuns c]

def upper (t : Text) : Text := t.flatMap capitalForm

end Chunkwise.Text
