import Chunkwise.Text.Basic

/-!
# File headers

A collection is one text that holds many files. Each file begins with a header: a rule of 80 equals signs, a line
with the filename, more field lines, a second rule and an empty line. A header begins at a line start, each of
its lines ends with a line feed, and none of its fields is itself a rule.
-/

namespace Chunkwise

/-- The rule that opens and closes a header. -/
def headerRule : Text := List.replicate 80 '='

/-- What the second line of a header begins with. -/
def nameMarker : Text := "filename: ".toList

/-- What can be read off a header. -/
structure Header where
  /-- What follows the marker on the second line. -/
  name : Text
  /-- The lines between the filename and the second rule. -/
  fields : List Text
deriving Repr, DecidableEq

namespace Header

/-- The lines of a header, each of which ends with a line feed. -/
def lines (h : Header) : List Text := [headerRule, nameMarker ++ h.name] ++ h.fields ++ [headerRule, []]

def text (h : Header) : Text := h.lines.flatMap (· ++ ['\n'])

/-- The field lines up to the second rule, when an empty line ends the header there. A line ends with a line feed
    when another line follows it. -/
def fields? : List Text → Option (List Text)
  | [] => none
  | line :: rest =>
    if line == headerRule then
      match rest with
      | [] :: _ :: _ => some []
      | _ => none
    else if rest.isEmpty then none
    else (fields? rest).map (line :: ·)

def ofLines? : List Text → Option Header
  | first :: second :: rest =>
    if first == headerRule && nameMarker.isPrefixOf second then
      (fields? rest).map fun fields => ⟨second.drop nameMarker.length, fields⟩
    else none
  | _ => none

/-- The headers in lines that begin at `offset`, with the offsets at which they begin; the next `skip` lines still
    belong to the header before. -/
def scan (offset skip : Nat) : List Text → List (Nat × Header)
  | [] => []
  | line :: rest =>
    let next := offset + line.length + 1
    match skip with
    | k + 1 => scan next k rest
    | 0 =>
      match ofLines? (line :: rest) with
      | some h => (offset, h) :: scan next (h.lines.length - 1) rest
      | none => scan next 0 rest

def findAll (t : Text) : List (Nat × Header) := scan 0 0 t.lines

end Header

end Chunkwise
