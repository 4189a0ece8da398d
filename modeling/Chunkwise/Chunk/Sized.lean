import Chunkwise.Chunk.Basic
import Chunkwise.Collection.Header

/-!
# Cutting by size

Without boundaries, a text is cut by length. Each piece is a window of the target size, shortened to the last file
header in its second half or else to the last line end in it; a line that is longer than the window is kept
whole.
-/

namespace Chunkwise.Chunk

def headerMarker : Text := headerRule ++ '\n' :: nameMarker

/-- Where the last header marker of a window begins, if that is a line start in the window's second half. -/
def headerCut? (window : Text) (target : Nat) : Option Nat :=
  match Text.lastAt? headerMarker (window.drop 1) with
  | some i => if window[i]? == some '\n' && target / 2 ≤ i + 1 then some (i + 1) else none
  | none => none

def cutLength (target : Nat) (t : Text) : Nat :=
  if t.length ≤ target then t.length
  else
    let window := t.take target
    match headerCut? window target with
    | some i => i
    | none =>
      match Text.lastAt? ['\n'] window with
      | some i => i + 1
      | none =>
        match Text.firstAt? ['\n'] (t.drop target) with
        | some i => target + i + 1
        | none => t.length

theorem headerCut?_pos {window : Text} {target i : Nat} (h : headerCut? window target = some i) : 0 < i := by
  unfold headerCut? at h
  split at h
  · split at h <;> simp at h; omega
  · simp at h

theorem cutLength_pos (target : Nat) {t : Text} (h : t ≠ []) : 0 < cutLength target t := by
  have length := List.length_pos_iff.mpr h
  unfold cutLength
  split
  · exact length
  · dsimp only
    split
    · exact headerCut?_pos ‹_›
    · split
      · omega
      · split <;> omega

def pieces (target : Nat) (t : Text) : List Text :=
  if _h : t = [] then []
  else t.take (cutLength target t) :: pieces target (t.drop (cutLength target t))
termination_by t.length
decreasing_by
  have := cutLength_pos target _h
  have := List.length_pos_iff.mpr _h
  simp only [List.length_drop]
  omega

/-- The chunks that pieces become, the first of which has the given index and start. -/
def ofPieces (index start : Nat) : List Text → List Chunk
  | [] => []
  | piece :: rest =>
    let label := Label.ofNat index
    { index := index
      label := label
      start := start
      stop := start + piece.length
      content := piece
      filename := "size_based_chunk_".toList ++ label
      summary := "Size-based chunk ".toList ++ Text.decimal (index + 1)
      strategy := .sizeBased } :: ofPieces (index + 1) (start + piece.length) rest

def sized (content : Text) (target : TargetSize) : List Chunk := ofPieces 0 0 (pieces target.value content)

end Chunkwise.Chunk
