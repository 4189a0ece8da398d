import Chunkwise.Proofs.Chunk.Assembly
import Chunkwise.Proofs.Collection.Grammar

/-!
# What cutting by size gives

Every chunk ends where a break falls in the text from its start on. So chunks begin at line starts, and how long they
are is known from both sides: they fit unless they are single lines, and the line behind a chunk does not fit with it
unless a header begins there.
-/

namespace Chunkwise.Chunk

variable {content t : Text} {target index start : ℕ}

/-- The size of a chunk is where a break falls. -/
theorem breaksAt_ofPieces (rest : content.drop start = t) :
    ∀ c ∈ ofPieces index start (pieces target t), BreaksAt target (content.drop c.start) c.size := by
  fun_induction pieces target t generalizing index start with
  | case1 => simp [ofPieces]
  | case2 t some ih =>
    have breaks := breaksAt_cutLength target t
    have length : (t.take (cutLength target t)).length = cutLength target t :=
      List.length_take_of_le breaks.le_length
    subst rest
    refine List.forall_mem_cons.mpr ⟨?_, ?_⟩
    · rwa [size, length]
    · rw [length]
      exact ih (List.drop_drop ..).symm

theorem breaksAt_sized (content : Text) (target : TargetSize) :
    ∀ c ∈ sized content target, BreaksAt target.value (content.drop c.start) c.size :=
  breaksAt_ofPieces rfl

theorem isLineStart_ofPieces (rest : content.drop start = t) (begins : content.IsLineStart start) :
    ∀ c ∈ ofPieces index start (pieces target t), content.IsLineStart c.start := by
  fun_induction pieces target t generalizing index start with
  | case1 => simp [ofPieces]
  | case2 t some ih =>
    refine List.forall_mem_cons.mpr ⟨begins, ?_⟩
    have breaks := breaksAt_cutLength target t
    rcases breaks.ends with whole | ⟨positive, feed⟩
    · rw [whole, List.drop_length, pieces, dif_pos rfl]
      simp [ofPieces]
    · rw [List.length_take, min_eq_left breaks.le_length]
      subst rest
      rw [List.getElem?_drop, ← Nat.add_sub_assoc positive] at feed
      exact ih (List.drop_drop ..).symm (Or.inr feed)

theorem isLineStart_sized (content : Text) (target : TargetSize) :
    ∀ c ∈ sized content target, content.IsLineStart c.start :=
  isLineStart_ofPieces rfl (Or.inl rfl)

/-- Cutting by size bounds every chunk and wastes no room. The chunks go through the text without gap or overlap, none
    of them empty. A chunk fits, or it is a single line that does not. The line behind a chunk does not fit with it,
    unless the chunk reaches half of the target size, rounded down, and the next one begins where a header does; that one
    then holds the header marker, or the rule alone when the line with the filename does not fit with it. -/
theorem sized_bounds (content : Text) (target : TargetSize) :
    Tiles content 0 0 (sized content target) ∧ (sized content target).length ≤ content.length ∧
    (∀ c ∈ sized content target, c.size ≤ target.value ∨ target.value < c.size ∧ '\n' ∉ c.content.dropLast) ∧
    (sized content target).IsChain fun c d =>
      content.IsLineStart d.start ∧
      (target.value < c.size + (Text.firstLine (content.drop c.stop)).length ∨
        target.value / 2 ≤ c.size ∧ headerMarker <+: content.drop d.start ∧
          (headerMarker <+: d.content ∨
            d.content = headerRule ++ ['\n'] ∧
              target.value < d.size + (Text.firstLine (content.drop d.stop)).length)) := by
  have tiles := tiles_sized content target
  have breaks := breaksAt_sized content target
  have count := tiles.length_le
  have range : ∀ c ∈ sized content target, c.stop = c.start + c.size ∧ c.stop ≤ content.length := by
    intro c member
    have proper := tiles.lt c member
    have inside := tiles.contiguous.bounds c member
    have length := tiles.size c member
    omega
  refine ⟨tiles, by omega, fun c member => ?_, ?_⟩
  · rw [tiles.content_eq c member]
    exact (breaks c member).fits
  · refine tiles.isChain.imp_of_mem_imp fun c d inChunks inChunks' next => ?_
    refine ⟨isLineStart_sized content target d inChunks', ?_⟩
    obtain ⟨ends, -⟩ := range c inChunks
    obtain ⟨ends', inside⟩ := range d inChunks'
    have more : c.size < (content.drop c.start).length := by
      have proper := tiles.lt d inChunks'
      rw [List.length_drop]
      omega
    refine ((breaks c inChunks).full more).imp (fun exceeds => ?_) fun header => ⟨header.half, ?_⟩
    · rwa [List.drop_drop, ← ends] at exceeds
    · have marked : headerMarker <+: content.drop d.start := by
        rw [next, ends, ← List.drop_drop]
        exact header.marked.trans ((List.take_prefix target.value _).drop c.size)
      refine ⟨marked, ?_⟩
      rw [tiles.content_eq d inChunks', ends', ← List.drop_drop]
      exact (breaks d inChunks').marker marked

/-- A hundred characters and the beginning of a header, the filename of which is longer than the target size. -/
def longNamed : Text := List.replicate 99 'a' ++ '\n' :: (headerMarker ++ List.replicate 200 'x')

/-- A chunk that could take one more line need not be followed by one that holds the header marker: the rule may be all
    that fits of the header. -/
theorem sized_rule_alone :
    ¬ (sized longNamed ⟨200, by decide⟩).IsChain fun c d =>
      200 < c.size + (Text.firstLine (longNamed.drop c.stop)).length ∨
        200 / 2 ≤ c.size ∧ headerMarker <+: d.content ∧ longNamed.IsLineStart d.start := by
  intro chain
  have first : cutLength 200 longNamed = 100 := by decide +kernel
  have second : cutLength 200 (longNamed.drop 100) = 81 := by decide +kernel
  rw [sized, pieces, dif_neg (by decide), first, pieces, dif_neg (by decide), second] at chain
  rcases (List.isChain_cons_cons.mp chain).1 with exceeds | ⟨-, marked, -⟩
  · exact absurd exceeds (by decide +kernel)
  · exact absurd marked (by decide +kernel)

end Chunkwise.Chunk
