import Chunkwise.Proofs.Chunk.Greedy

/-!
# Packing makes the fewest chunks

A division of a text at its cuts keeps to a target when each of its pieces is within the target or is a stretch that
cannot be divided. Packing gives such a division, and stays ahead of every other one: its first chunks always reach at
least as far as equally many pieces. So no division has fewer pieces, and a larger target never needs more chunks.
-/

namespace Chunkwise

variable {length target : ℕ} {boundaries : List Boundary} {a b : ℕ}

/-- No cut lies strictly within the range. -/
def Uncut (length : ℕ) (boundaries : List Boundary) (r : ℕ × ℕ) : Prop :=
  ∀ p, IsCut length boundaries p → p ≤ r.1 ∨ r.2 ≤ p

/-- Pieces divide the text from `a` on at its cuts. None is empty, and each is within the target or cannot be divided
    further. -/
structure Divides (length target : ℕ) (boundaries : List Boundary) (a : ℕ) (pieces : List (ℕ × ℕ)) : Prop where
  contiguous : Contiguous Prod.fst Prod.snd a length pieces
  proper : ∀ r ∈ pieces, r.1 < r.2
  starts : ∀ r ∈ pieces, r.1 = 0 ∨ IsCut length boundaries r.1
  bounded : ∀ r ∈ pieces, r.2 - r.1 ≤ target ∨ Uncut length boundaries r

namespace Divides

variable {r : ℕ × ℕ} {pieces : List (ℕ × ℕ)}

theorem tail (divides : Divides length target boundaries a (r :: pieces)) :
    Divides length target boundaries r.2 pieces := by
  obtain ⟨⟨_, _, after⟩, proper, starts, bounded⟩ := divides
  exact ⟨after, (List.forall_mem_cons.mp proper).2, (List.forall_mem_cons.mp starts).2,
    (List.forall_mem_cons.mp bounded).2⟩

/-- A piece ends at a cut or at the end of the text. -/
theorem stops (divides : Divides length target boundaries a (r :: pieces)) :
    r.2 = length ∨ IsCut length boundaries r.2 := by
  have proper := divides.proper r List.mem_cons_self
  obtain ⟨⟨_, _, after⟩, -, starts, -⟩ := divides
  cases pieces with
  | nil => exact Or.inl after
  | cons next rest =>
    obtain ⟨here, -⟩ := after
    rw [← here]
    rcases starts next (by simp) with zero | cut
    · omega
    · exact Or.inr cut

theorem mono {larger : ℕ} (le : target ≤ larger) (divides : Divides length target boundaries a pieces) :
    Divides length larger boundaries a pieces :=
  ⟨divides.contiguous, divides.proper, divides.starts, fun r member => (divides.bounded r member).imp_left le.trans'⟩

end Divides

namespace Greedy

variable {ranges pieces : List (ℕ × ℕ)}

theorem divides (greedy : Greedy length target boundaries ranges)
    (contiguous : Contiguous Prod.fst Prod.snd a length ranges) (proper : ∀ r ∈ ranges, r.1 < r.2) :
    Divides length target boundaries a ranges := by
  refine ⟨contiguous, proper, greedy.starts, fun r member => ?_⟩
  rcases le_or_gt (r.2 - r.1) target with within | exceeds
  · exact Or.inl within
  · exact Or.inr (greedy.single r member exceeds).uncut

theorem tail {r : ℕ × ℕ} (greedy : Greedy length target boundaries (r :: ranges)) :
    Greedy length target boundaries ranges :=
  ⟨(List.forall_mem_cons.mp greedy.starts).2, (List.forall_mem_cons.mp greedy.single).2, greedy.full.tail⟩

/-- A range of a greedy division reaches at least as far as any piece that begins no later. -/
theorem stays_ahead {r s : ℕ × ℕ} (greedy : Greedy length target boundaries (r :: ranges))
    (division : Divides length target boundaries a (r :: ranges))
    (other : Divides length target boundaries b (s :: pieces)) (behind : s.1 ≤ r.1) : s.2 ≤ r.2 := by
  by_contra further
  have proper := division.proper r List.mem_cons_self
  have inside : s.2 ≤ length := other.tail.contiguous.le
  obtain cut := division.stops.resolve_left (by omega)
  -- The piece goes over the end of the range, so it is within the target, and so is the next stretch with the range.
  have within : s.2 - s.1 ≤ target :=
    (other.bounded s List.mem_cons_self).resolve_right fun uncut => by
      have := uncut r.2 cut
      omega
  cases ranges with
  | nil =>
    have last : r.2 = length := division.tail.contiguous
    omega
  | cons next rest =>
    obtain ⟨here, -⟩ := division.tail.contiguous
    obtain ⟨q, ends, exceeds⟩ := (List.isChain_cons_cons.mp greedy.full).1
    have reaches : q ≤ s.2 := by
      rcases other.stops with last | cut'
      · rcases ends.stops with last' | ⟨-, inside', -⟩ <;> omega
      · have := ends.uncut s.2 cut'
        omega
    omega

/-- A greedy division of what is left of a text has no more ranges than a division that is not further on. -/
theorem length_le (greedy : Greedy length target boundaries ranges)
    (division : Divides length target boundaries a ranges) (other : Divides length target boundaries b pieces)
    (behind : b ≤ a) : ranges.length ≤ pieces.length := by
  induction pieces generalizing a b ranges with
  | nil =>
    have last : b = length := other.contiguous
    cases ranges with
    | nil => exact le_refl _
    | cons r rest =>
      have proper := division.proper r List.mem_cons_self
      have inside := (division.contiguous.bounds r List.mem_cons_self).2.2
      have begins : r.1 = a := division.contiguous.1
      omega
  | cons s rest ih =>
    cases ranges with
    | nil => exact Nat.zero_le _
    | cons r more =>
      have begins : r.1 = a := division.contiguous.1
      have begins' : s.1 = b := other.contiguous.1
      have ahead := greedy.stays_ahead division other (by omega)
      exact Nat.succ_le_succ (ih greedy.tail division.tail other.tail ahead)

end Greedy

/-! ## The number of chunks -/

section Chunks

variable {content : Text} {target : TargetSize} {chunks : List Chunk}

theorem Chunk.divides_semantic (nonempty : content ≠ []) (made : semantic content boundaries target = .ok chunks) :
    Divides content.length target.value boundaries 0 (chunks.map range) := by
  have tiles := tiles_semantic made
  refine (greedy_semantic nonempty made).divides (contiguous_map.mpr tiles.contiguous) ?_
  exact List.forall_mem_map.mpr tiles.lt

/-- Packing gives chunks whenever the importances of the files are in range, and then it gives a division at the cuts
    that keeps to the target with the fewest pieces possible. A larger target never gives more chunks. -/
theorem packing_fewest (nonempty : content ≠ []) (boundaries : List Boundary) (target : TargetSize)
    (small : target.value < 2 ^ 1000) :
    ((∃ chunks, Chunk.semantic content boundaries target = .ok chunks) ↔
      ∀ d ∈ drafts content.length target.value boundaries, d.Averageable) ∧
    ∀ chunks, Chunk.semantic content boundaries target = .ok chunks →
      Divides content.length target.value boundaries 0 (chunks.map Chunk.range) ∧
      (∀ pieces, Divides content.length target.value boundaries 0 pieces → chunks.length ≤ pieces.length) ∧
      ∀ larger : TargetSize, target.value ≤ larger.value →
        ∀ others, Chunk.semantic content boundaries larger = .ok others → others.length ≤ chunks.length := by
  have fewest : ∀ (size : TargetSize) {chunks pieces}, Chunk.semantic content boundaries size = .ok chunks →
      Divides content.length size.value boundaries 0 pieces → chunks.length ≤ pieces.length := by
    intro size chunks pieces made division
    have greedy := Chunk.greedy_semantic nonempty made
    simpa using greedy.length_le (Chunk.divides_semantic nonempty made) division le_rfl
  refine ⟨Chunk.semantic_total_iff nonempty small (by norm_num), fun chunks made => ?_⟩
  have division := Chunk.divides_semantic nonempty made
  refine ⟨division, fun pieces => fewest target made, fun larger le others made' => ?_⟩
  simpa using fewest larger made' (division.mono le)

/-- Three stretches, of which the first two go into one chunk. -/
theorem packing_fewest_three_stretches :
    ∃ chunks, Chunk.semantic "abcdefgh".toList
        [⟨.classStart, 6, ['f'], 8, none⟩, ⟨.fileStart, 1, ['f'], 10, none⟩] ⟨6, by decide⟩ = .ok chunks ∧
      chunks.length ≤ 2 := by
  have nonempty : "abcdefgh".toList ≠ [] := by decide
  obtain ⟨succeeds, fewest⟩ := packing_fewest nonempty
    [⟨.classStart, 6, ['f'], 8, none⟩, ⟨.fileStart, 1, ['f'], 10, none⟩] ⟨6, by decide⟩ (Binary.lt_two_pow (by decide))
  have ten : 10 < Binary.limit := Binary.lt_limit (by decide : 10 < 2 ^ 4) (by decide)
  obtain ⟨chunks, made⟩ := succeeds.mpr (averageable_drafts (by decide) (by simp; omega))
  obtain ⟨-, least, -⟩ := fewest chunks made
  refine ⟨chunks, made, least [(0, 6), (6, 8)] ⟨⟨rfl, by decide, rfl, by decide, rfl⟩, by decide, ?_, ?_⟩⟩
  · have cut : IsCut 8 [⟨.classStart, 6, ['f'], 8, none⟩, ⟨.fileStart, 1, ['f'], 10, none⟩] 6 :=
      ⟨by decide, by decide, _, List.mem_cons_self, rfl⟩
    simpa using cut
  · simp

end Chunks

end Chunkwise
