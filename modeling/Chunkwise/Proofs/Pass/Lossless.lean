import Chunkwise.Proofs.Pass.Outcome

/-!
# Nothing is lost

However a text is divided, its chunks are a partition of it: joined in order they give it back. Cutting by size and
whole passes always succeed on texts that can be held. Packing at given boundaries succeeds when the importances of
the files in each chunk have an average in the range of binary fractions, and is refused otherwise.
-/

namespace Chunkwise

/-- Chunks are a partition of a content: they tile it and so give it back, there are none only for the empty content,
    and there is one when the content stays within the target. -/
structure Lossless (content : Text) (target : TargetSize) (chunks : List Chunk) : Prop where
  tiles : Chunk.Tiles content 0 0 chunks
  joined : (chunks.map (·.content)).flatten = content
  none_iff : chunks = [] ↔ content = []
  single : content ≠ [] → content.length ≤ target.value → chunks.length = 1

variable {content : Text} {target : TargetSize} {chunks : List Chunk}

theorem lossless_of_tiles (tiles : Chunk.Tiles content 0 0 chunks)
    (single : content ≠ [] → content.length ≤ target.value → chunks.length = 1) : Lossless content target chunks :=
  ⟨tiles, by simpa using tiles.flatten, tiles.eq_nil_iff, single⟩

theorem lossless_sized (content : Text) (target : TargetSize) :
    Lossless content target (Chunk.sized content target) :=
  lossless_of_tiles (Chunk.tiles_sized content target) Chunk.length_sized

theorem lossless_semantic {boundaries : List Boundary}
    (made : Chunk.semantic content boundaries target = .ok chunks) : Lossless content target chunks :=
  lossless_of_tiles (Chunk.tiles_semantic made) fun nonempty whole => Chunk.length_semantic nonempty whole made

theorem Pass.lossless_of_run {threshold : ℤ} {strategy : Strategy} {kept : Option Text} {o : Outcome}
    (made : run threshold content (.int target.value) (.text strategy.word) (kept.map Analysis.ofContent) = .ok o) :
    Lossless content target o.chunks := by
  rw [run_eq_runOn] at made
  have gives := gives_of_runOn made
  exact lossless_of_tiles gives.tiles gives.length_eq_one

/-- Every way of dividing a text gives a partition of it. Packing gives one at any boundaries whatsoever whose
    importances are below the limit, on average over the files of each chunk. Passes give one for any text of fewer
    than 2⁵⁰⁰ characters, whatever the strategy, the threshold and the analysis that was kept. -/
theorem lossless_partition (content : Text) (target : TargetSize) (small : target.value < 2 ^ 1000) :
    (content ≠ [] → ∀ boundaries : List Boundary,
      ((∀ d ∈ drafts content.length target.value boundaries, d.Averageable) →
        ∃ chunks, Chunk.semantic content boundaries target = .ok chunks ∧ chunks ≠ [] ∧
          Lossless content target chunks) ∧
      ((¬ ∀ d ∈ drafts content.length target.value boundaries, d.Averageable) →
        Chunk.semantic content boundaries target = .error .quotientRange) ∧
      ((∀ b ∈ boundaries, b.importance < Binary.limit) →
        ∀ d ∈ drafts content.length target.value boundaries, d.Averageable)) ∧
    (content ≠ [] → Chunk.sized content target ≠ [] ∧ Lossless content target (Chunk.sized content target)) ∧
    ∀ (threshold : ℤ) (strategy : Strategy) (kept : Option Text),
      (content.length < 2 ^ 500 → ∃ o,
        Pass.run threshold content (.int target.value) (.text strategy.word) (kept.map Analysis.ofContent) = .ok o) ∧
      ∀ o, Pass.run threshold content (.int target.value) (.text strategy.word) (kept.map Analysis.ofContent) = .ok o →
        Lossless content target o.chunks := by
  refine ⟨fun nonempty boundaries => ⟨fun averageable => ?_, fun refused => ?_, fun moderate d member => ?_⟩,
    fun nonempty => ?_, fun threshold strategy kept => ⟨fun short => ?_, fun o => Pass.lossless_of_run⟩⟩
  · obtain ⟨chunks, made⟩ := (Chunk.semantic_total_iff nonempty small (by norm_num)).mpr averageable
    have lossless := lossless_semantic made
    exact ⟨chunks, made, mt lossless.none_iff.mp nonempty, lossless⟩
  · cases made : Chunk.semantic content boundaries target with
    | ok chunks => exact absurd ((Chunk.semantic_total_iff nonempty small (by norm_num)).mp ⟨chunks, made⟩) refused
    | error fault => rw [Chunk.semantic_error nonempty small (by norm_num) made]
  · exact averageable_drafts (List.length_pos_iff.mpr nonempty) moderate d member
  · have lossless := lossless_sized content target
    exact ⟨mt lossless.none_iff.mp nonempty, lossless⟩
  · rw [Pass.run_eq_runOn]
    exact Pass.runOn_total threshold strategy short (by norm_num) small (by norm_num)

/-- Two boundaries out of order and out of the text are no obstacle. -/
theorem lossless_partition_two_lines :
    (∃ chunks, Chunk.semantic "ab\ncd".toList
        [⟨.fileEnd, 70, ['f'], 8, none⟩, ⟨.fileStart, -1, ['f'], 10, none⟩] ⟨3, by decide⟩ = .ok chunks ∧
      chunks ≠ [] ∧ Lossless "ab\ncd".toList ⟨3, by decide⟩ chunks) ∧
    ∃ o, Pass.run 7 "ab\ncd".toList (.int 3) (.text Strategy.semantic.word) none = .ok o ∧
      Lossless "ab\ncd".toList ⟨3, by decide⟩ o.chunks := by
  obtain ⟨packing, -, passes⟩ := lossless_partition "ab\ncd".toList ⟨3, by decide⟩ (Binary.lt_two_pow (by decide))
  constructor
  · obtain ⟨succeeds, -, moderate⟩ := packing (by decide)
      [⟨.fileEnd, 70, ['f'], 8, none⟩, ⟨.fileStart, -1, ['f'], 10, none⟩]
    refine succeeds (moderate ?_)
    have ten : 10 < Binary.limit := Binary.lt_limit (by decide : 10 < 2 ^ 4) (by decide)
    simp only [List.forall_mem_cons, List.not_mem_nil, false_implies, implies_true, and_true]
    omega
  · obtain ⟨succeeds, lossless⟩ := passes 7 .semantic none
    obtain ⟨o, made⟩ := succeeds (Binary.lt_two_pow (by decide))
    exact ⟨o, made, lossless o made⟩

/-- An importance at the limit is refused, though the text, the target and the boundary are as small as can be. -/
theorem semantic_refuses_limit :
    Chunk.semantic ['a'] [⟨.fileStart, 0, ['f'], Binary.limit, none⟩] ⟨1, by decide⟩ = .error .quotientRange := by
  have small : (⟨1, by decide⟩ : TargetSize).value < 2 ^ 1 := by decide
  cases made : Chunk.semantic ['a'] [⟨.fileStart, 0, ['f'], Binary.limit, none⟩] ⟨1, by decide⟩ with
  | ok chunks =>
    have averageable := (Chunk.semantic_total_iff (by decide) small (by decide)).mp ⟨chunks, made⟩
    have only := averageable ⟨0, 1, [⟨.fileStart, 0, ['f'], Binary.limit, none⟩]⟩ (by simp [drafts])
    have below := only (by simp [FileShare.ofBoundaries, Keyed.update])
    simp [FileShare.ofBoundaries, Keyed.update, FileShare.add, FileShare.empty, sumOf] at below
  | error fault => rw [Chunk.semantic_error (by decide) small (by decide) made]

end Chunkwise
