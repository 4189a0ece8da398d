import Chunkwise.Proofs.Boundary.LineStarts
import Chunkwise.Proofs.Chunk.Greedy
import Chunkwise.Proofs.Chunk.Sized
import Chunkwise.Proofs.Pass.Outcome

/-!
# No chunk splits a line

The two ways of dividing a text cut it for different reasons, but only at line starts. Cutting by size goes back to a
header at a line start or to a line feed, or else on to the next one. Packing cuts at boundaries, and those of a plan
stand at line starts. Since the chunks tile the text, each one but the last then ends with a line feed.
-/

namespace Chunkwise

variable {content : Text}

/-! ## From starts to ends -/

/-- Where every chunk begins at a line start, every chunk but the last ends with a line feed. -/
theorem Chunk.Tiles.getLast?_eq_feed {index start : ℕ} {chunks : List Chunk}
    (tiles : Chunk.Tiles content index start chunks) (starts : ∀ c ∈ chunks, content.IsLineStart c.start) :
    ∀ c ∈ chunks.dropLast, c.content.getLast? = some '\n' := by
  induction chunks generalizing index start with
  | nil => simp
  | cons c rest ih =>
    obtain ⟨-, rfl, proper, raw, after⟩ := tiles
    obtain ⟨-, later⟩ := List.forall_mem_cons.mp starts
    cases rest with
    | nil => simp
    | cons d more =>
      rw [List.dropLast_cons_cons]
      refine List.forall_mem_cons.mpr ⟨?_, ih after later⟩
      have next : d.start = c.stop := after.2.1
      have feed : content[c.stop - 1]? = some '\n' := by
        rw [← next]
        exact (later d List.mem_cons_self).resolve_left (by omega)
      have length := Text.length_slice content c.start after.contiguous.le
      have last : c.stop - c.start - 1 < c.stop - c.start := by omega
      rw [raw, List.getLast?_eq_getElem?, length, Text.slice, List.getElem?_take_of_lt last, List.getElem?_drop, ← feed]
      congr 1
      omega

/-! ## Packing -/

namespace Chunk

theorem isLineStart_semantic {boundaries : List Boundary} {target : TargetSize} {chunks : List Chunk}
    (stand : ∀ b ∈ boundaries, b.position = content.length ∨ content.IsLineStart b.position.toNat)
    (made : semantic content boundaries target = .ok chunks) : ∀ c ∈ chunks, content.IsLineStart c.start := by
  intro c member
  have greedy := greedy_semantic (ne_nil_of_mem_semantic made member) made
  rcases greedy.starts c.range (List.mem_map.mpr ⟨c, member, rfl⟩) with first | cut
  · exact Or.inl first
  · obtain ⟨-, inside, b, inBoundaries, is⟩ := cut
    simp only [range] at inside is
    have start := (stand b inBoundaries).resolve_left (by omega)
    rwa [is, Int.toNat_natCast] at start

end Chunk

/-! ## Passes -/

namespace Pass

variable {threshold : ℤ} {target : TargetSize} {strategy : Strategy} {o : Outcome}

/-- Every boundary of a pass marks one of the files. -/
theorem Gives.marks (gives : Gives threshold (Analysis.ofContent content) target strategy o) :
    ∀ b ∈ o.boundaries, ∃ file ∈ Collection.parse content, Boundary.Marks content file b := by
  have planned := gives.planned
  cases strategy with
  | sizeBased =>
    rw [← Except.ok.inj planned]
    simp
  | semantic => exact Boundary.marks_of_mem_plan planned

/-- The boundaries of a pass stand at line starts, or at the end of the text. -/
theorem Gives.isLineStart_boundaries (gives : Gives threshold (Analysis.ofContent content) target strategy o) :
    ∀ b ∈ o.boundaries, b.position = content.length ∨ content.IsLineStart b.position.toNat := by
  intro b member
  obtain ⟨file, inFiles, marks⟩ := gives.marks b member
  exact Boundary.isLineStart_of_marks inFiles marks

theorem Gives.isLineStart (gives : Gives threshold (Analysis.ofContent content) target strategy o) :
    ∀ c ∈ o.chunks, content.IsLineStart c.start := by
  refine gives.forall_chunks (fun _ _ _ _ => rfl) (fun _ _ => rfl) (Chunk.isLineStart_sized content target) ?_
  exact fun _ packed => Chunk.isLineStart_semantic gives.isLineStart_boundaries packed

/-- No chunk splits a line. A pass over any text of fewer than 2⁵⁰⁰ characters gives chunks, whatever the strategy, the
    threshold and the analysis that was kept, and whenever a pass gives chunks, each of them but the last ends with a
    line feed and all of them begin at line starts. -/
theorem lines_unsplit (content : Text) (target : TargetSize) (small : target.value < 2 ^ 1000) (threshold : ℤ)
    (strategy : Strategy) (kept : Option Text) :
    (content.length < 2 ^ 500 → ∃ o,
      run threshold content (.int target.value) (.text strategy.word) (kept.map Analysis.ofContent) = .ok o) ∧
    ∀ o, run threshold content (.int target.value) (.text strategy.word) (kept.map Analysis.ofContent) = .ok o →
      (∀ c ∈ o.chunks.dropLast, c.content.getLast? = some '\n') ∧
      ∀ c ∈ o.chunks, content.IsLineStart c.start := by
  rw [run_eq_runOn]
  refine ⟨fun short => runOn_total threshold strategy short (by norm_num) small (by norm_num), ?_⟩
  intro o made
  have gives := gives_of_runOn made
  exact ⟨gives.tiles.getLast?_eq_feed gives.isLineStart, gives.isLineStart⟩

/-- Three lines, the first of which is longer than the target. -/
theorem lines_unsplit_long_line :
    ∃ o, run 7 "abcd\ne\nf".toList (.int 3) (.text Strategy.semantic.word) none = .ok o ∧
      (∀ c ∈ o.chunks.dropLast, c.content.getLast? = some '\n') ∧
      ∀ c ∈ o.chunks, Text.IsLineStart "abcd\ne\nf".toList c.start := by
  have small : 3 < 2 ^ 1000 := Binary.lt_two_pow (by decide)
  obtain ⟨total, unsplit⟩ := lines_unsplit "abcd\ne\nf".toList ⟨3, by decide⟩ small 7 .semantic none
  obtain ⟨o, made⟩ := total (Binary.lt_two_pow (by decide))
  exact ⟨o, made, unsplit o made⟩

end Pass

end Chunkwise
