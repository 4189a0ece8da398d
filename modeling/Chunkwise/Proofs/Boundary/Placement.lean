import Chunkwise.Pass
import Chunkwise.Proofs.Collection.Files
import Chunkwise.Proofs.Keyed
import Chunkwise.Proofs.Number.Rounding
import Chunkwise.Proofs.Outline.Blocks

/-!
# Lines can be placed

The place of a line is found by arithmetic on binary fractions, which has a limited range. It is never left in a text
whose length is below the square root of that range, and the blocks of its files begin on lines of the text.
-/

namespace Chunkwise.Boundary

/-! ## One line -/

variable {text : Text} {file : SourceFile} {k : ℕ}

/-- The average of lines in a short enough span is in the range of the format, and so is any place it leads to. -/
theorem estimate_total {span lines line j : ℕ} (some : 0 < lines) (short : span < 2 ^ k) (near : line < 2 ^ j)
    (range : j + k + 1 < 1024) :
    ∃ average distance, averageLine span lines = .ok average ∧ estimate line average = .ok distance := by
  have spanLess : (span : ℚ) / lines < 2 ^ (k : ℤ) := by
    have lines' : (1 : ℚ) ≤ lines := by exact_mod_cast some
    calc (span : ℚ) / lines ≤ span := div_le_self (by positivity) lines'
      _ < 2 ^ (k : ℤ) := by exact_mod_cast short
  have lineLess : (line : ℚ) / (1 : ℕ) < 2 ^ (j : ℤ) := by
    rw [Nat.cast_one, div_one]
    exact_mod_cast near
  have fitsAverage := Binary.fits_nearest some spanLess (by omega) (by omega)
  have fitsLine := Binary.fits_nearest one_pos lineLess (by omega) (by omega)
  have averageLe := Binary.value_nearest_le some spanLess (by omega)
  have lineLe := Binary.value_nearest_le one_pos lineLess (by omega)
  set average := Binary.nearest span lines with averageIs
  have fitsProduct : ((Binary.ofNat line).mul average).fits := by
    refine Binary.fits_nearest (k := j + k + 1) (Binary.mul_den_pos _ _) ?_ (by omega) (by omega)
    rw [Binary.mul_quotient]
    calc (Binary.ofNat line).value * average.value ≤ 2 ^ (j : ℤ) * 2 ^ (k : ℤ) := by
          refine mul_le_mul lineLe averageLe ?_ (by positivity)
          rw [Binary.value]
          positivity
      _ = 2 ^ ((j : ℤ) + k) := (zpow_add₀ two_ne_zero ..).symm
      _ < 2 ^ ((j : ℤ) + k + 1) := zpow_lt_zpow_right₀ (by norm_num) (by omega)
  refine ⟨average, ((Binary.ofNat line).mul average).floor, ?_, ?_⟩
  · simp [averageLine, ← averageIs, fitsAverage]
  · simp [estimate, show (Binary.ofNat line).fits from fitsLine, fitsProduct]

/-- Every line that an entry of a short enough text can have is given a place. -/
theorem linePosition_total (inside : file.Inside text.length) {line : ℤ} (near : line ≤ 2 * text.length)
    (short : text.length < 2 ^ k) (range : 2 * k + 2 < 1024) : ∃ p, linePosition text file line = .ok p := by
  unfold linePosition
  dsimp only
  by_cases degenerate : file.stop - file.start ≤ 0 ∨ line ≤ 0
  · exact ⟨file.start, if_pos degenerate⟩
  · obtain ⟨startNonneg, stopLe, -⟩ := inside
    have span : (file.stop - file.start).toNat < 2 ^ k := by omega
    have reached : line.toNat < 2 ^ (k + 1) := by rw [pow_succ]; omega
    obtain ⟨average, distance, averages, estimates⟩ := estimate_total (k := k) (j := k + 1)
      (Nat.succ_pos (text.lineFeedsBetween file.start file.stop)) span reached (by omega)
    rw [if_neg degenerate]
    simp only [averages, estimates, Except.bind, bind]
    split <;> exact ⟨_, rfl⟩

/-! ## Lines of blocks -/

/-- The block begins on a line that a file of a text of `length` characters can have. -/
theorem entryLine_le (file : SourceFile) {block : Block} (within : block.Within (text.length + 1)) :
    entryLine text file block ≤ 2 * text.length := by
  have feeds : text.lineFeedsBetween file.start file.body ≤ text.length := by
    refine List.count_le_length.trans ?_
    simp only [Text.slice, List.length_take, List.length_drop]
    omega
  have below := within.start_lt
  unfold entryLine
  split <;> omega

end Chunkwise.Boundary

namespace Chunkwise

/-! ## The blocks of a collection -/

theorem Block.Within.mono {lines more : ℕ} {b : Block} (within : b.Within lines) (le : lines ≤ more) :
    b.Within more :=
  ⟨within.start_nonneg, within.start_lt.trans_le (by exact_mod_cast le), within.importance_pos, within.importance_le⟩

/-- The blocks of the files of a collection begin on lines that a file of the collection can have. -/
theorem Analysis.within_blocks (content : Text) :
    ∀ e ∈ (ofContent content).blocks, ∀ b ∈ e.2, b.Within (content.length + 1) := by
  have outlined : ∀ e ∈ outlinesOf Registry.builtIn (Collection.parse content),
      ∀ b ∈ e.2.blocks, b.Within (content.length + 1) := by
    refine Keyed.forall_ofList (P := fun o : Outline => ∀ b ∈ o.blocks, b.Within (content.length + 1)) ?_
    intro e member
    obtain ⟨file, inParsed, rfl⟩ := List.mem_map.mp member
    intro b inBlocks
    have fit := (Collection.inside_of_mem_parse file inParsed).content_le
    have lines := Text.length_lines_le file.content
    exact (Outline.within_ofFile _ _ _ _ b inBlocks).mono (by omega)
  intro e member
  obtain ⟨o, inOutlines, rfl⟩ := List.mem_map.mp member
  exact outlined o inOutlines

end Chunkwise
