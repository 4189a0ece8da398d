import Chunkwise.Proofs.Boundary.Order

/-!
# Blocks begin before the end of their file

The place of a block is estimated from the average length of lines, and each step of the estimate is rounded. In a
text of fewer than 2⁵⁰ characters rounding up three times is not enough to make up for one line, and a block begins
before the last line of its entry or on it. So no block is placed at the end of its own file, where another file may
begin.
-/

namespace Chunkwise

/-! ## The estimate -/

namespace Binary

variable {span lines line : ℕ}

/-- The rounded average of a few lines is not too small. -/
theorem average_bounds (text : 0 < span) (some : 0 < lines) (few : lines ≤ 2 ^ 50) :
    (2 : ℚ) ^ (-50 : ℤ) ≤ (nearest span lines).value ∧
      (nearest span lines).value ≤ span / lines * (1 + 2 ^ (-53 : ℤ)) := by
  have reached : (2 : ℚ) ^ (-50 : ℤ) ≤ (span : ℚ) / lines := by
    rw [le_div_iff₀ (by exact_mod_cast some)]
    have few' : (lines : ℚ) ≤ 2 ^ 50 := by exact_mod_cast few
    calc (2 : ℚ) ^ (-50 : ℤ) * lines ≤ 2 ^ (-50 : ℤ) * 2 ^ 50 := by gcongr
      _ = 1 := by norm_num
      _ ≤ span := by exact_mod_cast text
  exact ⟨le_value_nearest some reached (by norm_num),
    value_nearest_le_mul some ((zpow_le_zpow_right₀ one_le_two (by norm_num)).trans reached)⟩

/-- What is left behind the last of a few lines is not too small a part of them. -/
theorem line_share_le (before : line < lines) (few : lines ≤ 2 ^ 50) :
    (line : ℚ) / lines ≤ 1 - 2 ^ (-50 : ℤ) := by
  have before' : (line : ℚ) + 1 ≤ lines := by exact_mod_cast before
  have few' : (lines : ℚ) ≤ 2 ^ 50 := by exact_mod_cast few
  have part : (2 : ℚ) ^ (-50 : ℤ) * lines ≤ 1 := by
    calc (2 : ℚ) ^ (-50 : ℤ) * lines ≤ 2 ^ (-50 : ℤ) * 2 ^ 50 := by gcongr
      _ = 1 := by norm_num
  rw [div_le_iff₀ (by exact_mod_cast Nat.zero_lt_of_lt before), sub_mul, one_mul]
  linarith

/-- Rounding does not take a line of a few beyond their last character. -/
theorem floor_mul_lt (text : 0 < span) (few : lines ≤ 2 ^ 50) (before : line < lines) :
    ((ofNat line).mul (nearest span lines)).floor < span := by
  rcases Nat.eq_zero_or_pos line with rfl | some
  · simpa [ofNat, mul, nearest, num, floor] using text
  have span' : (0 : ℚ) < span := by exact_mod_cast text
  obtain ⟨lineLow, lineHigh⟩ := value_ofNat_bounds some
  obtain ⟨averageLow, averageHigh⟩ := average_bounds text (Nat.zero_lt_of_lt before) few
  set average := nearest span lines
  have reached : (2 : ℚ) ^ (-1022 : ℤ) ≤ (ofNat line).value * average.value := by
    calc (2 : ℚ) ^ (-1022 : ℤ) ≤ 2 ^ (-50 : ℤ) := zpow_le_zpow_right₀ one_le_two (by norm_num)
      _ ≤ average.value := averageLow
      _ ≤ (ofNat line).value * average.value := le_mul_of_one_le_left (value_nonneg average) lineLow
  have short := line_share_le before few
  rw [floor_eq, Nat.floor_lt (value_nonneg _)]
  -- The line, the average and the product are each rounded up by at most a 2⁵³rd part.
  calc ((ofNat line).mul average).value ≤ (ofNat line).value * average.value * (1 + 2 ^ (-53 : ℤ)) :=
        value_mul_le reached
    _ ≤ (line * (1 + 2 ^ (-53 : ℤ))) * (span / lines * (1 + 2 ^ (-53 : ℤ))) * (1 + 2 ^ (-53 : ℤ)) := by
      have := value_nonneg average
      gcongr
    _ = span * (line / lines * (1 + 2 ^ (-53 : ℤ)) ^ 3) := by ring
    _ ≤ span * ((1 - 2 ^ (-50 : ℤ)) * (1 + 2 ^ (-53 : ℤ)) ^ 3) := by gcongr
    _ < span * 1 := mul_lt_mul_of_pos_left (by norm_num) span'
    _ = span := mul_one _

end Binary

/-! ## The lines of an entry -/

namespace Text

variable {t : Text} {a b c : ℤ}

theorem lineFeedsBetween_add (nonneg : 0 ≤ a) (first : a ≤ b) (second : b ≤ c) (inside : c ≤ t.length) :
    t.lineFeedsBetween a b + t.lineFeedsBetween b c = t.lineFeedsBetween a c := by
  rw [lineFeedsBetween, lineFeedsBetween, lineFeedsBetween, place_eq nonneg (by omega), place_eq (by omega) (by omega),
    place_eq (by omega) inside, ← List.count_append, slice_append t (by omega) (by omega)]

theorem lineFeedsBetween_le (nonneg : 0 ≤ a) (order : a ≤ b) (inside : b ≤ t.length) :
    t.lineFeedsBetween a b ≤ (b - a).toNat := by
  rw [lineFeedsBetween, place_eq nonneg (by omega), place_eq (by omega) inside]
  refine List.count_le_length.trans ?_
  rw [length_slice t _ (by omega)]
  omega

end Text

namespace Boundary

variable {text : Text} {file : SourceFile}

/-- A line of a file's content is a line of the file's entry, with the lines of the header before it. -/
theorem bodyLine_le_feeds (spans : Collection.Spans text file) (inside : file.Inside text.length) {line : ℕ}
    (within : line < file.content.lines.length) :
    text.lineFeedsBetween file.start file.body + line ≤ text.lineFeedsBetween file.start file.stop := by
  obtain ⟨nonneg, before, bodyLe, content⟩ := spans
  have last := inside.stop_le
  have parts := Text.lineFeedsBetween_add (t := text) nonneg before.le bodyLe last
  have own : file.content.count '\n' ≤ text.lineFeedsBetween file.body file.stop := by
    rw [Text.lineFeedsBetween, Text.place_eq (by omega) (by omega), Text.place_eq (by omega) last]
    rcases content with ended | ⟨whole, -⟩
    · rw [ended, List.count_append]
      exact Nat.le_add_right ..
    · rw [whole]
  rw [Text.length_lines] at within
  omega

/-- A block of a file begins on a line of the file's entry. -/
theorem entryLine_le_feeds (spans : Collection.Spans text file) (inside : file.Inside text.length) {block : Block}
    (within : block.Within file.content.lines.length) :
    entryLine text file block ≤ text.lineFeedsBetween file.start file.stop := by
  have nonneg := within.start_nonneg
  have before := within.start_lt
  have within' : block.startLine.toNat < file.content.lines.length := by omega
  have counted := bodyLine_le_feeds spans inside within'
  unfold entryLine
  split <;> omega

/-- A line of an entry is placed before the end of the entry. -/
theorem lineStart_lt (spans : Collection.Spans text file) (inside : file.Inside text.length)
    (short : text.length < 2 ^ 50) {line : ℤ} (within : line ≤ text.lineFeedsBetween file.start file.stop) :
    lineStart text file line < file.stop := by
  obtain ⟨nonneg, before, bodyLe, -⟩ := spans
  have last := inside.stop_le
  have feeds := Text.lineFeedsBetween_le (t := text) nonneg (before.le.trans bodyLe) last
  have size : file.size = file.stop - file.start := rfl
  have reach : distance text file line < file.size.toNat := Binary.floor_mul_lt (by omega) (by omega) (by omega)
  have within : file.start ≤ min (file.start + distance text file line) file.stop := by omega
  calc lineStart text file line ≤ min (file.start + distance text file line) file.stop :=
        (snap_bounds text nonneg within (by omega)).2
    _ < file.stop := by omega

end Boundary

/-! ## The plan of a short text -/

/-- A file that has its key for itself gets its own blocks. -/
theorem Analysis.within_own {content : Text} (distinct : ((Collection.parse content).map (·.key)).Nodup) :
    ∀ file ∈ Collection.parse content, ∀ block ∈ ((ofContent content).blocks.get? file.key).getD [],
      block.Within file.content.lines.length := by
  have listed : (ofContent content).blocks = (Collection.parse content).map fun file =>
      (file.key, (Outline.ofFile Registry.builtIn file.filename file.content file.isBinary).blocks) := by
    have outlines : (ofContent content).outlines = (Collection.parse content).map fun file =>
        (file.key, Outline.ofFile Registry.builtIn file.filename file.content file.isBinary) :=
      Keyed.ofList_of_nodup (by simpa only [List.map_map, Function.comp_def] using distinct)
    rw [blocks, outlines, List.map_map]
    rfl
  intro file member block inBlocks
  cases found : (ofContent content).blocks.get? file.key with
  | none => simp [found] at inBlocks
  | some own =>
    have entry := Keyed.mem_of_get? found
    rw [listed] at entry
    obtain ⟨other, inParsed, is⟩ := List.mem_map.mp entry
    obtain ⟨key, rfl⟩ := Prod.mk.inj is
    obtain rfl : other = file := List.inj_on_of_nodup_map distinct inParsed member key
    rw [found] at inBlocks
    exact Outline.within_ofFile _ _ _ _ block inBlocks

namespace Boundary

/-- A boundary of a file lies in the file, and at its end only to mark it. -/
structure IsOf (file : SourceFile) (b : Boundary) : Prop where
  names : b.filename = file.key
  start_le : file.start ≤ b.position
  kinds : b.kind = .fileEnd ∧ b.position = file.stop ∨ b.kind ≠ .fileEnd ∧ b.position < file.stop

/-- Boundaries of files, each of which has one at its start. -/
structure Mark (files : List SourceFile) (boundaries : List Boundary) : Prop where
  starts : ∀ file ∈ files, startMark file ∈ boundaries
  owned : ∀ b ∈ boundaries, ∃ file ∈ files, IsOf file b

/-- The plan of a short text whose files have different keys marks the files. -/
theorem exists_plan {content : Text} (short : content.length < 2 ^ 50)
    (distinct : ((Collection.parse content).map (·.key)).Nodup) (threshold : ℤ) :
    ∃ boundaries,
      plan content (Collection.parse content) (Analysis.ofContent content).blocks threshold = .ok boundaries ∧
      Mark (Collection.parse content) boundaries := by
  have own := Analysis.within_own distinct
  obtain ⟨first, chain⟩ := Collection.contiguous_parse content
  have inside : ∀ file ∈ Collection.parse content, file.Inside content.length := Collection.inside_of_mem_parse
  have lines : ∀ file ∈ Collection.parse content, file.content.lines.length ≤ content.length + 1 := by
    intro file member
    have fit := (inside file member).content_le
    have count := Text.length_lines_le file.content
    omega
  obtain ⟨groupOf, isGroup⟩ := exists_groupOf content threshold (Analysis.ofContent content).blocks
    fun file member block inBlocks _ =>
      inRange_entryLine (inside file member) (proper_of_mem_parse file member) short (by norm_num)
        ((own file member block inBlocks).mono (lines file member))
  refine ⟨_, (plan_eq chain isGroup).1, ?_, ?_⟩
  · intro file member
    refine List.mem_flatMap.mpr ⟨file, member, ?_⟩
    obtain ⟨marks, group, -⟩ := isGroup file member
    rw [group]
    exact List.mem_cons_self
  · intro b inPlan
    obtain ⟨file, member, inGroup⟩ := List.mem_flatMap.mp inPlan
    have spans := Collection.spans_of_mem_parse file member
    have proper := proper_of_mem_parse file member
    refine ⟨file, member, ?_⟩
    rcases (isGroup file member).cases_of_mem inGroup with rfl | rfl | ⟨block, inBlocks, rfl⟩
    · exact ⟨rfl, le_refl _, Or.inr ⟨BoundaryKind.noConfusion, spans.start_lt.trans_le spans.body_le⟩⟩
    · exact ⟨rfl, proper, Or.inl ⟨rfl, rfl⟩⟩
    · refine ⟨rfl, (lineStart_bounds ((inside file member).covers proper) _).1, Or.inr ⟨?_, ?_⟩⟩
      · simp only [mark]
        cases block.kind <;> decide
      · exact lineStart_lt spans (inside file member) short
          (entryLine_le_feeds spans (inside file member) (own file member block inBlocks))

end Boundary

end Chunkwise
