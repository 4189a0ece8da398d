import Chunkwise.Collection.Entry
import Chunkwise.Proofs.Boundary.LineStarts
import Chunkwise.Proofs.Boundary.Reach

/-!
# Lines are placed in their entry

The place of a line depends on the span of its entry alone. If the numbers on the way to it are in range, it is found,
in the entry, at its start or right behind a line feed, and no line has an earlier place than the lines before it. The
lines of a content come before the end of the entry, where the next one may begin.
-/

namespace Chunkwise.Boundary

variable {text : Text} {file : SourceFile}

/-- A place that a line of an entry can have. -/
structure IsPlace (text : Text) (file : SourceFile) (p : ℤ) : Prop where
  start_le : file.start ≤ p
  le_stop : p ≤ file.stop
  site : p = file.start ∨ ∃ i : ℕ, p = i + 1 ∧ text[i]? = some '\n'

theorem isPlace_lineStart (covers : file.Covers text.length) (line : ℤ) :
    IsPlace text file (lineStart text file line) :=
  have bounds := lineStart_bounds covers line
  ⟨bounds.1, bounds.2, lineStart_cases covers line⟩

/-- The lines of the content of a file are placed before the end of its entry. -/
theorem exists_linePosition_bodyLine (short : text.length < 2 ^ 50) (inFiles : file ∈ Collection.parse text) {line : ℕ}
    (within : line < file.content.lines.length) :
    ∃ p, linePosition text file (text.lineFeedsBetween file.start file.body + line) = .ok p ∧ p < file.stop := by
  have spans := Collection.spans_of_mem_parse file inFiles
  have inside := Collection.inside_of_mem_parse file inFiles
  have proper := proper_of_mem_parse file inFiles
  have counted := bodyLine_le_feeds spans inside within
  have nonneg := inside.start_nonneg
  have last := inside.stop_le
  have feeds := Text.lineFeedsBetween_le nonneg proper last
  have near : (text.lineFeedsBetween file.start file.body + line : ℤ) ≤ 2 * text.length := by omega
  obtain ⟨p, placed⟩ := linePosition_total inside near short (by norm_num)
  refine ⟨p, placed, ?_⟩
  rw [((linePosition_eq_ok (inside.covers proper)).mp placed).2]
  exact lineStart_lt spans inside short (by exact_mod_cast counted)

/-- In every part of a text that an entry may take up, lines are placed in the entry and in their order, and exactly
    those of which the numbers are in range. In a short text the lines of a file's content are all placed before the end
    of its entry. -/
theorem lines_placed (text : Text) :
    (∀ file : SourceFile, 0 ≤ file.start → file.start ≤ file.stop → file.stop ≤ text.length →
      (∀ n, InRange text file n → ∃ p, linePosition text file n = .ok p ∧ IsPlace text file p) ∧
      (∀ n p, linePosition text file n = .ok p → InRange text file n) ∧
      ∀ m n p q, m ≤ n → linePosition text file m = .ok p → linePosition text file n = .ok q → p ≤ q) ∧
    (text.length < 2 ^ 50 → ∀ file ∈ Collection.parse text, ∀ n : ℕ, n < file.content.lines.length →
      ∃ p, linePosition text file (text.lineFeedsBetween file.start file.body + n) = .ok p ∧ p < file.stop) := by
  refine ⟨fun file nonneg proper stopLe => ?_, fun short file inFiles n => exists_linePosition_bodyLine short inFiles⟩
  have covers : file.Covers text.length := ⟨nonneg, proper, stopLe⟩
  refine ⟨fun n range => ?_, fun n p placed => ((linePosition_eq_ok covers).mp placed).1, ?_⟩
  · exact ⟨_, (linePosition_eq_ok covers).mpr ⟨range, rfl⟩, isPlace_lineStart covers n⟩
  · intro m n p q le first second
    rw [((linePosition_eq_ok covers).mp first).2, ((linePosition_eq_ok covers).mp second).2]
    exact lineStart_mono covers le

/-- A collection of one file with two lines. -/
def twoLines : Text := Collection.build [] [{ filename := "f".toList, content := some "a\nb".toList }]

/-- A line of the header and the last line of the file, behind a header of ten lines. -/
theorem lines_placed_twoLines :
    ∃ file ∈ Collection.parse twoLines, ∃ p q : ℤ, linePosition twoLines file 5 = .ok p ∧
      linePosition twoLines file (10 + 1) = .ok q ∧ IsPlace twoLines file p ∧ p ≤ q ∧ q < file.stop := by
  obtain ⟨file, inFiles⟩ := List.exists_mem_of_ne_nil (Collection.parse twoLines) (by decide +kernel)
  have known : ∀ f ∈ Collection.parse twoLines, f.start = 0 ∧ f.stop = 261 ∧ f.content.lines.length = 2 ∧
      twoLines.lineFeedsBetween f.start f.body = 10 ∧ InRange twoLines f 5 := by decide +kernel
  obtain ⟨start, stop, lines, header, range⟩ := known file inFiles
  have length : twoLines.length = 261 := by decide +kernel
  obtain ⟨spans, bodies⟩ := lines_placed twoLines
  obtain ⟨placed, -, ordered⟩ := spans file (by omega) (by omega) (by omega)
  obtain ⟨p, first, isPlace⟩ := placed 5 range
  obtain ⟨q, last, below⟩ := bodies (by rw [length]; norm_num) file inFiles 1 (by omega)
  rw [header] at last
  exact ⟨file, inFiles, p, q, first, last, isPlace, ordered 5 _ p q (by norm_num) first last, below⟩

end Chunkwise.Boundary
