import Chunkwise.Boundary.Plan
import Chunkwise.Proofs.Collection.Files
import Chunkwise.Proofs.Number.Accuracy
import Chunkwise.Proofs.Text.Occurrences
import Chunkwise.Proofs.Text.Slice

/-!
# The order of lines is the order of their places

The place of a line is estimated and then taken back to a line start. It lies within the entry whatever the line is,
and a later line has no earlier place: each step on the way, the roundings too, keeps the order.
-/

namespace Chunkwise.Boundary

/-! ## Line starts -/

/-- The line start before a position of an entry that begins at `start`. -/
def snap (text : Text) (start position : ℤ) : ℤ :=
  match text.lastLineFeed? start position with
  | some i => i + 1
  | none => start

section Snap

variable {text : Text} {start position later : ℤ}

theorem lastLineFeed?_lt {i : ℕ} (nonneg : 0 ≤ start) (within : start ≤ position) (inside : position ≤ text.length)
    (found : text.lastLineFeed? start position = some i) : start ≤ i ∧ i < position := by
  rw [Text.lastLineFeed?, Text.place_eq nonneg (within.trans inside),
    Text.place_eq (nonneg.trans within) inside] at found
  obtain ⟨j, last, rfl⟩ := Option.map_eq_some_iff.mp found
  have before := Text.lastAt?_lt last
  rw [Text.length_slice text _ (by omega)] at before
  omega

theorem snap_bounds (text : Text) {start position : ℤ} (nonneg : 0 ≤ start) (within : start ≤ position)
    (inside : position ≤ text.length) :
    start ≤ snap text start position ∧ snap text start position ≤ position := by
  unfold snap
  split
  · have := lastLineFeed?_lt nonneg within inside ‹_›
    omega
  · exact ⟨le_refl _, within⟩

/-- Going on to a later position, the last line feed is one on the way or the same as before. -/
theorem snap_mono (nonneg : 0 ≤ start) (within : start ≤ position) (order : position ≤ later)
    (inside : later ≤ text.length) : snap text start position ≤ snap text start later := by
  have fits : position ≤ text.length := order.trans inside
  have parts : text.slice start.toNat later.toNat =
      text.slice start.toNat position.toNat ++ text.slice position.toNat later.toNat :=
    (Text.slice_append text (by omega) (by omega)).symm
  have last : text.lastLineFeed? start later =
      ((Text.lastAt? ['\n'] (text.slice position.toNat later.toNat)).map (· + position.toNat)).or
        (text.lastLineFeed? start position) := by
    have length := Text.length_slice text start.toNat (b := position.toNat) (by omega)
    rw [Text.lastLineFeed?, Text.lastLineFeed?, Text.place_eq nonneg (within.trans fits),
      Text.place_eq (nonneg.trans within) fits, Text.place_eq (nonneg.trans (within.trans order)) inside, parts,
      Text.lastAt?_append, length]
    cases Text.lastAt? ['\n'] (text.slice position.toNat later.toNat) with
    | none => rfl
    | some i =>
      simp only [Option.map_some, Option.some_or, Option.some.injEq]
      omega
  have bound := (snap_bounds text nonneg within fits).2
  cases beyond : Text.lastAt? ['\n'] (text.slice position.toNat later.toNat) with
  | none => exact le_of_eq (by rw [snap, snap, last, beyond, Option.map_none, Option.none_or])
  | some i =>
    have here : snap text start later = (i + position.toNat : ℕ) + 1 := by
      rw [snap, last, beyond, Option.map_some, Option.some_or]
    omega

end Snap

/-! ## Places of lines -/

/-- The average length of the lines of a file's entry. -/
def average (text : Text) (file : SourceFile) : Binary :=
  Binary.nearest file.size.toNat (text.lineFeedsBetween file.start file.stop + 1)

/-- How far from the start of its entry a line is estimated to be. -/
def distance (text : Text) (file : SourceFile) (line : ℤ) : ℕ :=
  ((Binary.ofNat line.toNat).mul (average text file)).floor

/-- The place of a line of an entry. -/
def lineStart (text : Text) (file : SourceFile) (line : ℤ) : ℤ :=
  snap text file.start (min (file.start + distance text file line) file.stop)

/-- The numbers on the way to the place of a line are in the range of the format. -/
def InRange (text : Text) (file : SourceFile) (line : ℤ) : Prop :=
  file.size ≤ 0 ∨ line ≤ 0 ∨
    (average text file).fits ∧ (Binary.ofNat line.toNat).fits ∧
      ((Binary.ofNat line.toNat).mul (average text file)).fits

instance (text : Text) (file : SourceFile) (line : ℤ) : Decidable (InRange text file line) :=
  inferInstanceAs (Decidable (_ ∨ _ ∨ _))

variable {text : Text} {file : SourceFile}

theorem distance_of_nonpos {line : ℤ} (atTop : line ≤ 0) : distance text file line = 0 := by
  have zero : line.toNat = 0 := Int.toNat_of_nonpos atTop
  simp [distance, zero, Binary.ofNat, Binary.mul, Binary.nearest, Binary.num, Binary.floor]

theorem distance_mono {line more : ℤ} (le : line ≤ more) : distance text file line ≤ distance text file more :=
  Binary.floor_mono (Binary.value_mul_mono (Binary.value_ofNat_mono (Int.toNat_le_toNat le)) _)

theorem snap_start (nonneg : 0 ≤ file.start) (inside : file.start ≤ text.length) :
    snap text file.start file.start = file.start :=
  have bounds := snap_bounds text nonneg (le_refl _) inside
  le_antisymm bounds.2 bounds.1

/-- A line is placed when the numbers on the way to its place are in the range of the format, and only then. -/
theorem linePosition_eq_ok (covers : file.Covers text.length) {line p : ℤ} :
    linePosition text file line = .ok p ↔ InRange text file line ∧ p = lineStart text file line := by
  obtain ⟨startNonneg, proper, stopLe⟩ := covers
  unfold linePosition
  dsimp only
  by_cases top : file.stop - file.start ≤ 0 ∨ line ≤ 0
  · have here : min (file.start + distance text file line) file.stop = file.start := by
      rcases top with empty | top
      · omega
      · rw [distance_of_nonpos top]
        omega
    have place : lineStart text file line = file.start := by
      rw [lineStart, here, snap_start startNonneg (proper.trans stopLe)]
    have range : InRange text file line := top.imp_right Or.inl
    rw [if_pos top, place]
    exact ⟨fun same => ⟨range, (Except.ok.inj same).symm⟩, fun ⟨_, same⟩ => congrArg Except.ok same.symm⟩
  · rw [if_neg top]
    have range : InRange text file line ↔ (average text file).fits ∧ (Binary.ofNat line.toNat).fits ∧
        ((Binary.ofNat line.toNat).mul (average text file)).fits := by
      rw [InRange, ← or_assoc]
      exact or_iff_right top
    have averages : averageLine (file.stop - file.start).toNat (text.lineFeedsBetween file.start file.stop + 1) =
        if (average text file).fits then .ok (average text file) else .error .quotientRange := rfl
    rw [range, averages]
    by_cases fits : (average text file).fits
    · by_cases fitsLine : (Binary.ofNat line.toNat).fits
      · by_cases fitsProduct : ((Binary.ofNat line.toNat).mul (average text file)).fits
        · have estimates : estimate line.toNat (average text file) = .ok (distance text file line) := by
            simp [estimate, fitsLine, fitsProduct, distance]
          simp only [fits, fitsLine, fitsProduct, if_true, estimates, Except.bind, bind, true_and, and_self, lineStart,
            snap]
          cases text.lastLineFeed? file.start (min (file.start + distance text file line) file.stop) with
          | none => exact ⟨fun same => (Except.ok.inj same).symm, fun same => congrArg Except.ok same.symm⟩
          | some i => exact ⟨fun same => (Except.ok.inj same).symm, fun same => congrArg Except.ok same.symm⟩
        · simp [fits, fitsProduct, estimate, fitsLine, bind, Except.bind]
      · simp [fits, fitsLine, estimate, bind, Except.bind]
    · simp [fits, bind, Except.bind]

/-- The place of a line lies within its entry. -/
theorem lineStart_bounds (covers : file.Covers text.length) (line : ℤ) :
    file.start ≤ lineStart text file line ∧ lineStart text file line ≤ file.stop := by
  obtain ⟨startNonneg, proper, stopLe⟩ := covers
  have reach : file.start ≤ min (file.start + distance text file line) file.stop := by omega
  obtain ⟨low, high⟩ := snap_bounds text startNonneg reach ((min_le_right _ _).trans stopLe)
  exact ⟨low, high.trans (min_le_right _ _)⟩

/-- A later line has no earlier place. -/
theorem lineStart_mono (covers : file.Covers text.length) {line more : ℤ} (le : line ≤ more) :
    lineStart text file line ≤ lineStart text file more := by
  obtain ⟨startNonneg, proper, stopLe⟩ := covers
  have further : distance text file line ≤ distance text file more := distance_mono le
  exact snap_mono startNonneg (by omega) (by omega) ((min_le_right _ _).trans stopLe)

theorem entryLine_mono {block other : Block} (le : block.startLine ≤ other.startLine) :
    entryLine text file block ≤ entryLine text file other := by
  unfold entryLine
  split_ifs <;> omega

end Chunkwise.Boundary
