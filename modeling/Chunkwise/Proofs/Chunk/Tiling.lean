import Chunkwise.Chunk.Basic
import Chunkwise.Proofs.Contiguous
import Chunkwise.Proofs.Text.Slice
import Chunkwise.Wrapping
import Mathlib.Tactic

/-!
# Chunks that tile a text

Chunks tile a text when they follow each other from its beginning to its end, none of them empty, each with its own
number and its own part of the text. Then their contents, joined in order, give the text back. Nothing that is
added to chunks later on (references, instructions, wrapped texts) takes part in this.
-/

namespace Chunkwise

/-! ## Tiles -/

namespace Chunk

/-- The chunks follow each other from position `start` to the end of the content, numbered from `index` on. None is
    empty, and each holds its own part of the content. -/
def Tiles (content : Text) (index start : Nat) : List Chunk → Prop
  | [] => start = content.length
  | c :: rest =>
    c.index = index ∧ c.start = start ∧ start < c.stop ∧ c.content = Text.slice content start c.stop ∧
      Tiles content (index + 1) c.stop rest

/-- What tiling a content depends on. -/
def extent (c : Chunk) : Int × Nat × Nat × Text := (c.index, c.start, c.stop, c.content)

variable {content : Text} {index start : Nat} {chunks : List Chunk}

theorem Tiles.contiguous (tiles : Tiles content index start chunks) :
    Contiguous Chunk.start Chunk.stop start content.length chunks := by
  induction chunks generalizing index start with
  | nil => exact tiles
  | cons c rest ih =>
    obtain ⟨_, rfl, proper, _, after⟩ := tiles
    exact ⟨rfl, proper.le, ih after⟩

theorem Tiles.lt (tiles : Tiles content index start chunks) : ∀ c ∈ chunks, c.start < c.stop := by
  induction chunks generalizing index start with
  | nil => simp
  | cons c rest ih =>
    obtain ⟨_, rfl, proper, _, after⟩ := tiles
    exact List.forall_mem_cons.mpr ⟨proper, ih after⟩

/-- The size of a chunk is the length of its range. -/
theorem Tiles.size (tiles : Tiles content index start chunks) : ∀ c ∈ chunks, c.size = c.stop - c.start := by
  induction chunks generalizing index start with
  | nil => simp
  | cons c rest ih =>
    obtain ⟨_, rfl, _, raw, after⟩ := tiles
    refine List.forall_mem_cons.mpr ⟨?_, ih after⟩
    rw [Chunk.size, raw, Text.length_slice content c.start after.contiguous.le]

/-- A chunk holds the text of its range. -/
theorem Tiles.content_eq (tiles : Tiles content index start chunks) :
    ∀ c ∈ chunks, c.content = (content.drop c.start).take c.size := by
  induction chunks generalizing index start with
  | nil => simp
  | cons c rest ih =>
    have size := tiles.size c List.mem_cons_self
    obtain ⟨_, rfl, _, raw, after⟩ := tiles
    refine List.forall_mem_cons.mpr ⟨?_, ih after⟩
    rw [size, raw, Text.slice]

/-- Every chunk begins where the one before it ends. -/
theorem Tiles.isChain (tiles : Tiles content index start chunks) : chunks.IsChain fun c d => d.start = c.stop := by
  induction chunks generalizing index start with
  | nil => exact .nil
  | cons c rest ih =>
    obtain ⟨_, _, _, _, after⟩ := tiles
    cases rest with
    | nil => exact .singleton c
    | cons d more => exact List.isChain_cons_cons.mpr ⟨after.2.1, ih after⟩

/-- There are no more chunks than characters. -/
theorem Tiles.length_le (tiles : Tiles content index start chunks) : start + chunks.length ≤ content.length := by
  induction chunks generalizing index start with
  | nil => exact le_of_eq tiles
  | cons c rest ih =>
    obtain ⟨_, _, proper, _, after⟩ := tiles
    have later := ih after
    rw [List.length_cons]
    omega

/-- A chunk is numbered by its place. -/
theorem Tiles.index_eq (tiles : Tiles content index start chunks) {i : ℕ} {c : Chunk} (placed : chunks[i]? = some c) :
    c.index = index + i := by
  induction chunks generalizing index start i with
  | nil => simp at placed
  | cons d rest ih =>
    obtain ⟨numbered, _, _, _, after⟩ := tiles
    cases i with
    | zero =>
      obtain rfl : d = c := by simpa using placed
      simpa using numbered
    | succ i =>
      rw [List.getElem?_cons_succ] at placed
      have later := ih after placed
      push_cast at later ⊢
      omega

/-- Different chunks have different numbers. -/
theorem Tiles.eq_of_index_eq (tiles : Tiles content index start chunks) {c d : Chunk} (inChunks : c ∈ chunks)
    (inChunks' : d ∈ chunks) (same : c.index = d.index) : c = d := by
  obtain ⟨i, placed⟩ := List.mem_iff_getElem?.mp inChunks
  obtain ⟨j, placed'⟩ := List.mem_iff_getElem?.mp inChunks'
  rw [tiles.index_eq placed, tiles.index_eq placed'] at same
  obtain rfl : i = j := by omega
  exact Option.some.inj (placed.symm.trans placed')

theorem Tiles.of_extents {others : List Chunk} (same : others.map extent = chunks.map extent)
    (tiles : Tiles content index start chunks) : Tiles content index start others := by
  induction chunks generalizing index start others with
  | nil =>
    obtain rfl : others = [] := by simpa using same
    exact tiles
  | cons c rest ih =>
    obtain ⟨d, more, rfl, sameHead, sameTail⟩ := List.map_eq_cons_iff.mp same
    simp only [extent, Prod.mk.injEq] at sameHead
    obtain ⟨sameIndex, sameStart, sameStop, sameContent⟩ := sameHead
    obtain ⟨numbered, here, proper, raw, after⟩ := tiles
    refine ⟨sameIndex.trans numbered, sameStart.trans here, ?_, ?_, ?_⟩
    · rwa [sameStop]
    · rw [sameContent, sameStop, raw]
    · rw [sameStop]; exact ih sameTail after

/-- Tiles put together give the content back. -/
theorem Tiles.flatten (tiles : Tiles content index start chunks) :
    (chunks.map (·.content)).flatten = content.drop start := by
  induction chunks generalizing index start with
  | nil => simp [show start = content.length from tiles]
  | cons c rest ih =>
    obtain ⟨_, _, proper, raw, after⟩ := tiles
    simp only [List.map_cons, List.flatten_cons, ih after, raw]
    exact Text.slice_append_drop content proper.le

/-- Only the empty content is tiled by no chunks at all. -/
theorem Tiles.eq_nil_iff (tiles : Tiles content index 0 chunks) : chunks = [] ↔ content = [] := by
  cases chunks with
  | nil => simpa using (show 0 = content.length from tiles).symm
  | cons c rest =>
    have inside : c.stop ≤ content.length := tiles.2.2.2.2.contiguous.le
    have proper := tiles.2.2.1
    simp only [reduceCtorEq, false_iff]
    rintro rfl
    simp at inside
    omega

/-- A single chunk over a whole content that is not empty tiles it. -/
theorem tiles_single {c : Chunk} (nonempty : content ≠ []) (is : c.extent = (0, 0, content.length, content)) :
    Tiles content 0 0 [c] := by
  simp only [extent, Prod.mk.injEq] at is
  obtain ⟨numbered, here, last, raw⟩ := is
  refine ⟨numbered, here, ?_, ?_, last⟩
  · rw [last]; exact List.length_pos_iff.mpr nonempty
  · rw [raw, last, Text.slice_full]

end Chunk

/-! ## What leaves tiles as they are -/

/-- Whatever does not look at the instructions and the wrapped text is kept. -/
theorem Wrapping.map_applyAll {β : Type} {g : Chunk → β}
    (keeps : ∀ listed index total c, g (apply listed index total c) = g c) (chunks : List Chunk) :
    (applyAll chunks).map g = chunks.map g := by
  unfold applyAll
  generalize chunks.length = total
  generalize 0 = index
  induction chunks generalizing index with
  | nil => rfl
  | cons c rest ih => rw [applyFrom, List.map_cons, List.map_cons, keeps, ih]

/-- Wrapped chunks tile what they tiled before. -/
theorem Wrapping.tiles_applyAll {content : Text} {chunks : List Chunk} (tiles : Chunk.Tiles content 0 0 chunks) :
    Chunk.Tiles content 0 0 (applyAll chunks) :=
  tiles.of_extents (map_applyAll (fun _ _ _ _ => rfl) chunks)

theorem Wrapping.length_applyAll (chunks : List Chunk) : (applyAll chunks).length = chunks.length := by
  simpa using congrArg List.length (map_applyAll (g := Chunk.extent) (fun _ _ _ _ => rfl) chunks)

end Chunkwise
