import Chunkwise.Proofs.Chunk.Boundaries
import Chunkwise.Proofs.Keyed

/-!
# What a chunk says about files

A chunk has the boundaries that its range takes. It names the files of its boundaries, the ends of files left aside,
and lists the functions and classes that begin at them. Since every boundary goes to one chunk, the chunks together
list for a file just what its boundaries say, in their order.
-/

namespace Chunkwise

/-! ## The files of boundaries -/

namespace FileShare

/-- A part of a share lists the names of the blocks of its file that begin at boundaries of one kind. -/
structure Lists (list : FileShare → List (Option Text)) (kind : BoundaryKind) : Prop where
  begins : kind ≠ .fileEnd
  empty : list empty = []
  add : ∀ b share, list (add b share) = if b.kind = kind then list share ++ [b.blockName] else list share

theorem lists_functions : Lists functions .functionStart :=
  ⟨BoundaryKind.noConfusion, rfl, fun _ _ => rfl⟩

theorem lists_classes : Lists classes .classStart :=
  ⟨BoundaryKind.noConfusion, rfl, fun _ _ => rfl⟩

/-- The names are listed in the order of the boundaries. -/
theorem Lists.get?_ofBoundaries {list : FileShare → List (Option Text)} {kind : BoundaryKind} (lists : Lists list kind)
    (boundaries : List Boundary) (file : Text) :
    (((ofBoundaries boundaries).get? file).map list).getD [] =
      (boundaries.filter fun b => b.kind = kind ∧ b.filename = file).map (·.blockName) := by
  induction boundaries using List.reverseRecOn with
  | nil => rfl
  | append_singleton earlier b ih =>
    rw [ofBoundaries_concat, List.filter_append, List.map_append, ← ih]
    by_cases ends : b.kind = .fileEnd
    · simp [ends, lists.begins.symm]
    · rw [if_neg ends, Keyed.get?_update]
      by_cases own : file = b.filename
      · subst own
        cases (ofBoundaries earlier).get? b.filename <;> by_cases listed : b.kind = kind <;>
          simp [lists.add, lists.empty, listed]
      · simp [own, Ne.symm own]

/-- Boundaries speak of a file when one of them that is not an end names it. -/
theorem mem_keys_ofBoundaries {boundaries : List Boundary} {key : Text} :
    key ∈ (ofBoundaries boundaries).keys ↔ ∃ b ∈ boundaries, b.kind ≠ .fileEnd ∧ b.filename = key := by
  induction boundaries using List.reverseRecOn with
  | nil => simp [ofBoundaries, Keyed.keys]
  | append_singleton earlier b ih =>
    rw [ofBoundaries_concat]
    by_cases ends : b.kind = .fileEnd
    · simp [ends, ih, or_and_right, exists_or]
    · rw [if_neg ends, Keyed.mem_keys_update, ih]
      simp [ends, or_and_right, exists_or, eq_comm (a := key)]

theorem nodup_keys_ofBoundaries (boundaries : List Boundary) : (ofBoundaries boundaries).keys.Nodup := by
  induction boundaries using List.reverseRecOn with
  | nil => exact List.nodup_nil
  | append_singleton earlier b ih =>
    rw [ofBoundaries_concat]
    split
    · exact ih
    · exact Keyed.nodup_keys_update ih

end FileShare

/-! ## The files of a chunk -/

namespace Chunk

variable {content : Text} {boundaries : List Boundary} {target : TargetSize} {chunks : List Chunk} {c : Chunk}

theorem registered_ofDraft {index : ℕ} {d : Draft} (made : ofDraft content index d = .ok c) :
    (c.range, c.boundaries, c.shares) = (d.range, d.boundaries, FileShare.ofBoundaries d.boundaries) := by
  have range := range_ofDraft made
  obtain ⟨average, _, rest⟩ := Fault.bind_ok.mp made
  cases rest
  rw [range]

/-- A chunk has the range and the boundaries of a draft, and says about files what these boundaries say. -/
theorem exists_draft (nonempty : content ≠ []) (made : semantic content boundaries target = .ok chunks)
    (member : c ∈ chunks) : ∃ d ∈ drafts content.length target.value boundaries,
      d.range = c.range ∧ d.boundaries = c.boundaries ∧ c.shares = FileShare.ofBoundaries c.boundaries := by
  obtain ⟨i, d, inDrafts, own⟩ := exists_of_mem_ofDrafts (semantic_ok nonempty made) c member
  obtain ⟨range, rest⟩ := Prod.mk.inj (registered_ofDraft own)
  obtain ⟨boundaries, shares⟩ := Prod.mk.inj rest
  exact ⟨d, inDrafts, range.symm, boundaries.symm, by rw [shares, boundaries]⟩

theorem mem_boundaries_iff (nonempty : content ≠ []) (made : semantic content boundaries target = .ok chunks)
    (member : c ∈ chunks) {b : Boundary} : b ∈ c.boundaries ↔ b ∈ boundaries ∧ Takes content.length c.range b := by
  obtain ⟨d, inDrafts, range, own, -⟩ := exists_draft nonempty made member
  rw [← own, ← range, mem_draft_iff (List.length_pos_iff.mpr nonempty) inDrafts]

theorem fileNames_eq (nonempty : content ≠ []) (made : semantic content boundaries target = .ok chunks)
    (member : c ∈ chunks) : c.fileNames = (FileShare.ofBoundaries c.boundaries).keys := by
  obtain ⟨-, -, -, -, shares⟩ := exists_draft nonempty made member
  rw [fileNames, shares]

theorem nodup_fileNames (nonempty : content ≠ []) (made : semantic content boundaries target = .ok chunks)
    (member : c ∈ chunks) : c.fileNames.Nodup := by
  rw [fileNames_eq nonempty made member]
  exact FileShare.nodup_keys_ofBoundaries c.boundaries

/-- A chunk names the file of every boundary in its range that is not an end. -/
theorem mem_fileNames_of_within (nonempty : content ≠ []) (made : semantic content boundaries target = .ok chunks)
    (member : c ∈ chunks) {b : Boundary} (inBoundaries : b ∈ boundaries) (begins : b.kind ≠ .fileEnd)
    (low : c.start ≤ Segment.clamp content.length b.position)
    (high : Segment.clamp content.length b.position < c.stop) : b.filename ∈ c.fileNames := by
  rw [fileNames_eq nonempty made member]
  have own := (mem_boundaries_iff nonempty made member).mpr ⟨inBoundaries, Or.inl ⟨low, high⟩⟩
  exact FileShare.mem_keys_ofBoundaries.mpr ⟨b, own, begins, rfl⟩

/-- A chunk names no file without a boundary of it that is not an end, in the chunk or else at the end of the text. -/
theorem exists_of_mem_fileNames (nonempty : content ≠ []) (made : semantic content boundaries target = .ok chunks)
    (member : c ∈ chunks) {key : Text} (named : key ∈ c.fileNames) :
    ∃ b ∈ boundaries, b.kind ≠ .fileEnd ∧ b.filename = key ∧
      (Segment.clamp content.length b.position = content.length ∨
        c.start ≤ Segment.clamp content.length b.position ∧ Segment.clamp content.length b.position < c.stop) := by
  rw [fileNames_eq nonempty made member] at named
  obtain ⟨b, own, begins, same⟩ := FileShare.mem_keys_ofBoundaries.mp named
  obtain ⟨inBoundaries, takes⟩ := (mem_boundaries_iff nonempty made member).mp own
  exact ⟨b, inBoundaries, begins, same, takes.symm.imp_left And.left⟩

/-! ## All boundaries -/

/-- The chunks have the boundaries of the drafts. -/
theorem flatMap_boundaries (nonempty : content ≠ []) (made : semantic content boundaries target = .ok chunks) :
    chunks.flatMap (·.boundaries) =
      if content.length ≤ target.value then boundaries else Segment.sortBoundaries boundaries := by
  have same := map_ofDrafts (fun _ _ _ => registered_ofDraft) (semantic_ok nonempty made)
  have lists := congrArg (List.map fun entry : (ℕ × ℕ) × List Boundary × Keyed FileShare => entry.2.1) same
  rw [List.map_map, List.map_map] at lists
  rw [← boundaries_drafts content.length target.value boundaries (List.length_pos_iff.mpr nonempty), List.flatMap_def,
    List.flatMap_def]
  exact congrArg List.flatten lists

/-- What chunks list of a file, one after the other, is what all boundaries together list of it. -/
theorem flatMap_listed (nonempty : content ≠ []) (made : semantic content boundaries target = .ok chunks)
    {list : FileShare → List (Option Text)} {kind : BoundaryKind} (lists : FileShare.Lists list kind) (file : Text) :
    chunks.flatMap (fun c => ((c.shares.get? file).map list).getD []) =
      ((chunks.flatMap (·.boundaries)).filter fun b => b.kind = kind ∧ b.filename = file).map (·.blockName) := by
  rw [List.filter_flatMap, List.map_flatMap]
  refine List.flatMap_congr fun c member => ?_
  obtain ⟨-, -, -, -, shares⟩ := exists_draft nonempty made member
  rw [shares, lists.get?_ofBoundaries]

end Chunk

/-- Packing loses no boundary and doubles none. It gives chunks whenever the importances of the files are in range. Then
    the boundaries of the chunks, one chunk after the other, are the given ones, ordered by position when the text is
    longer than the target; each chunk has those in its range, and the last one those at the end of the text too. The
    functions and classes listed for a file are the blocks of its boundaries, in that order. -/
theorem boundaries_registered {content : Text} (nonempty : content ≠ []) (boundaries : List Boundary)
    (target : TargetSize) (small : target.value < 2 ^ 1000) :
    ((∃ chunks, Chunk.semantic content boundaries target = .ok chunks) ↔
      ∀ d ∈ drafts content.length target.value boundaries, d.Averageable) ∧
    ∀ chunks, Chunk.semantic content boundaries target = .ok chunks →
      (content.length ≤ target.value → chunks.flatMap (·.boundaries) = boundaries) ∧
      (target.value < content.length → Sorts boundaries (chunks.flatMap (·.boundaries))) ∧
      (∀ c ∈ chunks,
        c.boundaries = (chunks.flatMap (·.boundaries)).filter (Takes content.length c.range ·)) ∧
      (∀ b, ∃ c ∈ chunks, Takes content.length c.range b ∧
        ∀ d ∈ chunks, Takes content.length d.range b → d = c) ∧
      ∀ file,
        chunks.flatMap (fun c => ((c.shares.get? file).map (·.functions)).getD []) =
          ((chunks.flatMap (·.boundaries)).filter
            fun b => b.kind = .functionStart ∧ b.filename = file).map (·.blockName) ∧
        chunks.flatMap (fun c => ((c.shares.get? file).map (·.classes)).getD []) =
          ((chunks.flatMap (·.boundaries)).filter
            fun b => b.kind = .classStart ∧ b.filename = file).map (·.blockName) := by
  refine ⟨Chunk.semantic_total_iff nonempty small (by norm_num), fun chunks made => ?_⟩
  have tiles := Chunk.tiles_semantic made
  have chain : Contiguous (fun c => (Chunk.range c).1) (fun c => (Chunk.range c).2) 0 content.length chunks :=
    tiles.contiguous
  have proper : ∀ c ∈ chunks, c.range.1 < c.range.2 := tiles.lt
  have all := Chunk.flatMap_boundaries nonempty made
  refine ⟨?_, ?_, ?_, ?_, ?_⟩
  · intro whole
    rw [all, if_pos whole]
  · intro divided
    rw [all, if_neg (not_le.mpr divided)]
    exact sorts_sortBoundaries boundaries
  · intro c member
    refine (filter_takes chain proper (fun d inChunks b own => ?_) member).symm
    exact ((Chunk.mem_boundaries_iff nonempty made inChunks).mp own).2
  · intro b
    obtain ⟨c, member, takes⟩ := exists_takes chain (List.length_pos_iff.mpr nonempty) b
    exact ⟨c, member, takes, fun d inChunks takes' => takes_unique chain proper inChunks member takes' takes⟩
  · intro file
    exact ⟨Chunk.flatMap_listed nonempty made FileShare.lists_functions file,
      Chunk.flatMap_listed nonempty made FileShare.lists_classes file⟩

/-- A boundary behind the text, one before it, and two at one position. -/
theorem boundaries_registered_outside :
    ∃ chunks, Chunk.semantic "abcdefgh".toList
        [⟨.fileEnd, 99, ['f'], 8, none⟩, ⟨.functionStart, 6, ['f'], 8, some ['g']⟩, ⟨.fileStart, -3, ['f'], 8, none⟩,
          ⟨.functionStart, 6, ['f'], 8, some ['h']⟩] ⟨4, by decide⟩ = .ok chunks ∧
      (chunks.flatMap (·.boundaries)).filter (·.position = 6) =
        [⟨.functionStart, 6, ['f'], 8, some ['g']⟩, ⟨.functionStart, 6, ['f'], 8, some ['h']⟩] := by
  have nonempty : "abcdefgh".toList ≠ [] := by decide
  obtain ⟨succeeds, registered⟩ := boundaries_registered nonempty
    [⟨.fileEnd, 99, ['f'], 8, none⟩, ⟨.functionStart, 6, ['f'], 8, some ['g']⟩, ⟨.fileStart, -3, ['f'], 8, none⟩,
      ⟨.functionStart, 6, ['f'], 8, some ['h']⟩] ⟨4, by decide⟩ (Binary.lt_two_pow (by decide))
  have eight : 8 < Binary.limit := Binary.lt_limit (by decide : 8 < 2 ^ 4) (by decide)
  obtain ⟨chunks, made⟩ := succeeds.mpr (averageable_drafts (by decide) (by simp; omega))
  obtain ⟨-, sorts, -⟩ := registered chunks made
  exact ⟨chunks, made, ((sorts (by decide)).stable 6).trans (by decide)⟩

end Chunkwise
