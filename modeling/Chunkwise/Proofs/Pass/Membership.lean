import Chunkwise.Proofs.Boundary.Reach
import Chunkwise.Proofs.Chunk.Distribution
import Chunkwise.Proofs.Chunk.Shares
import Chunkwise.Proofs.Pass.Outcome

/-!
# Chunks name the files that they hold part of

A chunk names files because of boundaries, and nobody compares its range with those of the files. Still the names are
exact. A chunk that begins within a file begins at a boundary of that file, and a boundary that names a file lies
before the file's end.
-/

namespace Chunkwise

/-! ## Packing at a plan -/

section Packing

variable {content : Text} {boundaries : List Boundary} {target : TargetSize} {chunks : List Chunk}

/-- Within a file a position stays what it is. -/
theorem clamp_of_mem_parse {file : SourceFile} (inFiles : file ∈ Collection.parse content) {p : ℤ}
    (low : file.start ≤ p) (high : p < file.stop) : (Segment.clamp content.length p : ℤ) = p := by
  have inside := Collection.inside_of_mem_parse file inFiles
  exact Segment.clamp_eq_of_mem (inside.start_nonneg.trans low) (high.le.trans inside.stop_le)

/-- A boundary that makes a chunk name a file lies in both. -/
theorem holds_of_mem_fileNames (nonempty : content ≠ [])
    (distinct : ((Collection.parse content).map (·.key)).Nodup)
    (marks : Boundary.Mark (Collection.parse content) boundaries)
    (made : Chunk.semantic content boundaries target = .ok chunks) {c : Chunk} (member : c ∈ chunks) {f : SourceFile}
    (inFiles : f ∈ Collection.parse content) (named : f.key ∈ c.fileNames) : c.Holds f := by
  obtain ⟨b, inBoundaries, begins, names, reached⟩ := Chunk.exists_of_mem_fileNames nonempty made member named
  obtain ⟨g, inFiles', same, low, kinds⟩ := marks.owned b inBoundaries
  obtain rfl : g = f := List.inj_on_of_nodup_map distinct inFiles' inFiles (same.symm.trans names)
  have high : b.position < g.stop := (kinds.resolve_left fun ends => begins ends.1).2
  have here := clamp_of_mem_parse inFiles low high
  have stopLe := (Collection.inside_of_mem_parse g inFiles).stop_le
  exact ⟨b.position, by omega, low, high⟩

/-- A chunk that holds part of a file has a boundary of it: the file begins in the chunk, or else the chunk begins
    within the file. -/
theorem mem_fileNames_of_holds (nonempty : content ≠ [])
    (marks : Boundary.Mark (Collection.parse content) boundaries)
    (made : Chunk.semantic content boundaries target = .ok chunks) {c : Chunk} (member : c ∈ chunks) {f : SourceFile}
    (inFiles : f ∈ Collection.parse content) (holds : c.Holds f) : f.key ∈ c.fileNames := by
  rw [Chunk.holds_iff] at holds
  rcases le_or_gt (c.start : ℤ) f.start with ahead | within
  · have here := clamp_of_mem_parse inFiles (le_refl f.start) (by omega)
    refine Chunk.mem_fileNames_of_within nonempty made member (marks.starts f inFiles) BoundaryKind.noConfusion ?_ ?_
    · simp only [Boundary.startMark]
      omega
    · simp only [Boundary.startMark]
      omega
  · obtain ⟨first, chain⟩ := Collection.contiguous_parse content
    have startNonneg := (Collection.inside_of_mem_parse f inFiles).start_nonneg
    have begins := (Chunk.greedy_semantic nonempty made).starts c.range (List.mem_map.mpr ⟨c, member, rfl⟩)
    simp only [Chunk.range] at begins
    obtain ⟨_, _, b, inBoundaries, is⟩ := begins.resolve_left (by omega)
    obtain ⟨g, inFiles', names, low, kinds⟩ := marks.owned b inBoundaries
    obtain rfl : g = f := by
      rcases chain.disjoint inFiles' inFiles with same | before | after
      · exact same
      · omega
      · omega
    have here := clamp_of_mem_parse inFiles low (by omega)
    have notEnd : b.kind ≠ .fileEnd := (kinds.resolve_left (by omega)).1
    rw [← names]
    refine Chunk.mem_fileNames_of_within nonempty made member inBoundaries notEnd ?_ ?_
    · omega
    · omega

/-- Packing at boundaries that mark the files makes chunks that name them. -/
theorem names_semantic (nonempty : content ≠ []) (distinct : ((Collection.parse content).map (·.key)).Nodup)
    (marks : Boundary.Mark (Collection.parse content) boundaries)
    (made : Chunk.semantic content boundaries target = .ok chunks) : Names (Collection.parse content) chunks := by
  refine ⟨fun c member => Chunk.nodup_fileNames nonempty made member, ?_, ?_⟩
  · intro c member key named
    obtain ⟨b, inBoundaries, _, rfl, _⟩ := Chunk.exists_of_mem_fileNames nonempty made member named
    obtain ⟨f, inFiles, isOf⟩ := marks.owned b inBoundaries
    exact ⟨f, inFiles, isOf.names.symm⟩
  · intro c member f inFiles
    exact ⟨holds_of_mem_fileNames nonempty distinct marks made member inFiles,
      mem_fileNames_of_holds nonempty marks made member inFiles⟩

end Packing

namespace Pass

/-! ## Semantic passes -/

variable {content : Text} {threshold : ℤ} {target : TargetSize} {o : Outcome}

theorem ne_nil_of_parse_ne_nil (some : Collection.parse content ≠ []) : content ≠ [] := by
  rintro rfl
  exact some rfl

/-- A semantic pass over a short collection whose files have different keys packs it, and its chunks name the files that
    they hold part of. -/
theorem Gives.names (gives : Gives threshold (Analysis.ofContent content) target .semantic o)
    (short : content.length < 2 ^ 50) (some : Collection.parse content ≠ [])
    (distinct : ((Collection.parse content).map (·.key)).Nodup) :
    o.used = .semantic ∧ Names (Collection.parse content) o.chunks := by
  obtain ⟨boundaries, planned, marks⟩ := Boundary.exists_plan short distinct threshold
  obtain rfl : boundaries = o.boundaries := Except.ok.inj (planned.symm.trans gives.planned)
  have nonempty : o.boundaries ≠ [] := by
    obtain ⟨file, member⟩ := List.exists_mem_of_ne_nil _ some
    exact List.ne_nil_of_mem (marks.starts file member)
  refine ⟨gives.used_eq.trans (if_neg nonempty), ?_⟩
  obtain ⟨-, chunks, packed, is⟩ := gives.cut.resolve_left fun cut => nonempty cut.1
  refine (names_semantic (ne_nil_of_parse_ne_nil some) distinct marks packed).of_namings ?_
  rw [is, Wrapping.map_applyAll (fun _ _ _ _ => rfl), map_attachReferences fun _ _ => rfl]

/-- Membership of files is exact. In a semantic pass over a text of fewer than 2⁵⁰ characters that has files, all with
    different keys, a chunk names a file if and only if they overlap. So the chunks assigned to a file are the ones that
    hold part of it, in one consecutive run, and the cohesion in a report is the share of the files that lie in a
    single chunk, up to rounding. -/
theorem membership_exact (short : content.length < 2 ^ 50) (some : Collection.parse content ≠ [])
    (distinct : ((Collection.parse content).map (·.key)).Nodup) (threshold : ℤ) (target : TargetSize)
    (small : target.value < 2 ^ 1000) (kept : Option Text) :
    ∃ o,
      run threshold content (.int target.value) (.text Strategy.semantic.word) (kept.map Analysis.ofContent) = .ok o ∧
      o.used = .semantic ∧
      (∀ c ∈ o.chunks, ∀ f ∈ Collection.parse content, f.key ∈ c.fileNames ↔ c.Holds f) ∧
      (assignment o.chunks).keys.Perm ((Collection.parse content).map (·.key)) ∧
      (∀ f ∈ Collection.parse content,
        (assignment o.chunks).get? f.key = .some ((o.chunks.filter (·.Holds f)).map (·.index)) ∧
        ∃ first count, 0 < count ∧
          (o.chunks.filter (·.Holds f)).map (·.index) = (List.range' first count).map Nat.cast) ∧
      (Summary.ofChunks o.chunks o.used).files = assignment o.chunks ∧
      (Summary.ofChunks o.chunks o.used).cohesion = (Binary.nearest ((Collection.parse content).countP fun f =>
        ¬ ∃ c ∈ o.chunks, c.Encloses f) (Collection.parse content).length).oneMinus ∧
      |(Summary.ofChunks o.chunks o.used).cohesion.value - ((Collection.parse content).countP fun f =>
        ∃ c ∈ o.chunks, c.Encloses f) / (Collection.parse content).length| ≤ 2 ^ (-52 : ℤ) := by
  obtain ⟨o, made⟩ := runOn_total threshold .semantic short (by norm_num) small (by norm_num)
  have gives := gives_of_runOn made
  obtain ⟨used, names⟩ := gives.names short some distinct
  have within : ∀ f ∈ Collection.parse content, 0 ≤ f.start ∧ f.start < f.stop ∧ f.stop ≤ content.length := by
    intro f member
    have inside := Collection.inside_of_mem_parse f member
    have spans := Collection.spans_of_mem_parse f member
    exact ⟨inside.start_nonneg, spans.start_lt.trans_le spans.body_le, inside.stop_le⟩
  refine ⟨o, (run_eq_runOn ..).trans made, used, names.exact, names.keys_perm gives.tiles within distinct, ?_, rfl,
    names.cohesion_eq gives.tiles within some distinct o.used⟩
  exact fun f member => names.get?_assignment gives.tiles within member

/-- Two files of one line each, too long for one chunk. -/
theorem membership_exact_two_files :
    ∃ o, run 7 ((Header.mk ['a'] []).text ++ "x\n".toList ++ (Header.mk ['b'] []).text ++ "y\n".toList) (.int 200)
        (.text Strategy.semantic.word) none = .ok o ∧
      ∀ c ∈ o.chunks, ∀ f ∈ Collection.parse
        ((Header.mk ['a'] []).text ++ "x\n".toList ++ (Header.mk ['b'] []).text ++ "y\n".toList),
        f.key ∈ c.fileNames ↔ c.Holds f := by
  have keys : (Collection.parse ((Header.mk ['a'] []).text ++ "x\n".toList ++ (Header.mk ['b'] []).text ++
      "y\n".toList)).map (·.key) = [['a'], ['b']] := by decide +kernel
  have short : ((Header.mk ['a'] []).text ++ "x\n".toList ++ (Header.mk ['b'] []).text ++ "y\n".toList).length <
      2 ^ 50 := by decide +kernel
  have some : Collection.parse ((Header.mk ['a'] []).text ++ "x\n".toList ++ (Header.mk ['b'] []).text ++
      "y\n".toList) ≠ [] := by
    intro empty
    rw [empty] at keys
    cases keys
  obtain ⟨o, made, _, exact, _⟩ := membership_exact short some (by rw [keys]; decide) 7 ⟨200, by decide⟩
    (Binary.lt_two_pow (by decide)) none
  exact ⟨o, made, exact⟩

end Pass

end Chunkwise
