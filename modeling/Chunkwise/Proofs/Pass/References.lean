import Chunkwise.Proofs.Chunk.Distribution
import Chunkwise.Proofs.Chunk.Shares
import Chunkwise.Proofs.Pass.Outcome
import Chunkwise.Proofs.Reference.Chunks
import Chunkwise.Proofs.Reference.Files

/-!
# References lead between chunks

The references of files are found before there are chunks. Once a pass has spread the files over chunks, each
reference of a chunk leads from one of its files to another file, in the first chunk that holds part of it, and that
is another chunk.
-/

namespace Chunkwise

/-- A reference leads from a file of its chunk to another file, in the first chunk that names it, which is another
    chunk. -/
structure CrossReference.Leads (chunks : List Chunk) (c : Chunk) (r : CrossReference) : Prop where
  /-- The number that the reference gives is that of a chunk, both by its place and by its own account. -/
  target : ∃ (i : ℕ) (d : Chunk), chunks[i]? = some d ∧ r.targetChunk = i ∧ d.index = i ∧ r.targetFile ∈ d.fileNames
  other : r.targetChunk ≠ c.index
  first : ∀ (i : ℕ) (d : Chunk), (i : ℤ) < r.targetChunk → chunks[i]? = some d → r.targetFile ∉ d.fileNames
  source : r.sourceFile ∈ c.fileNames
  leaves : r.sourceFile ≠ r.targetFile

namespace Pass

variable {threshold : ℤ} {a : Analysis} {target : TargetSize} {strategy : Strategy} {o : Outcome}

/-! ## References of an outcome -/

/-- What is added to chunks after packing leaves their numbers and the files that they name as they are, and wrapping
    leaves their references as they are. -/
theorem Gives.map_chunks (gives : Gives threshold a target strategy o) (some : o.boundaries ≠ []) :
    ∃ chunks, Chunk.semantic a.content o.boundaries target = .ok chunks ∧
      o.chunks.map (fun c => (c.index, c.fileNames)) = chunks.map (fun c => (c.index, c.fileNames)) ∧
      o.chunks.map (fun c => (c.index, c.references)) =
        (attachReferences a chunks).map fun c => (c.index, c.references) := by
  obtain ⟨-, chunks, packed, is⟩ := gives.cut.resolve_left fun cut => some cut.1
  refine ⟨chunks, packed, ?_, ?_⟩
  · rw [is, Wrapping.map_applyAll (fun _ _ _ _ => rfl), map_attachReferences fun _ _ => rfl]
  · rw [is, Wrapping.map_applyAll fun _ _ _ _ => rfl]

theorem Gives.nodup_fileNames (gives : Gives threshold a target strategy o) (some : o.boundaries ≠ []) :
    ∀ c ∈ o.chunks, c.fileNames.Nodup := by
  obtain ⟨chunks, packed, same, -⟩ := gives.map_chunks some
  have packedNames : ∀ d ∈ chunks, d.fileNames.Nodup := by
    intro d member
    refine Chunk.nodup_fileNames ?_ packed member
    intro empty
    rw [empty] at packed
    cases packed
    cases member
  have all : ∀ p ∈ chunks.map (fun c => (c.index, c.fileNames)), p.2.Nodup := List.forall_mem_map.mpr packedNames
  rw [← same] at all
  exact fun c member => all (c.index, c.fileNames) (List.mem_map.mpr ⟨c, member, rfl⟩)

/-- In a packed text the references of a chunk are those of the files that it is assigned. -/
theorem Gives.references_eq (gives : Gives threshold a target strategy o) (some : o.boundaries ≠ []) :
    ∀ c ∈ o.chunks, c.references = Reference.ofChunk a.files (assignment o.chunks) a.references c.index := by
  obtain ⟨chunks, -, same, attached⟩ := gives.map_chunks some
  have all : ∀ p ∈ (attachReferences a chunks).map (fun c => (c.index, c.references)),
      p.2 = Reference.ofChunk a.files (assignment o.chunks) a.references p.1 := by
    rw [assignment_congr same, attachReferences, List.map_map]
    exact List.forall_mem_map.mpr fun d _ => rfl
  rw [← attached] at all
  exact fun c member => all (c.index, c.references) (List.mem_map.mpr ⟨c, member, rfl⟩)

/-- In a text that is cut by size no chunk has references. -/
theorem Gives.references_eq_nil (gives : Gives threshold a target strategy o) (none : o.boundaries = []) :
    ∀ c ∈ o.chunks, c.references = [] := by
  obtain ⟨-, is⟩ := gives.cut.resolve_right fun cut => cut.1 none
  have all : ∀ references ∈ (Chunk.sized a.content target).map (·.references), references = [] := by
    refine List.forall_mem_map.mpr fun c member => ?_
    obtain ⟨i, s, piece, own⟩ := Chunk.exists_of_mem_ofPieces c member
    cases own
    rfl
  rw [← Wrapping.map_applyAll (g := Chunk.references) fun _ _ _ _ => rfl, ← is] at all
  exact List.forall_mem_map.mp all

/-- Every reference of a chunk leads to another chunk. -/
theorem Gives.leads {content : Text} (gives : Gives threshold (Analysis.ofContent content) target strategy o)
    {c : Chunk} (member : c ∈ o.chunks) {r : CrossReference} (has : r ∈ c.references) : r.Leads o.chunks c := by
  have some : o.boundaries ≠ [] := by
    intro none
    rw [gives.references_eq_nil none c member] at has
    cases has
  have distinct := gives.nodup_fileNames some
  rw [gives.references_eq some c member] at has
  obtain ⟨part, original, recorded, leads⟩ := Reference.exists_of_mem_ofChunk has
  obtain ⟨first, other, -, names, -⟩ := Reference.leadsTo?_eq_some_iff.mp leads
  -- The least number that the target is assigned is that of the first chunk that names it.
  rw [← names, Reference.firstChunk?_eq_some_iff, mem_assignment_iff distinct] at first
  obtain ⟨⟨d, inChunks, named, index⟩, least⟩ := first
  refine ⟨?_, other, ?_, ?_, ?_⟩
  · obtain ⟨i, placed⟩ := List.mem_iff_getElem?.mp inChunks
    have numbered : d.index = i := by simpa using gives.tiles.index_eq placed
    exact ⟨i, d, placed, index.symm.trans numbered, numbered, named⟩
  · intro i e earlier placed names'
    have numbered : e.index = i := by simpa using gives.tiles.index_eq placed
    have := least e.index ((mem_assignment_iff distinct).mpr ⟨e, List.mem_of_getElem? placed, names', rfl⟩)
    omega
  · obtain ⟨-, assigned⟩ := Reference.mem_filesOfChunk.mp part
    obtain ⟨e, inChunks', holds, same⟩ := (mem_assignment_iff distinct).mp assigned
    obtain rfl := gives.tiles.eq_of_index_eq inChunks' member same
    exact holds
  · rw [names]
    exact (Reference.target_ne_of_mem_ofFiles recorded).symm

/-- A reference of a file that a chunk names is said by one of the chunk when the first chunk that names its target is
    another one. -/
theorem Gives.exists_reference (gives : Gives threshold a target strategy o) (some : o.boundaries ≠ []) {c d : Chunk}
    (member : c ∈ o.chunks) {f : SourceFile} (inFiles : f ∈ a.files) (named : f.key ∈ c.fileNames) {r : FileReference}
    (recorded : r ∈ (a.references.get? f.key).getD []) (inChunks : d ∈ o.chunks) (other : d ≠ c)
    (holds : r.target ∈ d.fileNames) (first : ∀ e ∈ o.chunks, r.target ∈ e.fileNames → d.index ≤ e.index) :
    ∃ x ∈ c.references, x.kind = r.kind ∧ x.targetChunk = d.index ∧ x.description = r.description := by
  have distinct := gives.nodup_fileNames some
  rw [gives.references_eq some c member]
  refine Reference.exists_mem_ofChunk (x := ⟨r.kind, d.index, r.target, f.key, r.description⟩)
    (Reference.mem_filesOfChunk.mpr ⟨⟨f, inFiles, rfl⟩, ?_⟩) recorded (Reference.leadsTo?_eq_some_iff.mpr ⟨?_, ?_, ?_⟩)
  · exact (mem_assignment_iff distinct).mpr ⟨c, member, named, rfl⟩
  · rw [Reference.firstChunk?_eq_some_iff, mem_assignment_iff distinct]
    refine ⟨⟨d, inChunks, holds, rfl⟩, ?_⟩
    intro i assigned
    obtain ⟨e, inChunks', names, rfl⟩ := (mem_assignment_iff distinct).mp assigned
    exact first e inChunks' names
  · exact fun same => other (gives.tiles.eq_of_index_eq inChunks member same)
  · exact ⟨rfl, rfl, rfl, rfl⟩

/-- A text without files has no boundaries. -/
theorem boundaries_of_no_files {content : Text} {boundaries : List Boundary} (absent : Collection.parse content = [])
    (planned : boundariesFor threshold strategy (Analysis.ofContent content) = .ok boundaries) : boundaries = [] := by
  cases strategy with
  | sizeBased => exact (Except.ok.inj planned).symm
  | semantic =>
    change Boundary.plan content (Collection.parse content) _ threshold = _ at planned
    rw [absent] at planned
    simpa [Boundary.plan, Boundary.placedFiles] using planned.symm

/-- References between chunks can be followed. Each reference of a chunk leads to another chunk of the pass: to the
    first one that names its target, from a file that its own chunk names, and the two files are different. No two
    references of a chunk have the same kind, target chunk and description, and when a text is packed, none is lost:
    what a file of the chunk refers to in another chunk is said by one of them. Without boundaries, because the text
    is to be cut by size or no file is found in it, there are no references. -/
theorem references_lead (content : Text) (target : TargetSize) (small : target.value < 2 ^ 1000) (threshold : ℤ)
    (strategy : Strategy) (kept : Option Text) :
    (content.length < 2 ^ 500 → ∃ o,
      run threshold content (.int target.value) (.text strategy.word) (kept.map Analysis.ofContent) = .ok o) ∧
    ∀ o, run threshold content (.int target.value) (.text strategy.word) (kept.map Analysis.ofContent) = .ok o →
      (∀ c ∈ o.chunks, (∀ r ∈ c.references, r.Leads o.chunks c) ∧
        c.references.Pairwise fun a b =>
          ¬ (a.kind = b.kind ∧ a.targetChunk = b.targetChunk ∧ a.description = b.description)) ∧
      (o.used = .semantic → ∀ c ∈ o.chunks, ∀ f ∈ Collection.parse content, f.key ∈ c.fileNames →
        ∀ r ∈ ((Analysis.ofContent content).references.get? f.key).getD [], ∀ d ∈ o.chunks, d ≠ c →
          r.target ∈ d.fileNames → (∀ e ∈ o.chunks, r.target ∈ e.fileNames → d.index ≤ e.index) →
          ∃ x ∈ c.references, x.kind = r.kind ∧ x.targetChunk = d.index ∧ x.description = r.description) ∧
      (o.used = .sizeBased ∨ strategy = .sizeBased ∨ Collection.parse content = [] →
        ∀ c ∈ o.chunks, c.references = []) := by
  rw [run_eq_runOn]
  refine ⟨fun short => runOn_total threshold strategy short (by norm_num) small (by norm_num), ?_⟩
  intro o made
  have gives := gives_of_runOn made
  refine ⟨?_, ?_, ?_⟩
  · intro c member
    refine ⟨fun r has => gives.leads member has, ?_⟩
    by_cases none : o.boundaries = []
    · rw [gives.references_eq_nil none c member]
      exact .nil
    · rw [gives.references_eq none c member]
      exact Reference.pairwise_ofChunk
  · intro used c member f inFiles named r recorded d inChunks other holds first
    have some : o.boundaries ≠ [] := by
      intro none
      rw [gives.used_eq, if_pos none] at used
      cases used
    exact gives.exists_reference some member inFiles named recorded inChunks other holds first
  · intro bare
    apply gives.references_eq_nil
    rcases bare with used | rfl | absent
    · by_contra some
      rw [gives.used_eq, if_neg some] at used
      cases used
    · exact (Except.ok.inj gives.planned).symm
    · exact boundaries_of_no_files absent gives.planned

/-- A file of one line that imports the file after it. -/
def twoScripts : Text :=
  (Header.mk "a.py".toList []).text ++ "import b\n".toList ++ (Header.mk "b.py".toList []).text ++ "x = 1\n".toList

/-- Where the two files begin and end, as boundaries. -/
def twoScriptsMarks : List Boundary := [
  ⟨.fileStart, 0, "a.py".toList, 10, none⟩, ⟨.fileEnd, 187, "a.py".toList, 8, none⟩,
  ⟨.fileStart, 187, "b.py".toList, 10, none⟩, ⟨.fileEnd, 371, "b.py".toList, 8, none⟩]

theorem plan_twoScripts :
    Boundary.plan twoScripts (Collection.parse twoScripts) (Analysis.ofContent twoScripts).blocks 7 =
      .ok twoScriptsMarks := by
  have placed : (Boundary.placedFiles twoScripts 7 (Analysis.ofContent twoScripts).blocks 0
      (Collection.parse twoScripts)).toOption = some [
        ⟨⟨.fileStart, 0, "a.py".toList, 10, none⟩, 0, 0⟩, ⟨⟨.fileEnd, 187, "a.py".toList, 8, none⟩, 0, 0⟩,
        ⟨⟨.fileStart, 187, "b.py".toList, 10, none⟩, 1, 0⟩, ⟨⟨.fileEnd, 371, "b.py".toList, 8, none⟩, 1, 0⟩] := by
    decide +kernel
  cases found : Boundary.placedFiles twoScripts 7 (Analysis.ofContent twoScripts).blocks 0
      (Collection.parse twoScripts) with
  | error fault => simp [found, Except.toOption] at placed
  | ok sorted =>
    obtain rfl := Option.some.inj ((congrArg Except.toOption found).symm.trans placed)
    refine Fault.bind_ok.mpr ⟨_, found, ?_⟩
    rw [List.mergeSort_of_pairwise (by decide)]
    rfl

theorem refers_twoScripts {chunks : List Chunk}
    (packed : Chunk.semantic twoScripts twoScriptsMarks ⟨200, by decide⟩ = .ok chunks) :
    ∃ c ∈ Wrapping.applyAll (attachReferences (Analysis.ofContent twoScripts) chunks), c.references ≠ [] := by
  have cut : drafts twoScripts.length 200 twoScriptsMarks =
      [⟨0, 187, twoScriptsMarks.take 1⟩, ⟨187, 371, twoScriptsMarks.drop 1⟩] := by
    rw [show twoScripts.length = 371 by decide +kernel]
    cbv
  have assembled := Chunk.semantic_ok (by decide +kernel) packed
  rw [cut] at assembled
  have refers : (Chunk.ofDrafts twoScripts 0
      [⟨0, 187, twoScriptsMarks.take 1⟩, ⟨187, 371, twoScriptsMarks.drop 1⟩]).toOption.any fun chunks =>
        (Wrapping.applyAll (attachReferences (Analysis.ofContent twoScripts) chunks)).any fun c =>
          !c.references.isEmpty := by decide +kernel
  rw [assembled] at refers
  simpa [Except.toOption] using refers

/-- The two files are in chunks of their own, and the import leads from one to the other. -/
theorem references_lead_import :
    ∃ o, run 7 twoScripts (.int 200) (.text Strategy.semantic.word) none = .ok o ∧
      (∃ c ∈ o.chunks, c.references ≠ []) ∧ ∀ c ∈ o.chunks, ∀ r ∈ c.references, r.Leads o.chunks c := by
  have short : twoScripts.length < 500 := by decide +kernel
  obtain ⟨total, leads⟩ := references_lead twoScripts ⟨200, by decide⟩ (Binary.lt_two_pow (by decide)) 7 .semantic none
  obtain ⟨o, made⟩ := total (Binary.lt_two_pow short)
  refine ⟨o, made, ?_, fun c member => ((leads o made).1 c member).1⟩
  have gives := gives_of_runOn ((run_eq_runOn ..).symm.trans made)
  have marks : twoScriptsMarks = o.boundaries := Except.ok.inj (plan_twoScripts.symm.trans gives.planned)
  obtain ⟨-, chunks, packed, is⟩ := gives.cut.resolve_left fun cut => by
    rw [← marks] at cut
    cases cut.1
  rw [← marks] at packed
  rw [is]
  exact refers_twoScripts packed

end Pass

end Chunkwise
