import Chunkwise.Proofs.Boundary.Order
import Chunkwise.Proofs.Chunk.Assembly

/-!
# Outcomes of a pass

A pass either cuts the text by size, when it has no boundaries, or packs it at its boundaries. Either way the chunks
tile the text. What a pass finds depends on the content alone and not on which analysis was kept.
-/

namespace Chunkwise.Pass

variable {threshold : ℤ} {a : Analysis} {target : TargetSize} {strategy : Strategy} {o : Outcome}

/-! ## What a pass does -/

/-- How an outcome comes about: its boundaries are those of the strategy, and its chunks are cut by size when there
    are none and packed at the boundaries otherwise. -/
structure Gives (threshold : ℤ) (a : Analysis) (target : TargetSize) (strategy : Strategy) (o : Outcome) : Prop where
  analysis_eq : o.analysis = a
  target_eq : o.target = target
  strategy_eq : o.strategy = strategy
  planned : boundariesFor threshold strategy a = .ok o.boundaries
  used_eq : o.used = if o.boundaries = [] then .sizeBased else .semantic
  cut : (o.boundaries = [] ∧ o.chunks = Wrapping.applyAll (Chunk.sized a.content target)) ∨
    o.boundaries ≠ [] ∧ ∃ chunks, Chunk.semantic a.content o.boundaries target = .ok chunks ∧
      o.chunks = Wrapping.applyAll (attachReferences a chunks)

theorem gives_of_runOn (made : runOn threshold a target strategy = .ok o) : Gives threshold a target strategy o := by
  obtain ⟨boundaries, planned, rest⟩ := Fault.bind_ok.mp made
  split at rest
  · rename_i none
    cases rest
    have empty := List.isEmpty_iff.mp none
    exact ⟨rfl, rfl, rfl, planned, (if_pos empty).symm, Or.inl ⟨empty, rfl⟩⟩
  · rename_i some
    obtain ⟨chunks, packed, last⟩ := Fault.bind_ok.mp rest
    cases last
    have nonempty : boundaries ≠ [] := by simpa using some
    exact ⟨rfl, rfl, rfl, planned, (if_neg nonempty).symm, Or.inr ⟨nonempty, chunks, packed, rfl⟩⟩

/-! ## Chunks of an outcome -/

/-- Whatever does not look at the references is kept. -/
theorem map_attachReferences {β : Type} {g : Chunk → β} (keeps : ∀ c references, g { c with references } = g c)
    (a : Analysis) (chunks : List Chunk) : (attachReferences a chunks).map g = chunks.map g := by
  rw [attachReferences, List.map_map]
  exact List.map_congr_left fun c _ => keeps c _

/-- What holds of the chunks as they are cut holds of those of an outcome, when it does not look at what is added. -/
theorem Gives.forall_chunks {P : Chunk → Prop} (gives : Gives threshold a target strategy o)
    (wrapped : ∀ listed index total c, P (Wrapping.apply listed index total c) = P c)
    (attached : ∀ c references, P { c with references } = P c) (sized : ∀ c ∈ Chunk.sized a.content target, P c)
    (packed : ∀ chunks, Chunk.semantic a.content o.boundaries target = .ok chunks → ∀ c ∈ chunks, P c) :
    ∀ c ∈ o.chunks, P c := by
  have all : ∀ p ∈ o.chunks.map P, p := by
    rcases gives.cut with ⟨-, is⟩ | ⟨-, chunks, made, is⟩
    · rw [is, Wrapping.map_applyAll wrapped]
      exact List.forall_mem_map.mpr sized
    · rw [is, Wrapping.map_applyAll wrapped, map_attachReferences attached]
      exact List.forall_mem_map.mpr (packed chunks made)
  exact fun c member => all (P c) (List.mem_map.mpr ⟨c, member, rfl⟩)

/-- The chunks of an outcome tile the text. -/
theorem Gives.tiles (gives : Gives threshold a target strategy o) : Chunk.Tiles a.content 0 0 o.chunks := by
  rcases gives.cut with ⟨-, is⟩ | ⟨-, chunks, packed, is⟩
  · rw [is]
    exact Wrapping.tiles_applyAll (Chunk.tiles_sized a.content target)
  · rw [is]
    have same := map_attachReferences (g := Chunk.extent) (fun _ _ => rfl) a chunks
    exact Wrapping.tiles_applyAll ((Chunk.tiles_semantic packed).of_extents same)

/-- A text that stays within the target becomes a single chunk. -/
theorem Gives.length_eq_one (gives : Gives threshold a target strategy o) (nonempty : a.content ≠ [])
    (whole : a.content.length ≤ target.value) : o.chunks.length = 1 := by
  rcases gives.cut with ⟨-, is⟩ | ⟨-, chunks, packed, is⟩
  · rw [is, Wrapping.length_applyAll]
    exact Chunk.length_sized nonempty whole
  · rw [is, Wrapping.length_applyAll, attachReferences, List.length_map]
    exact Chunk.length_semantic nonempty whole packed

/-! ## A pass succeeds -/

theorem boundariesFor_total (threshold : ℤ) (strategy : Strategy) {content : Text} {k : ℕ}
    (short : content.length < 2 ^ k) (range : 2 * k + 2 < 1024) :
    ∃ boundaries, boundariesFor threshold strategy (Analysis.ofContent content) = .ok boundaries ∧
      ∀ b ∈ boundaries, b.importance < Binary.limit := by
  cases strategy with
  | semantic =>
    obtain ⟨boundaries, planned, modest⟩ := Boundary.plan_total threshold short range (Analysis.within_blocks content)
    have below : Boundary.fileStartImportance < Binary.limit :=
      Int.ofNat_lt.mpr (Binary.lt_limit (by norm_num : 10 < 2 ^ 4) (by norm_num))
    exact ⟨boundaries, planned, fun b member => (modest b member).trans_lt below⟩
  | sizeBased => exact ⟨[], rfl, by simp⟩

/-- A pass over a short enough text with a small enough target gives an outcome. -/
theorem runOn_total (threshold : ℤ) (strategy : Strategy) {content : Text} {k j : ℕ}
    (short : content.length < 2 ^ k) (range : 2 * k + 2 < 1024) (small : target.value < 2 ^ j) (range' : j < 1024) :
    ∃ o, runOn threshold (Analysis.ofContent content) target strategy = .ok o := by
  obtain ⟨boundaries, planned, modest⟩ := boundariesFor_total threshold strategy short range
  have packed : ∃ chunks, Chunk.semantic content boundaries target = .ok chunks := by
    by_cases nonempty : content = []
    · exact ⟨[], by simp [Chunk.semantic, nonempty]⟩
    · exact (Chunk.semantic_total_iff nonempty small range').mpr
        (averageable_drafts (List.length_pos_iff.mpr nonempty) modest)
  obtain ⟨chunks, made⟩ := packed
  by_cases none : boundaries.isEmpty
  · exact ⟨_, Fault.bind_ok.mpr ⟨boundaries, planned, if_pos none⟩⟩
  · exact ⟨_, Fault.bind_ok.mpr ⟨boundaries, planned, (if_neg none).trans (Fault.bind_ok.mpr ⟨chunks, made, rfl⟩)⟩⟩

/-! ## The analysis of a pass -/

/-- A kept analysis is used again only when it is the one that a fresh analysis would give. -/
theorem analysisFor_eq (content : Text) (kept : Option Text) :
    analysisFor content (kept.map Analysis.ofContent) = Analysis.ofContent content := by
  cases kept with
  | none => rfl
  | some other =>
    show (if other = content then Analysis.ofContent other else Analysis.ofContent content) = _
    split
    · rename_i same
      rw [same]
    · rfl

/-- A pass with valid arguments runs on the analysis of its content, whichever analysis was kept. -/
theorem run_eq_runOn (threshold : ℤ) (content : Text) (target : TargetSize) (strategy : Strategy)
    (kept : Option Text) :
    run threshold content (.int target.value) (.text strategy.word) (kept.map Analysis.ofContent) =
      runOn threshold (Analysis.ofContent content) target strategy := by
  have size : TargetSize.ofArgument (.int target.value) = .ok target := by
    simp [TargetSize.ofArgument, target.positive]
  have word : Strategy.ofArgument (.text strategy.word) = .ok strategy := by
    simp [Strategy.ofArgument, Strategy.ofWord?_word]
  simp only [run, size, word, analysisFor_eq]
  rfl

end Chunkwise.Pass
