import Chunkwise.Proofs.Chunk.Breaks
import Chunkwise.Proofs.Chunk.Packing
import Chunkwise.Proofs.Keyed
import Chunkwise.Proofs.Size

/-!
# Chunks made from a text tile it

Both ways of cutting a text give chunks that tile it. Cutting by size never fails. Packing fails only when the
average importance of the files in some chunk is out of the range of binary fractions, which takes an importance of
at least half of that range.
-/

namespace Chunkwise

/-! ## Average importance -/

theorem sumOf_le {ns : List Nat} (bound : Nat) (each : ∀ n ∈ ns, n ≤ bound) : sumOf ns ≤ ns.length * bound := by
  induction ns with
  | nil => exact Nat.zero_le _
  | cons n rest ih =>
    have here := each n List.mem_cons_self
    have later := ih fun m member => each m (List.mem_cons_of_mem n member)
    calc sumOf (n :: rest) = n + sumOf rest := rfl
      _ ≤ bound + rest.length * bound := by omega
      _ = (rest.length + 1) * bound := by ring

namespace FileShare

theorem importance_add_le {b : Boundary} {share : FileShare} {bound : Int} (before : share.importance ≤ bound)
    (more : b.importance ≤ bound) : (share.add b).importance ≤ bound := max_le before more

theorem ofBoundaries_concat (boundaries : List Boundary) (b : Boundary) :
    ofBoundaries (boundaries ++ [b]) =
      if b.kind = .fileEnd then ofBoundaries boundaries
      else (ofBoundaries boundaries).update b.filename fun old => (old.getD empty).add b := by
  rw [ofBoundaries, List.foldl_append]
  rfl

/-- No share is more important than the most important boundary. -/
theorem importance_le {boundaries : List Boundary} (bound : Int) (positive : 0 ≤ bound)
    (each : ∀ b ∈ boundaries, b.importance ≤ bound) : ∀ e ∈ ofBoundaries boundaries, e.2.importance ≤ bound := by
  induction boundaries using List.reverseRecOn with
  | nil => simp [ofBoundaries]
  | append_singleton earlier b ih =>
    obtain ⟨before, here⟩ := List.forall_mem_append.mp each
    rw [List.forall_mem_singleton] at here
    rw [ofBoundaries_concat]
    split
    · exact ih before
    · exact Keyed.forall_update (P := fun share : FileShare => share.importance ≤ bound) (ih before)
        (importance_add_le positive here) fun share smaller => importance_add_le smaller here

end FileShare

/-- The importances of the files that the boundaries of a draft name are below the limit on average, so that their
    average is in the range of binary fractions. -/
def Draft.Averageable (d : Draft) : Prop :=
  let shares := FileShare.ofBoundaries d.boundaries
  shares ≠ [] → sumOf (shares.map fun (_, share) => share.importance.toNat) < shares.length * Binary.limit

/-- Importances that are all below the limit are so on average. -/
theorem Draft.averageable_of_importance_lt {d : Draft} (each : ∀ b ∈ d.boundaries, b.importance < Binary.limit) :
    d.Averageable := by
  intro some
  have positive := Binary.limit_pos
  have bounded := FileShare.importance_le (Binary.limit - 1) (by omega)
    fun b member => Int.le_sub_one_of_lt (each b member)
  set shares := FileShare.ofBoundaries d.boundaries
  have count : 0 < shares.length := List.length_pos_iff.mpr some
  calc sumOf (shares.map fun (_, share) => share.importance.toNat)
      ≤ shares.length * (Binary.limit - 1) := by
        refine (sumOf_le (Binary.limit - 1) ?_).trans (by simp)
        intro n member
        obtain ⟨⟨key, share⟩, inShares, rfl⟩ := List.mem_map.mp member
        have below := bounded (key, share) inShares
        dsimp only at below ⊢
        omega
    _ < shares.length * Binary.limit := Nat.mul_lt_mul_of_pos_left (by omega) count

/-- Drafts are averageable when the importances of all boundaries are below the limit. -/
theorem averageable_drafts {length target : ℕ} {boundaries : List Boundary} (text : 0 < length)
    (each : ∀ b ∈ boundaries, b.importance < Binary.limit) : ∀ d ∈ drafts length target boundaries, d.Averageable :=
  fun _ inDrafts => Draft.averageable_of_importance_lt fun b inDraft =>
    each b (mem_of_mem_drafts length target boundaries text inDrafts inDraft)

namespace Chunk

/-- An average importance is found for a draft when it is averageable, and only then. -/
theorem averageImportance_total_iff {d : Draft} :
    (∃ average, averageImportance (FileShare.ofBoundaries d.boundaries) = .ok average) ↔ d.Averageable := by
  unfold averageImportance Draft.Averageable
  by_cases none : FileShare.ofBoundaries d.boundaries = []
  · simp [none]
  · have count := List.length_pos_iff.mpr none
    simp only [List.isEmpty_iff, none, ↓reduceIte, ne_eq, not_false_eq_true, forall_const,
      ← Binary.fits_nearest_iff count]
    split_ifs with fit <;> simp [fit]

theorem averageImportance_error {shares : Keyed FileShare} {fault : Fault}
    (refused : averageImportance shares = .error fault) : fault = .quotientRange := by
  unfold averageImportance at refused
  split at refused
  · cases refused
  · dsimp only at refused
    split at refused <;> cases refused
    rfl

/-! ## From drafts to chunks -/

variable {content : Text} {index start : Nat} {drafts : List Draft}

theorem ofDraft_ok {d : Draft} {c : Chunk} (made : ofDraft content index d = .ok c) :
    d.Averageable ∧ c.extent = (↑index, d.start, d.stop, Text.slice content d.start d.stop) := by
  obtain ⟨average, exact, rest⟩ := Fault.bind_ok.mp made
  cases rest
  exact ⟨averageImportance_total_iff.mp ⟨average, exact⟩, rfl⟩

theorem ofDraft_total (content : Text) (index : Nat) {d : Draft} (averageable : d.Averageable) :
    ∃ c, ofDraft content index d = .ok c := by
  obtain ⟨average, exact⟩ := averageImportance_total_iff.mpr averageable
  exact ⟨_, by simp [ofDraft, exact]; rfl⟩

theorem ofDrafts_total (content : Text) (index : Nat) (all : ∀ d ∈ drafts, d.Averageable) :
    ∃ chunks, ofDrafts content index drafts = .ok chunks := by
  induction drafts generalizing index with
  | nil => exact ⟨[], rfl⟩
  | cons d rest ih =>
    obtain ⟨c, made⟩ := ofDraft_total content index (all d List.mem_cons_self)
    obtain ⟨others, more⟩ := ih (index + 1) fun e member => all e (List.mem_cons_of_mem d member)
    exact ⟨c :: others, by simp [ofDrafts, made, more]; rfl⟩

/-- The chunks that drafts become tile the content when the drafts go through it. -/
theorem tiles_ofDrafts {chunks : List Chunk} (made : ofDrafts content index drafts = .ok chunks)
    (chain : Contiguous Draft.start Draft.stop start content.length drafts) (proper : ∀ d ∈ drafts, d.start < d.stop) :
    Tiles content index start chunks := by
  induction drafts generalizing index start chunks with
  | nil => cases made; exact chain
  | cons d rest ih =>
    obtain ⟨c, first, others⟩ := Fault.bind_ok.mp made
    obtain ⟨tail, more, last⟩ := Fault.bind_ok.mp others
    cases last
    obtain ⟨rfl, _, after⟩ := chain
    have is := (ofDraft_ok first).2
    simp only [extent, Prod.mk.injEq] at is
    obtain ⟨numbered, here, there, raw⟩ := is
    refine ⟨numbered, here, ?_, by rw [raw, there], ?_⟩
    · rw [there]; exact proper d List.mem_cons_self
    · rw [there]; exact ih more after fun e member => proper e (List.mem_cons_of_mem d member)

theorem ofDrafts_averageable {chunks : List Chunk} (made : ofDrafts content index drafts = .ok chunks) :
    ∀ d ∈ drafts, d.Averageable := by
  induction drafts generalizing index chunks with
  | nil => simp
  | cons d rest ih =>
    obtain ⟨c, first, others⟩ := Fault.bind_ok.mp made
    obtain ⟨tail, more, _⟩ := Fault.bind_ok.mp others
    exact List.forall_mem_cons.mpr ⟨(ofDraft_ok first).1, ih more⟩

/-- Every chunk is made from one of the drafts. -/
theorem exists_of_mem_ofDrafts {chunks : List Chunk} (made : ofDrafts content index drafts = .ok chunks) :
    ∀ c ∈ chunks, ∃ i, ∃ d ∈ drafts, ofDraft content i d = .ok c := by
  induction drafts generalizing index chunks with
  | nil => cases made; simp
  | cons d rest ih =>
    obtain ⟨c, first, others⟩ := Fault.bind_ok.mp made
    obtain ⟨tail, more, last⟩ := Fault.bind_ok.mp others
    cases last
    refine List.forall_mem_cons.mpr ⟨⟨index, d, List.mem_cons_self, first⟩, ?_⟩
    intro e member
    obtain ⟨i, draft, inRest, own⟩ := ih more e member
    exact ⟨i, draft, List.mem_cons_of_mem d inRest, own⟩

theorem ofDrafts_error {fault : Fault} (refused : ofDrafts content index drafts = .error fault) :
    fault = .quotientRange := by
  induction drafts generalizing index with
  | nil => cases refused
  | cons d rest ih =>
    simp only [ofDrafts, ofDraft] at refused
    cases average : averageImportance (FileShare.ofBoundaries d.boundaries) with
    | error f =>
      rw [average] at refused
      cases refused
      exact averageImportance_error average
    | ok value =>
      rw [average] at refused
      cases others : ofDrafts content (index + 1) rest with
      | error f =>
        simp only [others] at refused
        cases refused
        exact ih others
      | ok chunks => simp only [others] at refused; cases refused

/-! ## Semantic chunks -/

variable {boundaries : List Boundary} {target : TargetSize}

private theorem semantic_eq (nonempty : content ≠ []) {k : ℕ} (small : target.value < 2 ^ k) (range : k < 1024) :
    semantic content boundaries target =
      ofDrafts content 0 (Chunkwise.drafts content.length target.value boundaries) := by
  obtain ⟨t, written⟩ := Size.write_total (n := target.value) (by exact_mod_cast small) range
  simp only [semantic, show content.isEmpty = false by simpa using nonempty, Bool.false_eq_true, ↓reduceIte, written]
  rfl

/-- Packing succeeds when every draft has an average importance, and only then. -/
theorem semantic_total_iff (nonempty : content ≠ []) {k : ℕ} (small : target.value < 2 ^ k) (range : k < 1024) :
    (∃ chunks, semantic content boundaries target = .ok chunks) ↔
      ∀ d ∈ Chunkwise.drafts content.length target.value boundaries, d.Averageable := by
  rw [semantic_eq nonempty small range]
  exact ⟨fun ⟨_, made⟩ => ofDrafts_averageable made, ofDrafts_total content 0⟩

/-- When packing fails, an average importance is out of range. -/
theorem semantic_error (nonempty : content ≠ []) {k : ℕ} (small : target.value < 2 ^ k) (range : k < 1024)
    {fault : Fault} (refused : semantic content boundaries target = .error fault) : fault = .quotientRange := by
  rw [semantic_eq nonempty small range] at refused
  exact ofDrafts_error refused

theorem semantic_ok {chunks : List Chunk} (nonempty : content ≠ [])
    (made : semantic content boundaries target = .ok chunks) :
    ofDrafts content 0 (Chunkwise.drafts content.length target.value boundaries) = .ok chunks := by
  simp only [semantic, show content.isEmpty = false by simpa using nonempty, Bool.false_eq_true, ↓reduceIte] at made
  obtain ⟨_, _, rest⟩ := Fault.bind_ok.mp made
  exact rest

theorem ne_nil_of_mem_semantic {chunks : List Chunk} {c : Chunk} (made : semantic content boundaries target = .ok chunks)
    (member : c ∈ chunks) : content ≠ [] := by
  rintro rfl
  cases made
  cases member

theorem exists_of_mem_semantic {chunks : List Chunk} (made : semantic content boundaries target = .ok chunks) :
    ∀ c ∈ chunks, ∃ i, ∃ d ∈ Chunkwise.drafts content.length target.value boundaries, ofDraft content i d = .ok c :=
  fun c member => exists_of_mem_ofDrafts (semantic_ok (ne_nil_of_mem_semantic made member) made) c member

/-- Chunks made by packing tile the content. -/
theorem tiles_semantic {chunks : List Chunk} (made : semantic content boundaries target = .ok chunks) :
    Tiles content 0 0 chunks := by
  by_cases nonempty : content = []
  · subst nonempty; cases made; rfl
  · have text : 0 < content.length := List.length_pos_iff.mpr nonempty
    obtain ⟨chain, proper⟩ := contiguous_drafts content.length target.value boundaries text
    exact tiles_ofDrafts (semantic_ok nonempty made) chain proper

/-- Packing with a target that the content stays within gives a single chunk. -/
theorem length_semantic {chunks : List Chunk} (nonempty : content ≠ []) (whole : content.length ≤ target.value)
    (made : semantic content boundaries target = .ok chunks) : chunks.length = 1 := by
  have single := semantic_ok nonempty made
  simp only [Chunkwise.drafts, whole, ↓reduceIte] at single
  obtain ⟨c, _, others⟩ := Fault.bind_ok.mp single
  cases others
  rfl

/-! ## Chunks by size -/

/-- Every chunk that is cut by size is what one piece becomes. -/
theorem exists_of_mem_ofPieces {pieces : List Text} :
    ∀ c ∈ ofPieces index start pieces, ∃ i s piece, [c] = ofPieces i s [piece] := by
  induction pieces generalizing index start with
  | nil => simp [ofPieces]
  | cons piece rest ih => exact List.forall_mem_cons.mpr ⟨⟨index, start, piece, rfl⟩, ih⟩

private theorem tiles_ofPieces {size : Nat} {t : Text} (rest : content.drop start = t)
    (inside : start ≤ content.length) :
    Tiles content index start (ofPieces index start (pieces size t)) := by
  fun_induction pieces size t generalizing index start with
  | case1 => exact le_antisymm inside (List.drop_eq_nil_iff.mp rest)
  | case2 t some ih =>
    have positive := cutLength_pos size some
    have within := (breaksAt_cutLength size t).le_length
    subst rest
    rw [ofPieces, List.length_take, min_eq_left within]
    rw [List.length_drop] at within
    refine ⟨rfl, rfl, Nat.lt_add_of_pos_right positive, ?_, ?_⟩
    · rw [Text.slice, Nat.add_sub_cancel_left]
    · exact ih (List.drop_drop ..).symm (Nat.add_le_of_le_sub' inside within)

/-- Chunks cut by size tile the content. -/
theorem tiles_sized (content : Text) (target : TargetSize) : Tiles content 0 0 (sized content target) :=
  tiles_ofPieces rfl (Nat.zero_le _)

/-- Cutting with a target that the content stays within gives a single chunk. -/
theorem length_sized (nonempty : content ≠ []) (whole : content.length ≤ target.value) :
    (sized content target).length = 1 := by
  have cut : cutLength target.value content = content.length := by simp [cutLength, whole]
  rw [sized, pieces, dif_neg nonempty, cut, List.drop_length, pieces, dif_pos rfl]
  rfl

end Chunk

end Chunkwise
