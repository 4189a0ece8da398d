import Chunkwise.Proofs.Chunk.Fewest

/-!
# Ranges depend on the cuts alone

At given cuts there is a single greedy division of a text, and packing gives it. So the ranges of the chunks, and the
labels with them, depend on nothing else about the boundaries: neither their order nor their number, kinds, files or
names, nor those that stand at an end of the text or outside of it. Importances only decide whether packing is refused.
-/

namespace Chunkwise

variable {length target : ℕ} {boundaries others : List Boundary} {a p q : ℕ} {ranges pieces : List (ℕ × ℕ)}

/-! ## The greedy division -/

/-- A text has one greedy division. -/
theorem Greedy.eq_of_divides (greedy : Greedy length target boundaries ranges)
    (division : Divides length target boundaries a ranges) (greedy' : Greedy length target boundaries pieces)
    (division' : Divides length target boundaries a pieces) : ranges = pieces := by
  induction ranges generalizing a pieces with
  | nil =>
    have none := greedy'.length_le division' division le_rfl
    exact (List.length_eq_zero_iff.mp (Nat.le_zero.mp none)).symm
  | cons r rest ih =>
    cases pieces with
    | nil => exact absurd (greedy.length_le division division' le_rfl) (Nat.not_succ_le_zero _)
    | cons s more =>
      have begins : r.1 = s.1 := division.contiguous.1.trans division'.contiguous.1.symm
      have ends : r.2 = s.2 := le_antisymm (greedy'.stays_ahead division' division begins.le)
        (greedy.stays_ahead division division' begins.ge)
      rw [Prod.ext begins ends, ih greedy.tail division.tail greedy'.tail (ends ▸ division'.tail)]

/-- Two lists of boundaries cut a text of `length` characters in the same places. -/
def SameCuts (length : ℕ) (boundaries others : List Boundary) : Prop :=
  ∀ p, IsCut length boundaries p ↔ IsCut length others p

theorem EndsAt.of_sameCuts (same : SameCuts length boundaries others) (ends : EndsAt length boundaries p q) :
    EndsAt length others p q :=
  ⟨ends.lt, ends.stops.imp_right (same q).mp, fun r cut => ends.uncut r ((same r).mpr cut)⟩

/-- Whether a division is greedy depends on the cuts alone. -/
theorem Greedy.of_sameCuts (same : SameCuts length boundaries others) (greedy : Greedy length target boundaries ranges) :
    Greedy length target others ranges := by
  obtain ⟨starts, single, full⟩ := greedy
  refine ⟨fun r member => (starts r member).imp_right (same r.1).mp, ?_, ?_⟩
  · exact fun r member large => (single r member large).of_sameCuts same
  · exact full.imp fun r s ⟨q, ends, exceeds⟩ => ⟨q, ends.of_sameCuts same, exceeds⟩

/-! ## Drafts -/

theorem divides_drafts (target : ℕ) (boundaries : List Boundary) (text : 0 < length) :
    Divides length target boundaries 0 ((drafts length target boundaries).map Draft.range) := by
  obtain ⟨contiguous, proper⟩ := contiguous_drafts length target boundaries text
  exact (greedy_drafts length target boundaries).divides (contiguous_map.mpr contiguous) (List.forall_mem_map.mpr proper)

theorem map_range_drafts (text : 0 < length) (same : SameCuts length boundaries others) :
    (drafts length target boundaries).map Draft.range = (drafts length target others).map Draft.range := by
  have greedy := (greedy_drafts length target boundaries).of_sameCuts same
  have division := divides_drafts target boundaries text
  refine greedy.eq_of_divides ?_ (greedy_drafts length target others) (divides_drafts target others text)
  exact greedy.divides division.contiguous division.proper

/-! ## Chunks -/

namespace Chunk

variable {content : Text} {target : TargetSize} {chunks : List Chunk}

/-- Where a chunk is and what it is called. -/
def place (c : Chunk) : ℕ × ℕ × Text := (c.start, c.stop, c.label)

theorem label_ofDraft {index : ℕ} {d : Draft} {c : Chunk} (made : ofDraft content index d = .ok c) :
    c.label = Label.ofNat index := by
  obtain ⟨_, _, is⟩ := Fault.bind_ok.mp made
  cases is
  rfl

/-- Chunks are labelled in order. -/
theorem map_place_ofDrafts {index : ℕ} {drafts : List Draft} (made : ofDrafts content index drafts = .ok chunks) :
    chunks.map place = ((drafts.map Draft.range).zipIdx index).map fun (r, i) => (r.1, r.2, Label.ofNat i) := by
  induction drafts generalizing index chunks with
  | nil => cases made; rfl
  | cons d rest ih =>
    obtain ⟨c, first, others⟩ := Fault.bind_ok.mp made
    obtain ⟨tail, more, last⟩ := Fault.bind_ok.mp others
    cases last
    have range : (c.start, c.stop) = (d.start, d.stop) := range_ofDraft first
    obtain ⟨start, stop⟩ := Prod.mk.inj range
    rw [List.map_cons, ih more, place, label_ofDraft first, start, stop]
    rfl

/-- Packing is not refused for any importances: there is nothing to pack, or the importances of the files of each draft
    are in range on average. -/
def Packable (content : Text) (target : TargetSize) (boundaries : List Boundary) : Prop :=
  content = [] ∨ ∀ d ∈ drafts content.length target.value boundaries, d.Averageable

theorem packable_of_importance_lt (each : ∀ b ∈ boundaries, b.importance < Binary.limit) :
    Packable content target boundaries := by
  rcases eq_or_ne content [] with none | nonempty
  · exact Or.inl none
  · exact Or.inr (averageable_drafts (List.length_pos_iff.mpr nonempty) each)

theorem exists_semantic_iff (small : target.value < 2 ^ 1000) :
    (∃ chunks, semantic content boundaries target = .ok chunks) ↔ Packable content target boundaries := by
  rcases eq_or_ne content [] with rfl | nonempty
  · exact iff_of_true ⟨[], rfl⟩ (Or.inl rfl)
  · rw [semantic_total_iff nonempty small (by norm_num), Packable, or_iff_right nonempty]

theorem semantic_of_not_packable (small : target.value < 2 ^ 1000) (refused : ¬ Packable content target boundaries) :
    semantic content boundaries target = .error .quotientRange := by
  cases made : semantic content boundaries target with
  | ok chunks => exact absurd ((exists_semantic_iff small).mp ⟨chunks, made⟩) refused
  | error fault => rw [semantic_error (fun none => refused (Or.inl none)) small (by norm_num) made]

end Chunk

/-- Boundaries that cut a text in the same places give chunks with the same ranges and labels, as many for the one list
    as for the other. Each of the two gives chunks exactly when its importances are in range on average, and is refused
    otherwise. -/
theorem places_of_sameCuts (content : Text) (boundaries others : List Boundary) (target : TargetSize)
    (small : target.value < 2 ^ 1000)
    (same : ∀ p, IsCut content.length boundaries p ↔ IsCut content.length others p) :
    (∀ given ∈ [boundaries, others],
      ((∃ chunks, Chunk.semantic content given target = .ok chunks) ↔ Chunk.Packable content target given) ∧
      (¬ Chunk.Packable content target given → Chunk.semantic content given target = .error .quotientRange) ∧
      ((∀ b ∈ given, b.importance < Binary.limit) → Chunk.Packable content target given)) ∧
    ∀ chunks chunks', Chunk.semantic content boundaries target = .ok chunks →
      Chunk.semantic content others target = .ok chunks' → chunks.map Chunk.place = chunks'.map Chunk.place := by
  refine ⟨fun given _ => ⟨Chunk.exists_semantic_iff small, Chunk.semantic_of_not_packable small,
    Chunk.packable_of_importance_lt⟩, fun chunks chunks' made made' => ?_⟩
  rcases eq_or_ne content [] with rfl | nonempty
  · cases made
    cases made'
    rfl
  · rw [Chunk.map_place_ofDrafts (Chunk.semantic_ok nonempty made),
      Chunk.map_place_ofDrafts (Chunk.semantic_ok nonempty made'),
      map_range_drafts (List.length_pos_iff.mpr nonempty) same]

/-- Order, kinds, repeated boundaries and those at the ends make no difference. -/
theorem places_of_sameCuts_shuffled :
    ∃ chunks chunks',
      Chunk.semantic "abcdefgh".toList
        [⟨.classStart, 6, ['f'], 8, none⟩, ⟨.fileStart, 1, ['f'], 10, none⟩] ⟨4, by decide⟩ = .ok chunks ∧
      Chunk.semantic "abcdefgh".toList
        [⟨.fileStart, 1, ['g'], 7, none⟩, ⟨.fileEnd, 8, ['g'], 10, none⟩, ⟨.fileEnd, 6, ['g'], 9, none⟩,
          ⟨.functionStart, 6, ['h'], 9, some ['n']⟩, ⟨.fileStart, -3, ['h'], 10, none⟩] ⟨4, by decide⟩ = .ok chunks' ∧
      chunks.map Chunk.place = chunks'.map Chunk.place := by
  have ten : 10 < Binary.limit := Binary.lt_limit (by decide : 10 < 2 ^ 4) (by decide)
  obtain ⟨packing, same⟩ := places_of_sameCuts "abcdefgh".toList
    [⟨.classStart, 6, ['f'], 8, none⟩, ⟨.fileStart, 1, ['f'], 10, none⟩]
    [⟨.fileStart, 1, ['g'], 7, none⟩, ⟨.fileEnd, 8, ['g'], 10, none⟩, ⟨.fileEnd, 6, ['g'], 9, none⟩,
      ⟨.functionStart, 6, ['h'], 9, some ['n']⟩, ⟨.fileStart, -3, ['h'], 10, none⟩]
    ⟨4, by decide⟩ (Binary.lt_two_pow (by decide)) (fun p => by simp [IsCut]; omega)
  simp only [List.forall_mem_cons] at packing
  obtain ⟨⟨succeeds, -, moderate⟩, ⟨succeeds', -, moderate'⟩, -⟩ := packing
  obtain ⟨chunks, made⟩ := succeeds.mpr (moderate (by simp; omega))
  obtain ⟨chunks', made'⟩ := succeeds'.mpr (moderate' (by simp; omega))
  exact ⟨chunks, chunks', made, made', same chunks chunks' made made'⟩

/-- An importance at the limit is refused where a smaller one at the same cut gives chunks. -/
theorem sameCuts_refused_at_limit :
    (∀ p, IsCut 2 [⟨.fileStart, 1, ['f'], 10, none⟩] p ↔ IsCut 2 [⟨.fileStart, 1, ['f'], Binary.limit, none⟩] p) ∧
      (∃ chunks, Chunk.semantic ['a', 'b'] [⟨.fileStart, 1, ['f'], 10, none⟩] ⟨1, by decide⟩ = .ok chunks) ∧
      Chunk.semantic ['a', 'b'] [⟨.fileStart, 1, ['f'], Binary.limit, none⟩] ⟨1, by decide⟩ = .error .quotientRange := by
  have one : (⟨1, by decide⟩ : TargetSize).value < 2 ^ 1000 := Binary.lt_two_pow (by decide)
  have ten : 10 < Binary.limit := Binary.lt_limit (by decide : 10 < 2 ^ 4) (by decide)
  refine ⟨fun p => by simp [IsCut], (Chunk.exists_semantic_iff one).mpr ?_, Chunk.semantic_of_not_packable one ?_⟩
  · exact Chunk.packable_of_importance_lt (by simpa using ten)
  · rintro (none | averageable)
    · cases none
    · have below := averageable ⟨1, 2, [⟨.fileStart, 1, ['f'], Binary.limit, none⟩]⟩
        (by simp [drafts, Segment.ofBoundaries, Segment.sortBoundaries, Segment.fromBoundaries, Segment.clamp,
          Packing.add, Packing.empty, Packing.finish])
        (by simp [FileShare.ofBoundaries, Keyed.update])
      simp [FileShare.ofBoundaries, Keyed.update, FileShare.add, FileShare.empty, sumOf] at below

end Chunkwise
