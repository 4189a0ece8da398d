import Chunkwise.Proofs.Chunk.Assembly

/-!
# Packing is greedy

Boundaries cut a text at their positions strictly within it, and what lies between two neighbouring cuts is never
divided. Chunks begin at cuts. A chunk that is longer than the target is a single such stretch, and no chunk is closed
as long as the next stretch would go into it.
-/

namespace Chunkwise

/-! ## Cuts -/

/-- Boundaries cut a text of `length` characters at their positions strictly within it. -/
def IsCut (length : ℕ) (boundaries : List Boundary) (p : ℕ) : Prop :=
  0 < p ∧ p < length ∧ ∃ b ∈ boundaries, b.position = p

/-- The stretch of text that begins at `p` ends at `q`: at the next cut, or else at the end of the text. -/
structure EndsAt (length : ℕ) (boundaries : List Boundary) (p q : ℕ) : Prop where
  lt : p < q
  stops : q = length ∨ IsCut length boundaries q
  uncut : ∀ r, IsCut length boundaries r → r ≤ p ∨ q ≤ r

namespace Segment

variable {length : ℕ} {boundaries : List Boundary}

theorem clamp_eq {p : ℤ} (positive : 0 < clamp length p) (inside : clamp length p < length) :
    p = clamp length p := by
  unfold clamp at *
  omega

/-- A segment begins at its boundary and ends at another one or at the end of the text. -/
theorem ends_fromBoundaries (length : ℕ) (boundaries : List Boundary) :
    ∀ s ∈ fromBoundaries length boundaries,
      (∃ b ∈ boundaries, s.boundary = some b ∧ s.start = clamp length b.position) ∧
        (s.stop = length ∨ ∃ b ∈ boundaries, s.stop = clamp length b.position) := by
  fun_induction fromBoundaries length boundaries with
  | case1 => simp
  | case2 b => simp
  | case3 b next rest ih =>
    refine List.forall_mem_cons.mpr ⟨⟨⟨b, by simp⟩, Or.inr ⟨next, by simp⟩⟩, fun s member => ?_⟩
    obtain ⟨⟨c, inRest, begins⟩, ends⟩ := ih s member
    refine ⟨⟨c, List.mem_cons_of_mem b inRest, begins⟩, ends.imp_right ?_⟩
    rintro ⟨d, inRest', stops⟩
    exact ⟨d, List.mem_cons_of_mem b inRest', stops⟩

/-- Each boundary begins a segment. -/
theorem exists_fromBoundaries (length : ℕ) {b : Boundary} (member : b ∈ boundaries) :
    ∃ s ∈ fromBoundaries length boundaries, s.start = clamp length b.position := by
  fun_induction fromBoundaries length boundaries with
  | case1 => simp at member
  | case2 c => simp_all
  | case3 c next rest ih =>
    rcases List.mem_cons.mp member with rfl | later
    · exact ⟨_, List.mem_cons_self, rfl⟩
    · obtain ⟨s, inRest, begins⟩ := ih later
      exact ⟨s, List.mem_cons_of_mem _ inRest, begins⟩

theorem mem_sortBoundaries {b : Boundary} : b ∈ sortBoundaries boundaries ↔ b ∈ boundaries :=
  (List.mergeSort_perm ..).mem_iff

/-- A segment begins at the beginning of the text or at its boundary, and ends at another one or at the end of the
    text. -/
theorem ends_ofBoundaries :
    ∀ s ∈ ofBoundaries length boundaries,
      (s.start = 0 ∨ ∃ b ∈ boundaries, s.start = clamp length b.position) ∧
        (s.stop = length ∨ ∃ b ∈ boundaries, s.stop = clamp length b.position) := by
  have inner := ends_fromBoundaries length (sortBoundaries boundaries)
  have sorted : ∀ b, b ∈ sortBoundaries boundaries ↔ b ∈ boundaries := fun _ => mem_sortBoundaries
  unfold ofBoundaries
  intro s member
  cases order : sortBoundaries boundaries with
  | nil => simp_all
  | cons first rest =>
    simp only [order] at member inner sorted
    rcases List.mem_append.mp member with lead | later
    · split at lead
      · obtain rfl : s = _ := by simpa using lead
        exact ⟨Or.inl rfl, Or.inr ⟨first, (sorted first).mp List.mem_cons_self, rfl⟩⟩
      · simp at lead
    · obtain ⟨⟨b, inSorted, _, begins⟩, ends⟩ := inner s later
      refine ⟨Or.inr ⟨b, (sorted b).mp inSorted, begins⟩, ends.imp_right ?_⟩
      rintro ⟨c, inSorted', stops⟩
      exact ⟨c, (sorted c).mp inSorted', stops⟩

theorem exists_ofBoundaries (length : ℕ) {b : Boundary} (member : b ∈ boundaries) :
    ∃ s ∈ ofBoundaries length boundaries, s.start = clamp length b.position := by
  have inSorted := mem_sortBoundaries.mpr member
  unfold ofBoundaries
  cases order : sortBoundaries boundaries with
  | nil => simp [order] at inSorted
  | cons first rest =>
    rw [order] at inSorted
    obtain ⟨s, inRest, begins⟩ := exists_fromBoundaries length inSorted
    exact ⟨s, List.mem_append_right _ inRest, begins⟩

theorem isCut_of_clamp {p : ℕ} {b : Boundary} (member : b ∈ boundaries) (is : p = clamp length b.position)
    (positive : 0 < p) (inside : p < length) : IsCut length boundaries p := by
  subst is
  exact ⟨positive, inside, b, member, clamp_eq positive inside⟩

/-- A segment with text is a stretch between neighbouring cuts. -/
theorem endsAt_of_mem {s : Segment} (member : s ∈ ofBoundaries length boundaries) (text : s.start < s.stop) :
    (s.start = 0 ∨ IsCut length boundaries s.start) ∧ EndsAt length boundaries s.start s.stop := by
  have chain := contiguous_ofBoundaries length boundaries
  obtain ⟨begins, ends⟩ := ends_ofBoundaries s member
  have inside := (chain.bounds s member).2.2
  refine ⟨?_, text, ?_, ?_⟩
  · rcases begins with zero | ⟨b, inBoundaries, is⟩
    · exact Or.inl zero
    · rcases Nat.eq_zero_or_pos s.start with zero | positive
      · exact Or.inl zero
      · exact Or.inr (isCut_of_clamp inBoundaries is positive (by omega))
  · rcases ends with last | ⟨b, inBoundaries, is⟩
    · exact Or.inl last
    · rcases inside.eq_or_lt with last | before
      · exact Or.inl last
      · exact Or.inr (isCut_of_clamp inBoundaries is (by omega) before)
  · -- The boundary of a cut within the segment would begin a segment there.
    rintro r ⟨_, within, b, inBoundaries, is⟩
    obtain ⟨other, inSegments, begins⟩ := exists_ofBoundaries length inBoundaries
    have here := clamp_eq_of_mem (Int.natCast_nonneg r) (Int.ofNat_le.mpr within.le)
    rw [← is, ← begins, is] at here
    have proper := (chain.bounds other inSegments).2.1
    rcases chain.disjoint member inSegments with rfl | before | after
    · exact Or.inl (by omega)
    · exact Or.inr (by omega)
    · exact Or.inl (by omega)

end Segment

/-! ## Greedy ranges -/

def Draft.range (d : Draft) : ℕ × ℕ := (d.start, d.stop)

def Chunk.range (c : Chunk) : ℕ × ℕ := (c.start, c.stop)

/-- Ranges begin at cuts, one that is longer than the target is a single stretch, and the first stretch of each range
    would make the one before longer than the target. -/
structure Greedy (length target : ℕ) (boundaries : List Boundary) (ranges : List (ℕ × ℕ)) : Prop where
  starts : ∀ r ∈ ranges, r.1 = 0 ∨ IsCut length boundaries r.1
  single : ∀ r ∈ ranges, target < r.2 - r.1 → EndsAt length boundaries r.1 r.2
  full : ranges.IsChain fun r s => ∃ q, EndsAt length boundaries s.1 q ∧ target < (r.2 - r.1) + (q - s.1)

namespace Packing

variable {length target : ℕ} {boundaries : List Boundary} {p : Packing}

def ranges (p : Packing) : List (ℕ × ℕ) := p.begun.map Draft.range

theorem ranges_finish (p : Packing) : p.finish.map Draft.range = p.ranges := by
  unfold Packing.finish
  cases current : p.current <;> simp [ranges, begun, current, Draft.range]

theorem greedy_add {s : Segment} (reached : p.Reaches s.start)
    (stretch : s.start < s.stop → (s.start = 0 ∨ IsCut length boundaries s.start) ∧
      EndsAt length boundaries s.start s.stop)
    (greedy : Greedy length target boundaries p.ranges) : Greedy length target boundaries (p.add target s).ranges := by
  rcases add_cases target reached.closedAfter s with
    ⟨_, is⟩ | ⟨text, _, _, ⟨exceeds, is⟩ | ⟨before, d, here, fits, is⟩⟩
  · rw [is]
    exact greedy
  · obtain ⟨begins, ends⟩ := stretch text
    obtain ⟨starts, single, full⟩ := greedy
    simp only [ranges, is, List.map_append, List.map_cons, List.map_nil]
    refine ⟨?_, ?_, ?_⟩
    · exact List.forall_mem_append.mpr ⟨starts, List.forall_mem_singleton.mpr begins⟩
    · exact List.forall_mem_append.mpr ⟨single, List.forall_mem_singleton.mpr fun _ => ends⟩
    · refine List.isChain_append.mpr ⟨full, .singleton _, ?_⟩
      intro r last t here
      rw [List.getLast?_map] at last
      obtain ⟨d, lastDraft, rfl⟩ := Option.map_eq_some_iff.mp last
      obtain rfl : (⟨s.start, s.stop, p.pending ++ s.boundary.toList⟩ : Draft).range = t := by simpa using here
      exact ⟨s.stop, ends, exceeds d lastDraft⟩
  · obtain ⟨starts, single, full⟩ := greedy
    simp only [ranges, here, List.map_append, List.map_cons, List.map_nil] at starts single full
    obtain ⟨earlier, -, follows⟩ := List.isChain_append.mp full
    obtain ⟨startsBefore, startsHere⟩ := List.forall_mem_append.mp starts
    obtain ⟨singleBefore, -⟩ := List.forall_mem_append.mp single
    obtain ⟨-, -, stops⟩ := contiguous_concat.mp (here ▸ reached.contiguous)
    simp only [ranges, is, List.map_append, List.map_cons, List.map_nil]
    refine ⟨?_, ?_, ?_⟩
    · exact List.forall_mem_append.mpr ⟨startsBefore, by simpa [Draft.range] using startsHere⟩
    · refine List.forall_mem_append.mpr ⟨singleBefore, List.forall_mem_singleton.mpr ?_⟩
      simp only [Draft.range]
      omega
    · exact List.isChain_append.mpr ⟨earlier, .singleton _, by simpa [Draft.range] using follows⟩

theorem greedy_foldl {a b : ℕ} {segments : List Segment} (reached : p.Reaches a)
    (chain : Contiguous Segment.start Segment.stop a b segments)
    (stretches : ∀ s ∈ segments, s.start < s.stop → (s.start = 0 ∨ IsCut length boundaries s.start) ∧
      EndsAt length boundaries s.start s.stop)
    (greedy : Greedy length target boundaries p.ranges) :
    Greedy length target boundaries (segments.foldl (Packing.add target) p).ranges := by
  induction segments generalizing a p with
  | nil => exact greedy
  | cons s rest ih =>
    obtain ⟨rfl, ordered, after⟩ := chain
    obtain ⟨here, later⟩ := List.forall_mem_cons.mp stretches
    exact ih (reached.add ordered) after later (greedy_add reached here greedy)

end Packing

theorem greedy_drafts (length target : ℕ) (boundaries : List Boundary) :
    Greedy length target boundaries ((drafts length target boundaries).map Draft.range) := by
  unfold drafts
  by_cases whole : length ≤ target
  · simp only [whole, ↓reduceIte, List.map_cons, List.map_nil, Draft.range]
    refine ⟨by simp, ?_, .singleton _⟩
    simp only [List.forall_mem_singleton]
    omega
  · simp only [whole, ↓reduceIte]
    rw [Packing.ranges_finish]
    exact Packing.greedy_foldl Packing.reaches_empty (Segment.contiguous_ofBoundaries length boundaries)
      (fun _ => Segment.endsAt_of_mem) ⟨by simp [Packing.ranges, Packing.begun, Packing.empty],
        by simp [Packing.ranges, Packing.begun, Packing.empty], .nil⟩

/-! ## Greedy chunks -/

namespace Chunk

variable {content : Text} {index start : ℕ} {drafts : List Draft} {chunks : List Chunk}

/-- What a chunk takes from its draft, chunks take from theirs. -/
theorem map_ofDrafts {β : Type} {f : Chunk → β} {g : Draft → β}
    (takes : ∀ index d c, ofDraft content index d = .ok c → f c = g d)
    (made : ofDrafts content index drafts = .ok chunks) : chunks.map f = drafts.map g := by
  induction drafts generalizing index chunks with
  | nil => cases made; rfl
  | cons d rest ih =>
    obtain ⟨c, first, others⟩ := Fault.bind_ok.mp made
    obtain ⟨tail, more, last⟩ := Fault.bind_ok.mp others
    cases last
    rw [List.map_cons, List.map_cons, takes index d c first, ih more]

theorem range_ofDraft {index : ℕ} {d : Draft} {c : Chunk} (made : ofDraft content index d = .ok c) :
    c.range = d.range := by
  have is := (ofDraft_ok made).2
  simp only [extent, Prod.mk.injEq] at is
  simp only [range, Draft.range, is]

variable {boundaries : List Boundary} {target : TargetSize}

theorem greedy_semantic (nonempty : content ≠ []) (made : semantic content boundaries target = .ok chunks) :
    Greedy content.length target.value boundaries (chunks.map range) := by
  rw [map_ofDrafts (fun _ _ _ => range_ofDraft) (semantic_ok nonempty made)]
  exact greedy_drafts content.length target.value boundaries

end Chunk

/-- Packing is greedy. It gives chunks whenever the importances of the files are in range, and then every chunk but
    the first begins at a cut, a chunk that is longer than the target is a single stretch between neighbouring cuts,
    and a chunk is only closed before a stretch that would make it longer than the target. -/
theorem packing_greedy {content : Text} (nonempty : content ≠ []) (boundaries : List Boundary) (target : TargetSize)
    (small : target.value < 2 ^ 1000) :
    ((∃ chunks, Chunk.semantic content boundaries target = .ok chunks) ↔
      ∀ d ∈ drafts content.length target.value boundaries, d.Averageable) ∧
    ∀ chunks, Chunk.semantic content boundaries target = .ok chunks →
      (∀ c ∈ chunks, c.start = 0 ∨ IsCut content.length boundaries c.start) ∧
      (∀ c ∈ chunks, target.value < c.size → EndsAt content.length boundaries c.start c.stop) ∧
      chunks.IsChain fun c d =>
        ∃ q, EndsAt content.length boundaries d.start q ∧ target.value < c.size + (q - d.start) := by
  refine ⟨Chunk.semantic_total_iff nonempty small (by norm_num), fun chunks made => ?_⟩
  have size := (Chunk.tiles_semantic made).size
  obtain ⟨starts, single, full⟩ := Chunk.greedy_semantic nonempty made
  rw [List.forall_mem_map] at starts single
  rw [List.isChain_map] at full
  refine ⟨starts, fun c member large => ?_, ?_⟩
  · rw [size c member] at large
    exact single c member large
  · refine full.imp_of_mem_imp fun c d inChunks _ next => ?_
    rwa [size c inChunks]

/-- Two cuts, with a stretch between them that is longer than the target. -/
theorem packing_greedy_two_cuts :
    ∃ chunks, Chunk.semantic "abcdefgh".toList
        [⟨.classStart, 6, ['f'], 8, none⟩, ⟨.fileStart, 1, ['f'], 10, none⟩] ⟨4, by decide⟩ = .ok chunks ∧
      ∀ c ∈ chunks, 4 < c.size → EndsAt 8 [⟨.classStart, 6, ['f'], 8, none⟩, ⟨.fileStart, 1, ['f'], 10, none⟩]
        c.start c.stop := by
  have nonempty : "abcdefgh".toList ≠ [] := by decide
  obtain ⟨succeeds, greedy⟩ := packing_greedy nonempty
    [⟨.classStart, 6, ['f'], 8, none⟩, ⟨.fileStart, 1, ['f'], 10, none⟩] ⟨4, by decide⟩ (Binary.lt_two_pow (by decide))
  have ten : 10 < Binary.limit := Binary.lt_limit (by decide : 10 < 2 ^ 4) (by decide)
  obtain ⟨chunks, made⟩ := succeeds.mpr (averageable_drafts (by decide) (by simp; omega))
  exact ⟨chunks, made, (greedy chunks made).2.1⟩

end Chunkwise
