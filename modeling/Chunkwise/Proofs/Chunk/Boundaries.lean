import Chunkwise.Proofs.Chunk.Greedy

/-!
# Where boundaries go

Packing takes the boundaries segment by segment and keeps those of empty segments for the next one with text. Still
every draft gets the boundaries in its range and no others, in the order of their positions; those at the end of the
text, after which no segment comes, go to the last draft. So none is lost and none is taken twice.
-/

namespace Chunkwise

/-! ## Boundaries in packing -/

theorem Segment.start_of_boundary {length : ℕ} {boundaries : List Boundary} :
    ∀ s ∈ ofBoundaries length boundaries, ∀ b ∈ s.boundary, clamp length b.position = s.start := by
  have inner := ends_fromBoundaries length (sortBoundaries boundaries)
  unfold ofBoundaries
  intro s member b begins
  cases order : sortBoundaries boundaries with
  | nil =>
    simp only [order, List.mem_singleton] at member
    simp [member] at begins
  | cons first rest =>
    simp only [order] at member inner
    rcases List.mem_append.mp member with lead | later
    · split at lead
      · obtain rfl : s = _ := by simpa using lead
        simp at begins
      · simp at lead
    · obtain ⟨⟨c, _, is, start⟩, -⟩ := inner s later
      obtain rfl : c = b := by simpa [is] using begins
      exact start.symm

namespace Packing

variable {length target position : ℕ} {p : Packing}

/-- Packing has got as far as `position`: the boundaries of a draft lie in its range, and those that are kept for the
    next segment lie where it begins. -/
structure Places (length position : ℕ) (p : Packing) : Prop where
  within : ∀ d ∈ p.begun, ∀ b ∈ d.boundaries,
    d.start ≤ Segment.clamp length b.position ∧ Segment.clamp length b.position < d.stop
  waiting : ∀ b ∈ p.pending, Segment.clamp length b.position = position

theorem places_add {s : Segment} (reached : p.Reaches s.start) (ordered : s.start ≤ s.stop)
    (begins : ∀ b ∈ s.boundary, Segment.clamp length b.position = s.start) (places : Places length s.start p) :
    Places length s.stop (p.add target s) := by
  obtain ⟨within, waiting⟩ := places
  have left : ∀ b ∈ p.pending ++ s.boundary.toList, Segment.clamp length b.position = s.start := by
    intro b member
    rcases List.mem_append.mp member with before | here
    · exact waiting b before
    · exact begins b (Option.mem_toList.mp here)
  rcases add_cases target reached.closedAfter s with
    ⟨blank, is⟩ | ⟨text, _, nothing, ⟨_, is⟩ | ⟨before, d, here, _, is⟩⟩
  · rw [is, le_antisymm blank ordered]
    exact ⟨within, left⟩
  · refine ⟨?_, by simp [nothing]⟩
    rw [is]
    refine List.forall_mem_append.mpr ⟨within, List.forall_mem_singleton.mpr fun b member => ?_⟩
    rw [left b member]
    exact ⟨le_refl _, text⟩
  · refine ⟨?_, by simp [nothing]⟩
    rw [here] at within
    obtain ⟨earlier, last⟩ := List.forall_mem_append.mp within
    obtain ⟨-, proper, stops⟩ := contiguous_concat.mp (here ▸ reached.contiguous)
    rw [is]
    refine List.forall_mem_append.mpr ⟨earlier, List.forall_mem_singleton.mpr ?_⟩
    refine List.forall_mem_append.mpr ⟨fun b member => ?_, fun b member => ?_⟩
    · have := last d List.mem_cons_self b member
      dsimp only
      omega
    · rw [left b member]
      dsimp only
      omega

theorem places_foldl {a b : ℕ} {segments : List Segment} (reached : p.Reaches a)
    (chain : Contiguous Segment.start Segment.stop a b segments)
    (begins : ∀ s ∈ segments, ∀ b ∈ s.boundary, Segment.clamp length b.position = s.start)
    (places : Places length a p) : Places length b (segments.foldl (Packing.add target) p) := by
  induction segments generalizing a p with
  | nil => obtain rfl : a = b := chain; exact places
  | cons s rest ih =>
    obtain ⟨rfl, ordered, after⟩ := chain
    obtain ⟨here, later⟩ := List.forall_mem_cons.mp begins
    exact ih (reached.add ordered) after later (places_add reached ordered here places)

/-- In the end the boundaries that were kept go to the last draft. -/
theorem Places.finish (reached : p.Reaches position) (places : Places length position p) :
    ∀ d ∈ p.finish, ∀ b ∈ d.boundaries,
      (d.start ≤ Segment.clamp length b.position ∧ Segment.clamp length b.position < d.stop) ∨
        (Segment.clamp length b.position = position ∧ d.stop = position) := by
  obtain ⟨within, waiting⟩ := places
  have contiguous := reached.contiguous
  unfold Packing.finish
  cases current : p.current with
  | none => exact fun d member b inDraft => Or.inl (within d (by simp [begun, member]) b inDraft)
  | some last =>
    simp only [begun, current, Option.toList_some] at contiguous
    obtain ⟨-, -, stops⟩ := contiguous_concat.mp contiguous
    intro d member b inDraft
    rcases List.mem_append.mp member with closed | here
    · exact Or.inl (within d (by simp [begun, closed]) b inDraft)
    · obtain rfl := List.mem_singleton.mp here
      rcases List.mem_append.mp inDraft with own | left
      · exact Or.inl (within last (by simp [begun, current]) b own)
      · exact Or.inr ⟨waiting b left, stops⟩

end Packing

/-! ## The order of boundaries -/

/-- A list has the boundaries of another one in the order of their positions, those of one position in the order that
    they had. -/
structure Sorts (boundaries sorted : List Boundary) : Prop where
  perm : sorted.Perm boundaries
  ordered : sorted.Pairwise fun a b => a.position ≤ b.position
  stable : ∀ p, sorted.filter (·.position = p) = boundaries.filter (·.position = p)

theorem sorts_sortBoundaries (boundaries : List Boundary) : Sorts boundaries (Segment.sortBoundaries boundaries) := by
  have perm : (Segment.sortBoundaries boundaries).Perm boundaries := List.mergeSort_perm ..
  refine ⟨perm, Segment.pairwise_sortBoundaries boundaries, fun p => ?_⟩
  have kept : (boundaries.filter (·.position = p)).Sublist (Segment.sortBoundaries boundaries) := by
    refine List.sublist_mergeSort ?_ ?_ ?_ List.filter_sublist
    · simpa using fun a b c : Boundary => le_trans (a := a.position) (b := b.position) (c := c.position)
    · simpa using fun a b : Boundary => le_total a.position b.position
    · refine List.pairwise_of_forall_mem_list fun a inFirst b inFirst' => ?_
      have here := (List.mem_filter.mp inFirst).2
      have here' := (List.mem_filter.mp inFirst').2
      simp only [decide_eq_true_eq] at here here' ⊢
      omega
  have again := kept.filter (·.position = p)
  simp only [List.filter_filter, Bool.and_self] at again
  exact (again.eq_of_length (perm.filter _).length_eq.symm).symm

/-! ## Ranges that take boundaries -/

/-- A range of a text takes the boundaries that lie in it, and the last range those at the end of the text too. -/
def Takes (length : ℕ) (r : ℕ × ℕ) (b : Boundary) : Prop :=
  (r.1 ≤ Segment.clamp length b.position ∧ Segment.clamp length b.position < r.2) ∨
    (Segment.clamp length b.position = length ∧ r.2 = length)

instance (length : ℕ) (r : ℕ × ℕ) (b : Boundary) : Decidable (Takes length r b) := inferInstanceAs (Decidable (_ ∨ _))

/-- When the items of a list are found by tests that exclude each other, each test finds its own items again. -/
theorem filter_flatMap_eq {α β : Type} {test : α → β → Prop} [∀ x b, Decidable (test x b)] {f : α → List β}
    {items : List α} (apart : items.Pairwise fun x y => ∀ b, test x b → ¬ test y b)
    (passed : ∀ x ∈ items, ∀ b ∈ f x, test x b) {x : α} (member : x ∈ items) :
    (items.flatMap f).filter (test x ·) = f x := by
  induction items with
  | nil => cases member
  | cons y rest ih =>
    obtain ⟨here, later⟩ := List.forall_mem_cons.mp passed
    obtain ⟨others, apart⟩ := List.pairwise_cons.mp apart
    rw [List.flatMap_cons, List.filter_append]
    rcases List.mem_cons.mp member with rfl | inRest
    · have own : (f x).filter (test x ·) = f x := List.filter_eq_self.mpr fun b inHead => by simpa using here b inHead
      have none : (rest.flatMap f).filter (test x ·) = [] := by
        refine List.filter_eq_nil_iff.mpr fun b inOthers => ?_
        obtain ⟨z, inRest, inItem⟩ := List.mem_flatMap.mp inOthers
        simpa using fun first => others z inRest b first (later z inRest b inItem)
      rw [own, none, List.append_nil]
    · have none : (f y).filter (test x ·) = [] :=
        List.filter_eq_nil_iff.mpr fun b inHead => by simpa using others x inRest b (here b inHead)
      rw [none, List.nil_append, ih apart later inRest]

section Ranges

variable {α : Type} {length : ℕ} {range : α → ℕ × ℕ} {items : List α} {x y : α} {b : Boundary}
  (chain : Contiguous (fun x => (range x).1) (fun x => (range x).2) 0 length items)
  (proper : ∀ x ∈ items, (range x).1 < (range x).2)

include chain

/-- Ranges through a text that is not empty take every boundary. -/
theorem exists_takes (text : 0 < length) (b : Boundary) : ∃ x ∈ items, Takes length (range x) b := by
  have inside := Segment.clamp_le length b.position
  rcases inside.lt_or_eq with before | atEnd
  · obtain ⟨x, member, within⟩ := chain.exists_mem (Nat.zero_le _) before
    exact ⟨x, member, Or.inl within⟩
  · obtain ⟨x, member, -, beyond⟩ := chain.exists_mem (Nat.zero_le _) (Nat.sub_lt text one_pos)
    have bounded := (chain.bounds x member).2.2
    exact ⟨x, member, Or.inr ⟨atEnd, by omega⟩⟩

include proper

/-- Of two ranges that follow each other no more than one takes a boundary. -/
theorem takes_unique (inItems : x ∈ items) (inItems' : y ∈ items) (takes : Takes length (range x) b)
    (takes' : Takes length (range y) b) : x = y := by
  have bounded := (chain.bounds x inItems).2.2
  have bounded' := (chain.bounds y inItems').2.2
  have text := proper x inItems
  have text' := proper y inItems'
  unfold Takes at takes takes'
  rcases chain.disjoint inItems inItems' with same | before | after
  · exact same
  · omega
  · omega

/-- When each range has boundaries that it takes, it has all of those. -/
theorem filter_takes {boundaries : α → List Boundary}
    (takes : ∀ x ∈ items, ∀ b ∈ boundaries x, Takes length (range x) b) (member : x ∈ items) :
    (items.flatMap boundaries).filter (Takes length (range x) ·) = boundaries x := by
  refine filter_flatMap_eq ?_ takes member
  refine chain.pairwise.imp_of_mem fun {y z} inItems inItems' before b takesFirst takesSecond => ?_
  obtain rfl := takes_unique chain proper inItems inItems' takesFirst takesSecond
  have text := proper y inItems
  omega

end Ranges

/-! ## The boundaries of drafts -/

section Drafts

variable {length target : ℕ} {boundaries : List Boundary} {d : Draft} {b : Boundary}

theorem takes_of_mem_draft (inDrafts : d ∈ drafts length target boundaries) (inDraft : b ∈ d.boundaries) :
    Takes length d.range b := by
  unfold drafts at inDrafts
  by_cases whole : length ≤ target
  · simp only [whole, ↓reduceIte, List.mem_singleton] at inDrafts
    subst inDrafts
    exact (Segment.clamp_le length b.position).lt_or_eq.imp (⟨Nat.zero_le _, ·⟩) (⟨·, rfl⟩)
  · simp only [whole, ↓reduceIte] at inDrafts
    have chain := Segment.contiguous_ofBoundaries length boundaries
    refine Packing.Places.finish (Packing.reaches_empty.foldl chain) ?_ d inDrafts b inDraft
    exact Packing.places_foldl Packing.reaches_empty chain Segment.start_of_boundary
      ⟨by simp [Packing.begun, Packing.empty], by simp [Packing.empty]⟩

/-- A draft has the boundaries that its range takes. -/
theorem boundaries_draft (text : 0 < length) (inDrafts : d ∈ drafts length target boundaries) :
    d.boundaries = ((drafts length target boundaries).flatMap (·.boundaries)).filter (Takes length d.range ·) := by
  obtain ⟨chain, proper⟩ := contiguous_drafts length target boundaries text
  exact (filter_takes chain proper (fun _ member _ => takes_of_mem_draft member) inDrafts).symm

theorem mem_draft_iff (text : 0 < length) (inDrafts : d ∈ drafts length target boundaries) :
    b ∈ d.boundaries ↔ b ∈ boundaries ∧ Takes length d.range b := by
  have all : b ∈ (drafts length target boundaries).flatMap (·.boundaries) ↔ b ∈ boundaries := by
    rw [boundaries_drafts length target boundaries text]
    split
    · rfl
    · exact Segment.mem_sortBoundaries
  rw [boundaries_draft text inDrafts, List.mem_filter, all, decide_eq_true_eq]

end Drafts

end Chunkwise
