import Chunkwise.Chunk.Semantic
import Chunkwise.Proofs.Chunk.Tiling

/-!
# Packing loses nothing

Whatever boundaries are given, the segments between them follow each other through the whole text, and packing
divides the text into drafts that follow each other through it, none of them empty. The boundaries of the drafts
are the given ones in the order of their positions.
-/

namespace Chunkwise

/-! ## Segments -/

namespace Segment

theorem clamp_le (length : Nat) (position : Int) : clamp length position ≤ length := Nat.min_le_left ..

/-- A position within the text stays what it is. -/
theorem clamp_eq_of_mem {length : ℕ} {p : ℤ} (nonneg : 0 ≤ p) (inside : p ≤ length) : (clamp length p : ℤ) = p := by
  unfold clamp
  omega

theorem clamp_mono (length : Nat) {p q : Int} (le : p ≤ q) : clamp length p ≤ clamp length q := by
  unfold clamp
  omega

theorem pairwise_sortBoundaries (boundaries : List Boundary) :
    (sortBoundaries boundaries).Pairwise fun a b => a.position ≤ b.position :=
  List.pairwise_mergeSort' (fun a b : Boundary => a.position ≤ b.position) boundaries

theorem contiguous_fromBoundaries (length : Nat) {first : Boundary} {rest : List Boundary}
    (sorted : (first :: rest).Pairwise fun a b => a.position ≤ b.position) :
    Contiguous Segment.start Segment.stop (clamp length first.position) length
      (fromBoundaries length (first :: rest)) := by
  induction rest generalizing first with
  | nil => exact ⟨rfl, clamp_le .., rfl⟩
  | cons next more ih =>
    obtain ⟨below, later⟩ := List.pairwise_cons.mp sorted
    exact ⟨rfl, clamp_mono length (below next List.mem_cons_self), ih later⟩

/-- The segments go through the whole text. -/
theorem contiguous_ofBoundaries (length : Nat) (boundaries : List Boundary) :
    Contiguous Segment.start Segment.stop 0 length (ofBoundaries length boundaries) := by
  have sorted := pairwise_sortBoundaries boundaries
  unfold ofBoundaries
  cases order : sortBoundaries boundaries with
  | nil => exact ⟨rfl, Nat.zero_le _, rfl⟩
  | cons first rest =>
    rw [order] at sorted
    have after := contiguous_fromBoundaries length sorted
    by_cases lead : 0 < clamp length first.position
    · simp only [lead, ↓reduceIte]
      exact ⟨rfl, Nat.zero_le _, after⟩
    · simp only [lead, ↓reduceIte, List.nil_append]
      rwa [show clamp length first.position = 0 by omega] at after

theorem boundaries_fromBoundaries (length : Nat) (boundaries : List Boundary) :
    (fromBoundaries length boundaries).flatMap (·.boundary.toList) = boundaries := by
  fun_induction fromBoundaries length boundaries with
  | case1 => rfl
  | case2 b => rfl
  | case3 b next rest ih => rw [List.flatMap_cons, ih]; rfl

/-- Each boundary begins one segment. -/
theorem boundaries_ofBoundaries (length : Nat) (boundaries : List Boundary) :
    (ofBoundaries length boundaries).flatMap (·.boundary.toList) = sortBoundaries boundaries := by
  unfold ofBoundaries
  cases sortBoundaries boundaries with
  | nil => rfl
  | cons first rest =>
    rw [List.flatMap_append, boundaries_fromBoundaries]
    split <;> rfl

end Segment

/-! ## Packing -/

namespace Packing

variable {target : Nat} {p : Packing} {position : Nat}

/-- The closed drafts and the current one. -/
def begun (p : Packing) : List Draft := p.closed ++ p.current.toList

/-- Packing has got as far as `position`: the drafts begun so far follow each other from zero to there, and none is
    empty. Nothing is closed before something is begun. -/
structure Reaches (position : Nat) (p : Packing) : Prop where
  contiguous : Contiguous Draft.start Draft.stop 0 position p.begun
  proper : ∀ d ∈ p.begun, d.start < d.stop
  closedAfter : p.current = none → p.closed = []

theorem reaches_empty : Reaches 0 empty := ⟨rfl, by simp [begun, empty], fun _ => rfl⟩

/-- What one more segment does. An empty one only leaves its boundary behind. One with text begins a new draft, when
    there is none that it would fit into, or goes into the last draft; the boundaries left behind go with it. -/
theorem add_cases (target : Nat) (closedAfter : p.current = none → p.closed = []) (s : Segment) :
    (s.stop ≤ s.start ∧ p.add target s = { p with pending := p.pending ++ s.boundary.toList }) ∨
      s.start < s.stop ∧ (p.add target s).current ≠ none ∧ (p.add target s).pending = [] ∧
        ((∀ d ∈ p.begun.getLast?, target < (d.stop - d.start) + (s.stop - s.start)) ∧
            (p.add target s).begun = p.begun ++ [⟨s.start, s.stop, p.pending ++ s.boundary.toList⟩] ∨
          ∃ before d, p.begun = before ++ [d] ∧ (d.stop - d.start) + (s.stop - s.start) ≤ target ∧
            (p.add target s).begun =
              before ++ [⟨d.start, s.stop, d.boundaries ++ (p.pending ++ s.boundary.toList)⟩]) := by
  unfold Packing.add
  by_cases blank : s.stop ≤ s.start
  · exact Or.inl ⟨blank, by simp only [blank, ↓reduceIte]⟩
  refine Or.inr ⟨Nat.lt_of_not_le blank, ?_⟩
  simp only [blank, ↓reduceIte]
  cases current : p.current with
  | none =>
    have none : p.begun = [] := by simp [begun, current, closedAfter current]
    exact ⟨by simp, rfl, Or.inl ⟨by simp [none], by simp [begun, current]⟩⟩
  | some d =>
    have here : p.begun = p.closed ++ [d] := by simp [begun, current]
    by_cases exceeds : target < (d.stop - d.start) + (s.stop - s.start)
    · simp only [exceeds, ↓reduceIte]
      exact ⟨by simp, trivial, Or.inl ⟨by simpa [here] using exceeds, by simp [begun, current]⟩⟩
    · simp only [exceeds, ↓reduceIte]
      exact ⟨by simp, trivial, Or.inr ⟨p.closed, d, here, Nat.le_of_not_lt exceeds, by simp [begun]⟩⟩

/-- One more segment takes packing from the beginning of the segment to its end. -/
theorem Reaches.add {s : Segment} (reached : Reaches s.start p) (ordered : s.start ≤ s.stop) :
    Reaches s.stop (p.add target s) := by
  obtain ⟨contiguous, proper, closedAfter⟩ := reached
  rcases add_cases target closedAfter s with ⟨blank, is⟩ | ⟨text, opened, _, ⟨_, is⟩ | ⟨before, d, here, _, is⟩⟩
  · rw [is, le_antisymm blank ordered]
    exact ⟨contiguous, proper, closedAfter⟩
  · refine ⟨?_, ?_, fun none => absurd none opened⟩
    · rw [is]
      exact contiguous_concat.mpr ⟨contiguous, ordered, rfl⟩
    · rw [is]
      exact List.forall_mem_append.mpr ⟨proper, List.forall_mem_singleton.mpr text⟩
  · rw [here] at contiguous proper
    obtain ⟨earlier, _, dStop⟩ := contiguous_concat.mp contiguous
    obtain ⟨properBefore, dText⟩ := List.forall_mem_append.mp proper
    have last : d.start < s.stop := by
      have := dText d List.mem_cons_self
      omega
    refine ⟨?_, ?_, fun none => absurd none opened⟩
    · rw [is]
      exact contiguous_concat.mpr ⟨earlier, last.le, rfl⟩
    · rw [is]
      exact List.forall_mem_append.mpr ⟨properBefore, List.forall_mem_singleton.mpr last⟩

/-- Segments that follow each other take packing from where they begin to where they end. -/
theorem Reaches.foldl {a b : Nat} {segments : List Segment} (reached : Reaches a p)
    (chain : Contiguous Segment.start Segment.stop a b segments) :
    Reaches b (segments.foldl (Packing.add target) p) := by
  induction segments generalizing a p with
  | nil => obtain rfl : a = b := chain; exact reached
  | cons s rest ih =>
    obtain ⟨rfl, ordered, after⟩ := chain
    exact ih (reached.add ordered) after

/-- The boundaries of the segments packed so far. -/
def boundaries (p : Packing) : List Boundary := p.begun.flatMap (·.boundaries) ++ p.pending

theorem boundaries_add (target : Nat) (p : Packing) (s : Segment) :
    (p.add target s).boundaries = p.boundaries ++ s.boundary.toList := by
  unfold Packing.add
  by_cases blank : s.stop ≤ s.start
  · simp [blank, boundaries, begun]
  · simp only [blank, ↓reduceIte]
    cases current : p.current with
    | none => simp [boundaries, begun, current]
    | some d =>
      by_cases full : target < (d.stop - d.start) + (s.stop - s.start) <;> simp [boundaries, begun, current, full]

theorem boundaries_foldl (target : Nat) (segments : List Segment) (p : Packing) :
    (segments.foldl (Packing.add target) p).boundaries =
      p.boundaries ++ segments.flatMap (·.boundary.toList) := by
  induction segments generalizing p with
  | nil => simp
  | cons s rest ih => rw [List.foldl_cons, ih, boundaries_add, List.flatMap_cons, List.append_assoc]

/-- In the end the drafts go as far as packing got. -/
theorem Reaches.finish (reached : Reaches position p) :
    Contiguous Draft.start Draft.stop 0 position p.finish ∧ ∀ d ∈ p.finish, d.start < d.stop := by
  obtain ⟨contiguous, proper, _⟩ := reached
  unfold Packing.finish
  cases current : p.current with
  | none =>
    simp only [begun, current, Option.toList_none, List.append_nil] at contiguous proper
    exact ⟨contiguous, proper⟩
  | some d =>
    simp only [begun, current, Option.toList_some] at contiguous proper
    obtain ⟨before, dProper, dStop⟩ := contiguous_concat.mp contiguous
    refine ⟨contiguous_concat.mpr ⟨before, dProper, dStop⟩, ?_⟩
    intro e member
    rcases List.mem_append.mp member with earlier | last
    · exact proper e (by simp [earlier])
    · obtain rfl : e = _ := by simpa using last
      exact proper d (by simp)

/-- The drafts have the boundaries of all segments, once there is text. -/
theorem Reaches.boundaries_finish (reached : Reaches position p) (text : 0 < position) :
    p.finish.flatMap (·.boundaries) = p.boundaries := by
  obtain ⟨contiguous, _, closedAfter⟩ := reached
  unfold Packing.finish
  cases current : p.current with
  | none =>
    simp only [begun, current, closedAfter current, Option.toList_none, List.append_nil] at contiguous
    exact absurd (show 0 = position from contiguous) text.ne
  | some d => simp [boundaries, begun, current]

end Packing

/-! ## Drafts -/

section Drafts

variable (length target : Nat) (boundaries : List Boundary)

private theorem reaches_ofBoundaries :
    ((Segment.ofBoundaries length boundaries).foldl (Packing.add target) Packing.empty).Reaches length :=
  Packing.reaches_empty.foldl (Segment.contiguous_ofBoundaries length boundaries)

/-- The drafts follow each other through a text that is not empty, and none of them is empty. -/
theorem contiguous_drafts (text : 0 < length) :
    Contiguous Draft.start Draft.stop 0 length (drafts length target boundaries) ∧
      ∀ d ∈ drafts length target boundaries, d.start < d.stop := by
  unfold drafts
  by_cases whole : length ≤ target
  · simp only [whole, ↓reduceIte]
    exact ⟨⟨rfl, Nat.zero_le _, rfl⟩, by simpa using text⟩
  · simp only [whole, ↓reduceIte]
    exact (reaches_ofBoundaries length target boundaries).finish

/-- The drafts have all boundaries: in the order given when there is a single draft for the whole text, and
    otherwise by position. -/
theorem boundaries_drafts (text : 0 < length) :
    (drafts length target boundaries).flatMap (·.boundaries) =
      if length ≤ target then boundaries else Segment.sortBoundaries boundaries := by
  unfold drafts
  by_cases whole : length ≤ target
  · simp [whole]
  · simp only [whole, ↓reduceIte]
    rw [(reaches_ofBoundaries length target boundaries).boundaries_finish text, Packing.boundaries_foldl,
      Segment.boundaries_ofBoundaries]
    simp [Packing.boundaries, Packing.begun, Packing.empty]

/-- A draft has no other boundaries than the given ones. -/
theorem mem_of_mem_drafts (text : 0 < length) {d : Draft} (inDrafts : d ∈ drafts length target boundaries)
    {b : Boundary} (inDraft : b ∈ d.boundaries) : b ∈ boundaries := by
  have all : b ∈ (drafts length target boundaries).flatMap (·.boundaries) := List.mem_flatMap.mpr ⟨d, inDrafts, inDraft⟩
  rw [boundaries_drafts length target boundaries text] at all
  split at all
  · exact all
  · exact (List.mergeSort_perm ..).mem_iff.mp all

end Drafts

end Chunkwise
