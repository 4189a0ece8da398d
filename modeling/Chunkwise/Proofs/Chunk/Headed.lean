import Chunkwise.Proofs.Chunk.Sized

/-!
# Which chunks end before a header

Of the header markers in a window, cutting by size looks at the last one only. A chunk ends before the last header of
the window when no marker stands behind that header in the middle of a line; otherwise it goes on to the last line
feed in the window.
-/

namespace Chunkwise.Chunk

variable {content : Text} {start target p : ℕ}

/-! ## Headers in a window -/

/-- A header marker stands at `p`, behind `start`, all of it within the target size from there on. -/
structure MarkerIn (content : Text) (start target p : ℕ) : Prop where
  after : start < p
  inside : p + headerMarker.length ≤ start + target
  marked : headerMarker <+: content.drop p

/-- A header begins at `p`, in the second half of the target size from `start` on: the marker begins a line. -/
structure HeaderIn (content : Text) (start target p : ℕ) : Prop extends MarkerIn content start target p where
  lineStart : content.IsLineStart p
  half : target / 2 ≤ p - start

theorem markerIn_iff (after : start < p) :
    MarkerIn content start target p ↔ headerMarker <+: ((content.drop start).take target).drop (p - start) := by
  have long : 0 < headerMarker.length := by decide
  rw [List.drop_take, List.drop_drop, List.prefix_take_iff, Nat.add_sub_cancel' after.le]
  constructor
  · rintro ⟨-, inside, marked⟩
    exact ⟨marked, by omega⟩
  · rintro ⟨marked, inside⟩
    exact ⟨after, by omega, marked⟩

theorem MarkerIn.isLineStart_iff (marker : MarkerIn content start target p) :
    content.IsLineStart p ↔ ((content.drop start).take target)[p - start - 1]? = some '\n' := by
  obtain ⟨after, inside, -⟩ := marker
  rw [List.getElem?_take_of_lt (by omega), List.getElem?_drop, show start + (p - start - 1) = p - 1 by omega]
  exact or_iff_right (by omega)

/-- The window is cut before a header when no other marker comes later in it. -/
theorem headerBreak_iff (after : start < p) :
    HeaderBreak target ((content.drop start).take target) (p - start) ↔
      HeaderIn content start target p ∧ ∀ q, MarkerIn content start target q → q ≤ p := by
  constructor
  · rintro ⟨-, marked, last, lineStart, half⟩
    have marker := (markerIn_iff after).mpr marked
    refine ⟨⟨marker, marker.isLineStart_iff.mpr lineStart, half⟩, fun q other => ?_⟩
    have := last (q - start) ((markerIn_iff other.after).mp other)
    have := other.after
    omega
  · rintro ⟨⟨marker, lineStart, half⟩, last⟩
    refine ⟨by omega, (markerIn_iff after).mp marker, fun j other => ?_, marker.isLineStart_iff.mp lineStart, half⟩
    rcases Nat.eq_zero_or_pos j with rfl | positive
    · exact Nat.zero_le _
    · have := last (start + j) ((markerIn_iff (by omega)).mpr (by rwa [Nat.add_sub_cancel_left]))
      omega

/-- The rule of a marker ends with a line feed. -/
theorem MarkerIn.feed (marker : MarkerIn content start target p) :
    content[p + headerRule.length]? = some '\n' := by
  obtain ⟨rest, is⟩ := marker.marked
  rw [← List.getElem?_drop, ← is, List.getElem?_append_left (by decide)]
  decide

/-- There is a last header in a window that has any. -/
theorem exists_isGreatest_headerIn (header : HeaderIn content start target p) :
    ∃ last, IsGreatest {q | HeaderIn content start target q} last := by
  have bounded : BddAbove {q | HeaderIn content start target q} :=
    ⟨start + target, fun q other => (Nat.le_add_right ..).trans other.inside⟩
  exact bounded.exists_isGreatest_of_nonempty ⟨p, header⟩

/-! ## Where a chunk ends -/

/-- A window with a header in its second half is cut before the last such header, unless a marker stands behind it in
    the middle of a line; then it is cut behind its last line feed. -/
theorem BreaksAt.header_iff {n : ℕ} (breaks : BreaksAt target (content.drop start) n)
    (exceeds : start + target < content.length) (last : IsGreatest {q | HeaderIn content start target q} p) :
    (start + n = p ↔ ∀ q, MarkerIn content start target q → q ≤ p) ∧
      (start + n ≠ p → p < start + n ∧ n ≤ target ∧ content[start + n - 1]? = some '\n' ∧
        '\n' ∉ (content.drop (start + n)).take (target - n)) := by
  obtain ⟨header, greatest⟩ := last
  have feed := header.feed
  have after := header.after
  have inside := header.inside
  have rule : headerRule.length < headerMarker.length := by decide
  have longer : target < (content.drop start).length := by
    rw [List.length_drop]
    omega
  -- The line feed of the header's own rule rules out a break behind the window.
  have inWindow : (content.drop start)[p + headerRule.length - start]? = some '\n' := by
    rwa [List.getElem?_drop, Nat.add_sub_cancel' (by omega)]
  cases breaks with
  | whole fits => omega
  | header _ broken =>
    have positive := broken.pos
    rw [← Nat.add_sub_cancel_left start n] at broken
    obtain ⟨here, none⟩ := (headerBreak_iff (Nat.lt_add_of_pos_right positive)).mp broken
    obtain rfl : start + n = p := le_antisymm (greatest here) (none p header.toMarkerIn)
    exact ⟨iff_of_true rfl none, fun differs => absurd rfl differs⟩
  | @feed i _ unheaded within feed' none =>
    have behind : p < start + (i + 1) := by
      by_contra before
      refine none (List.mem_of_getElem? (i := p + headerRule.length - start - (i + 1)) ?_)
      rwa [List.getElem?_drop, Nat.add_sub_cancel' (by omega), List.getElem?_take_of_lt (by omega)]
    rw [List.drop_take, List.drop_drop] at none
    refine ⟨iff_of_false behind.ne' fun later => ?_, fun _ => ⟨behind, within, ?_, none⟩⟩
    · exact unheaded _ ((headerBreak_iff after).mpr ⟨header, later⟩)
    · rwa [List.getElem?_drop] at feed'
  | @overlong i beyond _ first =>
    refine absurd (List.mem_of_getElem? (i := p + headerRule.length - start) ?_) first
    rwa [List.getElem?_take_of_lt (by omega)]
  | unbroken _ plain => exact absurd (List.mem_of_getElem? inWindow) plain

/-- The first chunk ends where the first break falls. -/
theorem exists_first_sized (content : Text) (target : TargetSize) (nonempty : content ≠ []) :
    ∃ c ∈ sized content target, c.start = 0 ∧ c.stop = cutLength target.value content := by
  rw [sized, pieces, dif_neg nonempty]
  refine ⟨_, List.mem_cons_self, rfl, ?_⟩
  have within := (breaksAt_cutLength target.value content).le_length
  simp only [List.length_take, min_eq_left within, Nat.zero_add]

/-- Whenever there is a header in the second half of the window of a chunk that is not the last one, the chunk ends
    before the last such header if every marker behind it in the window begins a line too, and only then. Otherwise the
    chunk ends behind the last line feed of the window, which comes later. -/
theorem sized_header_iff (content : Text) (target : TargetSize) :
    ∀ c ∈ sized content target, c.start + target.value < content.length →
      (∃ p, HeaderIn content c.start target.value p) →
        ∃ p, IsGreatest {q | HeaderIn content c.start target.value q} p ∧
          (c.stop = p ↔ ∀ q, MarkerIn content c.start target.value q → p < q → content.IsLineStart q) ∧
          (c.stop ≠ p → p < c.stop ∧ c.stop ≤ c.start + target.value ∧ content[c.stop - 1]? = some '\n' ∧
            '\n' ∉ Text.slice content c.stop (c.start + target.value)) := by
  rintro c member exceeds ⟨_, some⟩
  obtain ⟨p, last⟩ := exists_isGreatest_headerIn some
  obtain ⟨header, greatest⟩ := last
  have tiles := tiles_sized content target
  have size := tiles.size c member
  have proper := tiles.lt c member
  have stops : c.start + c.size = c.stop := by omega
  obtain ⟨ends, further⟩ := (breaksAt_sized content target c member).header_iff exceeds ⟨header, greatest⟩
  rw [stops] at ends further
  refine ⟨p, ⟨header, greatest⟩, ends.trans ?_, fun differs => ?_⟩
  · -- A later marker that begins a line would be a later header.
    constructor
    · exact fun none q marker later => absurd (none q marker) later.not_ge
    · intro begins q marker
      by_contra later
      have half := header.half
      have after := header.after
      exact later (greatest ⟨marker, begins q marker (Nat.lt_of_not_le later), by omega⟩)
  · obtain ⟨behind, within, feed, none⟩ := further differs
    refine ⟨behind, by omega, feed, ?_⟩
    rwa [Text.slice, show c.start + target.value - c.stop = target.value - c.size by omega]

/-- A line of text and the beginning of a header, with the marker of another header quoted in the line behind it. -/
def quotedHeader : Text :=
  List.replicate 199 'a' ++ '\n' :: (headerMarker ++ '\n' :: ' ' :: (headerMarker ++ List.replicate 20 'x'))

theorem headerIn_quotedHeader {target : ℕ} (fits : 291 ≤ target) (half : target < 402) :
    HeaderIn quotedHeader 0 target 200 where
  after := by decide
  inside := by
    rw [show headerMarker.length = 91 by decide]
    omega
  marked := by decide +kernel
  lineStart := Or.inr (by decide +kernel)
  half := by omega

/-- A window that reaches over no marker but the header's own is cut there. -/
theorem sized_header_iff_unquoted :
    ∃ c ∈ sized quotedHeader ⟨291, by decide⟩, c.start + 291 < quotedHeader.length ∧
      (∃ p, HeaderIn quotedHeader c.start 291 p) ∧
      ∃ p, IsGreatest {q | HeaderIn quotedHeader c.start 291 q} p ∧ c.stop = p := by
  obtain ⟨c, member, start, -⟩ := exists_first_sized quotedHeader ⟨291, by decide⟩ (by decide)
  have exceeds : c.start + 291 < quotedHeader.length := by
    rw [start]
    decide +kernel
  have header : HeaderIn quotedHeader c.start 291 200 := start ▸ headerIn_quotedHeader (by decide) (by decide)
  obtain ⟨p, last, ends, -⟩ := sized_header_iff quotedHeader ⟨291, by decide⟩ c member exceeds ⟨200, header⟩
  refine ⟨c, member, exceeds, ⟨200, header⟩, p, last, ends.mpr fun q marker later => ?_⟩
  have inside : q + 91 ≤ c.start + 291 := marker.inside
  have := last.2 header
  omega

/-- Once the window reaches over the quoted marker, the chunk goes on behind the header's beginning. -/
theorem sized_header_quoted :
    ¬ ∀ c ∈ sized quotedHeader ⟨400, by decide⟩, c.start + 400 < quotedHeader.length →
      ∀ p, IsGreatest {q | HeaderIn quotedHeader c.start 400 q} p → c.stop = p := by
  intro always
  obtain ⟨c, member, start, stop⟩ := exists_first_sized quotedHeader ⟨400, by decide⟩ (by decide)
  have cut : cutLength 400 quotedHeader = 374 := by decide +kernel
  have exceeds : c.start + 400 < quotedHeader.length := by
    rw [start]
    decide +kernel
  have last : IsGreatest {q | HeaderIn quotedHeader c.start 400 q} 200 := by
    rw [start]
    refine ⟨headerIn_quotedHeader (by decide) (by decide), fun q header => ?_⟩
    have none : ∀ i < 109, (quotedHeader.drop 200)[i]? = some '\n' →
        ¬ headerMarker <+: (quotedHeader.drop 200).drop (i + 1) := by decide +kernel
    have inside : q + 91 ≤ 0 + 400 := header.inside
    by_contra later
    obtain ⟨i, rfl⟩ := Nat.exists_eq_add_of_lt (Nat.lt_of_not_le later)
    refine none i (by omega) ?_ ?_
    · rw [List.getElem?_drop]
      exact header.lineStart.resolve_left (Nat.succ_ne_zero _)
    · rw [List.drop_drop]
      exact header.marked
  have ends := always c member exceeds 200 last
  rw [stop, cut] at ends
  exact absurd ends (by decide)

end Chunkwise.Chunk
