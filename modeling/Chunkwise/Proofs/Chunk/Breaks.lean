import Chunkwise.Chunk.Sized
import Chunkwise.Proofs.Text.Occurrences

/-!
# Where a break falls

Cutting by size looks for a break in one window after another. What breaks there are is said once, as a relation; that
a piece is never empty, stays within the window or is a single line, and leaves no room for the line that follows it
unless that is where a header begins, is then read off the relation.
-/

namespace Chunkwise

/-- The first line of a text, with its line feed. -/
def Text.firstLine (t : Text) : Text := t.take ((t.before '\n').length + 1)

/-- The first line is all of the text or ends with a line feed. -/
theorem Text.firstLine_cases (t : Text) :
    t.firstLine = t ∨ ∃ i, t[i]? = some '\n' ∧ t.firstLine.length = i + 1 := by
  induction t with
  | nil => exact Or.inl rfl
  | cons c rest ih =>
    by_cases feed : c = '\n'
    · subst feed
      exact Or.inr ⟨0, rfl, rfl⟩
    · have longer : firstLine (c :: rest) = c :: firstLine rest := by simp [firstLine, before, feed]
      rw [longer]
      rcases ih with whole | ⟨i, here, length⟩
      · exact Or.inl (congrArg (c :: ·) whole)
      · exact Or.inr ⟨i + 1, here, congrArg (· + 1) length⟩

namespace Chunk

variable {target n : ℕ} {t window : Text}

/-! ## Breaks before headers -/

/-- A window may be cut at `n` before a header: its last header marker is there, behind its beginning, at a line start
    and in the second half. -/
structure HeaderBreak (target : ℕ) (window : Text) (n : ℕ) : Prop where
  pos : 0 < n
  marked : headerMarker <+: window.drop n
  last : ∀ j, headerMarker <+: window.drop j → j ≤ n
  lineStart : window[n - 1]? = some '\n'
  half : target / 2 ≤ n

theorem headerCut?_eq_some_iff : headerCut? window target = some n ↔ HeaderBreak target window n := by
  have some : headerMarker ≠ [] := by decide
  constructor
  · intro cut
    unfold headerCut? at cut
    split at cut
    · rename_i i found
      split at cut <;> cases cut
      rename_i valid
      simp only [Bool.and_eq_true, beq_iff_eq, decide_eq_true_eq] at valid
      refine ⟨Nat.succ_pos i, ?_, ?_, valid.1, valid.2⟩
      · have marked := Text.isPrefix_of_lastAt? some found
        rwa [List.drop_drop, Nat.add_comm] at marked
      · rintro (_ | j) other
        · exact Nat.zero_le _
        · rw [Nat.add_comm, ← List.drop_drop] at other
          obtain ⟨k, found', le⟩ := Text.exists_lastAt? some other
          cases found.symm.trans found'
          omega
    · cases cut
  · rintro ⟨positive, marked, last, lineStart, half⟩
    obtain ⟨m, rfl⟩ := Nat.exists_eq_succ_of_ne_zero positive.ne'
    have behind := marked
    rw [Nat.succ_eq_one_add, ← List.drop_drop] at behind
    obtain ⟨i, found, le⟩ := Text.exists_lastAt? some behind
    have other := Text.isPrefix_of_lastAt? some found
    rw [List.drop_drop, Nat.add_comm] at other
    obtain rfl : m = i := le_antisymm le (Nat.le_of_succ_le_succ (last _ other))
    rw [Nat.succ_eq_add_one, Nat.add_sub_cancel] at lineStart
    simp only [headerCut?, found, lineStart, beq_self_eq_true, decide_eq_true half, Bool.and_self, ↓reduceIte]

/-! ## All breaks -/

/-- A text is cut at `n` when it is to be cut by a target size. -/
inductive BreaksAt (target : ℕ) (t : Text) : ℕ → Prop where
  /-- There is no more text than fits. -/
  | whole (fits : t.length ≤ target) : BreaksAt target t t.length
  | header {n : ℕ} (exceeds : target < t.length) (header : HeaderBreak target (t.take target) n) : BreaksAt target t n
  /-- The last line feed in the window ends the piece. -/
  | feed {i : ℕ} (exceeds : target < t.length) (unheaded : ∀ n, ¬ HeaderBreak target (t.take target) n)
      (inside : i < target) (feed : t[i]? = some '\n') (last : '\n' ∉ (t.take target).drop (i + 1)) :
      BreaksAt target t (i + 1)
  /-- The first line feed ends the piece, behind the window. -/
  | overlong {i : ℕ} (beyond : target ≤ i) (feed : t[i]? = some '\n') (first : '\n' ∉ t.take i) :
      BreaksAt target t (i + 1)
  | unbroken (exceeds : target < t.length) (plain : '\n' ∉ t) : BreaksAt target t t.length

theorem breaksAt_cutLength (target : ℕ) (t : Text) : BreaksAt target t (cutLength target t) := by
  unfold cutLength
  split
  · exact .whole ‹_›
  · rename_i more
    have exceeds : target < t.length := Nat.lt_of_not_le more
    dsimp only
    split
    · rename_i n cut
      exact .header exceeds (headerCut?_eq_some_iff.mp cut)
    · rename_i uncut
      split
      · rename_i i last
        refine .feed exceeds ?_ ?_ ?_ (Text.not_mem_drop_of_lastAt? last)
        · intro n header
          cases uncut.symm.trans (headerCut?_eq_some_iff.mpr header)
        · exact (Text.lastAt?_lt last).trans_le (List.length_take_le target t)
        · exact Text.getElem?_of_take (Text.getElem?_of_lastAt? last)
      · rename_i missing
        have plain : '\n' ∉ t.take target := Text.not_mem_of_lastAt? missing
        split
        · rename_i i first
          refine .overlong (Nat.le_add_right target i) ?_ ?_
          · have feed := Text.getElem?_of_firstAt? first
            rwa [List.getElem?_drop] at feed
          · rw [List.take_add]
            exact List.not_mem_append plain (Text.not_mem_take_of_firstAt? first)
        · rename_i none
          refine .unbroken exceeds ?_
          rw [← List.take_append_drop target t]
          exact List.not_mem_append plain (Text.not_mem_of_firstAt? none)

namespace BreaksAt

/-- A piece ends with the text or with a line feed. -/
theorem ends (breaks : BreaksAt target t n) : n = t.length ∨ 0 < n ∧ t[n - 1]? = some '\n' := by
  cases breaks with
  | whole | unbroken => exact Or.inl rfl
  | header _ header => exact Or.inr ⟨header.pos, Text.getElem?_of_take header.lineStart⟩
  | feed _ _ _ feed | overlong _ feed => exact Or.inr ⟨Nat.succ_pos _, feed⟩

theorem le_length (breaks : BreaksAt target t n) : n ≤ t.length := by
  rcases breaks.ends with rfl | ⟨positive, feed⟩
  · exact le_refl _
  · have := (List.getElem?_eq_some_iff.mp feed).1
    omega

/-- A piece fits, or it is a single line that does not. -/
theorem fits (breaks : BreaksAt target t n) : n ≤ target ∨ target < n ∧ '\n' ∉ (t.take n).dropLast := by
  cases breaks with
  | whole fits => exact Or.inl fits
  | header _ header =>
    left
    have inside := (List.getElem?_eq_some_iff.mp header.lineStart).1
    have := inside.trans_le (List.length_take_le target t)
    omega
  | feed _ _ inside => exact Or.inl inside
  | overlong beyond feed first =>
    have inside := (List.getElem?_eq_some_iff.mp feed).1
    refine Or.inr ⟨Nat.lt_succ_of_le beyond, ?_⟩
    rwa [List.take_succ_eq_append_getElem inside, List.dropLast_concat]
  | unbroken exceeds plain =>
    refine Or.inr ⟨exceeds, fun feed => plain ?_⟩
    rw [List.take_length] at feed
    exact List.mem_of_mem_dropLast feed

/-- The line behind a piece does not fit with it, unless the piece was cut before a header. -/
theorem full (breaks : BreaksAt target t n) (more : n < t.length) :
    target < n + (Text.firstLine (t.drop n)).length ∨ HeaderBreak target (t.take target) n := by
  cases breaks with
  | whole | unbroken => exact absurd more (lt_irrefl _)
  | header _ header => exact Or.inr header
  | overlong beyond => exact Or.inl (by omega)
  | @feed i exceeds _ inside _ last =>
    left
    rcases Text.firstLine_cases (t.drop (i + 1)) with all | ⟨j, ends, length⟩
    · rw [all, List.length_drop]
      omega
    · rw [length]
      by_contra fits
      have inWindow : ((t.take target).drop (i + 1))[j]? = some '\n' := by
        rw [List.getElem?_drop] at ends ⊢
        rwa [List.getElem?_take_of_lt (by omega)]
      exact last (List.mem_of_getElem? inWindow)

/-- A piece that begins where a header does holds the header marker, or the rule alone when the line with the filename
    does not fit with it. -/
theorem marker (breaks : BreaksAt target t n) (marked : headerMarker <+: t) :
    headerMarker <+: t.take n ∨
      t.take n = headerRule ++ ['\n'] ∧ target < n + (Text.firstLine (t.drop n)).length := by
  have long := marked.length_le
  by_cases holds : headerMarker.length ≤ n
  · exact Or.inl (List.prefix_take_iff.mpr ⟨marked, holds⟩)
  · right
    have short : n < headerMarker.length := Nat.lt_of_not_le holds
    obtain ⟨positive, feed⟩ := breaks.ends.resolve_left (by omega)
    -- The marker holds a single line feed, behind the rule.
    have onlyFeed : ∀ i < headerMarker.length, headerMarker[i]? = some '\n' → i = headerRule.length := by decide
    have at_n : n = headerRule.length + 1 := by
      have inMarker : headerMarker[n - 1]? = some '\n' := by
        rw [List.prefix_iff_eq_take.mp marked, List.getElem?_take_of_lt (by omega)]
        exact feed
      have := onlyFeed (n - 1) (by omega) inMarker
      omega
    subst at_n
    obtain ⟨rest, rfl⟩ := marked
    refine ⟨?_, (breaks.full (by omega)).resolve_right fun header => ?_⟩
    · rw [List.take_append_of_le_length short.le]
      decide
    · obtain ⟨more, same⟩ := header.marked.trans ((List.take_prefix target _).drop _)
      rw [List.drop_append_of_le_length short.le] at same
      have first : some '=' = some 'f' := congrArg List.head? same
      exact absurd first (by decide)

end BreaksAt

end Chunk

end Chunkwise
