import Chunkwise.Text.Basic
import Mathlib.Tactic

/-!
# Lines

A text is the same as its lines: none of them holds a line feed, and writing each of them with a line feed after it,
but the last one without, gives the text back. So a text that is written line by line is read back line by line.
-/

namespace Chunkwise.Text

/-! ## Pieces -/

theorem length_splitBy (p : Char → Bool) (t : Text) : (splitBy p t).length = t.countP p + 1 := by
  induction t with
  | nil => rfl
  | cons c rest ih =>
    rw [splitBy_cons, List.countP_cons]
    unfold addToPieces
    by_cases sep : p c
    · simp [sep, ih]
    · simp only [sep, Bool.false_eq_true, ↓reduceIte]
      cases pieces : splitBy p rest with
      | nil => exact absurd pieces (splitBy_ne_nil p rest)
      | cons piece others => simpa [pieces] using ih

/-- No piece holds a separator. -/
theorem not_sep_of_mem_splitBy {p : Char → Bool} {t piece : Text} (member : piece ∈ splitBy p t) :
    ∀ c ∈ piece, p c = false := by
  induction t generalizing piece with
  | nil => simp_all [splitBy]
  | cons c rest ih =>
    rw [splitBy_cons] at member
    unfold addToPieces at member
    by_cases sep : p c
    · simp only [sep, ↓reduceIte, List.mem_cons] at member
      rcases member with rfl | later
      · simp
      · exact ih later
    · simp only [sep, Bool.false_eq_true, ↓reduceIte] at member
      cases pieces : splitBy p rest with
      | nil => exact absurd pieces (splitBy_ne_nil p rest)
      | cons first others =>
        rw [pieces] at member ih
        rcases List.mem_cons.mp member with rfl | later
        · exact List.forall_mem_cons.mpr ⟨by simpa using sep, ih List.mem_cons_self⟩
        · exact ih (List.mem_cons_of_mem _ later)

theorem mem_of_mem_splitBy {p : Char → Bool} {t piece : Text} (member : piece ∈ splitBy p t) : ∀ c ∈ piece, c ∈ t := by
  induction t generalizing piece with
  | nil => simp_all [splitBy]
  | cons d rest ih =>
    rw [splitBy_cons] at member
    unfold addToPieces at member
    have later {piece : Text} (member : piece ∈ splitBy p rest) : ∀ c ∈ piece, c ∈ d :: rest :=
      fun c inPiece => List.mem_cons_of_mem d (ih member c inPiece)
    by_cases sep : p d
    · simp only [sep, ↓reduceIte, List.mem_cons] at member
      rcases member with rfl | member
      · simp
      · exact later member
    · simp only [sep, Bool.false_eq_true, ↓reduceIte] at member
      cases pieces : splitBy p rest with
      | nil => exact absurd pieces (splitBy_ne_nil p rest)
      | cons first others =>
        rw [pieces] at member later
        rcases List.mem_cons.mp member with rfl | member
        · exact List.forall_mem_cons.mpr ⟨List.mem_cons_self, later List.mem_cons_self⟩
        · exact later (List.mem_cons_of_mem _ member)

/-- What holds no separator stays in one piece. -/
theorem splitBy_append {p : Char → Bool} {front : Text} (plain : ∀ c ∈ front, p c = false) {sep : Char} (isSep : p sep)
    (rest : Text) : splitBy p (front ++ sep :: rest) = front :: splitBy p rest := by
  induction front with
  | nil => simp [splitBy_cons, addToPieces, isSep]
  | cons c more ih =>
    obtain ⟨here, later⟩ := List.forall_mem_cons.mp plain
    simp [splitBy_cons, addToPieces, here, ih later]

theorem splitBy_of_plain {p : Char → Bool} {t : Text} (plain : ∀ c ∈ t, p c = false) : splitBy p t = [t] := by
  induction t with
  | nil => rfl
  | cons c rest ih =>
    obtain ⟨here, later⟩ := List.forall_mem_cons.mp plain
    simp [splitBy_cons, addToPieces, here, ih later]

/-! ## Lines -/

/-- Lines, each with a line feed after it. -/
def terminated (ls : List Text) : Text := ls.flatMap (· ++ ['\n'])

theorem terminated_nil : terminated [] = [] := rfl

theorem terminated_cons (l : Text) (ls : List Text) : terminated (l :: ls) = l ++ '\n' :: terminated ls := by
  simp [terminated]

theorem terminated_append (ls ms : List Text) : terminated (ls ++ ms) = terminated ls ++ terminated ms := by
  simp [terminated]

theorem length_lines (t : Text) : t.lines.length = t.count '\n' + 1 := length_splitBy ..

theorem length_lines_le (t : Text) : t.lines.length ≤ t.length + 1 := by
  rw [length_lines]
  exact Nat.succ_le_succ List.count_le_length

/-- A text can be put together from its lines again. -/
theorem lines_inj {s t : Text} (same : s.lines = t.lines) : s = t := by
  rw [← join_splitBy '\n' s, ← join_splitBy '\n' t]
  exact congrArg (join ['\n']) same

theorem no_feed_of_mem_lines {t l : Text} (member : l ∈ t.lines) : '\n' ∉ l := by
  intro feed
  simpa using not_sep_of_mem_splitBy member '\n' feed

/-- Terminated lines are read back, whatever text follows them. -/
theorem lines_terminated {ls : List Text} (plain : ∀ l ∈ ls, '\n' ∉ l) (t : Text) :
    (terminated ls ++ t).lines = ls ++ t.lines := by
  induction ls with
  | nil => rfl
  | cons l rest ih =>
    obtain ⟨here, later⟩ := List.forall_mem_cons.mp plain
    have line : ∀ c ∈ l, (c == '\n') = false := by
      intro c member
      simpa using fun same : c = '\n' => here (same ▸ member)
    rw [terminated_cons, List.append_assoc, List.cons_append, List.cons_append, ← ih later]
    exact splitBy_append line (by simp) _

/-- After the last line feed there is an empty line. -/
theorem lines_terminated_nil {ls : List Text} (plain : ∀ l ∈ ls, '\n' ∉ l) : (terminated ls).lines = ls ++ [[]] := by
  rw [← List.append_nil (terminated ls), lines_terminated plain]
  rfl

theorem terminated_eq_join {ls : List Text} (some : ls ≠ []) : terminated ls = join ['\n'] ls ++ ['\n'] := by
  induction ls with
  | nil => exact absurd rfl some
  | cons l rest ih =>
    cases rest with
    | nil => simp [terminated, join]
    | cons m more =>
      rw [terminated_cons, ih (List.cons_ne_nil m more)]
      simp [join, List.intercalate_cons_cons]

/-- Writing the lines of a text gives it back, with a line feed after the last one. -/
theorem terminated_lines (t : Text) : terminated t.lines = t ++ ['\n'] := by
  rw [lines, terminated_eq_join (splitBy_ne_nil _ t), join_splitBy]

/-- A text that is empty or ends with a line feed is made of terminated lines. -/
theorem exists_terminated {t : Text} (ended : t = [] ∨ t.getLast? = some '\n') :
    ∃ ls : List Text, (∀ l ∈ ls, '\n' ∉ l) ∧ t = terminated ls := by
  rcases ended with rfl | feed
  · exact ⟨[], by simp, rfl⟩
  · obtain ⟨front, rfl⟩ := List.getLast?_eq_some_iff.mp feed
    exact ⟨lines front, fun _ => no_feed_of_mem_lines, (terminated_lines front).symm⟩

end Chunkwise.Text
