import Chunkwise.Text.Blank
import Mathlib.Data.List.TakeWhile
import Mathlib.Tactic

/-!
# Texts without blanks at the ends

A value that is written into a line is read back by stripping what surrounds it. So it must stand in one line and
begin and end with characters that are not blank.
-/

namespace Chunkwise.Text

theorem isBlank_of_isLineBreak {c : Char} (breaks : isLineBreak c) : isBlank c := by
  simp only [isLineBreak, isBlank, Bool.or_eq_true, Bool.and_eq_true, decide_eq_true_eq, beq_iff_eq] at *
  omega

/-! ## Trimming -/

theorem mem_of_mem_trimEnd {p : Char → Bool} {c : Char} {t : Text} (member : c ∈ trimEnd p t) : c ∈ t := by
  rw [trimEnd, List.mem_reverse] at member
  exact List.mem_reverse.mp ((List.dropWhile_sublist p).subset member)

/-- Only a text of blanks is stripped of everything. -/
theorem exists_of_strip_ne_nil {t : Text} (some : strip t ≠ []) : ∃ c ∈ t, isBlank c = false := by
  by_contra none
  push Not at none
  have blank : t.dropWhile isBlank = [] :=
    List.dropWhile_eq_nil_iff.mpr fun c member => Bool.eq_true_of_not_eq_false (none c member)
  exact some (by rw [strip, trim, blank]; rfl)

/-- Nothing is taken from the end beyond a character that stays. -/
theorem trimEnd_append_cons {p : Char → Bool} {c : Char} (stays : p c = false) (front rest : Text) :
    trimEnd p (front ++ c :: rest) = front ++ c :: trimEnd p rest := by
  have kept : (c :: front.reverse).dropWhile p = c :: front.reverse := by simp [stays]
  unfold trimEnd
  rw [List.reverse_append, List.reverse_cons, List.append_assoc, List.singleton_append, List.dropWhile_append]
  split
  · rename_i none
    rw [List.isEmpty_iff.mp none, kept]
    simp
  · simp

theorem trimEnd_eq_self {p : Char → Bool} {t : Text} (last : ∀ c, t.getLast? = some c → p c = false) :
    trimEnd p t = t := by
  cases shape : t.getLast? with
  | none =>
    rw [List.getLast?_eq_none_iff.mp shape]
    rfl
  | some c =>
    obtain ⟨front, rfl⟩ := List.getLast?_eq_some_iff.mp shape
    rw [trimEnd_append_cons (last c shape)]
    rfl

/-- What is taken from the end is that character alone. -/
theorem exists_eq_trimEnd_append (c : Char) (t : Text) : ∃ k, t = trimEnd (· == c) t ++ List.replicate k c := by
  refine ⟨(t.reverse.takeWhile (· == c)).length, ?_⟩
  have all : t.reverse.takeWhile (· == c) = List.replicate (t.reverse.takeWhile (· == c)).length c :=
    List.eq_replicate_of_mem fun d member => by simpa using List.mem_takeWhile_imp member
  rw [← List.reverse_inj, List.reverse_append, List.reverse_replicate, ← all, trimEnd, List.reverse_reverse,
    List.takeWhile_append_dropWhile]

theorem strip_eq_self {t : Text} (first : ∀ c, t.head? = some c → isBlank c = false)
    (last : ∀ c, t.getLast? = some c → isBlank c = false) : strip t = t := by
  have begins : t.dropWhile isBlank = t := by
    cases t with
    | nil => rfl
    | cons c rest => simp [first c rfl]
  rw [strip, trim, begins]
  exact trimEnd_eq_self last

theorem strip_infix (t : Text) : strip t <:+: t := by
  have front : strip t <+: t.dropWhile isBlank := by
    rw [← List.reverse_suffix, strip, trim, trimEnd, List.reverse_reverse]
    exact List.dropWhile_suffix _
  exact front.isInfix.trans (List.dropWhile_suffix _).isInfix

/-- A stripped text begins with the first character that is not blank. -/
theorem head?_strip (t : Text) : (strip t).head? = t.find? (!isBlank ·) := by
  simp only [List.find?_eq_head?_dropWhile_not, Bool.not_not]
  have first := List.head?_dropWhile_not isBlank t
  cases shape : t.dropWhile isBlank with
  | nil =>
    rw [strip, trim, shape]
    rfl
  | cons c rest =>
    rw [shape] at first
    rw [strip, trim, shape, ← List.nil_append (c :: rest), trimEnd_append_cons first]
    rfl

theorem strip_cons {c : Char} (blank : isBlank c) (t : Text) : strip (c :: t) = strip t := by
  simp [strip, trim, blank]

theorem isEmpty_eq_false {t : Text} (solid : ¬ t.isBlankText) : t.isEmpty = false := by
  cases t with
  | nil => exact absurd rfl solid
  | cons => rfl

/-! ## Values in a line -/

/-- A text can be written as a value into a line: it breaks no line and has no blanks at the ends. -/
structure IsValue (t : Text) : Prop where
  unbroken : ∀ c ∈ t, isLineBreak c = false
  stripped : strip t = t

instance (t : Text) : Decidable (IsValue t) :=
  decidable_of_iff (t.all (!isLineBreak ·) ∧ strip t = t) <| by
    simp only [List.all_eq_true, Bool.not_eq_true']
    exact ⟨fun value => ⟨value.1, value.2⟩, fun value => ⟨value.unbroken, value.stripped⟩⟩

/-- A text without blanks, and not empty. -/
def Solid (t : Text) : Prop := t ≠ [] ∧ ∀ c ∈ t, isBlank c = false

instance (t : Text) : Decidable (Solid t) :=
  decidable_of_iff (t ≠ [] ∧ t.all (!isBlank ·)) <| by
    simp only [Solid, List.all_eq_true, Bool.not_eq_true']

theorem Solid.isValue {t : Text} (solid : Solid t) : IsValue t := by
  constructor
  · intro c member
    by_contra breaks
    have blank := isBlank_of_isLineBreak (Bool.eq_true_of_not_eq_false breaks)
    rw [solid.2 c member] at blank
    cases blank
  · apply strip_eq_self
    · intro c first
      exact solid.2 c (List.mem_of_head? first)
    · intro c last
      exact solid.2 c (List.mem_of_getLast? last)

/-- Two solid texts with a space between them make a value. -/
theorem Solid.isValue_append {s t : Text} (left : Solid s) (right : Solid t) : IsValue (s ++ ' ' :: t) := by
  constructor
  · intro c member
    rcases List.mem_append.mp member with inLeft | inRight
    · exact left.isValue.unbroken c inLeft
    · rcases List.mem_cons.mp inRight with rfl | inRight
      · decide
      · exact right.isValue.unbroken c inRight
  · apply strip_eq_self
    · intro c first
      rw [List.head?_append_of_ne_nil _ left.1] at first
      exact left.2 c (List.mem_of_head? first)
    · intro c last
      rw [List.append_cons, List.getLast?_append_of_ne_nil _ right.1] at last
      exact right.2 c (List.mem_of_getLast? last)

end Chunkwise.Text
