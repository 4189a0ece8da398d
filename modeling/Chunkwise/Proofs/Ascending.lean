import Chunkwise.Text.Basic
import Mathlib.Tactic

/-!
# What is listed once and in order

Entries without their repetitions, sorted, are strictly ascending. Numbers ascend by size, texts by the first character
in which they differ.
-/

namespace Chunkwise

/-! ## Without repetitions -/

section Sorting

variable {α : Type} [BEq α] [LawfulBEq α]

theorem nodup_eraseDups : (l : List α) → l.eraseDups.Nodup
  | [] => by simp
  | a :: rest => by
    rw [List.eraseDups_cons]
    exact List.nodup_cons.mpr ⟨by simp, nodup_eraseDups (rest.filter fun b => !b == a)⟩
termination_by l => l.length
decreasing_by exact Nat.lt_succ_of_le (List.length_filter_le ..)

theorem mem_ascending {le : α → α → Bool} {l : List α} {a : α} : a ∈ l.eraseDups.mergeSort le ↔ a ∈ l :=
  (List.mergeSort_perm ..).mem_iff.trans List.mem_eraseDups

/-- Sorting what is listed once puts it into a strict order. -/
theorem pairwise_ascending (le : α → α → Bool) (trans : ∀ a b c, le a b → le b c → le a c)
    (total : ∀ a b, le a b || le b a) (l : List α) :
    (l.eraseDups.mergeSort le).Pairwise fun a b => le a b ∧ a ≠ b :=
  (List.pairwise_mergeSort trans total _).and ((List.mergeSort_perm ..).nodup_iff.mpr (nodup_eraseDups l))

end Sorting

/-! ## Texts -/

namespace Text

variable {s t u : Text}

/-- One text comes before another: it has the smaller character where they first differ, or is a beginning of it. -/
def Before (s t : Text) : Prop := List.Lex (fun a b => a.toNat < b.toNat) s t

theorem before_cons_iff {a b : Char} : Before (a :: s) (b :: t) ↔ a.toNat < b.toNat ∨ a = b ∧ Before s t := by
  constructor
  · rintro (_ | smaller | later)
    · exact Or.inl ‹_›
    · exact Or.inr ⟨rfl, ‹_›⟩
  · rintro (smaller | ⟨rfl, later⟩)
    · exact .rel smaller
    · exact .cons later

theorem le_iff : le s t ↔ s = t ∨ Before s t := by
  induction s generalizing t with
  | nil =>
    cases t with
    | nil => exact iff_of_true rfl (Or.inl rfl)
    | cons b t => exact iff_of_true rfl (Or.inr .nil)
  | cons a s ih =>
    cases t with
    | nil =>
      refine iff_of_false Bool.false_ne_true ?_
      rintro (same | before)
      · cases same
      · cases before
    | cons b t =>
      rw [before_cons_iff]
      by_cases same : a = b
      · simp [le, same, ih]
      · simp [le, same]

theorem le_total (s t : Text) : le s t || le t s := by
  induction s generalizing t with
  | nil => rfl
  | cons a s ih =>
    cases t with
    | nil => rfl
    | cons b t =>
      by_cases same : a = b
      · simpa [le, same] using ih t
      · have differ : a.toNat ≠ b.toNat := mt Char.toNat_inj.mp same
        simp only [le, beq_iff_eq, same, Ne.symm same, ↓reduceIte, Bool.or_eq_true, decide_eq_true_eq]
        omega

theorem le_trans (first : le s t) (second : le t u) : le s u := by
  induction s generalizing t u with
  | nil => rfl
  | cons a s ih =>
    cases t with
    | nil => cases first
    | cons b t =>
      cases u with
      | nil => cases second
      | cons c u =>
        simp only [le, beq_iff_eq] at first second ⊢
        by_cases same : a = b
        · subst same
          by_cases same' : a = c
          · simp only [same', ↓reduceIte] at first second ⊢
            exact ih first second
          · simpa only [same', ↓reduceIte] using second
        · by_cases same' : b = c
          · subst same'
            simpa only [same, ↓reduceIte] using first
          · simp only [same, same', ↓reduceIte, decide_eq_true_eq] at first second
            have other : a ≠ c := by rintro rfl; omega
            simp only [other, ↓reduceIte, decide_eq_true_eq]
            omega

/-- Sorting texts that are listed once puts them into alphabetical order. -/
theorem pairwise_before (l : List Text) : (l.eraseDups.mergeSort le).Pairwise Before :=
  (pairwise_ascending le (fun _ _ _ => le_trans) le_total l).imp fun ordered =>
    (le_iff.mp ordered.1).resolve_left ordered.2

end Text

end Chunkwise
