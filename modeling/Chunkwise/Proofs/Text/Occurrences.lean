import Chunkwise.Text.Basic
import Mathlib.Tactic

/-!
# Occurrences

Where a text last occurs in another one, by recursion on that one; for a single character also in a text put together
from two. What a search finds is an occurrence, and there is none before the first one or after the last one.
-/

namespace Chunkwise.Text

private theorem lastAtFrom_eq {needle : Text} (some : needle ≠ []) (i : ℕ) (found : Option ℕ) (t : Text) :
    lastAtFrom needle i found t = ((lastAt? needle t).map (· + i)).or found := by
  have nonempty : needle.isEmpty = false := by simpa using some
  unfold lastAt?
  induction t generalizing i found with
  | nil => simp [lastAtFrom, nonempty]
  | cons c rest ih =>
    rw [lastAtFrom, lastAtFrom, ih, ih (0 + 1)]
    cases lastAtFrom needle 0 none rest with
    | none => by_cases here : needle.isPrefixOf (c :: rest) <;> simp [here]
    | some j => simp [Nat.add_assoc, Nat.add_comm 1]

theorem lastAt?_cons {needle : Text} (some : needle ≠ []) (c : Char) (t : Text) :
    lastAt? needle (c :: t) =
      ((lastAt? needle t).map (· + 1)).or (if needle.isPrefixOf (c :: t) then .some 0 else none) := by
  rw [lastAt?, lastAtFrom, lastAtFrom_eq some]

/-! ## What a search finds -/

variable {needle s t : Text} {i j : ℕ}

theorem isPrefix_of_lastAt? (some : needle ≠ []) (found : lastAt? needle t = .some i) : needle <+: t.drop i := by
  induction t generalizing i with
  | nil => simp [lastAt?, lastAtFrom, some] at found
  | cons d rest ih =>
    rw [lastAt?_cons some] at found
    cases later : lastAt? needle rest with
    | none =>
      simp only [later, Option.map_none, Option.none_or] at found
      split at found
      · rename_i here
        cases found
        exact List.isPrefixOf_iff_prefix.mp here
      · cases found
    | some j =>
      simp only [later, Option.map_some, Option.some_or, Option.some.injEq] at found
      subst found
      exact ih later

/-- The last occurrence is no earlier than any other one. -/
theorem exists_lastAt? (some : needle ≠ []) (here : needle <+: t.drop j) : ∃ i, lastAt? needle t = .some i ∧ j ≤ i := by
  induction t generalizing j with
  | nil => simp [some] at here
  | cons d rest ih =>
    rw [lastAt?_cons some]
    cases j with
    | zero =>
      cases lastAt? needle rest with
      | none => exact ⟨0, by simp [List.isPrefixOf_iff_prefix.mpr (show needle <+: d :: rest from here)], le_refl _⟩
      | some k => exact ⟨k + 1, by simp, Nat.zero_le _⟩
    | succ j =>
      obtain ⟨i, later, le⟩ := ih here
      exact ⟨i + 1, by simp [later], by omega⟩

theorem isPrefix_of_firstAt? (some : needle ≠ []) (found : firstAt? needle t = .some i) : needle <+: t.drop i := by
  induction t generalizing i with
  | nil => simp [firstAt?, firstAtFrom, some] at found
  | cons d rest ih =>
    rw [firstAt?_cons] at found
    split at found
    · rename_i here
      cases found
      exact List.isPrefixOf_iff_prefix.mp here
    · obtain ⟨j, later, rfl⟩ := Option.map_eq_some_iff.mp found
      exact ih later

/-- The first occurrence is no later than any other one. -/
theorem exists_firstAt? (some : needle ≠ []) (here : needle <+: t.drop j) :
    ∃ i, firstAt? needle t = .some i ∧ i ≤ j := by
  induction t generalizing j with
  | nil => simp [some] at here
  | cons d rest ih =>
    rw [firstAt?_cons]
    split
    · exact ⟨0, rfl, Nat.zero_le _⟩
    · rename_i misses
      cases j with
      | zero => exact absurd (List.isPrefixOf_iff_prefix.mpr (show needle <+: d :: rest from here)) misses
      | succ j =>
        obtain ⟨i, later, le⟩ := ih here
        exact ⟨i + 1, by rw [later]; rfl, by omega⟩

theorem occursIn_iff : occursIn needle t ↔ needle <:+: t := by
  induction t with
  | nil => simp [occursIn]
  | cons c rest ih => rw [occursIn, Bool.or_eq_true, List.isPrefixOf_iff_prefix, ih, List.infix_cons_iff]

/-! ## Single characters -/

variable {c : Char}

/-- A character occurs where it stands. -/
theorem isPrefix_drop_iff : [c] <+: t.drop i ↔ t[i]? = some c := by
  rw [List.prefix_iff_eq_take, List.length_singleton, List.take_one, List.head?_drop]
  cases t[i]? with
  | none => simp
  | some d => simp [eq_comm]

theorem getElem?_of_take (here : (t.take j)[i]? = some c) : t[i]? = some c :=
  isPrefix_drop_iff.mp ((isPrefix_drop_iff.mpr here).trans ((List.take_prefix j t).drop i))

theorem getElem?_of_lastAt? (found : lastAt? [c] t = some i) : t[i]? = some c :=
  isPrefix_drop_iff.mp (isPrefix_of_lastAt? (List.cons_ne_nil c []) found)

theorem getElem?_of_firstAt? (found : firstAt? [c] t = some i) : t[i]? = some c :=
  isPrefix_drop_iff.mp (isPrefix_of_firstAt? (List.cons_ne_nil c []) found)

theorem lastAt?_lt (found : lastAt? [c] t = some i) : i < t.length :=
  (List.getElem?_eq_some_iff.mp (getElem?_of_lastAt? found)).1

theorem le_lastAt? (here : t[j]? = some c) : ∃ i, lastAt? [c] t = some i ∧ j ≤ i :=
  exists_lastAt? (List.cons_ne_nil c []) (isPrefix_drop_iff.mpr here)

theorem firstAt?_le (here : t[j]? = some c) : ∃ i, firstAt? [c] t = some i ∧ i ≤ j :=
  exists_firstAt? (List.cons_ne_nil c []) (isPrefix_drop_iff.mpr here)

theorem not_mem_of_lastAt? (missing : lastAt? [c] t = none) : c ∉ t := by
  intro member
  obtain ⟨j, here⟩ := List.mem_iff_getElem?.mp member
  obtain ⟨i, found, -⟩ := le_lastAt? here
  cases missing.symm.trans found

theorem not_mem_of_firstAt? (missing : firstAt? [c] t = none) : c ∉ t := by
  intro member
  obtain ⟨j, here⟩ := List.mem_iff_getElem?.mp member
  obtain ⟨i, found, -⟩ := firstAt?_le here
  cases missing.symm.trans found

theorem not_mem_drop_of_lastAt? (last : lastAt? [c] t = some i) : c ∉ t.drop (i + 1) := by
  intro member
  obtain ⟨j, here⟩ := List.mem_iff_getElem?.mp member
  rw [List.getElem?_drop] at here
  obtain ⟨k, found, le⟩ := le_lastAt? here
  cases last.symm.trans found
  omega

theorem not_mem_take_of_firstAt? (first : firstAt? [c] t = some i) : c ∉ t.take i := by
  intro member
  obtain ⟨j, here⟩ := List.mem_iff_getElem?.mp member
  rw [List.getElem?_take] at here
  split at here
  · obtain ⟨k, found, le⟩ := firstAt?_le here
    cases first.symm.trans found
    omega
  · cases here

/-- A character last occurs in the second part, or else in the first one. -/
theorem lastAt?_append (c : Char) (s t : Text) :
    lastAt? [c] (s ++ t) = ((lastAt? [c] t).map (· + s.length)).or (lastAt? [c] s) := by
  have single := List.cons_ne_nil c []
  induction s with
  | nil =>
    have absent : lastAt? [c] [] = none := rfl
    simp [absent]
  | cons d rest ih =>
    rw [List.cons_append, lastAt?_cons single, lastAt?_cons single, ih]
    cases lastAt? [c] t with
    | none => simp [List.isPrefixOf]
    | some j => simp [Nat.add_assoc]

end Chunkwise.Text
