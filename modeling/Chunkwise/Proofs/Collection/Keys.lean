import Chunkwise.Collection.Entry
import Chunkwise.Proofs.Number.Decimal

/-!
# When files share a key

A file is known by the name that it asks for, with a number behind it when earlier files ask for the same. Two numbered
names are the same only when their names and their numbers are. So files share a key only when one of them asks for the
name that another one gets by its number, and then they do share it.
-/

namespace Chunkwise

theorem Text.decimal_inj {m n : ℕ} : decimal m = decimal n ↔ m = n := by
  constructor
  · intro same
    have value := congrArg (Nat.ofDigitChars 10 · 0) same
    simpa only [decimal, Nat.ofDigitChars_ten_toDigits] using value
  · rintro rfl
    rfl

/-- Texts are cut at the same last place where a character comes up. -/
theorem Text.append_cons_inj {c : Char} {front other s t : Text} (left : c ∉ s) (right : c ∉ t)
    (same : front ++ c :: s = other ++ c :: t) : front = other ∧ s = t := by
  have behind {u v w : Text} (is : c :: v = u ++ c :: w) (last : c ∉ v) : u = [] := by
    cases u with
    | nil => rfl
    | cons d more =>
      obtain ⟨-, rfl⟩ := List.cons_eq_cons.mp is
      simp at last
  rcases List.append_eq_append_iff.mp same with ⟨u, rfl, is⟩ | ⟨u, rfl, is⟩
  · obtain rfl := behind is left
    simpa using is
  · obtain rfl := behind is right
    simpa using is.symm

/-- The name by which a file asks to be known, by what is known of it. -/
def SourceFile.wanted (f : SourceFile) : Text := ((f.metadata.get? "relative_path".toList).getD []).orElse f.filename

namespace Collection

/-! ## Numbered names -/

theorem numberedKey_zero (w : Text) : numberedKey w 0 = w := rfl

theorem numberedKey_of_pos (w : Text) {n : ℕ} (repeated : 0 < n) :
    numberedKey w n = w ++ '#' :: Text.decimal (n + 1) := if_neg repeated.ne'

/-- A name with a number is no other name with a number. -/
theorem numberedKey_inj {v w : Text} {m n : ℕ} (left : 0 < m) (right : 0 < n)
    (same : numberedKey v m = numberedKey w n) : v = w ∧ m = n := by
  have plain (k : ℕ) : '#' ∉ Text.decimal k := by
    intro member
    exact absurd (isDigit_of_mem_decimal member) (by decide)
  rw [numberedKey_of_pos v left, numberedKey_of_pos w right] at same
  obtain ⟨names, numbers⟩ := Text.append_cons_inj (plain _) (plain _) same
  exact ⟨names, Nat.succ.inj (Text.decimal_inj.mp numbers)⟩

/-! ## Turns -/

/-- The names that files ask for, each with the number of times that it came up before: in `used`, or in its turn. -/
def turns (used : List Text) : List Text → List (Text × ℕ)
  | [] => []
  | w :: rest => (w, used.count w) :: turns (w :: used) rest

/-- The turns of a name are numbered in a row from its count before on. -/
theorem mem_turns {used names : List Text} {w : Text} {n : ℕ} :
    (w, n) ∈ turns used names ↔ used.count w ≤ n ∧ n < used.count w + names.count w := by
  induction names generalizing used with
  | nil => simp [turns]
  | cons v rest ih =>
    rw [turns, List.mem_cons, ih, Prod.mk.injEq]
    by_cases same : w = v
    · subst same
      simp only [List.count_cons_self, true_and]
      omega
    · rw [List.count_cons_of_ne (Ne.symm same), List.count_cons_of_ne (Ne.symm same)]
      simp [same]

theorem nodup_turns (used names : List Text) : (turns used names).Nodup := by
  induction names generalizing used with
  | nil => exact List.nodup_nil
  | cons w rest ih =>
    refine List.nodup_cons.mpr ⟨?_, ih _⟩
    rw [mem_turns, List.count_cons_self]
    omega

/-- Numbered names are all different when no name is the numbered form of one that comes up often enough. -/
theorem nodup_numbered_iff (names : List Text) :
    ((turns [] names).map fun t => numberedKey t.1 t.2).Nodup ↔
      ∀ w n, 0 < n → n < names.count w → numberedKey w n ∉ names := by
  rw [List.nodup_map_iff_inj_on (nodup_turns [] names)]
  constructor
  · intro distinct w n repeated often asked
    have first : (numberedKey w n, 0) ∈ turns [] names := mem_turns.mpr (by simpa using asked)
    have later : (w, n) ∈ turns [] names := mem_turns.mpr (by simpa using often)
    have same := distinct _ first _ later (numberedKey_zero _)
    rw [← (Prod.mk.inj same).2] at repeated
    exact lt_irrefl 0 repeated
  · rintro free ⟨v, m⟩ left ⟨w, n⟩ right same
    rw [mem_turns, List.count_nil, zero_add] at left right
    dsimp only at same
    -- Two numbered names differ by `numberedKey_inj`, so only a bare one can meet a numbered one.
    rcases m.eq_zero_or_pos with rfl | repeated
    · rcases n.eq_zero_or_pos with rfl | repeated'
      · rw [numberedKey_zero, numberedKey_zero] at same
        rw [same]
      · rw [numberedKey_zero] at same
        subst same
        exact absurd (List.count_pos_iff.mp left.2) (free w n repeated' right.2)
    · rcases n.eq_zero_or_pos with rfl | repeated'
      · rw [numberedKey_zero] at same
        subst same
        exact absurd (List.count_pos_iff.mp right.2) (free v m repeated left.2)
      · obtain ⟨rfl, rfl⟩ := numberedKey_inj repeated repeated' same
        rfl

/-! ## Keys -/

theorem map_wanted_filesFrom (text : Text) (used : List Text) (found : List (ℕ × Header)) :
    (filesFrom text used found).map (·.wanted) = found.map fun e => wantedKey e.2 := by
  induction found generalizing used with
  | nil => rfl
  | cons e rest ih =>
    rw [filesFrom, List.map_cons, ih, List.map_cons]
    rfl

theorem map_key_filesFrom (text : Text) (used : List Text) (found : List (ℕ × Header)) :
    (filesFrom text used found).map (·.key) =
      (turns used (found.map fun e => wantedKey e.2)).map fun t => numberedKey t.1 t.2 := by
  induction found generalizing used with
  | nil => rfl
  | cons e rest ih => rw [filesFrom, List.map_cons, ih, List.map_cons, turns, List.map_cons]

/-- The keys of the files are pairwise different if and only if no file asks for a name with a number that another name
    reaches: one that so many files ask for. -/
theorem nodup_keys_iff (text : Text) :
    ((parse text).map (·.key)).Nodup ↔
      ∀ w n, 2 ≤ n → n ≤ ((parse text).map (·.wanted)).count w →
        w ++ '#' :: Text.decimal n ∉ (parse text).map (·.wanted) := by
  rw [parse, map_wanted_filesFrom, map_key_filesFrom, nodup_numbered_iff]
  constructor
  · intro free w n two often
    obtain ⟨k, rfl⟩ := Nat.exists_eq_add_of_le' (Nat.one_le_of_lt two)
    have repeated : 0 < k := by omega
    rw [← numberedKey_of_pos w repeated]
    exact free w k repeated often
  · intro free w n repeated often
    rw [numberedKey_of_pos w repeated]
    exact free w (n + 1) (by omega) often

/-- Of two files that ask for one name the second gets the name that a third file asks for. -/
theorem keys_clash :
    (parse (build [] [{ filename := ['a'], content := some [] }, { filename := ['a'], content := some [] },
        { filename := ['a', '#', '2'], content := some [] }])).map (·.key) =
      [['a'], ['a', '#', '2'], ['a', '#', '2']] ∧
    ¬ ((parse (build [] [{ filename := ['a'], content := some [] }, { filename := ['a'], content := some [] },
        { filename := ['a', '#', '2'], content := some [] }])).map (·.key)).Nodup := by
  have keys : (parse (build [] [{ filename := ['a'], content := some [] }, { filename := ['a'], content := some [] },
      { filename := ['a', '#', '2'], content := some [] }])).map (·.key) =
        [['a'], ['a', '#', '2'], ['a', '#', '2']] := by decide +kernel
  exact ⟨keys, by rw [keys]; decide⟩

end Collection

end Chunkwise
