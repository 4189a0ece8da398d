import Chunkwise.Label
import Chunkwise.Proofs.Ascending

/-!
# Labels list the words

The labels are all non-empty words over the small letters: the shorter ones first, and those of one length in
alphabetical order. A word is a numeral in base 26 without a zero, since its digits go from one to 26. So every word has
a value of its own, and every positive number is the value of a word.
-/

namespace Chunkwise

namespace Label

/-! ## Letters -/

/-- The small letters of the alphabet. -/
def IsLetter (c : Char) : Prop := 'a'.toNat ≤ c.toNat ∧ c.toNat ≤ 'z'.toNat

/-- What a letter counts as a digit: `a` is one. -/
def digit (c : Char) : ℕ := c.toNat - 'a'.toNat + 1

section Letters

variable {place : ℕ} {c : Char}

theorem toNat_letter (small : place < 26) : (letter place).toNat = 'a'.toNat + place := by
  have alphabet : ∀ place < 26, (letter place).toNat = 'a'.toNat + place := by decide
  exact alphabet place small

theorem isLetter_letter (small : place < 26) : IsLetter (letter place) := by
  rw [IsLetter, toNat_letter small]
  exact ⟨Nat.le_add_right .., Nat.add_le_add_left (Nat.le_of_lt_succ small) 97⟩

theorem digit_letter (small : place < 26) : digit (letter place) = place + 1 := by
  rw [digit, toNat_letter small, Nat.add_sub_cancel_left]

/-- A letter is found at the place that it counts for. -/
theorem letter_of_isLetter (isLetter : IsLetter c) : c.toNat - 'a'.toNat < 26 ∧ letter (c.toNat - 'a'.toNat) = c := by
  obtain ⟨low, high⟩ := isLetter
  have place : c.toNat - 'a'.toNat < 26 := Nat.lt_succ_of_le (Nat.sub_le_sub_right high 97)
  refine ⟨place, Char.toNat_inj.mp ?_⟩
  rw [toNat_letter place, Nat.add_sub_cancel' low]

end Letters

/-! ## Words and their values -/

/-- A word: some small letters. -/
def IsWord (t : Text) : Prop := t ≠ [] ∧ ∀ c ∈ t, IsLetter c

/-- The value of a word as a numeral in base 26 with digits from one to 26. -/
def value (t : Text) : ℕ := t.foldl (fun n c => 26 * n + digit c) 0

/-- The letters that write a number: none for zero. -/
def letters (n : ℕ) : Text := lettersBefore n []

theorem ofNat_eq (index : ℕ) : ofNat index = letters (index + 1) := rfl

theorem lettersBefore_eq (n : ℕ) (tail : Text) : lettersBefore n tail = letters n ++ tail := by
  suffices ∀ front, lettersBefore n (front ++ tail) = lettersBefore n front ++ tail from this []
  intro front
  fun_induction lettersBefore n front with
  | case1 front => rw [lettersBefore, if_pos rfl]
  | case2 n front positive ih => rw [lettersBefore, if_neg positive, ← ih, List.cons_append]

theorem letters_zero : letters 0 = [] := by rw [letters, lettersBefore, if_pos rfl]

theorem letters_succ (n : ℕ) : letters (n + 1) = letters (n / 26) ++ [letter (n % 26)] := by
  rw [letters, lettersBefore, if_neg n.succ_ne_zero, lettersBefore_eq, Nat.add_sub_cancel]

theorem value_concat (t : Text) (c : Char) : value (t ++ [c]) = 26 * value t + digit c := by
  rw [value, List.foldl_append]
  rfl

/-- What is written for a number has its value. -/
theorem value_letters (n : ℕ) : value (letters n) = n := by
  induction n using Nat.strongRecOn with
  | _ n ih =>
    cases n with
    | zero => rw [letters_zero]; rfl
    | succ n =>
      rw [letters_succ, value_concat, ih (n / 26) (by omega), digit_letter (Nat.mod_lt n (by decide))]
      omega

/-- Letters are what is written for their value. -/
theorem letters_value {t : Text} (all : ∀ c ∈ t, IsLetter c) : letters (value t) = t := by
  induction t using List.reverseRecOn with
  | nil => exact letters_zero
  | append_singleton front c ih =>
    obtain ⟨before, last⟩ := List.forall_mem_append.mp all
    obtain ⟨place, is⟩ := letter_of_isLetter (last c (List.mem_singleton.mpr rfl))
    rw [value_concat, digit, ← Nat.add_assoc, letters_succ]
    have quotient : (26 * value front + (c.toNat - 'a'.toNat)) / 26 = value front := by omega
    have remainder : (26 * value front + (c.toNat - 'a'.toNat)) % 26 = c.toNat - 'a'.toNat := by omega
    rw [quotient, remainder, ih before, is]

theorem isLetter_of_mem_letters {n : ℕ} : ∀ c ∈ letters n, IsLetter c := by
  induction n using Nat.strongRecOn with
  | _ n ih =>
    cases n with
    | zero => simp [letters_zero]
    | succ n =>
      rw [letters_succ]
      refine List.forall_mem_append.mpr ⟨ih (n / 26) (by omega), ?_⟩
      simpa using isLetter_letter (Nat.mod_lt n (by decide))

theorem isWord_ofNat (index : ℕ) : IsWord (ofNat index) := by
  refine ⟨?_, isLetter_of_mem_letters⟩
  rw [ofNat_eq, letters_succ]
  simp

theorem value_ofNat (index : ℕ) : value (ofNat index) = index + 1 := value_letters (index + 1)

theorem ofNat_injective : Function.Injective ofNat := by
  intro i j same
  have values := congrArg value same
  rw [value_ofNat, value_ofNat] at values
  exact Nat.succ.inj values

/-! ## The order of words -/

/-- The order of labels: a shorter text first, and texts of one length in alphabetical order. -/
def Earlier (s t : Text) : Prop := s.length < t.length ∨ s.length = t.length ∧ Text.Before s t

end Label

/-- Of two texts of one length the first difference decides, whatever comes behind them. -/
theorem Text.Before.append {s t : Text} (before : Before s t) (same : s.length = t.length) (u v : Text) :
    Before (s ++ u) (t ++ v) := by
  induction before with
  | nil => simp at same
  | rel smaller => exact .rel smaller
  | cons _ ih => exact .cons (ih (by simpa using same))

namespace Label

variable {s t : Text} {c d : Char}

theorem Earlier.concat (earlier : Earlier s t) (c d : Char) : Earlier (s ++ [c]) (t ++ [d]) := by
  rw [Earlier, List.length_append, List.length_append, List.length_singleton, List.length_singleton]
  rcases earlier with shorter | ⟨same, before⟩
  · exact Or.inl (Nat.succ_lt_succ shorter)
  · exact Or.inr ⟨congrArg Nat.succ same, before.append same [c] [d]⟩

theorem earlier_concat_of_lt (s : Text) (smaller : c.toNat < d.toNat) : Earlier (s ++ [c]) (s ++ [d]) := by
  refine Or.inr ⟨by simp, ?_⟩
  induction s with
  | nil => exact .rel smaller
  | cons _ _ ih => exact .cons ih

/-- A smaller number is written before a greater one: its letters but the last are earlier, or else the same, and then
    the last letter decides. -/
theorem earlier_letters {m n : ℕ} (less : m < n) : Earlier (letters m) (letters n) := by
  induction n using Nat.strongRecOn generalizing m with
  | _ n ih =>
    cases n with
    | zero => exact absurd less m.not_lt_zero
    | succ n =>
      rw [letters_succ]
      cases m with
      | zero =>
        rw [letters_zero]
        exact Or.inl (by simp)
      | succ m =>
        rw [letters_succ]
        rcases Nat.lt_or_ge (m / 26) (n / 26) with front | back
        · exact (ih (n / 26) (by omega) front).concat _ _
        · have front : m / 26 = n / 26 := by omega
          rw [front]
          refine earlier_concat_of_lt _ ?_
          rw [toNat_letter (Nat.mod_lt m (by decide)), toNat_letter (Nat.mod_lt n (by decide))]
          omega

/-- Labels are the words in their order: every word is the label of exactly one index, which is one less than its
    value, and a later index has a longer label or, of the same length, one that comes later in the alphabet. -/
theorem ofNat_bijection :
    (∀ i : ℕ, ofInt i = .ok (ofNat i)) ∧
    Set.BijOn ofNat Set.univ {t | IsWord t} ∧
    Set.InvOn (fun t => value t - 1) ofNat Set.univ {t | IsWord t} ∧
    ∀ i j : ℕ, i < j → (ofNat i).length < (ofNat j).length ∨
      (ofNat i).length = (ofNat j).length ∧ Text.Before (ofNat i) (ofNat j) := by
  have inverse : Set.InvOn (fun t => value t - 1) ofNat Set.univ {t | IsWord t} := by
    constructor
    · intro i _
      show value (ofNat i) - 1 = i
      rw [value_ofNat, Nat.add_sub_cancel]
    · intro t isWord
      obtain ⟨some, all⟩ := isWord
      have positive : value t ≠ 0 := by
        intro zero
        exact some (by rw [← letters_value all, zero, letters_zero])
      show ofNat (value t - 1) = t
      rw [ofNat_eq, Nat.sub_add_cancel (Nat.pos_of_ne_zero positive), letters_value all]
  refine ⟨fun i => rfl, ?_, inverse, fun i j less => earlier_letters (Nat.succ_lt_succ less)⟩
  exact inverse.bijOn (fun i _ => isWord_ofNat i) fun t _ => Set.mem_univ (value t - 1)

example : [0, 25, 26, 701, 702].map ofNat = ["a", "z", "aa", "zz", "aaa"].map String.toList := by cbv

end Label

end Chunkwise
