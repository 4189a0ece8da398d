import Chunkwise.Collection.Header
import Chunkwise.Proofs.Text.Lines

/-!
# Finding headers

What the search for headers finds stands in the text, line by line, with something after it. And it finds every
header that is written after lines without one: such lines neither lend a header their end nor take its beginning
from it, because a header's second line is not a rule and not empty.
-/

namespace Chunkwise.Header

/-! ## Reading one header -/

theorem fields?_eq_some {ls fs : List Text} :
    fields? ls = some fs ↔ (∀ f ∈ fs, f ≠ headerRule) ∧ ∃ l more, ls = fs ++ headerRule :: [] :: l :: more := by
  induction ls generalizing fs with
  | nil => simp [fields?]
  | cons line rest ih =>
    by_cases rule : line = headerRule
    · subst rule
      constructor
      · intro found
        simp only [fields?, BEq.rfl, ↓reduceIte] at found
        split at found <;> cases found
        exact ⟨by simp, _, _, rfl⟩
      · rintro ⟨plain, l, more, is⟩
        cases fs with
        | nil =>
          obtain ⟨-, rfl⟩ := List.cons_eq_cons.mp is
          simp [fields?]
        | cons f others => exact absurd (List.cons_eq_cons.mp is).1.symm (plain f List.mem_cons_self)
    · have unruled : (line == headerRule) = false := by simpa using rule
      simp only [fields?, unruled, Bool.false_eq_true, ↓reduceIte]
      constructor
      · intro found
        split at found
        · cases found
        · obtain ⟨others, later, rfl⟩ := Option.map_eq_some_iff.mp found
          obtain ⟨plain, l, more, rfl⟩ := ih.mp later
          exact ⟨List.forall_mem_cons.mpr ⟨rule, plain⟩, l, more, rfl⟩
      · rintro ⟨plain, l, more, is⟩
        cases fs with
        | nil => exact absurd (List.cons_eq_cons.mp is).1 rule
        | cons f others =>
          obtain ⟨rfl, rfl⟩ := List.cons_eq_cons.mp is
          rw [if_neg (by simp), ih.mpr ⟨fun g member => plain g (List.mem_cons_of_mem _ member), l, more, rfl⟩]
          rfl

/-- A header is read off lines that are its own, with another line after them. -/
theorem ofLines?_eq_some {ls : List Text} {h : Header} :
    ofLines? ls = some h ↔ (∀ f ∈ h.fields, f ≠ headerRule) ∧ ∃ l more, ls = h.lines ++ l :: more := by
  obtain ⟨name, fields⟩ := h
  constructor
  · intro found
    unfold ofLines? at found
    split at found
    · rename_i first second rest
      split at found
      · rename_i marked
        simp only [Bool.and_eq_true, beq_iff_eq, List.isPrefixOf_iff_prefix] at marked
        obtain ⟨rfl, tail, rfl⟩ := marked
        obtain ⟨others, later, same⟩ := Option.map_eq_some_iff.mp found
        obtain ⟨plain, l, more, rfl⟩ := fields?_eq_some.mp later
        rw [List.drop_left, Header.mk.injEq] at same
        obtain ⟨rfl, rfl⟩ := same
        exact ⟨plain, l, more, by simp [lines]⟩
      · cases found
    · cases found
  · rintro ⟨plain, l, more, rfl⟩
    have later : fields? (fields ++ headerRule :: [] :: l :: more) = some fields :=
      fields?_eq_some.mpr ⟨plain, l, more, rfl⟩
    simp [ofLines?, lines, later]

/-! ## What is found -/

/-- What is found stands among the lines, none of its fields is a rule, and a line follows it. -/
theorem mem_scan {offset skip p : ℕ} {h : Header} {ls : List Text} (member : (p, h) ∈ scan offset skip ls) :
    (∀ f ∈ h.fields, f ≠ headerRule) ∧
      ∃ before l more, ls = before ++ (h.lines ++ l :: more) ∧ p = offset + (Text.terminated before).length := by
  induction ls generalizing offset skip with
  | nil => simp [scan] at member
  | cons line rest ih =>
    have further {skip : ℕ} (later : (p, h) ∈ scan (offset + line.length + 1) skip rest) :
        (∀ f ∈ h.fields, f ≠ headerRule) ∧ ∃ before l more, line :: rest = before ++ (h.lines ++ l :: more) ∧
          p = offset + (Text.terminated before).length := by
      obtain ⟨plain, before, l, more, rfl, rfl⟩ := ih later
      refine ⟨plain, line :: before, l, more, rfl, ?_⟩
      simp only [Text.terminated_cons, List.length_append, List.length_cons]
      omega
    cases skip with
    | succ k => exact further member
    | zero =>
      simp only [scan] at member
      split at member
      · rename_i found
        rcases List.mem_cons.mp member with same | later
        · obtain ⟨rfl, rfl⟩ := Prod.mk.inj same
          obtain ⟨plain, l, more, is⟩ := ofLines?_eq_some.mp found
          exact ⟨plain, [], l, more, is, by simp [Text.terminated]⟩
        · exact further later
      · exact further member

theorem text_eq_terminated (h : Header) : h.text = Text.terminated h.lines := rfl

/-- A header that is found ends within the text. -/
theorem le_of_mem_findAll {t : Text} {p : ℕ} {h : Header} (member : (p, h) ∈ findAll t) :
    p + h.text.length ≤ t.length := by
  obtain ⟨-, before, l, more, is, rfl⟩ := mem_scan member
  have whole := congrArg List.length (congrArg Text.terminated is)
  simp only [Text.terminated_append, Text.terminated_cons, Text.terminated_lines, List.length_append,
    List.length_cons, List.length_nil] at whole
  rw [text_eq_terminated]
  omega

/-! ## Reading on -/

/-- Lines that a header takes up are passed over. -/
theorem scan_skip (offset : ℕ) (front rest : List Text) :
    scan offset front.length (front ++ rest) = scan (offset + (Text.terminated front).length) 0 rest := by
  induction front generalizing offset with
  | nil => rfl
  | cons line more ih =>
    simp only [List.length_cons, List.cons_append, scan, ih, Text.terminated_cons, List.length_append]
    congr 1
    omega

/-- Where a text stands makes no difference to what is found in it. -/
theorem scan_shift (k offset skip : ℕ) (ls : List Text) :
    scan (k + offset) skip ls = (scan offset skip ls).map fun e => (k + e.1, e.2) := by
  induction ls generalizing offset skip with
  | nil => rfl
  | cons line rest ih =>
    have next : k + offset + line.length + 1 = k + (offset + line.length + 1) := by omega
    cases skip with
    | succ skip => simp only [scan, next, ih]
    | zero =>
      simp only [scan, next, ih]
      split <;> rfl

/-- A header that is written out is found, and the search goes on after it. -/
theorem scan_header (offset : ℕ) {h : Header} {rest : List Text} (plain : ∀ f ∈ h.fields, f ≠ headerRule)
    (some : rest ≠ []) :
    scan offset 0 (h.lines ++ rest) = (offset, h) :: scan (offset + h.text.length) 0 rest := by
  obtain ⟨l, more, rfl⟩ := List.exists_cons_of_ne_nil some
  have found : ofLines? (h.lines ++ l :: more) = .some h := ofLines?_eq_some.mpr ⟨plain, l, more, rfl⟩
  obtain ⟨tail, is⟩ : ∃ tail, h.lines = headerRule :: tail := ⟨_, rfl⟩
  rw [text_eq_terminated]
  rw [is, List.cons_append] at found ⊢
  have further : offset + headerRule.length + 1 + (Text.terminated tail).length =
      offset + (Text.terminated (headerRule :: tail)).length := by
    rw [Text.terminated_cons, List.length_append, List.length_cons]
    omega
  simp only [scan, found, is, List.length_cons, Nat.add_sub_cancel, scan_skip, further]

/-- What may follow lines so that it has no part in a header that begins before it: the end of the text or a rule
    whose next line is not empty. -/
def Opens (rest : List Text) : Prop := rest = [[]] ∨ ∃ l more, l ≠ [] ∧ rest = headerRule :: l :: more

theorem Opens.ne_nil {rest : List Text} (opens : Opens rest) : rest ≠ [] := by
  rcases opens with rfl | ⟨_, _, -, rfl⟩ <;> exact List.cons_ne_nil _ _

theorem opens_lines (h : Header) (rest : List Text) : Opens (h.lines ++ rest) :=
  Or.inr ⟨nameMarker ++ h.name, _, List.append_ne_nil_of_left_ne_nil (by decide) _, rfl⟩

private theorem fields?_append {front rest : List Text} (opens : Opens rest)
    (alone : fields? (front ++ [[]]) = none) : fields? (front ++ rest) = none := by
  induction front with
  | nil =>
    rcases opens with rfl | ⟨l, more, nonempty, rfl⟩
    · exact alone
    · cases l with
      | nil => exact absurd rfl nonempty
      | cons c l => simp [fields?]
  | cons line front ih =>
    by_cases rule : line = headerRule
    · subst rule
      cases front with
      | nil =>
        rcases opens with rfl | ⟨l, more, nonempty, rfl⟩
        · exact alone
        · rfl
      | cons x others =>
        cases x with
        | nil => cases others <;> simp [fields?] at alone
        | cons c x => simp [fields?]
    · have unruled : (line == headerRule) = false := by simpa using rule
      have later : fields? (front ++ [[]]) = none := by simpa [fields?, unruled] using alone
      simp [fields?, unruled, ih later]

private theorem ofLines?_append {line : Text} {front rest : List Text} (opens : Opens rest)
    (alone : ofLines? (line :: front ++ [[]]) = none) : ofLines? (line :: front ++ rest) = none := by
  cases front with
  | nil =>
    rcases opens with rfl | ⟨l, more, -, rfl⟩
    · exact alone
    · simp [ofLines?, show nameMarker.isPrefixOf headerRule = false by decide]
  | cons second others =>
    simp only [List.cons_append, ofLines?] at alone ⊢
    split
    · rw [if_pos ‹_›, Option.map_eq_none_iff] at alone
      rw [fields?_append opens alone]
      rfl
    · rfl

/-- What precedes lines that may follow anything is searched as if it stood alone, and those lines as if they did. -/
theorem scan_append (offset : ℕ) {front rest : List Text} (opens : Opens rest) :
    scan offset 0 (front ++ rest) =
      scan offset 0 (front ++ [[]]) ++ scan (offset + (Text.terminated front).length) 0 rest := by
  induction size : front.length using Nat.strong_induction_on generalizing offset front with
  | _ n ih =>
    cases front with
    | nil => rfl
    | cons line front =>
      cases read : ofLines? (line :: front ++ [[]]) with
      | none =>
        have further : offset + (Text.terminated (line :: front)).length =
            offset + line.length + 1 + (Text.terminated front).length := by
          rw [Text.terminated_cons, List.length_append, List.length_cons]
          omega
        have later := ih front.length (by rw [← size, List.length_cons]; omega) (offset + line.length + 1) rfl
        have unread := ofLines?_append opens read
        rw [List.cons_append] at read unread
        simp only [List.cons_append, scan, read, unread, later, further]
      | some h =>
        obtain ⟨plain, l, more, is⟩ := ofLines?_eq_some.mp read
        -- The header lies before the last line, so it is read whatever comes in that line's place.
        obtain ⟨others, last, split⟩ : ∃ others last, l :: more = others ++ [last] :=
          ⟨_, _, (List.dropLast_append_getLast (List.cons_ne_nil l more)).symm⟩
        rw [split, ← List.append_assoc] at is
        obtain ⟨whole, -⟩ := List.append_inj' is rfl
        have shorter : others.length < n := by
          have lengths := congrArg List.length whole
          simp only [lines, List.length_append, List.length_cons] at lengths size
          omega
        have further : offset + (Text.terminated (line :: front)).length =
            offset + h.text.length + (Text.terminated others).length := by
          rw [whole, Text.terminated_append, List.length_append, ← text_eq_terminated, Nat.add_assoc]
        rw [further, whole, List.append_assoc, List.append_assoc,
          scan_header offset plain (List.append_ne_nil_of_right_ne_nil others opens.ne_nil),
          scan_header offset plain (by simp), ih others.length shorter _ rfl, List.cons_append]

end Chunkwise.Header
