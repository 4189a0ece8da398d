import Chunkwise.Pattern
import Mathlib.Tactic

/-!
# What patterns capture

Matching goes on with an ending of the text each time, and a part is captured where the matching stands. So whatever
the pattern is, a captured text is made of characters of the text that was matched.
-/

namespace Chunkwise.Pattern

variable {κ α : Type} {a : α} {s t : Text}

theorem exists_of_longestFirst {p : Char → Bool} {goal : Text → Option α} (found : longestFirst p goal s = some a) :
    ∃ rest, rest <:+ s ∧ goal rest = some a := by
  induction s with
  | nil => exact ⟨[], List.suffix_rfl, found⟩
  | cons c rest ih =>
    unfold longestFirst at found
    split at found
    · rcases (Option.orElse_eq_some ..).mp found with longer | ⟨-, here⟩
      · obtain ⟨more, ending, reached⟩ := ih longer
        exact ⟨more, ending.trans (List.suffix_cons c rest), reached⟩
      · exact ⟨_, List.suffix_rfl, here⟩
    · exact ⟨_, List.suffix_rfl, found⟩

theorem exists_of_shortestFirst {p : Char → Bool} {goal : Text → Option α} (found : shortestFirst p goal s = some a) :
    ∃ rest, rest <:+ s ∧ goal rest = some a := by
  induction s with
  | nil => exact ⟨[], List.suffix_rfl, found⟩
  | cons c rest ih =>
    unfold shortestFirst at found
    rcases (Option.orElse_eq_some ..).mp found with here | ⟨-, longer⟩
    · exact ⟨_, List.suffix_rfl, here⟩
    · split at longer
      · obtain ⟨more, ending, reached⟩ := ih longer
        exact ⟨more, ending.trans (List.suffix_cons c rest), reached⟩
      · cases longer

/-- Parts that begin within a text. -/
def Captures.Within (t : Text) (caps : Captures κ) : Prop := ∀ part ∈ caps, part.start <:+ t

/-- A way to match within a text: it goes on with an ending of the text and with parts that begin within it. -/
def Matches (t : Text) (step : Captures κ → Text → Goal κ α → Option α) : Prop :=
  ∀ {caps s goal a}, s <:+ t → Captures.Within t caps → step caps s goal = some a →
    ∃ caps' s', s' <:+ t ∧ Captures.Within t caps' ∧ goal caps' s' = some a

theorem matches_mostRounds {step : Captures κ → Text → Goal κ α → Option α} (steps : Matches t step) (rounds : ℕ) :
    Matches t (mostRounds step rounds) := by
  induction rounds with
  | zero => exact fun ending within found => ⟨_, _, ending, within, found⟩
  | succ n ih =>
    intro caps s goal a ending within found
    rcases (Option.orElse_eq_some ..).mp found with more | ⟨-, here⟩
    · obtain ⟨caps', s', ending', within', later⟩ := steps ending within more
      exact ih ending' within' later
    · exact ⟨_, _, ending, within, here⟩

theorem matches_search (p : Pattern κ) : Matches t (fun caps s (goal : Goal κ α) => p.search caps s goal) := by
  induction p with
  | empty => exact fun ending within found => ⟨_, _, ending, within, found⟩
  | one p =>
    intro caps s goal a ending within found
    cases s with
    | nil => cases found
    | cons c rest =>
      simp only [search] at found
      split at found
      · exact ⟨_, _, (List.suffix_cons c rest).trans ending, within, found⟩
      · cases found
  | run p =>
    intro caps s goal a ending within found
    obtain ⟨rest, ending', reached⟩ := exists_of_longestFirst found
    exact ⟨_, _, ending'.trans ending, within, reached⟩
  | few p =>
    intro caps s goal a ending within found
    obtain ⟨rest, ending', reached⟩ := exists_of_shortestFirst found
    exact ⟨_, _, ending'.trans ending, within, reached⟩
  | seq p q first second =>
    intro caps s goal a ending within found
    obtain ⟨caps', s', ending', within', later⟩ := first ending within found
    exact second ending' within' later
  | either p q first second =>
    intro caps s goal a ending within found
    rcases (Option.orElse_eq_some ..).mp found with left | ⟨-, right⟩
    · exact first ending within left
    · exact second ending within right
  | many p ih => exact fun ending within found => matches_mostRounds ih _ ending within found
  | capture slot p ih =>
    intro caps s goal a ending within found
    obtain ⟨caps', s', ending', within', reached⟩ := ih ending within found
    exact ⟨_, _, ending', List.forall_mem_cons.mpr ⟨ending, within'⟩, reached⟩
  | notBefore p =>
    intro caps s goal a ending within found
    simp only [search] at found
    split at found
    · cases found
    · exact ⟨_, _, ending, within, found⟩
  | atEnd =>
    intro caps s goal a ending within found
    simp only [search] at found
    split at found
    · exact ⟨_, _, ending, within, found⟩
    · cases found

variable [BEq κ] {caps : Captures κ} {p : Pattern κ}

/-- A captured text is made of characters of the text that was matched. -/
theorem subset_of_get? (matched : p.match? s = some caps) {slot : κ} (captured : caps.get? slot = some t) : t ⊆ s := by
  obtain ⟨caps', s', -, within, same⟩ := matches_search p List.suffix_rfl (List.forall_mem_nil _) matched
  cases same
  obtain ⟨part, found, rfl⟩ := Option.map_eq_some_iff.mp captured
  exact List.Subset.trans (List.take_sublist ..).subset (within part (List.mem_of_find?_eq_some found)).subset

theorem text_subset (matched : p.match? s = some caps) (slot : κ) : caps.text slot ⊆ s := by
  unfold Captures.text
  cases captured : caps.get? slot with
  | none => exact List.nil_subset s
  | some t => exact subset_of_get? matched captured

end Chunkwise.Pattern
