import Chunkwise.Proofs.Outline.Blocks
import Chunkwise.Proofs.Text.Blank

/-!
# Lines that declare something

A scanner takes what it finds on a line from the characters of that line. In particular a line of blanks declares
nothing, whichever scanner reads it and whatever is open before it.
-/

namespace Chunkwise

/-! ## Code without comments -/

namespace Comments

/-- Nothing but comments is taken out of a line. -/
theorem mem_of_mem_strip {c : Char} {left : Text} {inBlock : Bool} (member : c ∈ (strip left inBlock).1) :
    c ∈ left := by
  fun_induction strip left inBlock with
  | case1 => cases member
  | case2 => cases member
  | case3 _ _ stop _ ih => exact List.mem_of_mem_drop (ih member)
  | case4 _ _ _ i _ => exact List.mem_of_mem_take member
  | case5 => exact member
  | case6 =>
    rename_i after ih
    rw [after] at ih
    rcases List.mem_append.mp member with front | later
    · exact List.mem_of_mem_take front
    · exact List.mem_of_mem_drop (ih later)

end Comments

/-! ## Findings and their lines -/

variable {f : Finding} {d : Declaration} {i : ℕ} {line : Text} {lines : List Text}

namespace Indented

theorem exists_of_mem_findingsFrom {docQuote : Option Text} (member : f ∈ findingsFrom docQuote i lines) :
    ∃ line ∈ lines, ∃ docQuote i, f = (step docQuote i line).2 := by
  induction lines generalizing docQuote i with
  | nil => cases member
  | cons line rest ih =>
    rcases List.mem_cons.mp member with rfl | later
    · exact ⟨line, List.mem_cons_self, docQuote, i, rfl⟩
    · obtain ⟨found, inRest, same⟩ := ih later
      exact ⟨found, List.mem_cons_of_mem _ inRest, same⟩

theorem strip_ne_nil {docQuote : Option Text} (declares : (step docQuote i line).2.declaration = some d) :
    line.strip ≠ [] := by
  intro blank
  cases docQuote <;> simp [step, blank, Finding.none] at declares

end Indented

namespace Braced

theorem exists_of_mem_findingsFrom {inside : Inside} (member : f ∈ findingsFrom inside i lines) :
    ∃ line ∈ lines, ∃ inside i, f = (step inside i line).2 := by
  induction lines generalizing inside i with
  | nil => cases member
  | cons line rest ih =>
    rcases List.mem_cons.mp member with rfl | later
    · exact ⟨line, List.mem_cons_self, inside, i, rfl⟩
    · obtain ⟨found, inRest, same⟩ := ih later
      exact ⟨found, List.mem_cons_of_mem _ inRest, same⟩

theorem strip_ne_nil {inside : Inside} (declares : (step inside i line).2.declaration = some d) :
    (Comments.strip line inside.comment).1.strip ≠ [] := by
  intro blank
  simp [step, blank, Finding.none] at declares

end Braced

namespace Headings

theorem exists_of_mem_findingsFrom (member : f ∈ findingsFrom i lines) : ∃ line ∈ lines, ∃ i, f = finding i line := by
  induction lines generalizing i with
  | nil => cases member
  | cons line rest ih =>
    rcases List.mem_cons.mp member with rfl | later
    · exact ⟨line, List.mem_cons_self, i, rfl⟩
    · obtain ⟨found, inRest, same⟩ := ih later
      exact ⟨found, List.mem_cons_of_mem _ inRest, same⟩

theorem strip_ne_nil (declares : (finding i line).declaration = some d) : line.strip ≠ [] := by
  intro blank
  have none : heading? [] = none := rfl
  simp [finding, blank, none, Finding.none] at declares

end Headings

/-- A declaration stands on a line that is not blank. -/
theorem Scanner.exists_of_mem_declarations {scanner : Scanner}
    (member : d ∈ declarations (scanner.findings lines)) : ∃ line ∈ lines, ∃ c ∈ line, Text.isBlank c = false := by
  obtain ⟨f, inFindings, declares⟩ := List.mem_filterMap.mp member
  cases scanner with
  | indented =>
    obtain ⟨line, inLines, docQuote, i, rfl⟩ := Indented.exists_of_mem_findingsFrom inFindings
    exact ⟨line, inLines, Text.exists_of_strip_ne_nil (Indented.strip_ne_nil declares)⟩
  | braced =>
    obtain ⟨line, inLines, inside, i, rfl⟩ := Braced.exists_of_mem_findingsFrom inFindings
    obtain ⟨c, inCode, solid⟩ := Text.exists_of_strip_ne_nil (Braced.strip_ne_nil declares)
    exact ⟨line, inLines, c, Comments.mem_of_mem_strip inCode, solid⟩
  | headings =>
    obtain ⟨line, inLines, i, rfl⟩ := Headings.exists_of_mem_findingsFrom inFindings
    exact ⟨line, inLines, Text.exists_of_strip_ne_nil (Headings.strip_ne_nil declares)⟩

end Chunkwise
