import Chunkwise.Outline.Registry
import Chunkwise.Proofs.Text.Lines

/-!
# Where blocks begin

Every block of an outline begins on a line of the file, whichever scanner read it, and has a rank from 1 to 10. A
scanner's finding on a line declares something on that very line, and a block begins where its declaration stands.
-/

namespace Chunkwise

/-! ## Ranks -/

theorem clampRank_bounds (n : Int) : 1 ≤ clampRank n ∧ clampRank n ≤ 10 := by
  unfold clampRank
  omega

theorem blockImportance_bounds (name : Text) (kind : BlockKind) :
    1 ≤ blockImportance name kind ∧ blockImportance name kind ≤ 10 := clampRank_bounds _

/-! ## Findings on consecutive lines -/

/-- The findings stand for consecutive lines from line `i` on: what one of them declares stands on its line. -/
def OnLines (i : Nat) : List Finding → Prop
  | [] => True
  | f :: rest => (∀ d, f.declaration = some d → d.line = i) ∧ OnLines (i + 1) rest

theorem OnLines.line_lt {i : Nat} {findings : List Finding} (placed : OnLines i findings) :
    ∀ d ∈ declarations findings, i ≤ d.line ∧ d.line < i + findings.length := by
  induction findings generalizing i with
  | nil => simp [declarations]
  | cons f rest ih =>
    obtain ⟨here, later⟩ := placed
    intro d member
    obtain ⟨g, inFindings, declares⟩ := List.mem_filterMap.mp member
    rcases List.mem_cons.mp inFindings with rfl | after
    · rw [here d declares, List.length_cons]
      omega
    · have := ih later d (List.mem_filterMap.mpr ⟨g, after, declares⟩)
      rw [List.length_cons]
      omega

namespace Indented

theorem line_step {docQuote : Option Text} {i : Nat} {line : Text} {d : Declaration}
    (declares : (step docQuote i line).2.declaration = some d) : d.line = i := by
  have code : ∀ d, (codeFinding i line).declaration = some d → d.line = i := by
    intro d found
    unfold codeFinding at found
    split at found <;> cases found
    rfl
  unfold step at declares
  dsimp only at declares
  split at declares
  · cases declares
  · split at declares
    · cases declares
    · split at declares
      · cases declares
      · exact code d declares

theorem onLines_findingsFrom (docQuote : Option Text) (i : Nat) (lines : List Text) :
    OnLines i (findingsFrom docQuote i lines) ∧ (findingsFrom docQuote i lines).length = lines.length := by
  induction lines generalizing docQuote i with
  | nil => exact ⟨trivial, rfl⟩
  | cons line rest ih =>
    obtain ⟨placed, length⟩ := ih (step docQuote i line).1 (i + 1)
    exact ⟨⟨fun _ => line_step, placed⟩, by simp [findingsFrom, length]⟩

end Indented

namespace Braced

theorem line_step {inside : Inside} {i : Nat} {line : Text} {d : Declaration}
    (declares : (step inside i line).2.declaration = some d) : d.line = i := by
  unfold step at declares
  dsimp only at declares
  split at declares
  · cases declares
  · obtain ⟨what, _, rfl⟩ := Option.map_eq_some_iff.mp declares
    rfl

theorem onLines_findingsFrom (inside : Inside) (i : Nat) (lines : List Text) :
    OnLines i (findingsFrom inside i lines) ∧ (findingsFrom inside i lines).length = lines.length := by
  induction lines generalizing inside i with
  | nil => exact ⟨trivial, rfl⟩
  | cons line rest ih =>
    obtain ⟨placed, length⟩ := ih (step inside i line).1 (i + 1)
    exact ⟨⟨fun _ => line_step, placed⟩, by simp [findingsFrom, length]⟩

end Braced

namespace Headings

theorem line_finding {i : Nat} {line : Text} {d : Declaration} (declares : (finding i line).declaration = some d) :
    d.line = i := by
  unfold finding at declares
  split at declares
  · split at declares <;> cases declares
    rfl
  · cases declares

theorem onLines_findingsFrom (i : Nat) (lines : List Text) :
    OnLines i (findingsFrom i lines) ∧ (findingsFrom i lines).length = lines.length := by
  induction lines generalizing i with
  | nil => exact ⟨trivial, rfl⟩
  | cons line rest ih =>
    obtain ⟨placed, length⟩ := ih (i + 1)
    exact ⟨⟨fun _ => line_finding, placed⟩, by simp [findingsFrom, length]⟩

end Headings

/-- Whichever scanner reads the lines of a file, there is one finding for each line, on that line. -/
theorem Scanner.onLines_findings (scanner : Scanner) (lines : List Text) :
    OnLines 0 (scanner.findings lines) ∧ (scanner.findings lines).length = lines.length := by
  cases scanner with
  | indented => exact Indented.onLines_findingsFrom none 0 lines
  | braced => exact Braced.onLines_findingsFrom ⟨0, false⟩ 0 lines
  | headings => exact Headings.onLines_findingsFrom 0 lines

/-! ## Blocks and their declarations -/

/-- A block is headed by a declaration: it begins on the declaration's line and takes its rank from it. -/
def Declaration.Heads (d : Declaration) (b : Block) : Prop :=
  b.startLine = d.line ∧ b.importance = blockImportance d.what.name d.what.kind

/-- Every block that is open or closed is headed by one of the declarations. -/
def Tracker.HeadedBy (ds : List Declaration) (t : Tracker) : Prop := ∀ b ∈ t.opened ++ t.closed, ∃ d ∈ ds, d.Heads b

theorem Tracker.headedBy_track {ds : List Declaration} {t : Tracker} {d : Declaration} (inDs : d ∈ ds)
    (headed : t.HeadedBy ds) : (Declaration.track t d).HeadedBy ds := by
  intro b member
  simp only [Declaration.track, openBlock, List.cons_append, List.mem_cons, List.mem_append, List.mem_map] at member
  rcases member with rfl | staying | before | ⟨c, ending, rfl⟩
  · exact ⟨d, inDs, rfl, rfl⟩
  · exact headed b (List.mem_append_left _ ((List.dropWhile_sublist _).subset staying))
  · exact headed b (List.mem_append_right _ before)
  · exact headed c (List.mem_append_left _ ((List.takeWhile_sublist _).subset ending))

theorem Tracker.headedBy_foldl {ds rest : List Declaration} {t : Tracker} (sub : ∀ d ∈ rest, d ∈ ds)
    (headed : t.HeadedBy ds) : (rest.foldl Declaration.track t).HeadedBy ds := by
  induction rest generalizing t with
  | nil => exact headed
  | cons d more ih =>
    obtain ⟨here, later⟩ := List.forall_mem_cons.mp sub
    exact ih later (headedBy_track here headed)

/-- Every block that declarations head is headed by one of them. -/
theorem heads_of_mem_blocksOf {ds : List Declaration} {last : Int} {b : Block} (member : b ∈ blocksOf ds last) :
    ∃ d ∈ ds, d.Heads b := by
  have headed : (ds.foldl Declaration.track Tracker.empty).HeadedBy ds :=
    Tracker.headedBy_foldl (fun _ inDs => inDs) (by simp [Tracker.HeadedBy, Tracker.empty])
  have closed := (List.mergeSort_perm ..).mem_iff.mp member
  simp only [Tracker.closeAll, List.mem_append, List.mem_map] at closed
  rcases closed with before | ⟨c, ending, rfl⟩
  · exact headed b (List.mem_append_right _ before)
  · exact headed c (List.mem_append_left _ ending)

namespace Tracker

theorem blockOrder_iff {a b : Block} :
    blockOrder a b ↔ a.startLine < b.startLine ∨ a.startLine = b.startLine ∧ a.depth ≤ b.depth := by
  simp only [blockOrder, Bool.or_eq_true, decide_eq_true_eq, Bool.and_eq_true, beq_iff_eq]

theorem blockOrder_trans (a b c : Block) (first : blockOrder a b) (second : blockOrder b c) : blockOrder a c := by
  rw [blockOrder_iff] at *
  omega

theorem blockOrder_total (a b : Block) : (blockOrder a b || blockOrder b a) = true := by
  rw [Bool.or_eq_true, blockOrder_iff, blockOrder_iff]
  omega

/-- Closed blocks are listed by their first lines, and of one first line by their depths. -/
theorem pairwise_sorted (t : Tracker) :
    t.sorted.Pairwise fun a b => a.startLine < b.startLine ∨ a.startLine = b.startLine ∧ a.depth ≤ b.depth :=
  (List.pairwise_mergeSort blockOrder_trans blockOrder_total t.closed).imp blockOrder_iff.mp

end Tracker

/-- Blocks are listed in the order of their first lines. -/
theorem pairwise_blocksOf (ds : List Declaration) (last : Int) :
    (blocksOf ds last).Pairwise fun a b => a.startLine ≤ b.startLine := by
  refine (Tracker.pairwise_sorted _).imp ?_
  omega

/-! ## Outlines -/

/-- A block lies within a file of so many lines and has a rank from 1 to 10. -/
structure Block.Within (lines : Nat) (b : Block) : Prop where
  start_nonneg : 0 ≤ b.startLine
  start_lt : b.startLine < lines
  importance_pos : 1 ≤ b.importance
  importance_le : b.importance ≤ 10

namespace Outline

theorem within_ofLines (scanner : Scanner) (filename content : Text) :
    ∀ b ∈ (ofLines scanner filename content).blocks, b.Within content.lines.length := by
  have tracked : ∀ b ∈ blocksOf (declarations (scanner.findings content.lines)) (content.lines.length - 1),
      b.Within content.lines.length := by
    intro b member
    obtain ⟨d, inDs, line, rank⟩ := heads_of_mem_blocksOf member
    obtain ⟨placed, length⟩ := scanner.onLines_findings content.lines
    have below := (placed.line_lt d inDs).2
    have bounds := blockImportance_bounds d.what.name d.what.kind
    rw [← rank] at bounds
    exact ⟨by omega, by omega, bounds.1, bounds.2⟩
  have whole : (wholeFile filename content.lines).Within content.lines.length := by
    have bounds := blockImportance_bounds filename.baseName .sectionBlock
    have some := Text.length_lines content
    exact ⟨le_refl 0, by simp only [wholeFile]; omega, bounds.1, bounds.2⟩
  intro b member
  simp only [ofLines] at member
  split at member
  · obtain rfl : b = _ := by simpa using member
    exact whole
  · exact tracked b member

/-- The outline of a file is blank or read off its lines, whichever scanner was chosen. -/
theorem ofFile_cases (r : Registry) (filename content : Text) (binary : Bool) :
    ∃ scanner, ofFile r filename content binary = blank scanner filename ∨
      ofFile r filename content binary = ofLines scanner filename content := by
  have made (scanner : Scanner) (outline : Outline) (accepted : ofContent scanner filename content = .ok outline) :
      outline = blank scanner filename ∨ outline = ofLines scanner filename content := by
    unfold ofContent at accepted
    split at accepted
    · exact Or.inl (Except.ok.inj accepted).symm
    · split at accepted <;> cases accepted
      exact Or.inr rfl
  unfold ofFile
  dsimp only
  split
  · exact ⟨_, made _ _ ‹_›⟩
  · exact ⟨.headings, Or.inr rfl⟩

/-- Every block in the outline of a file lies within the file. -/
theorem within_ofFile (r : Registry) (filename content : Text) (binary : Bool) :
    ∀ b ∈ (ofFile r filename content binary).blocks, b.Within content.lines.length := by
  obtain ⟨scanner, same | same⟩ := ofFile_cases r filename content binary
  · simp [same, blank]
  · rw [same]
    exact within_ofLines scanner filename content

/-- The blocks in the outline of a file are listed in the order of their first lines. -/
theorem pairwise_ofFile (r : Registry) (filename content : Text) (binary : Bool) :
    (ofFile r filename content binary).blocks.Pairwise fun a b => a.startLine ≤ b.startLine := by
  obtain ⟨scanner, same | same⟩ := ofFile_cases r filename content binary
  · simp [same, blank]
  · rw [same]
    simp only [ofLines]
    split
    · exact List.pairwise_singleton _ _
    · exact pairwise_blocksOf _ _

end Outline

end Chunkwise
