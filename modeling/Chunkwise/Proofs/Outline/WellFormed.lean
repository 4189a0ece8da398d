import Chunkwise.Proofs.Outline.Lines
import Chunkwise.Proofs.Outline.Nesting
import Chunkwise.Proofs.Text.Lines

/-!
# Every file has a well-formed outline

Whatever a file holds and whichever scanner reads it, its outline is made without a fault. The blocks are properly
nested runs of its lines, one for each declared function and class, and there are none only where all is blank.
-/

namespace Chunkwise

/-! ## Entries and their blocks -/

/-- The blocks of a kind, each by its name and its first line. -/
def Block.listed (kind : BlockKind) (blocks : List Block) : List (Text × ℤ) :=
  (blocks.filter (·.kind == kind)).map fun b => (b.name, b.startLine)

theorem Block.listed_map_opening (kind : BlockKind) (blocks : List Block) :
    listed kind (blocks.map opening) = listed kind blocks := by
  rw [listed, List.filter_map, List.map_map]
  rfl

theorem Block.listed_functions (ds : List Declaration) :
    listed .functionBlock (ds.map Declaration.block) =
      (ds.filterMap (·.function?)).map fun f => (f.name, (f.line : ℤ) - 1) := by
  induction ds with
  | nil => rfl
  | cons d rest ih =>
    obtain ⟨line, depth, what⟩ := d
    cases what with
    | function name manner => simpa [listed, Declaration.block, Tracker.newBlock, Declared.kind, Declared.name,
        Declaration.function?] using ih
    | classType name parents => exact ih
    | heading name => exact ih

theorem Block.listed_classes (ds : List Declaration) :
    listed .classBlock (ds.map Declaration.block) =
      (ds.filterMap (·.class?)).map fun c => (c.name, (c.line : ℤ) - 1) := by
  induction ds with
  | nil => rfl
  | cons d rest ih =>
    obtain ⟨line, depth, what⟩ := d
    cases what with
    | function name manner => exact ih
    | classType name parents => simpa [listed, Declaration.block, Tracker.newBlock, Declared.kind, Declared.name,
        Declaration.class?] using ih
    | heading name => exact ih

/-! ## Declarations of a file -/

theorem OnLines.pairwise_line_lt {i : ℕ} {findings : List Finding} (placed : OnLines i findings) :
    (declarations findings).Pairwise fun a b => a.line < b.line := by
  induction findings generalizing i with
  | nil => exact List.Pairwise.nil
  | cons f rest ih =>
    obtain ⟨here, later⟩ := placed
    cases declares : f.declaration with
    | none => simpa [declarations, declares] using ih later
    | some d =>
      have rising : (d :: declarations rest).Pairwise fun a b => a.line < b.line := by
        refine List.pairwise_cons.mpr ⟨fun e member => ?_, ih later⟩
        rw [here d declares]
        exact (later.line_lt e member).1
      simpa [declarations, declares] using rising

namespace Outline

/-- Blocks that are properly nested runs of so many lines, in the order of their first lines. -/
structure Arranged (lines : ℕ) (blocks : List Block) : Prop where
  increasing : blocks.Pairwise fun a b => a.startLine < b.startLine
  /-- A block ends before a later one begins, or the later one lies inside it and is deeper. -/
  nested : blocks.Pairwise fun a b => a.endLine < b.startLine ∨ b.endLine ≤ a.endLine ∧ a.depth < b.depth
  lines : ∀ b ∈ blocks, 0 ≤ b.startLine ∧ b.startLine ≤ b.endLine ∧ b.endLine ≤ lines - 1
  depth : ∀ b ∈ blocks, 0 ≤ b.depth
  importance : ∀ b ∈ blocks, 1 ≤ b.importance ∧ b.importance ≤ 10

structure WellFormed (content : Text) (o : Outline) : Prop where
  arranged : Arranged content.lines.length o.blocks
  /-- The functions are those that the blocks of functions begin with, though lines of blocks count from zero. -/
  functions : Block.listed .functionBlock o.blocks = o.functions.map fun f => (f.name, (f.line : ℤ) - 1)
  classes : Block.listed .classBlock o.blocks = o.classes.map fun c => (c.name, (c.line : ℤ) - 1)
  some : o.blocks ≠ [] ↔ ∃ c ∈ content, Text.isBlank c = false
  priority : 1 ≤ o.priority ∧ o.priority ≤ 10

theorem arranged_blocksOf (scanner : Scanner) (lines : List Text) (nonempty : 1 ≤ lines.length) :
    Arranged lines.length (blocksOf (declarations (scanner.findings lines)) (lines.length - 1)) := by
  obtain ⟨placed, length⟩ := scanner.onLines_findings lines
  have rising := placed.pairwise_line_lt
  have upTo : ∀ d ∈ declarations (scanner.findings lines), (d.line : ℤ) ≤ lines.length - 1 := by
    intro d member
    have := (placed.line_lt d member).2
    omega
  have leads := pairwise_leads_blocksOf rising upTo (by omega)
  have heads : ∀ b ∈ blocksOf (declarations (scanner.findings lines)) (lines.length - 1),
      ∃ d : Declaration, d.block = b.opening := by
    intro b member
    have opened := List.mem_map.mpr ⟨b, member, (rfl : b.opening = b.opening)⟩
    rw [map_opening_blocksOf rising] at opened
    obtain ⟨d, -, is⟩ := List.mem_map.mp opened
    exact ⟨d, is⟩
  refine ⟨leads.imp fun both => both.1, leads.imp fun both => both.2, ?lines, ?depth, ?importance⟩
  case lines =>
    intro b member
    obtain ⟨d, is⟩ := heads b member
    have start : (d.line : ℤ) = b.startLine := congrArg Block.startLine is
    exact ⟨by omega, ended_of_mem_blocksOf rising upTo (by omega) b member⟩
  case depth =>
    intro b member
    obtain ⟨d, is⟩ := heads b member
    have depth : (d.depth : ℤ) = b.depth := congrArg Block.depth is
    omega
  case importance =>
    intro b member
    obtain ⟨d, is⟩ := heads b member
    have rank : blockImportance d.what.name d.what.kind = b.importance := congrArg Block.importance is
    exact rank ▸ blockImportance_bounds ..

theorem arranged_wholeFile (filename : Text) {lines : List Text} (nonempty : 1 ≤ lines.length) :
    Arranged lines.length [wholeFile filename lines] where
  increasing := List.pairwise_singleton ..
  nested := List.pairwise_singleton ..
  lines := List.forall_mem_singleton.mpr ⟨le_refl 0, Int.natCast_nonneg _, by simp only [wholeFile]; omega⟩
  depth := List.forall_mem_singleton.mpr (le_refl 0)
  importance := List.forall_mem_singleton.mpr (blockImportance_bounds ..)

theorem exists_solid_iff (content : Text) : (∃ c ∈ content, Text.isBlank c = false) ↔ content.isBlankText = false := by
  simp [Text.isBlankText]

theorem wellFormed_blank (scanner : Scanner) (filename : Text) : (blank scanner filename).WellFormed [] where
  arranged := by constructor <;> simp [blank]
  functions := rfl
  classes := rfl
  some := by simp [blank]
  priority := clampRank_bounds _

theorem wellFormed_ofLines (scanner : Scanner) (filename content : Text) :
    (ofLines scanner filename content).WellFormed content := by
  let ds := declarations (scanner.findings content.lines)
  let last : ℤ := content.lines.length - 1
  have nonempty : 1 ≤ content.lines.length := by
    rw [Text.length_lines]
    omega
  have opening : (blocksOf ds last).map Block.opening = ds.map Declaration.block :=
    map_opening_blocksOf (scanner.onLines_findings content.lines).1.pairwise_line_lt
  have blocks : (ofLines scanner filename content).blocks =
      if (blocksOf ds last).isEmpty && !content.isBlankText then [wholeFile filename content.lines]
      else blocksOf ds last := rfl
  by_cases whole : ((blocksOf ds last).isEmpty && !content.isBlankText) = true
  · rw [if_pos whole] at blocks
    obtain ⟨none, solid⟩ := Bool.and_eq_true_iff.mp whole
    have undeclared : ds = [] := by
      rw [List.isEmpty_iff.mp none] at opening
      exact List.map_eq_nil_iff.mp opening.symm
    have functions : (ofLines scanner filename content).functions = ds.filterMap (·.function?) := rfl
    have classes : (ofLines scanner filename content).classes = ds.filterMap (·.class?) := rfl
    refine ⟨?_, ?_, ?_, ?_, clampRank_bounds _⟩
    · exact blocks ▸ arranged_wholeFile filename nonempty
    · rw [blocks, functions, undeclared]
      rfl
    · rw [blocks, classes, undeclared]
      rfl
    · rw [blocks, exists_solid_iff]
      simpa using solid
  · rw [if_neg whole] at blocks
    refine ⟨?_, ?_, ?_, ?_, clampRank_bounds _⟩
    · exact blocks ▸ arranged_blocksOf scanner content.lines nonempty
    · rw [blocks, ← Block.listed_map_opening, opening, Block.listed_functions]
      rfl
    · rw [blocks, ← Block.listed_map_opening, opening, Block.listed_classes]
      rfl
    · rw [blocks]
      constructor
      · intro tracked
        have declared : ds ≠ [] := fun none => tracked (List.map_eq_nil_iff.mp (by rw [opening, none]; rfl))
        obtain ⟨d, member⟩ := List.exists_mem_of_ne_nil ds declared
        obtain ⟨line, inLines, c, inLine, solid⟩ := Scanner.exists_of_mem_declarations member
        exact ⟨c, Text.mem_of_mem_splitBy inLines c inLine, solid⟩
      · intro solid none
        exact whole (by simp [none, (exists_solid_iff content).mp solid])

/-- A scanner makes a well-formed outline, or refuses the content as no source. -/
theorem ofContent_cases (scanner : Scanner) (filename content : Text) :
    (∃ o, ofContent scanner filename content = .ok o ∧ o.WellFormed content) ∨
      ofContent scanner filename content = .error (.notSource filename) := by
  unfold ofContent
  split
  · rename_i empty
    rw [List.isEmpty_iff.mp empty]
    exact Or.inl ⟨_, rfl, wellFormed_blank scanner filename⟩
  · split
    · exact Or.inr rfl
    · exact Or.inl ⟨_, rfl, wellFormed_ofLines scanner filename content⟩

/-- The scanner that is asked first for the outline of a file. -/
def chosen (r : Registry) (filename : Text) (binary : Bool) : Scanner :=
  if binary then .headings else r.scannerFor filename.baseName.suffix

variable {r : Registry} {filename content : Text} {binary : Bool}

theorem ofFile_of_ok {o : Outline} (made : ofContent (chosen r filename binary) filename content = .ok o) :
    ofFile r filename content binary = o := by
  unfold chosen at made
  simp only [ofFile, made]

theorem ofFile_of_error {fault : Fault}
    (refused : ofContent (chosen r filename binary) filename content = .error fault) :
    ofFile r filename content binary = ofLines .headings filename content := by
  unfold chosen at refused
  simp only [ofFile, refused]

/-- Every file has a well-formed outline. The scanner that is asked first makes it, or else refuses the content as no
    source; then the scanner for headings makes it, which refuses nothing. -/
theorem ofFile_wellFormed (r : Registry) (filename content : Text) (binary : Bool) :
    (ofContent (chosen r filename binary) filename content = .ok (ofFile r filename content binary) ∨
      ofContent (chosen r filename binary) filename content = .error (.notSource filename) ∧
        ofContent .headings filename content = .ok (ofFile r filename content binary)) ∧
    (ofFile r filename content binary).WellFormed content := by
  rcases ofContent_cases (chosen r filename binary) filename content with ⟨o, made, wellFormed⟩ | refused
  · rw [ofFile_of_ok made]
    exact ⟨Or.inl made, wellFormed⟩
  · have some : content.isEmpty = false := by
      by_contra empty
      rw [List.isEmpty_iff.mp (Bool.eq_true_of_not_eq_false empty)] at refused
      cases refused
    rw [ofFile_of_error refused]
    refine ⟨Or.inr ⟨refused, ?_⟩, wellFormed_ofLines .headings filename content⟩
    simp [ofContent, some, Scanner.readsSource]

end Outline

end Chunkwise
