import Chunkwise.Pass
import Chunkwise.Proofs.Boundary.Lines
import Chunkwise.Proofs.Boundary.Placement
import Chunkwise.Proofs.Collection.Grammar
import Chunkwise.Proofs.Keyed
import Chunkwise.Proofs.Outline.Blocks
import Mathlib.Data.Prod.Lex

/-!
# A plan goes through the files one by one

The plan of a collection is one list, sorted by estimated places that may coincide with the ends of files. Yet the
boundaries of each file stand together in it, between the file's start and its end: a place never leaves its file, the
files follow each other, and at one place the file comes before anything else.
-/

namespace Chunkwise.Boundary

/-! ## The order of the plan -/

/-- What the order of the plan looks at. -/
def Placed.key (p : Placed) : ℤ ×ₗ ℕ ×ₗ ℕ ×ₗ ℕ :=
  toLex (p.boundary.position, toLex (p.file, toLex (p.boundary.kind.rank, p.block)))

theorem Placed.key_lt (a b : Placed) : a.key < b.key ↔
    a.boundary.position < b.boundary.position ∨ a.boundary.position = b.boundary.position ∧
      (a.file < b.file ∨ a.file = b.file ∧ (a.boundary.kind.rank < b.boundary.kind.rank ∨
        a.boundary.kind.rank = b.boundary.kind.rank ∧ a.block < b.block)) := by
  simp only [key, Prod.Lex.toLex_lt_toLex]

theorem Placed.le_iff (a b : Placed) : a.le b ↔ a.key ≤ b.key := by
  simp only [key, Prod.Lex.toLex_le_toLex]
  unfold Placed.le
  split_ifs <;> simp only [decide_eq_true_eq] <;> omega

/-- Sorting gives the one arrangement in which the keys grow. -/
theorem mergeSort_eq {placed sorted : List Placed} (perm : sorted.Perm placed)
    (ordered : sorted.Pairwise fun a b => a.key < b.key) : placed.mergeSort Placed.le = sorted := by
  have byKey : Placed.le = fun a b => decide (a.key ≤ b.key) := by
    funext a b
    rw [Bool.eq_iff_iff, Placed.le_iff, decide_eq_true_eq]
  have distinct : (sorted.map Placed.key).Nodup := List.pairwise_map.mpr (ordered.imp ne_of_lt)
  have same : (placed.mergeSort Placed.le).Perm sorted := (List.mergeSort_perm ..).trans perm.symm
  rw [byKey] at same ⊢
  -- The order of the plan compares keys only, so it is antisymmetric among boundaries with different keys.
  refine List.Perm.eq_of_pairwise ?_ (List.pairwise_mergeSort' (fun a b : Placed => a.key ≤ b.key) placed)
    (ordered.imp le_of_lt) same
  intro a b inA inB before after
  exact List.inj_on_of_nodup_map distinct (same.mem_iff.mp inA) inB (le_antisymm before after)

/-! ## The boundaries of one file -/

/-- The boundary at the start of a file. -/
def startMark (file : SourceFile) : Boundary := ⟨.fileStart, file.start, file.key, fileStartImportance, none⟩

/-- The boundary at the end of a file. -/
def endMark (file : SourceFile) : Boundary := ⟨.fileEnd, file.stop, file.key, fileEndImportance, none⟩

/-- The boundary at the place of a block. -/
def mark (text : Text) (file : SourceFile) (block : Block) : Boundary :=
  ⟨.ofBlock block.kind, lineStart text file (entryLine text file block), file.key, block.importance, some block.name⟩

/-- The blocks that reach the threshold, each with its number. -/
def important (threshold : ℤ) (blocks : List Block) : List (Block × ℕ) :=
  blocks.zipIdx.filter fun m => threshold ≤ m.1.importance

/-- A block has an earlier place than another one, or the same place and a smaller number. -/
def Precedes (text : Text) (file : SourceFile) (m n : Block × ℕ) : Prop :=
  (mark text file m.1).position < (mark text file n.1).position ∨
    (mark text file m.1).position = (mark text file n.1).position ∧ m.2 < n.2

/-- What the order of the blocks of one file looks at. -/
def markKey (text : Text) (file : SourceFile) (m : Block × ℕ) : ℤ ×ₗ ℕ := toLex ((mark text file m.1).position, m.2)

/-- The boundaries of one file: its start, then one boundary for each block that reaches the threshold, in the file and
    ordered by place and then by block, then its end. -/
def IsGroup (text : Text) (threshold : ℤ) (blocks : List Block) (file : SourceFile) (group : List Boundary) : Prop :=
  ∃ marks : List (Block × ℕ),
    group = startMark file :: marks.map (fun m => mark text file m.1) ++ [endMark file] ∧
    marks.Perm (important threshold blocks) ∧
    (∀ m ∈ marks, ofBlock text file m.1 = .ok (mark text file m.1) ∧
      file.start ≤ (mark text file m.1).position ∧ (mark text file m.1).position ≤ file.stop) ∧
    marks.Pairwise (Precedes text file)

variable {text : Text} {file : SourceFile} {threshold : ℤ}

theorem mem_important {blocks : List Block} {m : Block × ℕ} (member : m ∈ important threshold blocks) :
    m.1 ∈ blocks ∧ threshold ≤ m.1.importance := by
  obtain ⟨inBlocks, reaches⟩ := List.mem_filter.mp member
  exact ⟨List.fst_mem_of_mem_zipIdx inBlocks, by simpa using reaches⟩

theorem map_important (threshold : ℤ) (blocks : List Block) :
    (important threshold blocks).map (·.1) = blocks.filter fun block => threshold ≤ block.importance := by
  have first := List.zipIdx_map_fst 0 blocks
  conv_rhs => rw [← first, List.filter_map]
  rfl

theorem pairwise_important (threshold : ℤ) (blocks : List Block) :
    (important threshold blocks).Pairwise fun m n => m.2 < n.2 := by
  refine List.Pairwise.filter _ (List.pairwise_map.mp ?_)
  rw [List.zipIdx_map_snd]
  exact List.pairwise_lt_range'

theorem ofBlock_eq_ok (inside : file.Inside text.length) (proper : file.start ≤ file.stop) {block : Block}
    (range : InRange text file (entryLine text file block)) : ofBlock text file block = .ok (mark text file block) := by
  have place := (linePosition_eq_ok (inside.covers proper)).mpr ⟨range, rfl⟩
  rw [ofBlock, place]
  rfl

/-- The lines that a file can have are in range when the text is short enough. -/
theorem inRange_entryLine {k : ℕ} (inside : file.Inside text.length) (proper : file.start ≤ file.stop)
    (short : text.length < 2 ^ k) (range : 2 * k + 2 < 1024) {block : Block} (within : block.Within (text.length + 1)) :
    InRange text file (entryLine text file block) := by
  obtain ⟨p, placed⟩ := linePosition_total inside (entryLine_le file within) short range
  exact ((linePosition_eq_ok (inside.covers proper)).mp placed).1

/-- Numbered blocks can be put in the order of their places and numbers. -/
theorem exists_precedes (text : Text) (file : SourceFile) {blocks : List (Block × ℕ)}
    (numbered : blocks.Pairwise fun m n => m.2 < n.2) :
    ∃ marks : List (Block × ℕ), marks.Perm blocks ∧ marks.Pairwise (Precedes text file) := by
  have sorted := List.pairwise_mergeSort' (fun m n => markKey text file m ≤ markKey text file n) blocks
  have perm := List.mergeSort_perm blocks fun m n => decide (markKey text file m ≤ markKey text file n)
  have numbers := (perm.pairwise_iff fun differ => differ.symm).mpr (numbered.imp ne_of_lt)
  refine ⟨_, perm, (sorted.and numbers).imp ?_⟩
  rintro m n ⟨order, differ⟩
  rcases Prod.Lex.toLex_le_toLex.mp order with less | ⟨same, smaller⟩
  · exact Or.inl less
  · exact Or.inr ⟨same, lt_of_le_of_ne smaller differ⟩

theorem exists_isGroup (inside : file.Inside text.length) (proper : file.start ≤ file.stop) {blocks : List Block}
    (range : ∀ block ∈ blocks, threshold ≤ block.importance → InRange text file (entryLine text file block)) :
    ∃ group, IsGroup text threshold blocks file group := by
  obtain ⟨marks, perm, sorted⟩ := exists_precedes text file (pairwise_important threshold blocks)
  refine ⟨_, marks, rfl, perm, ?_, sorted⟩
  intro m member
  obtain ⟨inBlocks, reaches⟩ := mem_important (perm.mem_iff.mp member)
  exact ⟨ofBlock_eq_ok inside proper (range m.1 inBlocks reaches), lineStart_bounds (inside.covers proper) _⟩

/-- A boundary of a file marks its start, its end or one of its blocks. -/
theorem IsGroup.cases_of_mem {threshold : ℤ} {blocks : List Block} {group : List Boundary} {b : Boundary}
    (isGroup : IsGroup text threshold blocks file group) (member : b ∈ group) :
    b = startMark file ∨ b = endMark file ∨ ∃ block ∈ blocks, b = mark text file block := by
  obtain ⟨marks, rfl, perm, -, -⟩ := isGroup
  simp only [List.cons_append, List.mem_cons, List.mem_append, List.mem_map, List.not_mem_nil, or_false] at member
  rcases member with rfl | ⟨m, inMarks, rfl⟩ | rfl
  · exact Or.inl rfl
  · exact Or.inr (Or.inr ⟨m.1, (mem_important (perm.mem_iff.mp inMarks)).1, rfl⟩)
  · exact Or.inr (Or.inl rfl)

/-- Blocks by first line are met in their own order. -/
theorem IsGroup.eq_of_pairwise {blocks : List Block} {group : List Boundary} (inside : file.Inside text.length)
    (proper : file.start ≤ file.stop) (ordered : blocks.Pairwise fun a b => a.startLine ≤ b.startLine)
    (isGroup : IsGroup text threshold blocks file group) :
    group = startMark file :: (blocks.filter fun block => threshold ≤ block.importance).map (mark text file) ++
      [endMark file] := by
  obtain ⟨marks, rfl, perm, -, sorted⟩ := isGroup
  have lines : (important threshold blocks).Pairwise fun m n => m.1.startLine ≤ n.1.startLine := by
    have listed := ordered.filter fun block => threshold ≤ block.importance
    rw [← map_important] at listed
    exact (List.pairwise_map (f := Prod.fst)).mp listed
  have inOrder : (important threshold blocks).Pairwise (Precedes text file) := by
    refine (lines.and (pairwise_important threshold blocks)).imp ?_
    rintro m n ⟨line, number⟩
    rcases (lineStart_mono (inside.covers proper) (entryLine_mono line)).lt_or_eq with less | same
    · exact Or.inl less
    · exact Or.inr ⟨same, number⟩
  have same : marks = important threshold blocks := by
    refine List.Perm.eq_of_pairwise ?_ sorted inOrder perm
    intro m n _ _ before after
    unfold Precedes at before after
    omega
  rw [same, ← map_important, List.map_map]
  rfl

/-- A higher threshold takes the less important blocks out of the boundaries of a file. -/
theorem IsGroup.filter {higher : ℤ} (raised : threshold ≤ higher) {blocks : List Block} {group : List Boundary}
    (isGroup : IsGroup text threshold blocks file group) :
    IsGroup text higher blocks file
      (group.filter fun b => b.kind = .fileStart ∨ b.kind = .fileEnd ∨ higher ≤ b.importance) := by
  obtain ⟨marks, rfl, perm, placed, sorted⟩ := isGroup
  refine ⟨marks.filter fun m => higher ≤ m.1.importance, ?_, ?_, ?_, sorted.filter _⟩
  · have blockKind : ∀ kind, BoundaryKind.ofBlock kind ≠ .fileStart ∧ BoundaryKind.ofBlock kind ≠ .fileEnd := by
      intro kind
      cases kind <;> decide
    simp [startMark, endMark, List.filter_map, Function.comp_def, mark, blockKind]
  · have twice : important higher blocks = (important threshold blocks).filter fun m => higher ≤ m.1.importance := by
      rw [important, important, List.filter_filter]
      refine List.filter_congr fun m _ => ?_
      by_cases reaches : higher ≤ m.1.importance
      · simp [reaches, raised.trans reaches]
      · simp [reaches]
    rw [twice]
    exact perm.filter _
  · exact fun m member => placed m (List.mem_of_mem_filter member)

/-! ## The boundaries of files -/

/-- The boundary of a numbered block in the order of the plan. -/
def placedMark (text : Text) (file : SourceFile) (order : ℕ) (m : Block × ℕ) : Placed :=
  ⟨mark text file m.1, order, m.2 + 1⟩

/-- The boundaries of one file in the order of the plan. -/
def arrange (text : Text) (file : SourceFile) (order : ℕ) (marks : List (Block × ℕ)) : List Placed :=
  ⟨startMark file, order, 0⟩ :: marks.map (placedMark text file order) ++ [⟨endMark file, order, 0⟩]

theorem rank_placedMark (order : ℕ) (m : Block × ℕ) : (placedMark text file order m).boundary.kind.rank = 1 := by
  have block : ∀ kind, (BoundaryKind.ofBlock kind).rank = 1 := by
    intro kind
    cases kind <;> rfl
  exact block m.1.kind

theorem placedBlocks_eq (order number : ℕ) {blocks : List Block}
    (placed : ∀ block ∈ blocks, threshold ≤ block.importance → ofBlock text file block = .ok (mark text file block)) :
    placedBlocks text file order threshold number blocks =
      .ok (((blocks.zipIdx number).filter fun m => threshold ≤ m.1.importance).map (placedMark text file order)) := by
  induction blocks generalizing number with
  | nil => rfl
  | cons block rest ih =>
    obtain ⟨here, later⟩ := List.forall_mem_cons.mp placed
    rw [placedBlocks, ih (number + 1) later, List.zipIdx_cons]
    by_cases reaches : threshold ≤ block.importance
    · rw [if_neg (not_lt.mpr reaches), List.filter_cons_of_pos (by simpa using reaches), here reaches]
      rfl
    · rw [if_pos (not_le.mp reaches), List.filter_cons_of_neg (by simpa using reaches)]

theorem placedFile_eq (order : ℕ) {blocks : List Block}
    (placed : ∀ m ∈ important threshold blocks, ofBlock text file m.1 = .ok (mark text file m.1)) :
    placedFile text file order threshold blocks = .ok (arrange text file order (important threshold blocks)) := by
  have each : ∀ block ∈ blocks, threshold ≤ block.importance →
      ofBlock text file block = .ok (mark text file block) := by
    intro block member reaches
    have listed : block ∈ (important threshold blocks).map (·.1) := by
      rw [map_important]
      exact List.mem_filter.mpr ⟨member, by simpa using reaches⟩
    obtain ⟨m, inImportant, rfl⟩ := List.mem_map.mp listed
    exact placed m inImportant
  rw [placedFile, placedBlocks_eq order 0 each]
  rfl

theorem mem_arrange {order : ℕ} {marks : List (Block × ℕ)} (proper : file.start ≤ file.stop)
    (within : ∀ m ∈ marks, file.start ≤ (mark text file m.1).position ∧ (mark text file m.1).position ≤ file.stop) :
    ∀ p ∈ arrange text file order marks,
      p.file = order ∧ file.start ≤ p.boundary.position ∧ p.boundary.position ≤ file.stop := by
  simp only [arrange, List.cons_append, List.mem_cons, List.mem_append, List.mem_map, List.not_mem_nil, or_false]
  rintro p (rfl | ⟨m, member, rfl⟩ | rfl)
  · exact ⟨rfl, le_refl _, proper⟩
  · exact ⟨rfl, within m member⟩
  · exact ⟨rfl, proper, le_refl _⟩

theorem pairwise_arrange {order : ℕ} {marks : List (Block × ℕ)} (proper : file.start ≤ file.stop)
    (within : ∀ m ∈ marks, file.start ≤ (mark text file m.1).position ∧ (mark text file m.1).position ≤ file.stop)
    (sorted : marks.Pairwise (Precedes text file)) :
    (arrange text file order marks).Pairwise fun a b => a.key < b.key := by
  have blocks : (marks.map (placedMark text file order)).Pairwise fun a b => a.key < b.key := by
    refine List.pairwise_map.mpr (sorted.imp ?_)
    intro m n precedes
    rw [Placed.key_lt, rank_placedMark, rank_placedMark]
    simp only [placedMark, true_and]
    unfold Precedes at precedes
    omega
  refine List.pairwise_append.mpr ⟨List.pairwise_cons.mpr ⟨?_, blocks⟩, List.pairwise_singleton _ _, ?_⟩
  · intro p member
    obtain ⟨m, inMarks, rfl⟩ := List.mem_map.mp member
    have low := (within m inMarks).1
    rw [Placed.key_lt, rank_placedMark]
    simp only [placedMark, startMark, BoundaryKind.rank, true_and]
    omega
  · intro p member q last
    obtain rfl := List.mem_singleton.mp last
    rcases List.mem_cons.mp member with rfl | later
    · rw [Placed.key_lt]
      simp only [startMark, endMark, BoundaryKind.rank, true_and]
      omega
    · obtain ⟨m, inMarks, rfl⟩ := List.mem_map.mp later
      have high := (within m inMarks).2
      rw [Placed.key_lt, rank_placedMark]
      simp only [placedMark, endMark, BoundaryKind.rank, true_and]
      omega

/-- The boundaries of files that follow each other, and the order in which their keys grow. -/
theorem placedFiles_eq {blocks : Keyed (List Block)} {files : List SourceFile} {groupOf : SourceFile → List Boundary}
    {first last : ℤ} (chain : Contiguous SourceFile.start SourceFile.stop first last files)
    (isGroup : ∀ file ∈ files, IsGroup text threshold ((blocks.get? file.key).getD []) file (groupOf file))
    (order : ℕ) :
    ∃ placed sorted : List Placed, placedFiles text threshold blocks order files = .ok placed ∧ sorted.Perm placed ∧
      sorted.Pairwise (fun a b => a.key < b.key) ∧ sorted.map (·.boundary) = files.flatMap groupOf ∧
      ∀ p ∈ sorted, order ≤ p.file ∧ first ≤ p.boundary.position := by
  induction files generalizing first order with
  | nil => exact ⟨[], [], rfl, .refl _, .nil, rfl, by simp⟩
  | cons file rest ih =>
    obtain ⟨rfl, proper, after⟩ := chain
    obtain ⟨here, later⟩ := List.forall_mem_cons.mp isGroup
    obtain ⟨marks, group, perm, each, growing⟩ := here
    obtain ⟨others, sorted, more, permOthers, grows, boundaries, beyond⟩ := ih after later (order + 1)
    have within := fun m member => (each m member).2
    have own : placedFile text file order threshold ((blocks.get? file.key).getD []) =
        .ok (arrange text file order (important threshold ((blocks.get? file.key).getD []))) :=
      placedFile_eq order fun m member => (each m (perm.mem_iff.mpr member)).1
    refine ⟨_, arrange text file order marks ++ sorted,
      Fault.bind_ok.mpr ⟨_, own, Fault.bind_ok.mpr ⟨others, more, rfl⟩⟩, ?_, ?_, ?_, ?_⟩
    · exact List.Perm.append (((perm.map _).cons _).append_right _) permOthers
    · refine List.pairwise_append.mpr ⟨pairwise_arrange proper within growing, grows, ?_⟩
      -- A later file begins where this one ends, and comes after it at one place.
      intro p inFile q later
      obtain ⟨number, -, high⟩ := mem_arrange proper within p inFile
      obtain ⟨behind, low⟩ := beyond q later
      rw [Placed.key_lt]
      omega
    · rw [List.map_append, boundaries, List.flatMap_cons, group]
      simp [arrange, placedMark, Function.comp_def]
    · intro p member
      rcases List.mem_append.mp member with inFile | later
      · obtain ⟨rfl, low, -⟩ := mem_arrange proper within p inFile
        exact ⟨le_refl _, low⟩
      · obtain ⟨behind, low⟩ := beyond p later
        exact ⟨by omega, proper.trans low⟩

/-- The plan of files that follow each other is made of the boundaries of one file after the other. -/
theorem plan_eq {blocks : Keyed (List Block)} {files : List SourceFile} {groupOf : SourceFile → List Boundary}
    {first last : ℤ} (chain : Contiguous SourceFile.start SourceFile.stop first last files)
    (isGroup : ∀ file ∈ files, IsGroup text threshold ((blocks.get? file.key).getD []) file (groupOf file)) :
    plan text files blocks threshold = .ok (files.flatMap groupOf) ∧
      ((files.flatMap groupOf).map (·.position)).Pairwise (· ≤ ·) := by
  obtain ⟨placed, sorted, found, perm, grows, boundaries, -⟩ := placedFiles_eq chain isGroup 0
  rw [← boundaries]
  constructor
  · refine Fault.bind_ok.mpr ⟨placed, found, ?_⟩
    rw [mergeSort_eq perm grows]
    rfl
  · rw [List.map_map]
    refine List.pairwise_map.mpr (grows.imp ?_)
    intro p q less
    rcases (Placed.key_lt p q).mp less with before | ⟨same, -⟩
    · exact le_of_lt before
    · exact le_of_eq same

/-! ## The plan of a collection -/

theorem proper_of_mem_parse : ∀ file ∈ Collection.parse text, file.start ≤ file.stop := by
  obtain ⟨first, chain⟩ := Collection.contiguous_parse text
  exact fun file member => (chain.bounds file member).2.1

theorem exists_groupOf (text : Text) (threshold : ℤ) (blocks : Keyed (List Block))
    (range : ∀ file ∈ Collection.parse text, ∀ block ∈ (blocks.get? file.key).getD [],
      threshold ≤ block.importance → InRange text file (entryLine text file block)) :
    ∃ groupOf : SourceFile → List Boundary, ∀ file ∈ Collection.parse text,
      IsGroup text threshold ((blocks.get? file.key).getD []) file (groupOf file) := by
  have each : ∀ file ∈ Collection.parse text, ∃ group,
      IsGroup text threshold ((blocks.get? file.key).getD []) file group := fun file member =>
    exists_isGroup (Collection.inside_of_mem_parse file member) (proper_of_mem_parse file member) (range file member)
  choose! groupOf isGroup using each
  exact ⟨groupOf, isGroup⟩

/-- The boundaries of a short enough collection are planned, and none of them is more important than the start of a
    file. -/
theorem plan_total (threshold : ℤ) {k : ℕ} (short : text.length < 2 ^ k) (range : 2 * k + 2 < 1024)
    {blocks : Keyed (List Block)} (within : ∀ e ∈ blocks, ∀ b ∈ e.2, b.Within (text.length + 1)) :
    ∃ boundaries, plan text (Collection.parse text) blocks threshold = .ok boundaries ∧
      ∀ b ∈ boundaries, b.importance ≤ fileStartImportance := by
  have known : ∀ file : SourceFile, ∀ block ∈ (blocks.get? file.key).getD [], block.Within (text.length + 1) := by
    intro file block member
    cases found : blocks.get? file.key with
    | none => simp [found] at member
    | some own =>
      rw [found] at member
      exact within _ (Keyed.mem_of_get? found) block member
  obtain ⟨first, chain⟩ := Collection.contiguous_parse text
  obtain ⟨groupOf, isGroup⟩ := exists_groupOf text threshold blocks fun file member block inBlocks _ =>
    inRange_entryLine (Collection.inside_of_mem_parse file member) (proper_of_mem_parse file member) short range
      (known file block inBlocks)
  refine ⟨_, (plan_eq chain isGroup).1, ?_⟩
  intro b member
  obtain ⟨file, inFiles, inGroup⟩ := List.mem_flatMap.mp member
  rcases (isGroup file inFiles).cases_of_mem inGroup with rfl | rfl | ⟨block, inBlocks, rfl⟩
  · exact le_refl _
  · show fileEndImportance ≤ fileStartImportance
    decide
  · exact (known file block inBlocks).importance_le

/-- All of these blocks were read off files. -/
def Analyzed (blocks : Keyed (List Block)) : Prop :=
  ∀ e ∈ blocks, ∃ (r : Registry) (filename content : Text) (binary : Bool),
    e.2 = (Outline.ofFile r filename content binary).blocks

/-- The boundaries of a collection stand file by file, each file's between its start and its end, and their positions
    never decrease. A higher threshold takes out the blocks below it, and blocks that were read off the files are met
    in their own order. -/
theorem plan_structure (text : Text) (blocks : Keyed (List Block)) (threshold : ℤ)
    (range : ∀ file ∈ Collection.parse text, ∀ block ∈ (blocks.get? file.key).getD [],
      threshold ≤ block.importance → InRange text file (entryLine text file block)) :
    ∃ groupOf : SourceFile → List Boundary,
      plan text (Collection.parse text) blocks threshold = .ok ((Collection.parse text).flatMap groupOf) ∧
      (∀ file ∈ Collection.parse text,
        IsGroup text threshold ((blocks.get? file.key).getD []) file (groupOf file)) ∧
      (((Collection.parse text).flatMap groupOf).map (·.position)).Pairwise (· ≤ ·) ∧
      (∀ higher, threshold ≤ higher → plan text (Collection.parse text) blocks higher =
        .ok (((Collection.parse text).flatMap groupOf).filter fun b =>
          b.kind = .fileStart ∨ b.kind = .fileEnd ∨ higher ≤ b.importance)) ∧
      (Analyzed blocks → ∀ file ∈ Collection.parse text, groupOf file = startMark file ::
        (((blocks.get? file.key).getD []).filter fun block => threshold ≤ block.importance).map (mark text file) ++
          [endMark file]) := by
  obtain ⟨first, chain⟩ := Collection.contiguous_parse text
  obtain ⟨groupOf, isGroup⟩ := exists_groupOf text threshold blocks range
  obtain ⟨planned, grows⟩ := plan_eq chain isGroup
  refine ⟨groupOf, planned, isGroup, grows, ?_, ?_⟩
  · intro higher raised
    rw [List.filter_flatMap]
    exact (plan_eq chain fun file member => (isGroup file member).filter raised).1
  · intro analyzed file member
    refine (isGroup file member).eq_of_pairwise (Collection.inside_of_mem_parse file member)
      (proper_of_mem_parse file member) ?_
    cases found : blocks.get? file.key with
    | none => exact .nil
    | some own =>
      obtain ⟨r, filename, content, binary, rfl⟩ : ∃ r filename content binary, own =
        (Outline.ofFile r filename content binary).blocks := analyzed _ (Keyed.mem_of_get? found)
      exact Outline.pairwise_ofFile r filename content binary

/-- Two blocks in the wrong order, in a file of three lines. -/
theorem plan_structure_two_blocks :
    ∃ group, plan ((Header.mk ['a'] []).text ++ "x\ny\nz\n".toList)
        (Collection.parse ((Header.mk ['a'] []).text ++ "x\ny\nz\n".toList))
        [(['a'], [⟨.classBlock, ['g'], 2, 2, 8, 0⟩, ⟨.functionBlock, ['f'], 1, 1, 9, 0⟩])] 7 = .ok group ∧
      IsGroup ((Header.mk ['a'] []).text ++ "x\ny\nz\n".toList) 7
        [⟨.classBlock, ['g'], 2, 2, 8, 0⟩, ⟨.functionBlock, ['f'], 1, 1, 9, 0⟩]
        ⟨['a'], "x\ny\nz\n".toList, 0, 181, 175, ['a'], [("filename".toList, ['a'])]⟩ group := by
  have parsed : Collection.parse ((Header.mk ['a'] []).text ++ "x\ny\nz\n".toList) =
      [⟨['a'], "x\ny\nz\n".toList, 0, 181, 175, ['a'], [("filename".toList, ['a'])]⟩] := by decide +kernel
  have long : ((Header.mk ['a'] []).text ++ "x\ny\nz\n".toList).length = 181 := by decide +kernel
  obtain ⟨groupOf, planned, isGroup, -⟩ := plan_structure ((Header.mk ['a'] []).text ++ "x\ny\nz\n".toList)
    [(['a'], [⟨.classBlock, ['g'], 2, 2, 8, 0⟩, ⟨.functionBlock, ['f'], 1, 1, 9, 0⟩])] 7 (by
      intro file member block inBlocks _
      have inside := Collection.inside_of_mem_parse file member
      rw [parsed] at member
      obtain rfl := List.mem_singleton.mp member
      have small : 181 < 2 ^ 200 := Binary.lt_two_pow (by decide)
      refine inRange_entryLine (k := 200) inside (by decide) (by rw [long]; exact small) (by decide) ?_
      rw [long]
      have listed : block = ⟨.classBlock, ['g'], 2, 2, 8, 0⟩ ∨ block = ⟨.functionBlock, ['f'], 1, 1, 9, 0⟩ := by
        simpa [Keyed.get?] using inBlocks
      rcases listed with rfl | rfl
      · exact ⟨by decide, by decide, by decide, by decide⟩
      · exact ⟨by decide, by decide, by decide, by decide⟩)
  rw [parsed] at planned isGroup
  refine ⟨groupOf ⟨['a'], "x\ny\nz\n".toList, 0, 181, 175, ['a'], [("filename".toList, ['a'])]⟩, ?_, ?_⟩
  · rw [parsed, planned, List.flatMap_singleton]
  · exact isGroup _ (List.mem_singleton.mpr rfl)

end Chunkwise.Boundary
