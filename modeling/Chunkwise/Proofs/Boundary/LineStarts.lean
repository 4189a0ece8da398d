import Chunkwise.Proofs.Boundary.Order

/-!
# Boundaries stand at line starts

Every boundary of a plan belongs to one of the files and marks its start, its end or the place of a line. A file begins
with its header, at a line start; it ends where the next one begins or with the text; and the place of a line is the
start of its file or follows a line feed.
-/

namespace Chunkwise

/-! ## Ends of ranges -/

/-- An item ends where another one begins, or at the end. -/
theorem Contiguous.stop_eq {α ι : Type} [Preorder ι] {start stop : α → ι} {a b : ι} {items : List α}
    (chain : Contiguous start stop a b items) : ∀ x ∈ items, stop x = b ∨ ∃ y ∈ items, start y = stop x := by
  induction items generalizing a with
  | nil => simp
  | cons x rest ih =>
    obtain ⟨-, -, after⟩ := chain
    refine List.forall_mem_cons.mpr ⟨?_, ?_⟩
    · cases rest with
      | nil => exact Or.inl after
      | cons y more => exact Or.inr ⟨y, by simp, after.1⟩
    · intro z member
      refine (ih after z member).imp_right ?_
      rintro ⟨y, later, begins⟩
      exact ⟨y, List.mem_cons_of_mem x later, begins⟩

namespace Collection

variable {text : Text} {file : SourceFile}

/-- A file begins where a header stands. -/
theorem exists_stands (inFiles : file ∈ parse text) : ∃ (p : ℕ) (h : Header), h.Stands text p ∧ file.start = p := by
  have listed : (file.start, file.body) ∈ (parse text).map fun f => (f.start, f.body) :=
    List.mem_map.mpr ⟨file, inFiles, rfl⟩
  rw [parse, map_filesFrom] at listed
  obtain ⟨⟨p, h⟩, found, same⟩ := List.mem_map.mp listed
  exact ⟨p, h, Header.mem_findAll_iff.mp found, (congrArg Prod.fst same).symm⟩

theorem isLineStart_start (inFiles : file ∈ parse text) : text.IsLineStart file.start.toNat := by
  obtain ⟨p, h, stands, is⟩ := exists_stands inFiles
  rw [is, Int.toNat_natCast]
  exact stands.lineStart

/-- A file ends at a line start, or with the text. -/
theorem isLineStart_stop (inFiles : file ∈ parse text) :
    file.stop = text.length ∨ text.IsLineStart file.stop.toNat := by
  obtain ⟨first, chain⟩ := contiguous_parse text
  refine (chain.stop_eq file inFiles).imp_right ?_
  rintro ⟨next, inFiles', begins⟩
  rw [← begins]
  exact isLineStart_start inFiles'

end Collection

namespace Boundary

variable {text : Text} {file : SourceFile} {threshold : ℤ} {b : Boundary}

/-! ## What a boundary marks -/

/-- A boundary belongs to a file and marks its start, its end or the place of a line. -/
structure Marks (text : Text) (file : SourceFile) (b : Boundary) : Prop where
  names : b.filename = file.key
  site : b.position = file.start ∨ b.position = file.stop ∨ ∃ line, linePosition text file line = .ok b.position

theorem marks_of_mem_placedBlocks {order number : ℕ} {blocks : List Block} {placed : List Placed}
    (found : placedBlocks text file order threshold number blocks = .ok placed) :
    ∀ p ∈ placed, Marks text file p.boundary := by
  induction blocks generalizing number placed with
  | nil =>
    cases found
    simp
  | cons block rest ih =>
    rw [placedBlocks] at found
    split at found
    · exact ih found
    · obtain ⟨own, marked, more⟩ := Fault.bind_ok.mp found
      obtain ⟨others, later, last⟩ := Fault.bind_ok.mp more
      obtain ⟨position, line, is⟩ := Fault.bind_ok.mp marked
      cases is
      cases last
      exact List.forall_mem_cons.mpr ⟨⟨rfl, Or.inr (Or.inr ⟨_, line⟩)⟩, ih later⟩

theorem marks_of_mem_placedFiles {blocks : Keyed (List Block)} {order : ℕ} {files : List SourceFile}
    {placed : List Placed} (found : placedFiles text threshold blocks order files = .ok placed) :
    ∀ p ∈ placed, ∃ file ∈ files, Marks text file p.boundary := by
  induction files generalizing order placed with
  | nil =>
    cases found
    simp
  | cons file rest ih =>
    obtain ⟨own, here, more⟩ := Fault.bind_ok.mp found
    obtain ⟨others, later, last⟩ := Fault.bind_ok.mp more
    obtain ⟨inner, between, is⟩ := Fault.bind_ok.mp here
    cases is
    cases last
    intro p member
    rcases List.mem_append.mp member with inFile | inOthers
    · refine ⟨file, List.mem_cons_self, ?_⟩
      simp only [List.cons_append, List.mem_cons, List.mem_append, List.not_mem_nil, or_false] at inFile
      rcases inFile with rfl | inner | rfl
      · exact ⟨rfl, Or.inl rfl⟩
      · exact marks_of_mem_placedBlocks between p inner
      · exact ⟨rfl, Or.inr (Or.inl rfl)⟩
    · obtain ⟨other, inRest, marks⟩ := ih later p inOthers
      exact ⟨other, List.mem_cons_of_mem file inRest, marks⟩

/-- Every boundary of a plan marks one of the files. -/
theorem marks_of_mem_plan {blocks : Keyed (List Block)} {files : List SourceFile} {boundaries : List Boundary}
    (planned : plan text files blocks threshold = .ok boundaries) :
    ∀ b ∈ boundaries, ∃ file ∈ files, Marks text file b := by
  obtain ⟨placed, found, last⟩ := Fault.bind_ok.mp planned
  cases last
  intro b member
  obtain ⟨p, sorted, rfl⟩ := List.mem_map.mp member
  exact marks_of_mem_placedFiles found p ((List.mergeSort_perm ..).mem_iff.mp sorted)

/-! ## Where it stands -/

theorem snap_cases {start position : ℤ} (nonneg : 0 ≤ start) (within : start ≤ position)
    (inside : position ≤ text.length) :
    snap text start position = start ∨ ∃ i : ℕ, snap text start position = i + 1 ∧ text[i]? = some '\n' := by
  unfold snap
  cases found : text.lastLineFeed? start position with
  | none => exact Or.inl rfl
  | some i =>
    refine Or.inr ⟨i, rfl, ?_⟩
    rw [Text.lastLineFeed?, Text.place_eq nonneg (within.trans inside),
      Text.place_eq (nonneg.trans within) inside] at found
    obtain ⟨j, last, rfl⟩ := Option.map_eq_some_iff.mp found
    have feed := Text.getElem?_of_lastAt? last
    have before := Text.lastAt?_lt last
    rw [Text.length_slice text _ (by omega)] at before
    rwa [Text.slice, List.getElem?_take_of_lt before, List.getElem?_drop] at feed

/-- The place of a line is the start of the entry or follows a line feed. -/
theorem lineStart_cases (covers : file.Covers text.length) (line : ℤ) :
    lineStart text file line = file.start ∨
      ∃ i : ℕ, lineStart text file line = i + 1 ∧ text[i]? = some '\n' := by
  obtain ⟨nonneg, proper, stopLe⟩ := covers
  exact snap_cases nonneg (by omega) ((min_le_right _ _).trans stopLe)

/-- A boundary of a plan stands at a line start, or at the end of the text. -/
theorem isLineStart_of_marks (inFiles : file ∈ Collection.parse text) (marks : Marks text file b) :
    b.position = text.length ∨ text.IsLineStart b.position.toNat := by
  rcases marks.site with start | stop | ⟨line, placed⟩
  · rw [start]
    exact Or.inr (Collection.isLineStart_start inFiles)
  · rw [stop]
    exact Collection.isLineStart_stop inFiles
  · right
    have covers := (Collection.inside_of_mem_parse file inFiles).covers (proper_of_mem_parse file inFiles)
    rw [((linePosition_eq_ok covers).mp placed).2]
    rcases lineStart_cases covers line with start | ⟨i, behind, feed⟩
    · rw [start]
      exact Collection.isLineStart_start inFiles
    · rw [behind]
      exact Or.inr feed

end Boundary

end Chunkwise
