import Chunkwise.Collection.SourceFile
import Chunkwise.Proofs.Chunk.Tiling
import Chunkwise.Proofs.Keyed
import Chunkwise.Proofs.Number.Accuracy
import Chunkwise.Report

/-!
# How files are spread over chunks

Chunks that tile a text hold a file in consecutive ones. So when each chunk names the files that it holds part of, a
report lists one run of chunks for each file, and its cohesion tells how many of these runs are a single chunk.
-/

namespace Chunkwise

/-! ## Files in chunks -/

namespace Chunk

/-- The chunk holds part of the file: some position lies in both. -/
def Holds (c : Chunk) (f : SourceFile) : Prop := ∃ p : ℤ, (c.start ≤ p ∧ p < c.stop) ∧ f.start ≤ p ∧ p < f.stop

/-- The whole file lies in the chunk. -/
def Encloses (c : Chunk) (f : SourceFile) : Prop := c.start ≤ f.start ∧ f.stop ≤ c.stop

variable {c : Chunk} {f : SourceFile}

theorem holds_iff : c.Holds f ↔ max (c.start : ℤ) f.start < min (c.stop : ℤ) f.stop := by
  constructor
  · rintro ⟨p, ⟨_, _⟩, _, _⟩
    omega
  · intro overlap
    exact ⟨max c.start f.start, by omega, by omega⟩

instance (c : Chunk) (f : SourceFile) : Decidable (c.Holds f) := decidable_of_iff _ holds_iff.symm

instance (c : Chunk) (f : SourceFile) : Decidable (c.Encloses f) := inferInstanceAs (Decidable (_ ∧ _))

variable {content : Text} {index start : ℕ} {chunks : List Chunk}

/-- A file that has begun stays in the chunks up to its end. -/
theorem Tiles.holds_from (tiles : Tiles content index start chunks) (begun : f.start ≤ start) :
    ∃ count, (chunks.filter (·.Holds f)).map (·.index) = (List.range' index count).map Nat.cast := by
  induction chunks generalizing index start with
  | nil => exact ⟨0, rfl⟩
  | cons c rest ih =>
    obtain ⟨numbered, rfl, proper, _, after⟩ := tiles
    by_cases goes : (c.start : ℤ) < f.stop
    · have holds : c.Holds f := holds_iff.mpr (by omega)
      obtain ⟨count, run⟩ := ih after (by omega)
      refine ⟨count + 1, ?_⟩
      rw [List.filter_cons_of_pos (by simpa using holds), List.map_cons, run, List.range'_succ, List.map_cons, numbered]
    · refine ⟨0, ?_⟩
      rw [List.filter_eq_nil_iff.mpr]
      · rfl
      · intro d member
        have later : c.start ≤ d.start := by
          rcases List.mem_cons.mp member with rfl | inRest
          · exact le_refl _
          · exact proper.le.trans (after.contiguous.bounds d inRest).1
        rw [decide_eq_true_eq, holds_iff]
        omega

/-- The chunks that hold part of a file have consecutive numbers. -/
theorem Tiles.holds_run (tiles : Tiles content index start chunks) (some : f.start < f.stop) :
    ∃ first count, (chunks.filter (·.Holds f)).map (·.index) = (List.range' first count).map Nat.cast := by
  induction chunks generalizing index start with
  | nil => exact ⟨0, 0, rfl⟩
  | cons c rest ih =>
    rcases le_or_gt f.start start with begun | ahead
    · exact ⟨index, tiles.holds_from begun⟩
    obtain ⟨numbered, rfl, proper, _, after⟩ := tiles
    -- The file begins in this chunk and goes on from there, or it begins in a later one.
    by_cases here : f.start < c.stop
    · have holds : c.Holds f := holds_iff.mpr (by omega)
      obtain ⟨count, run⟩ := after.holds_from here.le
      refine ⟨index, count + 1, ?_⟩
      rw [List.filter_cons_of_pos (by simpa using holds), List.map_cons, run, List.range'_succ, List.map_cons, numbered]
    · have misses : ¬ c.Holds f := by
        rw [holds_iff]
        omega
      rw [List.filter_cons_of_neg (by simpa using misses)]
      exact ih after

theorem Tiles.exists_holds (tiles : Tiles content 0 0 chunks) (nonneg : 0 ≤ f.start) {p : ℤ} (low : f.start ≤ p)
    (high : p < f.stop) (inside : f.stop ≤ content.length) :
    ∃ c ∈ chunks, ((c.start : ℤ) ≤ p ∧ p < c.stop) ∧ c.Holds f := by
  obtain ⟨n, rfl⟩ := Int.eq_ofNat_of_zero_le (nonneg.trans low)
  obtain ⟨c, member, before, after⟩ := tiles.contiguous.exists_mem (Nat.zero_le n) (by omega)
  exact ⟨c, member, by omega, n, by omega, low, high⟩

/-- A file is in no more than one chunk when it lies in a chunk as a whole, and only then. -/
theorem Tiles.length_holds_le_one (tiles : Tiles content 0 0 chunks) (nonneg : 0 ≤ f.start) (some : f.start < f.stop)
    (inside : f.stop ≤ content.length) :
    (chunks.filter (·.Holds f)).length ≤ 1 ↔ ∃ c ∈ chunks, c.Encloses f := by
  constructor
  · -- The chunks of the file's first and last position are the same.
    intro single
    obtain ⟨c, inChunks, ⟨before, _⟩, holds⟩ := tiles.exists_holds nonneg (le_refl f.start) some inside
    obtain ⟨d, inChunks', ⟨_, after⟩, holds'⟩ := tiles.exists_holds nonneg (Int.le_sub_one_of_lt some)
      (sub_one_lt f.stop) inside
    have first : c ∈ chunks.filter (·.Holds f) := List.mem_filter.mpr ⟨inChunks, by simpa using holds⟩
    have last : d ∈ chunks.filter (·.Holds f) := List.mem_filter.mpr ⟨inChunks', by simpa using holds'⟩
    obtain rfl : c = d := by
      obtain ⟨e, is⟩ := List.length_eq_one_iff.mp (le_antisymm single (List.length_pos_of_mem first))
      rw [is, List.mem_singleton] at first last
      rw [first, last]
    exact ⟨c, inChunks, before, by omega⟩
  · rintro ⟨c, inChunks, before, after⟩
    have distinct : chunks.Nodup := by
      refine tiles.contiguous.pairwise.imp_of_mem ?_
      rintro d e inChunks _ order rfl
      have := tiles.lt d inChunks
      omega
    have only : chunks.filter (·.Holds f) ⊆ [c] := by
      intro d member
      obtain ⟨inChunks', holds⟩ := List.mem_filter.mp member
      rw [decide_eq_true_eq, holds_iff] at holds
      rcases tiles.contiguous.disjoint inChunks' inChunks with rfl | earlier | later
      · exact List.mem_singleton.mpr rfl
      · omega
      · omega
    simpa using ((distinct.filter _).subperm only).length_le

end Chunk

/-! ## Chunks by file -/

section Assignment

variable {names : List Text} {m : Keyed (List ℤ)} {key : Text} {chunks : List Chunk}

theorem get?_foldl_push (distinct : names.Nodup) (i : ℤ) :
    ((names.foldl (fun m key => m.push key i) m).get? key).getD [] =
      (m.get? key).getD [] ++ if key ∈ names then [i] else [] := by
  induction names generalizing m with
  | nil => simp
  | cons name rest ih =>
    obtain ⟨new, others⟩ := List.nodup_cons.mp distinct
    rw [List.foldl_cons, ih others, Keyed.push, Keyed.get?_update]
    by_cases here : key = name
    · subst here
      simp [new]
    · simp [here]

theorem mem_keys_foldl_push (i : ℤ) :
    key ∈ (names.foldl (fun m key => m.push key i) m).keys ↔ key ∈ m.keys ∨ key ∈ names := by
  induction names generalizing m with
  | nil => simp
  | cons name rest ih => rw [List.foldl_cons, ih, Keyed.push, Keyed.mem_keys_update, List.mem_cons, or_assoc]

theorem nodup_keys_foldl_push (i : ℤ) (distinct : m.keys.Nodup) :
    (names.foldl (fun m key => m.push key i) m).keys.Nodup := by
  induction names generalizing m with
  | nil => exact distinct
  | cons name rest ih => exact ih (Keyed.nodup_keys_update distinct)

/-- A file is assigned the chunks that name it. -/
theorem getD_assignment (distinct : ∀ c ∈ chunks, c.fileNames.Nodup) (key : Text) :
    ((assignment chunks).get? key).getD [] = (chunks.filter (key ∈ ·.fileNames)).map (·.index) := by
  suffices ∀ m : Keyed (List ℤ), ((chunks.foldl (fun m c => c.fileNames.foldl (fun m key => m.push key c.index) m)
      m).get? key).getD [] = (m.get? key).getD [] ++ (chunks.filter (key ∈ ·.fileNames)).map (·.index) by
    simpa [assignment, Keyed.get?] using this []
  induction chunks with
  | nil => simp
  | cons c rest ih =>
    intro m
    obtain ⟨here, later⟩ := List.forall_mem_cons.mp distinct
    rw [List.foldl_cons, ih later, get?_foldl_push here, List.append_assoc]
    by_cases named : key ∈ c.fileNames <;> simp [named]

theorem mem_assignment_iff (distinct : ∀ c ∈ chunks, c.fileNames.Nodup) {i : ℤ} :
    i ∈ ((assignment chunks).get? key).getD [] ↔ ∃ c ∈ chunks, key ∈ c.fileNames ∧ c.index = i := by
  rw [getD_assignment distinct]
  simp only [List.mem_map, List.mem_filter, decide_eq_true_eq, and_assoc]

/-- Which chunks files are assigned depends on the numbers of the chunks and on the files that they name. -/
theorem assignment_congr {others : List Chunk}
    (same : others.map (fun c => (c.index, c.fileNames)) = chunks.map fun c => (c.index, c.fileNames)) :
    assignment others = assignment chunks := by
  have byPair : ∀ listed : List Chunk, assignment listed = (listed.map fun c => (c.index, c.fileNames)).foldl
      (fun m p => p.2.foldl (fun m key => Keyed.push m key p.1) m) [] := by
    intro listed
    rw [List.foldl_map]
    rfl
  rw [byPair, byPair, same]

theorem mem_keys_assignment : key ∈ (assignment chunks).keys ↔ ∃ c ∈ chunks, key ∈ c.fileNames := by
  suffices ∀ m : Keyed (List ℤ), key ∈ (chunks.foldl (fun m c => c.fileNames.foldl (fun m key => m.push key c.index) m)
      m).keys ↔ key ∈ m.keys ∨ ∃ c ∈ chunks, key ∈ c.fileNames by simpa [assignment, Keyed.keys] using this []
  induction chunks with
  | nil => simp
  | cons c rest ih =>
    intro m
    rw [List.foldl_cons, ih, mem_keys_foldl_push]
    simp [or_assoc]

theorem nodup_keys_assignment (chunks : List Chunk) : (assignment chunks).keys.Nodup := by
  suffices ∀ m : Keyed (List ℤ), m.keys.Nodup →
      (chunks.foldl (fun m c => c.fileNames.foldl (fun m key => m.push key c.index) m) m).keys.Nodup from
    this [] List.nodup_nil
  induction chunks with
  | nil => exact fun m distinct => distinct
  | cons c rest ih => exact fun m distinct => ih _ (nodup_keys_foldl_push c.index distinct)

end Assignment

/-! ## The distribution of files -/

/-- The chunks name the files that they hold part of, and nothing else. -/
structure Names (files : List SourceFile) (chunks : List Chunk) : Prop where
  distinct : ∀ c ∈ chunks, c.fileNames.Nodup
  known : ∀ c ∈ chunks, ∀ key ∈ c.fileNames, ∃ f ∈ files, f.key = key
  exact : ∀ c ∈ chunks, ∀ f ∈ files, f.key ∈ c.fileNames ↔ c.Holds f

namespace Names

variable {content : Text} {files : List SourceFile} {chunks : List Chunk}

theorem filter_eq (names : Names files chunks) {f : SourceFile} (inFiles : f ∈ files) :
    chunks.filter (f.key ∈ ·.fileNames) = chunks.filter (·.Holds f) :=
  List.filter_congr fun c member => by simp [names.exact c member f inFiles]

/-- What naming files depends on. -/
def naming (c : Chunk) : ℕ × ℕ × List Text := (c.start, c.stop, c.fileNames)

theorem of_namings {others : List Chunk} (names : Names files chunks)
    (same : others.map naming = chunks.map naming) : Names files others := by
  have origin : ∀ c ∈ others, ∃ d ∈ chunks, c.start = d.start ∧ c.stop = d.stop ∧ c.fileNames = d.fileNames := by
    intro c member
    have listed : naming c ∈ others.map naming := List.mem_map.mpr ⟨c, member, rfl⟩
    rw [same] at listed
    obtain ⟨d, inChunks, is⟩ := List.mem_map.mp listed
    obtain ⟨start, rest⟩ := Prod.mk.inj is
    obtain ⟨stop, named⟩ := Prod.mk.inj rest
    exact ⟨d, inChunks, start.symm, stop.symm, named.symm⟩
  refine ⟨?_, ?_, ?_⟩
  · intro c member
    obtain ⟨d, inChunks, _, _, named⟩ := origin c member
    rw [named]
    exact names.distinct d inChunks
  · intro c member
    obtain ⟨d, inChunks, _, _, named⟩ := origin c member
    rw [named]
    exact names.known d inChunks
  · intro c member f inFiles
    obtain ⟨d, inChunks, start, stop, named⟩ := origin c member
    rw [named, names.exact d inChunks f inFiles, Chunk.Holds, Chunk.Holds, start, stop]

variable (names : Names files chunks) (tiles : Chunk.Tiles content 0 0 chunks)
  (within : ∀ f ∈ files, 0 ≤ f.start ∧ f.start < f.stop ∧ f.stop ≤ content.length)

include names tiles within

theorem keys_perm (distinct : (files.map (·.key)).Nodup) : (assignment chunks).keys.Perm (files.map (·.key)) := by
  refine (List.perm_ext_iff_of_nodup (nodup_keys_assignment chunks) distinct).mpr fun key => ?_
  rw [mem_keys_assignment, List.mem_map]
  constructor
  · rintro ⟨c, member, named⟩
    exact names.known c member key named
  · rintro ⟨f, inFiles, rfl⟩
    obtain ⟨nonneg, some, inside⟩ := within f inFiles
    obtain ⟨c, member, _, holds⟩ := tiles.exists_holds nonneg (le_refl f.start) some inside
    exact ⟨c, member, (names.exact c member f inFiles).mpr holds⟩

/-- A file is assigned the chunks that hold part of it: one consecutive run of them. -/
theorem get?_assignment {f : SourceFile} (inFiles : f ∈ files) :
    (assignment chunks).get? f.key = some ((chunks.filter (·.Holds f)).map (·.index)) ∧
      ∃ first count, 0 < count ∧
        (chunks.filter (·.Holds f)).map (·.index) = (List.range' first count).map Nat.cast := by
  obtain ⟨nonneg, some, inside⟩ := within f inFiles
  obtain ⟨c, member, _, holds⟩ := tiles.exists_holds nonneg (le_refl f.start) some inside
  constructor
  · have named : f.key ∈ (assignment chunks).keys :=
      mem_keys_assignment.mpr ⟨c, member, (names.exact c member f inFiles).mpr holds⟩
    obtain ⟨indices, found⟩ := Keyed.mem_keys_iff.mp named
    have assigned := getD_assignment names.distinct f.key
    rw [names.filter_eq inFiles, found, Option.getD_some] at assigned
    rw [found, assigned]
  · obtain ⟨first, count, run⟩ := tiles.holds_run some
    refine ⟨first, count, ?_, run⟩
    have length := congrArg List.length run
    rw [List.length_map, List.length_map, List.length_range'] at length
    rw [← length]
    exact List.length_pos_of_mem (List.mem_filter.mpr ⟨member, by simpa using holds⟩)

/-- The files that a report counts as spread are those that lie in no chunk as a whole. -/
theorem countP_assignment (distinct : (files.map (·.key)).Nodup) :
    (assignment chunks).countP (fun (_, indices) => 1 < indices.length) =
      files.countP fun f => ¬ ∃ c ∈ chunks, c.Encloses f := by
  have byKey : (assignment chunks).countP (fun (_, indices) => 1 < indices.length) =
      (assignment chunks).keys.countP fun key => 1 < (((assignment chunks).get? key).getD []).length := by
    rw [Keyed.keys, List.countP_map]
    refine List.countP_congr fun e member => ?_
    rw [Function.comp_apply, Keyed.get?_of_mem (nodup_keys_assignment chunks) member]
    rfl
  rw [byKey, (names.keys_perm tiles within distinct).countP_eq, List.countP_map]
  refine List.countP_congr fun f inFiles => ?_
  obtain ⟨nonneg, some, inside⟩ := within f inFiles
  rw [Function.comp_apply, (names.get?_assignment tiles within inFiles).1, Option.getD_some, List.length_map,
    decide_eq_true_eq, decide_eq_true_eq, ← tiles.length_holds_le_one nonneg some inside, not_le]

/-- The cohesion of a report is the share of the files that lie in one chunk as a whole, rounded twice. -/
theorem cohesion_eq (nonempty : files ≠ []) (distinct : (files.map (·.key)).Nodup) (strategy : Strategy) :
    (Summary.ofChunks chunks strategy).cohesion =
        (Binary.nearest (files.countP fun f => ¬ ∃ c ∈ chunks, c.Encloses f) files.length).oneMinus ∧
      |(Summary.ofChunks chunks strategy).cohesion.value -
        (files.countP fun f => ∃ c ∈ chunks, c.Encloses f) / files.length| ≤ 2 ^ (-52 : ℤ) := by
  have count : (assignment chunks).length = files.length := by
    have perm := (names.keys_perm tiles within distinct).length_eq
    rwa [Keyed.keys, List.length_map, List.length_map] at perm
  have positive : 0 < files.length := List.length_pos_iff.mpr nonempty
  have cohesion : (Summary.ofChunks chunks strategy).cohesion =
      (Binary.nearest (files.countP fun f => ¬ ∃ c ∈ chunks, c.Encloses f) files.length).oneMinus := by
    have some : (assignment chunks).isEmpty = false := by
      rw [List.isEmpty_eq_false_iff, ← List.length_pos_iff]
      omega
    simp only [Summary.ofChunks, Summary.cohesionOf, some, Bool.false_eq_true, ↓reduceIte, count,
      names.countP_assignment tiles within distinct]
  refine ⟨cohesion, ?_⟩
  rw [cohesion]
  have parts := List.length_eq_countP_add_countP (fun f => decide (∃ c ∈ chunks, c.Encloses f)) (l := files)
  simp only [decide_eq_true_eq] at parts
  have share : ((files.countP fun f => ∃ c ∈ chunks, c.Encloses f : ℕ) : ℚ) / files.length =
      1 - ((files.countP fun f => ¬ ∃ c ∈ chunks, c.Encloses f : ℕ) : ℚ) / files.length := by
    rw [eq_sub_iff_add_eq, ← add_div, div_eq_one_iff_eq (by exact_mod_cast positive.ne')]
    exact_mod_cast parts.symm
  rw [share]
  exact Binary.abs_value_oneMinus_sub_le positive List.countP_le_length

end Names

end Chunkwise
