import Chunkwise.Proofs.Label
import Chunkwise.Proofs.Pass.Outcome

/-!
# Chunks can be saved side by side

The name of a chunk as a file repeats names of files in the collection, which may be anything and may look alike once
their odd characters are replaced. It is the label that keeps the names apart: it can be read back from the name, since
no label has an underscore and what comes behind the label begins with one.
-/

namespace Chunkwise

/-! ## The name of one chunk -/

namespace Chunk

/-- What the names of chunks as files begin with. -/
def stem : Strategy → Text
  | .semantic => "semantic_chunk_".toList
  | .sizeBased => "size_based_chunk_".toList

/-- The chunk is labelled by its number, and its name as a file consists of the stem, the label and possibly more after
    an underscore, all of it in ASCII letters, digits and underscores. -/
def Named (c : Chunk) : Prop :=
  (∃ i : ℕ, c.index = i ∧ c.label = Label.ofNat i) ∧
  ∃ more, c.filename = stem c.strategy ++ c.label ++ more ∧ more.head?.all (· == '_') ∧
    ∀ x ∈ more, Text.isAsciiWord x

theorem isAsciiWord_of_isLetter {x : Char} (isLetter : Label.IsLetter x) : Text.isAsciiWord x := by
  have range : x.val ≥ 'a'.val ∧ x.val ≤ 'z'.val :=
    ⟨UInt32.le_iff_toNat_le.mpr isLetter.1, UInt32.le_iff_toNat_le.mpr isLetter.2⟩
  have lower : x.isLower = true := (Bool.and_eq_true _ _).mpr ⟨decide_eq_true range.1, decide_eq_true range.2⟩
  have letter : x.isAlpha = true := (Bool.or_eq_true _ _).mpr (.inr lower)
  simp [Text.isAsciiWord, Char.isAlphanum, letter]

theorem not_underscore_of_isLetter {x : Char} (isLetter : Label.IsLetter x) : x ≠ '_' := by
  rintro rfl
  exact absurd isLetter.1 (by decide)

theorem isAsciiWord_stem (s : Strategy) : ∀ x ∈ stem s, Text.isAsciiWord x := by
  have all : (stem s).all Text.isAsciiWord := by cases s <;> decide +kernel
  exact List.all_eq_true.mp all

/-- A name tells by its stem how the chunk was cut. -/
theorem stem_inj {s s' : Strategy} {t : Text} (first : stem s <+: t) (second : stem s' <+: t) : s = s' := by
  have either := List.prefix_or_prefix_of_prefix first second
  revert either
  cases s <;> cases s' <;> decide

variable {c d : Chunk}

/-- The label is read back from the name. -/
theorem Named.label_of_filename (named : Named c) :
    (c.filename.drop (stem c.strategy).length).takeWhile (· != '_') = c.label := by
  obtain ⟨⟨i, -, label⟩, more, is, setOff, -⟩ := named
  have letters : ∀ x ∈ c.label, (x != '_') = true := by
    rw [label]
    intro x member
    simpa using not_underscore_of_isLetter ((Label.isWord_ofNat i).2 x member)
  have ends : more.takeWhile (· != '_') = [] := by
    cases more with
    | nil => rfl
    | cons x rest =>
      have underscore : x = '_' := by simpa using setOff
      rw [underscore]
      rfl
  rw [is, List.append_assoc, List.drop_left, List.takeWhile_append_of_pos letters, ends, List.append_nil]

theorem Named.stem_prefix (named : Named c) : stem c.strategy <+: c.filename := by
  obtain ⟨-, more, is, -⟩ := named
  rw [is, List.append_assoc]
  exact List.prefix_append ..

theorem Named.label_eq_of_filename_eq (named : Named c) (named' : Named d) (same : c.filename = d.filename) :
    c.label = d.label := by
  have cutAlike : c.strategy = d.strategy := stem_inj named.stem_prefix (same ▸ named'.stem_prefix)
  rw [← named.label_of_filename, ← named'.label_of_filename, cutAlike, same]

theorem Named.index_eq_of_label_eq (named : Named c) (named' : Named d) (same : c.label = d.label) :
    c.index = d.index := by
  obtain ⟨⟨i, index, label⟩, -⟩ := named
  obtain ⟨⟨j, index', label'⟩, -⟩ := named'
  rw [label, label'] at same
  rw [index, index', Label.ofNat_injective same]

theorem Named.isAsciiWord_filename (named : Named c) : ∀ x ∈ c.filename, Text.isAsciiWord x := by
  obtain ⟨⟨i, -, label⟩, more, is, -, plain⟩ := named
  rw [is, label]
  refine List.forall_mem_append.mpr ⟨List.forall_mem_append.mpr ⟨isAsciiWord_stem _, ?_⟩, plain⟩
  exact fun x member => isAsciiWord_of_isLetter ((Label.isWord_ofNat i).2 x member)

/-! ## Where chunks come from -/

theorem isAsciiWord_plainName (t : Text) : ∀ x ∈ plainName t, Text.isAsciiWord x := by
  rw [plainName]
  refine List.forall_mem_map.mpr fun x _ => ?_
  split_ifs with plain
  · simp [Text.isAsciiWord, plain]
  · rfl

theorem named_ofDraft {content : Text} {index : ℕ} {d : Draft} (made : ofDraft content index d = .ok c) : Named c := by
  obtain ⟨importance, -, is⟩ := Fault.bind_ok.mp made
  cases is
  refine ⟨⟨index, rfl, rfl⟩, _, rfl, ?_⟩
  split_ifs
  · exact ⟨rfl, List.forall_mem_nil _⟩
  · exact ⟨rfl, List.forall_mem_cons.mpr ⟨rfl, isAsciiWord_plainName _⟩⟩

theorem named_semantic {content : Text} {boundaries : List Boundary} {target : TargetSize} {chunks : List Chunk}
    (made : semantic content boundaries target = .ok chunks) : ∀ c ∈ chunks, Named c := by
  intro c member
  obtain ⟨i, d, -, own⟩ := exists_of_mem_semantic made c member
  exact named_ofDraft own

theorem named_sized (content : Text) (target : TargetSize) : ∀ c ∈ sized content target, Named c := by
  intro c member
  obtain ⟨i, s, piece, own⟩ := exists_of_mem_ofPieces c member
  cases own
  exact ⟨⟨i, rfl, rfl⟩, [], (List.append_nil _).symm, rfl, List.forall_mem_nil _⟩

end Chunk

/-! ## The names of a pass -/

/-- No two chunks have the same label or the same name as a file, and the names are made of ASCII letters, digits and
    underscores. -/
structure NamedApart (chunks : List Chunk) : Prop where
  labels : (chunks.map (·.label)).Nodup
  filenames : (chunks.map (·.filename)).Nodup
  plain : ∀ c ∈ chunks, ∀ x ∈ c.filename, Text.isAsciiWord x

/-- A chunk that is not empty occurs once among those that tile a content. -/
theorem Chunk.Tiles.nodup {content : Text} {index start : ℕ} {chunks : List Chunk}
    (tiles : Chunk.Tiles content index start chunks) : chunks.Nodup := by
  refine tiles.contiguous.pairwise.imp_of_mem ?_
  rintro c d inChunks - behind rfl
  exact absurd (tiles.lt c inChunks) (not_lt.mpr behind)

theorem Chunk.Tiles.namedApart {content : Text} {chunks : List Chunk} (tiles : Chunk.Tiles content 0 0 chunks)
    (named : ∀ c ∈ chunks, Chunk.Named c) : NamedApart chunks where
  labels := tiles.nodup.map_on fun c inChunks d inChunks' same =>
    tiles.eq_of_index_eq inChunks inChunks' ((named c inChunks).index_eq_of_label_eq (named d inChunks') same)
  filenames := tiles.nodup.map_on fun c inChunks d inChunks' same =>
    tiles.eq_of_index_eq inChunks inChunks' ((named c inChunks).index_eq_of_label_eq (named d inChunks')
      ((named c inChunks).label_eq_of_filename_eq (named d inChunks') same))
  plain := fun c inChunks => (named c inChunks).isAsciiWord_filename

namespace Pass

variable {threshold : ℤ} {content : Text} {o : Outcome}

theorem Gives.named {a : Analysis} {target : TargetSize} {strategy : Strategy}
    (gives : Gives threshold a target strategy o) : ∀ c ∈ o.chunks, Chunk.Named c :=
  gives.forall_chunks (fun _ _ _ _ => rfl) (fun _ _ => rfl) (Chunk.named_sized _ _) fun _ => Chunk.named_semantic

/-- The chunks of a pass, whatever it is asked for and whatever analysis was kept, are named apart. -/
theorem namedApart_of_run {size strategy : Argument} {kept : Option Analysis}
    (made : run threshold content size strategy kept = .ok o) : NamedApart o.chunks := by
  obtain ⟨target, -, rest⟩ := Fault.bind_ok.mp made
  obtain ⟨strategy, -, given⟩ := Fault.bind_ok.mp rest
  have gives := gives_of_runOn given
  exact gives.tiles.namedApart gives.named

/-- The chunks of a pass over any text are named apart, whatever its files are called. A pass with a moderate target
    gives chunks for every text of fewer than 2⁵⁰⁰ characters. -/
theorem names_distinct (threshold : ℤ) (content : Text) (target : TargetSize) (small : target.value < 2 ^ 1000)
    (strategy : Strategy) (kept : Option Text) :
    (content.length < 2 ^ 500 → ∃ o,
      run threshold content (.int target.value) (.text strategy.word) (kept.map Analysis.ofContent) = .ok o) ∧
    ∀ o, run threshold content (.int target.value) (.text strategy.word) (kept.map Analysis.ofContent) = .ok o →
      NamedApart o.chunks := by
  refine ⟨fun short => ?_, fun o => namedApart_of_run⟩
  rw [run_eq_runOn]
  exact runOn_total threshold strategy short (by norm_num) small (by norm_num)

/-- Two files whose names differ only in what is replaced. -/
def alikeNames : Text := (Header.mk "a.b".toList []).text ++ (Header.mk "a-b".toList []).text

theorem names_distinct_alike :
    ∃ o, run 7 alikeNames (.int 180) (.text Strategy.semantic.word) none = .ok o ∧ NamedApart o.chunks := by
  have small : (⟨180, by decide⟩ : TargetSize).value < 2 ^ 1000 := Binary.lt_two_pow (by decide)
  obtain ⟨succeeds, apart⟩ := names_distinct 7 alikeNames ⟨180, by decide⟩ small .semantic none
  have long : alikeNames.length = 354 := by decide +kernel
  obtain ⟨o, made⟩ := succeeds (by rw [long]; exact Binary.lt_two_pow (by decide))
  exact ⟨o, made, apart o made⟩

end Pass

end Chunkwise
