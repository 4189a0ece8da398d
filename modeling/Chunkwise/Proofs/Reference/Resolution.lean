import Chunkwise.Proofs.Ascending
import Chunkwise.Proofs.Reference.Chunks

/-!
# Resolving references

Every chunk that holds part of some file is listed once, with the references that lead out of it. These are the ones of
its files that lead to the first chunk of another file, and of those that say the same the first one is kept.
-/

namespace Chunkwise.Reference

variable {files : List SourceFile} {assigned : Keyed (List ℤ)} {references : Keyed (List FileReference)} {chunk : ℤ}
  {key : Text} {r : FileReference} {x y : CrossReference}

/-! ## What is led out of a chunk -/

/-- A reference of the file `key` leads out of a chunk: what it becomes points at the first of the chunks that the file
    referred to is assigned, which is another one. -/
structure Leads (assigned : Keyed (List ℤ)) (chunk : ℤ) (key : Text) (r : FileReference) (x : CrossReference) :
    Prop where
  first : IsLeast {i | i ∈ (assigned.get? r.target).getD []} x.targetChunk
  other : x.targetChunk ≠ chunk
  kind : x.kind = r.kind
  targetFile : x.targetFile = r.target
  sourceFile : x.sourceFile = key
  description : x.description = r.description

theorem leadsTo?_iff : leadsTo? assigned chunk key r = some x ↔ Leads assigned chunk key r x := by
  rw [leadsTo?_eq_some_iff, firstChunk?_eq_some_iff]
  constructor
  · rintro ⟨first, other, kind, targetFile, sourceFile, description⟩
    exact ⟨first, other, kind, targetFile, sourceFile, description⟩
  · rintro ⟨first, other, kind, targetFile, sourceFile, description⟩
    exact ⟨first, other, kind, targetFile, sourceFile, description⟩

/-- What is led out of a chunk, in file order and for each file in the order of its references; what repeats an earlier
    one is still there. -/
def ledOut (files : List SourceFile) (assigned : Keyed (List ℤ)) (references : Keyed (List FileReference)) (chunk : ℤ) :
    List CrossReference :=
  files.flatMap fun f =>
    if chunk ∈ (assigned.get? f.key).getD [] then
      ((references.get? f.key).getD []).filterMap (leadsTo? assigned chunk f.key)
    else []

/-- A file that is listed for a chunk several times says nothing new from the second time on. -/
theorem find?_ledOut (p : CrossReference → Bool) :
    ((filesOfChunk files assigned chunk).flatMap fun key =>
      ((references.get? key).getD []).filterMap (leadsTo? assigned chunk key)).find? p =
      (ledOut files assigned references chunk).find? p := by
  simp only [filesOfChunk, ledOut, List.flatMap_assoc, List.find?_flatMap, List.findSome?_replicate]
  congr 1
  funext f
  by_cases part : chunk ∈ (assigned.get? f.key).getD []
  · rw [if_neg (List.count_pos_iff.mpr part).ne', if_pos part]
  · rw [if_pos (List.count_eq_zero.mpr part), if_neg part]
    rfl

/-! ## The first of those that say the same -/

theorem saysSame_congr (same : saysSame x y) : saysSame x = saysSame y := by
  obtain ⟨kind, target, description⟩ := saysSame_iff.mp same
  funext z
  simp only [saysSame, kind, target, description]

/-- Of those that say the same the first one is kept, unless that has been said before. -/
theorem filter_dropRepeated (x : CrossReference) (seen given : List CrossReference) :
    (dropRepeated seen given).filter (saysSame x) =
      if seen.any (saysSame x) then [] else (given.find? (saysSame x)).toList := by
  induction given generalizing seen with
  | nil => simp [dropRepeated]
  | cons r rest ih =>
    unfold dropRepeated
    by_cases same : saysSame x r
    · by_cases repeated : seen.any (saysSame r)
      · rw [if_pos repeated, ih, saysSame_congr same, if_pos repeated, if_pos repeated]
      · have kept : (r :: seen).any (saysSame x) := by rw [List.any_cons, same, Bool.true_or]
        rw [if_neg repeated, List.filter_cons_of_pos same, ih, if_pos kept, List.find?_cons_of_pos same,
          saysSame_congr same, if_neg repeated]
        rfl
    · by_cases repeated : seen.any (saysSame r)
      · rw [if_pos repeated, ih, List.find?_cons_of_neg same]
      · rw [if_neg repeated, List.filter_cons_of_neg same, ih, List.find?_cons_of_neg same, List.any_cons]
        simp [same]

variable (files assigned references chunk) in
theorem filter_ofChunk (x : CrossReference) :
    (ofChunk files assigned references chunk).filter (saysSame x) =
      ((ledOut files assigned references chunk).find? (saysSame x)).toList := by
  rw [ofChunk, filter_dropRepeated, find?_ledOut]
  rfl

/-- A chunk has no two references that say the same. -/
theorem eq_of_saysSame (kept : x ∈ ofChunk files assigned references chunk)
    (kept' : y ∈ ofChunk files assigned references chunk) (same : saysSame x y) : x = y := by
  have one := filter_ofChunk files assigned references chunk x
  have first := List.mem_filter.mpr ⟨kept, saysSame_iff.mpr ⟨rfl, rfl, rfl⟩⟩
  have second := List.mem_filter.mpr ⟨kept', same⟩
  rw [one, Option.mem_toList] at first second
  exact Option.some.inj (first.symm.trans second)

/-! ## All chunks -/

theorem mem_assignedChunks : chunk ∈ assignedChunks assigned ↔ ∃ entry ∈ assigned, chunk ∈ entry.2 :=
  mem_ascending.trans List.mem_flatMap

theorem pairwise_assignedChunks (assigned : Keyed (List ℤ)) : (assignedChunks assigned).Pairwise (· < ·) := by
  refine (pairwise_ascending _ ?_ ?_ _).imp fun {i j} ordered => ?_
  · exact fun i j k first second => by simp only [decide_eq_true_eq] at *; omega
  · exact fun i j => by simpa using le_total i j
  · exact lt_of_le_of_ne (of_decide_eq_true ordered.1) ordered.2

/-- Exactly the assigned chunks are listed, each once. Every reference of a chunk is one of a listed file that has part
    in it, and leads to the first chunk of the file referred to, which is another one; every reference that leads to
    another chunk in this way is said by one of the chunk. Of those that say the same a chunk has one: the first in file
    order and then in the order of the file's references. -/
theorem resolve_exact (files : List SourceFile) (assigned : Keyed (List ℤ)) (references : Keyed (List FileReference)) :
    ((resolve files assigned references).map (·.1)).Pairwise (· < ·) ∧
    (∀ chunk, chunk ∈ (resolve files assigned references).map (·.1) ↔ ∃ entry ∈ assigned, chunk ∈ entry.2) ∧
    ∀ chunk found, (chunk, found) ∈ resolve files assigned references →
      (∀ x ∈ found, ∃ f ∈ files, chunk ∈ (assigned.get? f.key).getD [] ∧
        ∃ r ∈ (references.get? f.key).getD [], Leads assigned chunk f.key r x) ∧
      (∀ f ∈ files, chunk ∈ (assigned.get? f.key).getD [] → ∀ r ∈ (references.get? f.key).getD [],
        ∀ first, IsLeast {i | i ∈ (assigned.get? r.target).getD []} first → first ≠ chunk →
          ∃! x, x ∈ found ∧ x.kind = r.kind ∧ x.targetChunk = first ∧ x.description = r.description) ∧
      ∀ x, found.filter (saysSame x) = ((ledOut files assigned references chunk).find? (saysSame x)).toList := by
  have chunks : (resolve files assigned references).map (·.1) = assignedChunks assigned := by
    simp [resolve, Function.comp_def]
  rw [chunks]
  refine ⟨pairwise_assignedChunks assigned, fun _ => mem_assignedChunks, fun chunk found entry => ?_⟩
  obtain ⟨_, -, is⟩ := List.mem_map.mp entry
  cases is
  refine ⟨fun x member => ?_, fun f inFiles part r recorded first least other => ?_,
    filter_ofChunk files assigned references chunk⟩
  · obtain ⟨has, r, recorded, leads⟩ := exists_of_mem_ofChunk member
    obtain ⟨⟨f, inFiles, is⟩, part⟩ := mem_filesOfChunk.mp has
    rw [← is] at part recorded leads
    exact ⟨f, inFiles, part, r, recorded, leadsTo?_iff.mp leads⟩
  · have leads : leadsTo? assigned chunk f.key r = some ⟨r.kind, first, r.target, f.key, r.description⟩ :=
      leadsTo?_iff.mpr ⟨least, other, rfl, rfl, rfl, rfl⟩
    obtain ⟨y, kept, kind, target, description⟩ :=
      exists_mem_ofChunk (mem_filesOfChunk.mpr ⟨⟨f, inFiles, rfl⟩, part⟩) recorded leads
    refine ⟨y, ⟨kept, kind, target, description⟩, ?_⟩
    rintro z ⟨kept', kind', target', description'⟩
    exact eq_of_saysSame kept' kept (saysSame_iff.mpr
      ⟨kind'.trans kind.symm, target'.trans target.symm, description'.trans description.symm⟩)

end Chunkwise.Reference
