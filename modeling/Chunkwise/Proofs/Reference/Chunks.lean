import Chunkwise.Reference.Chunks
import Mathlib.Tactic

/-!
# What the references of a chunk come from

A reference of a chunk is one of a file that has part in it, led on to the first chunk of the file referred to. It
leads out of its chunk, and no other one of the chunk says the same.
-/

namespace Chunkwise.Reference

variable {files : List SourceFile} {assigned : Keyed (List ℤ)} {references : Keyed (List FileReference)} {chunk : ℤ}
  {key : Text} {r : FileReference} {x a b : CrossReference} {seen : List CrossReference}

/-! ## Files and first chunks -/

/-- A file has part in the chunks that it is assigned. -/
theorem mem_filesOfChunk :
    key ∈ filesOfChunk files assigned chunk ↔ (∃ f ∈ files, f.key = key) ∧ chunk ∈ (assigned.get? key).getD [] := by
  simp only [filesOfChunk, List.mem_flatMap, List.mem_replicate, ← Nat.pos_iff_ne_zero, List.count_pos_iff]
  constructor
  · rintro ⟨f, inFiles, has, rfl⟩
    exact ⟨⟨f, inFiles, rfl⟩, has⟩
  · rintro ⟨⟨f, inFiles, rfl⟩, has⟩
    exact ⟨f, inFiles, has, rfl⟩

theorem firstChunk?_eq_some_iff {first : ℤ} :
    firstChunk? assigned key = some first ↔
      first ∈ (assigned.get? key).getD [] ∧ ∀ i ∈ (assigned.get? key).getD [], first ≤ i := by
  rw [firstChunk?, List.min?_eq_some_iff]

/-- A reference of a file leads from a chunk to the first chunk of its target, if that is another one. -/
theorem leadsTo?_eq_some_iff :
    leadsTo? assigned chunk key r = some x ↔ firstChunk? assigned r.target = some x.targetChunk ∧
      x.targetChunk ≠ chunk ∧ x.kind = r.kind ∧ x.targetFile = r.target ∧ x.sourceFile = key ∧
      x.description = r.description := by
  obtain ⟨kind, targetChunk, targetFile, sourceFile, description⟩ := x
  unfold leadsTo?
  cases firstChunk? assigned r.target with
  | none => simp
  | some first =>
    by_cases own : first = chunk
    · simp only [own, ↓reduceIte, reduceCtorEq, Option.some.injEq, false_iff]
      rintro ⟨rfl, other, -⟩
      exact other rfl
    · simp only [own, ↓reduceIte, Option.some.injEq, CrossReference.mk.injEq]
      constructor
      · rintro ⟨rfl, rfl, rfl, rfl, rfl⟩
        exact ⟨rfl, own, rfl, rfl, rfl, rfl⟩
      · rintro ⟨rfl, -, rfl, rfl, rfl, rfl⟩
        exact ⟨rfl, rfl, rfl, rfl, rfl⟩

/-! ## Repetitions -/

theorem saysSame_iff :
    saysSame a b ↔ a.kind = b.kind ∧ a.targetChunk = b.targetChunk ∧ a.description = b.description := by
  simp [saysSame, and_assoc]

theorem dropRepeated_sublist (seen given : List CrossReference) : (dropRepeated seen given).Sublist given := by
  induction given generalizing seen with
  | nil => exact .slnil
  | cons r rest ih =>
    unfold dropRepeated
    split
    · exact (ih seen).cons r
    · exact (ih (r :: seen)).cons_cons r

/-- What is kept says something that none of those seen before says. -/
theorem new_of_mem_dropRepeated {given : List CrossReference} (kept : a ∈ dropRepeated seen given) :
    ∀ b ∈ seen, ¬ saysSame a b := by
  induction given generalizing seen with
  | nil => cases kept
  | cons r rest ih =>
    unfold dropRepeated at kept
    split at kept
    · exact ih kept
    · rename_i new
      rcases List.mem_cons.mp kept with rfl | later
      · simpa using new
      · exact fun b before => ih later b (List.mem_cons_of_mem r before)

theorem pairwise_dropRepeated (seen given : List CrossReference) :
    (dropRepeated seen given).Pairwise fun a b => ¬ saysSame b a := by
  induction given generalizing seen with
  | nil => exact .nil
  | cons r rest ih =>
    unfold dropRepeated
    split
    · exact ih seen
    · exact .cons (fun b later => new_of_mem_dropRepeated later r List.mem_cons_self) (ih (r :: seen))

/-- What is dropped is said by something that is kept, or was said before. -/
theorem exists_saysSame_dropRepeated (seen : List CrossReference) {given : List CrossReference} (member : a ∈ given) :
    (∃ b ∈ seen, saysSame a b) ∨ ∃ b ∈ dropRepeated seen given, saysSame a b := by
  induction given generalizing seen with
  | nil => cases member
  | cons r rest ih =>
    unfold dropRepeated
    by_cases repeated : seen.any (saysSame r)
    · rw [if_pos repeated]
      rcases List.mem_cons.mp member with rfl | later
      · exact Or.inl (List.any_eq_true.mp repeated)
      · exact ih seen later
    · rw [if_neg repeated]
      rcases List.mem_cons.mp member with rfl | later
      · exact Or.inr ⟨a, List.mem_cons_self, saysSame_iff.mpr ⟨rfl, rfl, rfl⟩⟩
      · -- What was said by then was said before, or it is said by the one just kept.
        rcases ih (r :: seen) later with ⟨b, before, same⟩ | ⟨b, kept, same⟩
        · rcases List.mem_cons.mp before with rfl | earlier
          · exact Or.inr ⟨b, List.mem_cons_self, same⟩
          · exact Or.inl ⟨b, earlier, same⟩
        · exact Or.inr ⟨b, List.mem_cons_of_mem r kept, same⟩

/-! ## References of a chunk -/

/-- Every reference of a chunk is one of a file that has part in the chunk, led on to the first chunk of its target. -/
theorem exists_of_mem_ofChunk (member : x ∈ ofChunk files assigned references chunk) :
    x.sourceFile ∈ filesOfChunk files assigned chunk ∧
      ∃ r ∈ (references.get? x.sourceFile).getD [], leadsTo? assigned chunk x.sourceFile r = some x := by
  obtain ⟨key, has, led⟩ := List.mem_flatMap.mp ((dropRepeated_sublist _ _).subset member)
  obtain ⟨r, recorded, leads⟩ := List.mem_filterMap.mp led
  obtain rfl : x.sourceFile = key := (leadsTo?_eq_some_iff.mp leads).2.2.2.2.1
  exact ⟨has, r, recorded, leads⟩

/-- Every reference of a file that has part in a chunk and leads out of it is said by a reference of the chunk. -/
theorem exists_mem_ofChunk (part : key ∈ filesOfChunk files assigned chunk)
    (recorded : r ∈ (references.get? key).getD []) (leads : leadsTo? assigned chunk key r = some x) :
    ∃ y ∈ ofChunk files assigned references chunk,
      y.kind = x.kind ∧ y.targetChunk = x.targetChunk ∧ y.description = x.description := by
  have led : x ∈ (filesOfChunk files assigned chunk).flatMap fun key =>
      ((references.get? key).getD []).filterMap (leadsTo? assigned chunk key) :=
    List.mem_flatMap.mpr ⟨key, part, List.mem_filterMap.mpr ⟨r, recorded, leads⟩⟩
  rcases exists_saysSame_dropRepeated [] led with ⟨y, before, -⟩ | ⟨y, kept, same⟩
  · cases before
  · obtain ⟨kind, target, description⟩ := saysSame_iff.mp same
    exact ⟨y, kept, kind.symm, target.symm, description.symm⟩

theorem pairwise_ofChunk :
    (ofChunk files assigned references chunk).Pairwise fun a b =>
      ¬ (a.kind = b.kind ∧ a.targetChunk = b.targetChunk ∧ a.description = b.description) := by
  refine (pairwise_dropRepeated _ _).imp fun differ same => differ ?_
  obtain ⟨kind, target, description⟩ := same
  exact saysSame_iff.mpr ⟨kind.symm, target.symm, description.symm⟩

end Chunkwise.Reference
