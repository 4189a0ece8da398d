import Chunkwise.Proofs.Ascending
import Chunkwise.Reference.Files
import Mathlib.Tactic

/-!
# References lead to other files

An import is looked for among all files but the one that makes it, and a call of a function that the calling file
defines is not followed. So no file refers to itself. This holds of keys: files that share a key are one file here.
-/

namespace Chunkwise.Reference

variable {files : List SourceFile} {outlines : Keyed Outline} {minLength : ℤ} {f : SourceFile} {r : FileReference}

/-! ## References of one file -/

theorem mem_candidates {exclude : Option Text} {key name : Text} :
    (key, name) ∈ candidates files exclude ↔
      ∃ f ∈ files, exclude ≠ some f.key ∧ f.key = key ∧ name ∈ importNames f := by
  simp only [candidates, List.mem_flatMap, List.mem_filter, List.mem_map, bne_iff_ne, Prod.mk.injEq]
  constructor
  · rintro ⟨f, ⟨inFiles, other⟩, name, listed, rfl, rfl⟩
    exact ⟨f, inFiles, other, rfl, listed⟩
  · rintro ⟨f, inFiles, other, rfl, listed⟩
    exact ⟨f, ⟨inFiles, other⟩, name, listed, rfl, rfl⟩

/-- A module is found among the candidates. -/
theorem mem_candidates_of_lookupModule {exclude : Option Text} {name key : Text}
    (found : lookupModule files exclude name = some key) : ∃ known, (key, known) ∈ candidates files exclude := by
  unfold lookupModule at found
  simp only at found
  split at found
  · cases found
  · split at found
    · rename_i same
      cases found
      exact ⟨_, List.mem_of_find?_eq_some same⟩
    · split at found
      · cases found
      · obtain ⟨⟨other, known⟩, near, rfl⟩ := Option.map_eq_some_iff.mp found
        exact ⟨known, List.mem_of_find?_eq_some near⟩

/-- A module is never found in the file that is left out. -/
theorem ne_of_lookupModule {name key own : Text} (found : lookupModule files (some own) name = some key) :
    key ≠ own := by
  obtain ⟨known, candidate⟩ := mem_candidates_of_lookupModule found
  obtain ⟨f, -, other, rfl, -⟩ := mem_candidates.mp candidate
  rintro rfl
  exact other rfl

/-- An import of a file's outline is recorded with the file that it is found to stand for. -/
theorem exists_of_mem_importReferences (member : r ∈ importReferences files outlines f) :
    ∃ outline, outlines.get? f.key = some outline ∧ ∃ i ∈ outline.imports,
      lookupModule files (some f.key) i.source = some r.target ∧
      r = { kind := some .importing, source := f.key, target := r.target, items := i.items.filter (!·.isEmpty),
            line := i.line } := by
  unfold importReferences at member
  split at member
  · cases member
  · rename_i outline known
    obtain ⟨i, listed, made⟩ := List.mem_filterMap.mp member
    split at made
    · rename_i target found
      split at made
      · cases made
      · cases made
        exact ⟨outline, known, i, listed, found, rfl⟩
    · cases made

theorem target_ne_of_mem_importReferences (member : r ∈ importReferences files outlines f) : r.target ≠ f.key := by
  obtain ⟨-, -, i, -, found, -⟩ := exists_of_mem_importReferences member
  exact ne_of_lookupModule found

theorem kind_of_mem_importReferences (member : r ∈ importReferences files outlines f) : r.kind = some .importing := by
  obtain ⟨-, -, i, -, -, is⟩ := exists_of_mem_importReferences member
  rw [is]

/-- What becomes of a called name. -/
def follow? (files : List SourceFile) (outlines : Keyed Outline) (minLength : ℤ) (f : SourceFile) (name : Text) :
    Option FileReference :=
  match definer? files outlines minLength name with
  | some target =>
    if target == f.key || (functionNames (outlines.get? f.key)).contains name then none
    else some { kind := some .calling, source := f.key, target := target, function := some name }
  | none => none

theorem callReferences_eq :
    callReferences files outlines minLength f =
      ((calledNames f.content).eraseDups.mergeSort Text.le).filterMap (follow? files outlines minLength f) := rfl

/-- A call is followed to the only file that defines the function, when that is another one. -/
theorem follow?_eq_some_iff {name : Text} :
    follow? files outlines minLength f name = some r ↔
      definer? files outlines minLength name = some r.target ∧ r.target ≠ f.key ∧
        name ∉ functionNames (outlines.get? f.key) ∧
        r = { kind := some .calling, source := f.key, target := r.target, function := some name } := by
  unfold follow?
  constructor
  · intro followed
    split at followed
    · rename_i target found
      split at followed
      · cases followed
      · rename_i foreign
        cases followed
        simp only [Bool.or_eq_true, beq_iff_eq, List.contains_iff_mem, not_or] at foreign
        exact ⟨found, foreign.1, foreign.2, rfl⟩
    · cases followed
  · rintro ⟨found, other, missing, is⟩
    rw [found, is]
    exact if_neg (by simp [other, missing])

theorem mem_callReferences :
    r ∈ callReferences files outlines minLength f ↔
      ∃ name ∈ calledNames f.content, follow? files outlines minLength f name = some r := by
  simp only [callReferences_eq, List.mem_filterMap, mem_ascending]

theorem target_ne_of_mem_callReferences (member : r ∈ callReferences files outlines minLength f) :
    r.target ≠ f.key := by
  obtain ⟨name, -, followed⟩ := mem_callReferences.mp member
  exact (follow?_eq_some_iff.mp followed).2.1

/-! ## References of all files -/

theorem getD_append (m : Keyed (List FileReference)) (key other : Text) (more : List FileReference) :
    ((append m key more).get? other).getD [] = (m.get? other).getD [] ++ if other = key then more else [] := by
  rw [append, Keyed.get?_update]
  by_cases same : other = key
  · simp [same]
  · simp [same]

/-- References of one kind are recorded under the key of the file that makes them. -/
theorem getD_foldl_append (made : SourceFile → List FileReference) (m : Keyed (List FileReference)) (key : Text) :
    ((files.foldl (fun m f => append m f.key (made f)) m).get? key).getD [] =
      (m.get? key).getD [] ++ (files.filter (·.key = key)).flatMap made := by
  induction files generalizing m with
  | nil => simp
  | cons f rest ih =>
    rw [List.foldl_cons, ih, getD_append, List.append_assoc]
    by_cases own : f.key = key
    · simp [own]
    · simp [own, Ne.symm own]

/-- Under a key stand the imports of the files that have it, and then their calls. -/
theorem getD_ofFiles (files : List SourceFile) (outlines : Keyed Outline) (minLength : ℤ) (key : Text) :
    ((ofFiles files outlines minLength).get? key).getD [] =
      (files.filter (·.key = key)).flatMap (importReferences files outlines) ++
        (files.filter (·.key = key)).flatMap (callReferences files outlines minLength) := by
  simp only [ofFiles, getD_foldl_append]
  rfl

/-- No file refers to itself. -/
theorem target_ne_of_mem_ofFiles {key : Text} (member : r ∈ ((ofFiles files outlines minLength).get? key).getD []) :
    r.target ≠ key := by
  rw [getD_ofFiles, List.mem_append, List.mem_flatMap, List.mem_flatMap] at member
  rcases member with ⟨f, named, imported⟩ | ⟨f, named, called⟩
  · obtain rfl : f.key = key := by simpa using (List.mem_filter.mp named).2
    exact target_ne_of_mem_importReferences imported
  · obtain rfl : f.key = key := by simpa using (List.mem_filter.mp named).2
    exact target_ne_of_mem_callReferences called

end Chunkwise.Reference
