import Chunkwise.Proofs.Reference.Files
import Chunkwise.Proofs.Text.Occurrences

/-!
# Which file a module stands for

A module stands for the first file that has the last part of the module's name for a name of its own. Only when no file
has, the first one will do that has a name close to the module's. So a file in front that merely resembles the module
does not take it away from the file that it names.
-/

namespace Chunkwise

/-! ## The first of its kind -/

/-- The first entry of a list with a property. -/
def IsFirst {α : Type} (P : α → Prop) (l : List α) (a : α) : Prop :=
  ∃ before after, l = before ++ a :: after ∧ P a ∧ ∀ b ∈ before, ¬ P b

/-- A search finds the first entry with the property that it tests. -/
theorem find?_eq_some_iff_isFirst {α : Type} {P : α → Prop} {test : α → Bool} (tests : ∀ a, test a ↔ P a) {l : List α}
    {a : α} : l.find? test = some a ↔ IsFirst P l a := by
  simp only [List.find?_eq_some_iff_append, tests, Bool.not_eq_true', ← Bool.not_eq_true]
  constructor
  · rintro ⟨here, before, after, is, misses⟩
    exact ⟨before, after, is, here, misses⟩
  · rintro ⟨before, after, is, here, misses⟩
    exact ⟨here, before, after, is, misses⟩

theorem find?_eq_none_iff_forall {α : Type} {P : α → Prop} {test : α → Bool} (tests : ∀ a, test a ↔ P a) {l : List α} :
    l.find? test = none ↔ ∀ a ∈ l, ¬ P a := by
  simp only [List.find?_eq_none, tests]

namespace Reference

/-! ## The names of a file -/

/-- The base name of a file up to its first point, in small letters. -/
def baseOf (f : SourceFile) : Text := Text.before '.' f.filename.baseName.lower

/-- The parts of the path of a file, in small letters: of its relative path or else of its key. -/
def pathParts (f : SourceFile) : List Text :=
  let path := ((f.metadata.get? "relative_path".toList).getD []).orElse f.key
  (Text.splitBy isPathSeparator path.lower).filter (!·.isEmpty)

/-- The name of the directory that a file is in: the part of its path before the last one. -/
def folder? (f : SourceFile) : Option Text := (pathParts f).dropLast.getLast?

/-- The file has the name: its base name, or that of its directory where it is the index of a package. -/
def Bears (f : SourceFile) (name : Text) : Prop :=
  name ≠ [] ∧ (name = baseOf f ∨ isPackageIndex (baseOf f) ∧ folder? f = some name)

variable {f : SourceFile} {exclude : Option Text} {name : Text}

theorem ne_nil_of_folder? (found : folder? f = some name) : name ≠ [] := by
  have member := (List.dropLast_sublist _).subset (List.mem_of_getLast? found)
  simpa using (List.mem_filter.mp member).2

theorem getLast?_dropLast_eq {α : Type} (parts : List α) :
    parts.dropLast.getLast? = if 2 ≤ parts.length then parts[parts.length - 2]? else none := by
  rw [List.getLast?_eq_getElem?, List.length_dropLast, List.getElem?_dropLast]
  by_cases several : 2 ≤ parts.length
  · rw [if_pos several, if_pos (by omega)]
    rfl
  · rw [if_neg several, if_neg (by omega)]

theorem importNames_eq (f : SourceFile) :
    importNames f = (if (baseOf f).isEmpty then [] else [baseOf f]) ++
      if isPackageIndex (baseOf f) then (folder? f).toList else [] := by
  have byPlace : importNames f = (if (baseOf f).isEmpty then [] else [baseOf f]) ++
      if isPackageIndex (baseOf f) && 2 ≤ (pathParts f).length then ((pathParts f)[(pathParts f).length - 2]?).toList
      else [] := rfl
  rw [byPlace, folder?, getLast?_dropLast_eq]
  by_cases several : 2 ≤ (pathParts f).length
  · simp only [several, decide_true, Bool.and_true, if_true]
  · simp only [several, decide_false, Bool.and_false, Bool.false_eq_true, if_false, Option.toList_none, ite_self]

/-- The names by which a file can be imported are those that it has. -/
theorem mem_importNames : name ∈ importNames f ↔ Bears f name := by
  have base : name ∈ (if (baseOf f).isEmpty then [] else [baseOf f]) ↔ name ≠ [] ∧ name = baseOf f := by
    split_ifs with empty
    · rw [List.isEmpty_iff.mp empty]
      simp
    · rw [List.mem_singleton]
      exact ⟨fun same => ⟨by rwa [same, ← List.isEmpty_iff.ne], same⟩, And.right⟩
  have folder : name ∈ (if isPackageIndex (baseOf f) then (folder? f).toList else []) ↔
      name ≠ [] ∧ isPackageIndex (baseOf f) ∧ folder? f = some name := by
    split_ifs with index
    · rw [Option.mem_toList]
      exact ⟨fun found => ⟨ne_nil_of_folder? found, index, found⟩, fun found => found.2.2⟩
    · simp [index]
  rw [importNames_eq, List.mem_append, base, folder, Bears, and_or_left]

/-! ## Finding a file -/

/-- Whether a file that may be found has a name that passes a test. -/
def hasName (exclude : Option Text) (test : Text → Bool) (f : SourceFile) : Bool :=
  exclude != some f.key && (importNames f).any test

/-- Looking for a name among the candidates is looking for a file that has it. -/
theorem find?_candidates (files : List SourceFile) (exclude : Option Text) (test : Text → Bool) :
    ((candidates files exclude).find? fun c => test c.2).map (·.1) =
      (files.find? (hasName exclude test)).map (·.key) := by
  induction files with
  | nil => rfl
  | cons f rest ih =>
    have first : (((importNames f).map fun name => (f.key, name)).find? fun c => test c.2).map (·.1) =
        if (importNames f).any test then some f.key else none := by
      rw [List.find?_map, ← List.isSome_find?, Option.map_map]
      show ((importNames f).find? test).map (fun _ => f.key) = _
      cases (importNames f).find? test <;> rfl
    have front : candidates (f :: rest) exclude =
        (if exclude != some f.key then (importNames f).map fun name => (f.key, name) else []) ++
          candidates rest exclude := by
      rw [candidates, List.filter_cons]
      split_ifs <;> rfl
    rw [front, List.find?_append, Option.map_or, ih, List.find?_cons, hasName]
    by_cases other : exclude != some f.key
    · rw [if_pos other, first, other, Bool.true_and]
      cases (importNames f).any test <;> rfl
    · simp [other]

/-! ## Looking up a module -/

/-- The last part of a module's name, in the form in which names are compared. -/
def lastPart (name : Text) : Text := moduleTail (normalizeModule name)

/-- The file may be found, and the last part of the module's name is a name of it. -/
def Matches (exclude : Option Text) (name : Text) (f : SourceFile) : Prop :=
  exclude ≠ some f.key ∧ Bears f (lastPart name)

/-- The file may be found, and it has a name that is long enough and part of the module's name, or that has the last
    part of the module's name in it. -/
def Resembles (exclude : Option Text) (name : Text) (f : SourceFile) : Prop :=
  exclude ≠ some f.key ∧ ∃ known, Bears f known ∧ 3 ≤ known.length ∧
    (known <:+: normalizeModule name ∨ lastPart name <:+: known)

instance (f : SourceFile) (name : Text) : Decidable (Bears f name) :=
  inferInstanceAs (Decidable (_ ∧ (_ ∨ _ ∧ _)))

instance (exclude : Option Text) (name : Text) (f : SourceFile) : Decidable (Matches exclude name f) :=
  inferInstanceAs (Decidable (_ ∧ _))

theorem hasName_iff {test : Text → Bool} :
    hasName exclude test f ↔ exclude ≠ some f.key ∧ ∃ known, Bears f known ∧ test known := by
  simp only [hasName, Bool.and_eq_true, bne_iff_ne, List.any_eq_true, mem_importNames]

theorem hasName_matches (f : SourceFile) : hasName exclude (· == lastPart name) f ↔ Matches exclude name f := by
  simp only [hasName_iff, Matches, beq_iff_eq, exists_eq_right]

theorem hasName_resembles (f : SourceFile) :
    hasName exclude (isNear (normalizeModule name) (lastPart name)) f ↔ Resembles exclude name f := by
  simp only [hasName_iff, Resembles, isNear, Bool.and_eq_true, Bool.or_eq_true, decide_eq_true_eq, Text.occursIn_iff]

/-- The files that are searched first are those that match. -/
theorem find?_matches (files : List SourceFile) (exclude : Option Text) (name : Text) :
    files.find? (hasName exclude (· == lastPart name)) = (files.filter (Matches exclude name ·)).head? := by
  have sameTest : hasName exclude (· == lastPart name) = (Matches exclude name ·) :=
    funext fun f => Bool.eq_iff_iff.mpr (by rw [hasName_matches, decide_eq_true_eq])
  rw [List.head?_filter, sameTest]

theorem lastPart_of_empty (empty : normalizeModule name = []) : lastPart name = [] := by
  rw [lastPart, empty]
  decide

/-- No file has an empty name. -/
theorem not_matches_of_empty (empty : normalizeModule name = []) : ¬ Matches exclude name f := by
  rintro ⟨-, nonempty, -⟩
  exact nonempty (lastPart_of_empty empty)

/-- A module is looked for among the files that have its last part for a name, and then among those that have a name
    close to it. -/
theorem lookupModule_eq (files : List SourceFile) (exclude : Option Text) (name : Text) :
    lookupModule files exclude name =
      ((files.find? (hasName exclude (· == lastPart name))).map (·.key)).or
        (if (lastPart name).length < 3 then none
         else (files.find? (hasName exclude (isNear (normalizeModule name) (lastPart name)))).map (·.key)) := by
  by_cases empty : normalizeModule name = []
  · have missing : files.find? (hasName exclude (· == lastPart name)) = none :=
      (find?_eq_none_iff_forall hasName_matches).mpr fun f _ => not_matches_of_empty empty
    have short : (lastPart name).length < 3 := by
      rw [lastPart_of_empty empty]
      decide
    rw [missing, if_pos short, lookupModule]
    simp only [empty, List.isEmpty_nil, if_true, Option.map_none, Option.none_or]
  · have some : (normalizeModule name).isEmpty = false := by simpa using empty
    rw [← find?_candidates, ← find?_candidates, lookupModule, lastPart]
    simp only [some, Bool.false_eq_true, if_false]
    generalize moduleTail (normalizeModule name) = last
    cases (candidates files exclude).find? fun c => c.2 == last with
    | none => rfl
    | some found => rfl

/-- What a module should be found to stand for: the first file that has its last part for a name, or else, when that
    part is long enough, the first one that resembles it, or else nothing. -/
def LookupCorrect (files : List SourceFile) (exclude : Option Text) (name : Text) : Option Text → Prop
  | some key => ∃ f, f.key = key ∧ (IsFirst (Matches exclude name) files f ∨
      (∀ g ∈ files, ¬ Matches exclude name g) ∧ 3 ≤ (lastPart name).length ∧
        IsFirst (Resembles exclude name) files f)
  | none => (∀ g ∈ files, ¬ Matches exclude name g) ∧
      (3 ≤ (lastPart name).length → ∀ g ∈ files, ¬ Resembles exclude name g)

theorem lookupModule_eq_iff (files : List SourceFile) (exclude : Option Text) (name : Text) (answer : Option Text) :
    lookupModule files exclude name = answer ↔ LookupCorrect files exclude name answer := by
  rw [lookupModule_eq]
  cases answer with
  | none =>
    rw [LookupCorrect, Option.or_eq_none_iff, Option.map_eq_none_iff, find?_eq_none_iff_forall hasName_matches]
    refine and_congr_right fun _ => ?_
    by_cases long : 3 ≤ (lastPart name).length
    · rw [if_neg (not_lt.mpr long), Option.map_eq_none_iff, find?_eq_none_iff_forall hasName_resembles]
      simp [long]
    · simp [long]
  | some key =>
    simp only [LookupCorrect, ← find?_eq_some_iff_isFirst hasName_matches,
      ← find?_eq_some_iff_isFirst hasName_resembles, ← find?_eq_none_iff_forall hasName_matches]
    cases files.find? (hasName exclude (· == lastPart name)) with
    | some f => simp
    | none =>
      by_cases long : 3 ≤ (lastPart name).length
      · rw [if_neg (not_lt.mpr long)]
        simp [long, and_comm]
      · rw [if_pos (not_le.mp long)]
        simp [long]

/-- A lookup finds what it should and nothing else, and never the file that is left out. Where some file has the last
    part of the module's name for a name, files that have not can be put in or taken out anywhere. -/
theorem lookupModule_exact (files : List SourceFile) (exclude : Option Text) (name : Text) :
    (∀ answer, lookupModule files exclude name = answer ↔ LookupCorrect files exclude name answer) ∧
    (∀ key, lookupModule files exclude name = some key → exclude ≠ some key) ∧
    ((∃ f ∈ files, Matches exclude name f) → ∀ others : List SourceFile,
      others.filter (Matches exclude name ·) = files.filter (Matches exclude name ·) →
        lookupModule others exclude name = lookupModule files exclude name) := by
  refine ⟨lookupModule_eq_iff files exclude name, ?_, ?_⟩
  · rintro key found rfl
    exact ne_of_lookupModule found rfl
  · rintro ⟨f, inFiles, matching⟩ others same
    have found : (files.find? (hasName exclude (· == lastPart name))).isSome := by
      rw [List.find?_isSome]
      exact ⟨f, inFiles, (hasName_matches f).mpr matching⟩
    obtain ⟨g, first⟩ := Option.isSome_iff_exists.mp found
    have first' : others.find? (hasName exclude (· == lastPart name)) = some g := by
      rw [find?_matches, same, ← find?_matches, first]
    rw [lookupModule_eq, lookupModule_eq, first, first', Option.map_some, Option.some_or, Option.some_or]

/-- An empty file that is known by its name. -/
def emptyFile (name : Text) : SourceFile := ⟨name, [], 0, 0, 0, name, []⟩

/-- A file that merely resembles the module stands in front of the one that it names. It does not matter whether it is
    there. -/
theorem lookupModule_exact_resembling :
    let files := ["main.py", "my_utils.py", "utils.py"].map (emptyFile ·.toList)
    let exclude := some "main.py".toList
    lookupModule files exclude "./utils".toList = some "utils.py".toList ∧ exclude ≠ some "utils.py".toList ∧
      lookupModule [emptyFile "utils.py".toList] exclude "./utils".toList = some "utils.py".toList := by
  intro files exclude
  obtain ⟨exact, excluded, stable⟩ := lookupModule_exact files exclude "./utils".toList
  have first : IsFirst (Matches exclude "./utils".toList) files (emptyFile "utils.py".toList) :=
    ⟨[emptyFile "main.py".toList, emptyFile "my_utils.py".toList], [], rfl, by decide +kernel, by decide +kernel⟩
  have found := (exact (some "utils.py".toList)).mpr ⟨_, rfl, Or.inl first⟩
  have alone : [emptyFile "utils.py".toList].filter (Matches exclude "./utils".toList ·) =
      files.filter (Matches exclude "./utils".toList ·) := by decide +kernel
  have known : ∃ f ∈ files, Matches exclude "./utils".toList f := ⟨emptyFile "utils.py".toList, by decide +kernel⟩
  exact ⟨found, excluded _ found, (stable known _ alone).trans found⟩

end Reference

end Chunkwise
