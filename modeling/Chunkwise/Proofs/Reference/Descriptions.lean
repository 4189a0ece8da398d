import Chunkwise.Proofs.Keyed
import Chunkwise.Proofs.Reference.Files
import Chunkwise.Proofs.Text.Parts

/-!
# References are described in one line

A description names a file by its key, and the items that are imported or the function that is called. A called name is
a run of word characters; keys and items are in one line if those of the files are.
-/

namespace Chunkwise.Reference

variable {files : List SourceFile} {outlines : Keyed Outline} {minLength : ℤ} {f : SourceFile} {r : FileReference}

/-! ## Called names -/

theorem no_feed_of_callAt? {previous : Option Char} {t name : Text} {length : ℕ}
    (found : callAt? previous t = some (name, length)) : '\n' ∉ name := by
  unfold callAt? at found
  split at found
  · dsimp only at found
    split at found <;> cases found
    exact fun feed => absurd (List.mem_takeWhile_imp feed) (by decide)
  · cases found

theorem no_feed_of_mem_callsFrom {previous : Option Char} {skip : ℕ} {t : Text} :
    ∀ name ∈ callsFrom previous skip t, '\n' ∉ name := by
  induction t generalizing previous skip with
  | nil => simp [callsFrom]
  | cons c rest ih =>
    unfold callsFrom
    split
    · exact ih
    · split
      · rename_i name length found
        exact List.forall_mem_cons.mpr ⟨no_feed_of_callAt? found, ih⟩
      · exact ih

/-! ## Files that are referred to -/

theorem mem_definers {name key : Text} (member : key ∈ definers files outlines name) : ∃ f ∈ files, f.key = key := by
  obtain ⟨f, defines, is⟩ := List.mem_map.mp member
  exact ⟨f, (List.mem_filter.mp defines).1, is⟩

theorem exists_of_definer? {name key : Text} (found : definer? files outlines minLength name = some key) :
    ∃ f ∈ files, f.key = key := by
  unfold definer? at found
  split at found
  · split at found
    · rename_i only is
      cases found
      exact mem_definers (is ▸ List.mem_singleton_self key)
    · cases found
  · cases found

/-! ## Descriptions -/

/-- The files and what they import are named in one line each. -/
structure NamedInLines (files : List SourceFile) (outlines : Keyed Outline) : Prop where
  keys : ∀ f ∈ files, '\n' ∉ f.key
  items : ∀ entry ∈ outlines, ∀ i ∈ entry.2.imports, ∀ item ∈ i.items, '\n' ∉ item

theorem no_feed_of_mem_importReferences (named : NamedInLines files outlines)
    (member : r ∈ importReferences files outlines f) : '\n' ∉ r.description := by
  obtain ⟨outline, known, i, inImports, found, is⟩ := exists_of_mem_importReferences member
  obtain ⟨other, candidate⟩ := mem_candidates_of_lookupModule found
  obtain ⟨g, inFiles, -, target, -⟩ := mem_candidates.mp candidate
  have key : '\n' ∉ r.target := target ▸ named.keys g inFiles
  have items : '\n' ∉ Text.join ", ".toList (i.items.filter (!·.isEmpty)) :=
    Text.no_feed_join (by decide) fun item listed =>
      named.items _ (Keyed.mem_of_get? known) i inImports item (List.mem_filter.mp listed).1
  rw [is]
  dsimp only [FileReference.description]
  split
  · exact List.not_mem_append (by decide) key
  · exact List.not_mem_append (List.not_mem_append (List.not_mem_append (by decide) items) (by decide)) key

theorem no_feed_of_mem_callReferences (named : NamedInLines files outlines)
    (member : r ∈ callReferences files outlines minLength f) : '\n' ∉ r.description := by
  obtain ⟨name, called, followed⟩ := mem_callReferences.mp member
  obtain ⟨defined, -, -, is⟩ := follow?_eq_some_iff.mp followed
  obtain ⟨g, inFiles, target⟩ := exists_of_definer? defined
  have key : '\n' ∉ r.target := target ▸ named.keys g inFiles
  have function := no_feed_of_mem_callsFrom name called
  rw [is]
  exact List.not_mem_append (List.not_mem_append (List.not_mem_append (by decide) function) (by decide)) key

theorem no_feed_description (named : NamedInLines files outlines) {key : Text}
    (member : r ∈ ((ofFiles files outlines minLength).get? key).getD []) : '\n' ∉ r.description := by
  rw [getD_ofFiles, List.mem_append, List.mem_flatMap, List.mem_flatMap] at member
  rcases member with ⟨f, -, imported⟩ | ⟨f, -, called⟩
  · exact no_feed_of_mem_importReferences named imported
  · exact no_feed_of_mem_callReferences named called

end Chunkwise.Reference
