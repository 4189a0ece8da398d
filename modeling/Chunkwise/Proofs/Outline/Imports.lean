import Chunkwise.Proofs.Outline.Lines
import Chunkwise.Proofs.Pattern
import Chunkwise.Proofs.Text.Parts

/-!
# What imports name

The items of an import are written out in the references of a chunk. They are cut out of the line that imports them,
whichever scanner reads it, so each of them is in one line.
-/

namespace Chunkwise

variable {line code item : Text} {number : ℕ} {i : ImportEntry}

/-- The items of an import are made of characters of a line. -/
def ImportEntry.Within (line : Text) (i : ImportEntry) : Prop := ∀ item ∈ i.items, item ⊆ line

namespace Indented

theorem takenName_subset (item : Text) : takenName item ⊆ item :=
  List.Subset.trans (Text.strip_subset _) (Text.beforeText_subset _ item)

theorem within_importsOf (member : i ∈ importsOf line number) : i.Within line := by
  unfold importsOf at member
  split at member
  · rename_i caps matched
    obtain rfl := List.mem_singleton.mp member
    intro taken inItems
    dsimp only at inItems
    obtain ⟨item, listed, rfl⟩ := List.mem_map.mp inItems
    calc takenName item ⊆ item := takenName_subset item
      _ ⊆ ((caps.text .items).strip.trim (Pattern.isOneOf "()\\")).strip := Text.subset_of_mem_items listed
      _ ⊆ (caps.text .items).strip.trim (Pattern.isOneOf "()\\") := Text.strip_subset _
      _ ⊆ (caps.text .items).strip := Text.trim_subset ..
      _ ⊆ caps.text .items := Text.strip_subset _
      _ ⊆ line := Pattern.text_subset matched .items
  · split at member
    · rename_i caps matched
      obtain ⟨item, listed, rfl⟩ := List.mem_map.mp member
      refine List.forall_mem_singleton.mpr ?_
      calc Text.afterLast '.' (takenName item) ⊆ takenName item := Text.afterLast_subset ..
        _ ⊆ item := takenName_subset item
        _ ⊆ caps.text .items := Text.subset_of_mem_items listed
        _ ⊆ line := Pattern.text_subset matched .items
    · cases member

theorem within_step {docQuote : Option Text} {n : ℕ} (member : i ∈ (step docQuote n line).2.imports) :
    i.Within line := by
  have code (found : i ∈ (codeFinding n line).imports) : i.Within line := by
    unfold codeFinding at found
    split at found
    · cases found
    · exact within_importsOf found
  unfold step at member
  dsimp only at member
  split at member
  · cases member
  · split at member
    · cases member
    · split at member
      · cases member
      · exact code member

end Indented

namespace Braced

theorem subset_of_mem_takenNames {listed : Text} (member : item ∈ takenNames listed) : item ⊆ listed := by
  obtain ⟨whole, inItems, rfl⟩ := List.mem_map.mp member
  calc (Text.before ':' (Text.beforeText " as ".toList whole)).strip
      ⊆ Text.before ':' (Text.beforeText " as ".toList whole) := Text.strip_subset _
    _ ⊆ Text.beforeText " as ".toList whole := Text.before_subset ..
    _ ⊆ whole := Text.beforeText_subset ..
    _ ⊆ listed := Text.subset_of_mem_items inItems

theorem within_import (found : import? code number = some i) : i.Within code := by
  unfold import? at found
  split at found
  · rename_i caps matched
    cases found
    have single (slot : Slot) (item : Text) (member : item ∈ (caps.get? slot).toList) : item ⊆ code :=
      Pattern.subset_of_get? matched (Option.mem_toList.mp member)
    have taken (slot : Slot) (item : Text) (member : item ∈ takenNames (caps.text slot)) : item ⊆ code :=
      List.Subset.trans (subset_of_mem_takenNames member) (Pattern.text_subset matched slot)
    intro item member
    simp only [List.mem_append] at member
    rcases member with (default | whole) | named | more
    · exact single .defaultName item default
    · exact single .wholeModule item whole
    · exact taken .named item named
    · exact taken .moreNamed item more
  split at found
  · cases found
    exact List.forall_mem_nil _
  split at found
  · rename_i caps matched
    cases found
    have within := Pattern.text_subset matched .named
    dsimp only [ImportEntry.Within]
    split
    · intro item member
      exact List.Subset.trans (subset_of_mem_takenNames member) (List.Subset.trans (Text.trim_subset ..) within)
    · exact List.forall_mem_singleton.mpr within
  split at found
  · rename_i caps matched
    cases found
    exact List.forall_mem_singleton.mpr
      (List.Subset.trans (Text.afterLast_subset ..) (Pattern.text_subset matched .source))
  · obtain ⟨caps, matched, rfl⟩ := Option.map_eq_some_iff.mp found
    exact List.forall_mem_singleton.mpr
      (List.Subset.trans (Text.afterLast_subset ..) (Pattern.text_subset matched .source))

theorem within_step {inside : Inside} {n : ℕ} (member : i ∈ (step inside n line).2.imports) : i.Within line := by
  unfold step at member
  dsimp only at member
  split at member
  · cases member
  · intro item inItems
    exact List.Subset.trans (within_import (Option.mem_toList.mp member) item inItems)
      fun _ inCode => Comments.mem_of_mem_strip inCode

end Braced

theorem Headings.imports_finding (n : ℕ) (line : Text) : (finding n line).imports = [] := by
  unfold finding
  split
  · split <;> rfl
  · rfl

/-- An import names things on one of the lines, whichever scanner reads them. -/
theorem Scanner.exists_of_mem_imports {scanner : Scanner} {lines : List Text}
    (member : i ∈ (scanner.findings lines).flatMap (·.imports)) : ∃ line ∈ lines, i.Within line := by
  obtain ⟨f, inFindings, inImports⟩ := List.mem_flatMap.mp member
  cases scanner with
  | indented =>
    obtain ⟨line, inLines, docQuote, n, rfl⟩ := Indented.exists_of_mem_findingsFrom inFindings
    exact ⟨line, inLines, Indented.within_step inImports⟩
  | braced =>
    obtain ⟨line, inLines, inside, n, rfl⟩ := Braced.exists_of_mem_findingsFrom inFindings
    exact ⟨line, inLines, Braced.within_step inImports⟩
  | headings =>
    obtain ⟨line, inLines, n, rfl⟩ := Headings.exists_of_mem_findingsFrom inFindings
    rw [Headings.imports_finding] at inImports
    cases inImports

/-- The items that a file imports are each in one line. -/
theorem Outline.no_feed_of_mem_imports {r : Registry} {filename content : Text} {binary : Bool}
    (member : i ∈ (ofFile r filename content binary).imports) : ∀ item ∈ i.items, '\n' ∉ item := by
  intro item inItems
  obtain ⟨scanner, same | same⟩ := ofFile_cases r filename content binary
  · rw [same] at member
    cases member
  · rw [same] at member
    obtain ⟨line, inLines, within⟩ := Scanner.exists_of_mem_imports member
    exact fun feed => Text.no_feed_of_mem_lines inLines (within item inItems feed)

end Chunkwise
