import Chunkwise.Proofs.Collection.Grammar
import Chunkwise.Proofs.Keyed
import Chunkwise.Proofs.Number.Decimal
import Chunkwise.Proofs.Text.Parts

/-!
# Names are in one line

What a header says about its file stands on the lines of the header, one value to a line. So a file is known by a name
without line feeds, whatever its path or its filename.
-/

namespace Chunkwise

namespace Collection

variable {text : Text} {h : Header}

/-- A value of a field is in one line, whatever lines it was read from. -/
theorem no_feed_of_mem_fieldsOf {lines : List Text} : ∀ field ∈ fieldsOf lines, '\n' ∉ field.2 := by
  intro field member feed
  obtain ⟨line, -, read⟩ := List.mem_flatMap.mp member
  obtain ⟨piece, inPieces, named⟩ := List.mem_filterMap.mp read
  unfold field? at named
  split at named
  · rename_i name value cut
    split at named
    · cases named
    · cases named
      have inPiece : '\n' ∈ piece := Text.subset_of_cut? cut (Text.strip_subset value feed)
      exact absurd (Text.not_sep_of_mem_splitBy inPieces '\n' inPiece) (by decide)
  · cases named

theorem no_feed_wantedKey (name : '\n' ∉ h.name) : '\n' ∉ wantedKey h := by
  have filename : '\n' ∉ h.name.strip := fun feed => name (Text.strip_subset _ feed)
  have fields : ∀ e ∈ Keyed.ofList (fieldsOf h.fields), '\n' ∉ e.2 :=
    Keyed.forall_ofList (P := fun value => '\n' ∉ value) no_feed_of_mem_fieldsOf
  have values : ∀ e ∈ metadataOf h, '\n' ∉ e.2 :=
    Keyed.forall_update (P := fun value => '\n' ∉ value) fields filename fun _ _ => filename
  unfold wantedKey Text.orElse
  split
  · exact filename
  · cases found : (metadataOf h).get? "relative_path".toList with
    | none => exact List.not_mem_nil
    | some path => exact values _ (Keyed.mem_of_get? found)

theorem no_feed_numberedKey {w : Text} (plain : '\n' ∉ w) (n : ℕ) : '\n' ∉ numberedKey w n := by
  unfold numberedKey
  split
  · exact plain
  · simp [plain, no_feed_decimal]

theorem exists_of_mem_filesFrom {used : List Text} {found : List (ℕ × Header)} :
    ∀ f ∈ filesFrom text used found, ∃ e ∈ found, ∃ n, f.key = numberedKey (wantedKey e.2) n := by
  induction found generalizing used with
  | nil => simp [filesFrom]
  | cons e rest ih =>
    refine List.forall_mem_cons.mpr ⟨⟨e, List.mem_cons_self, _, rfl⟩, fun f later => ?_⟩
    obtain ⟨d, inRest, is⟩ := ih f later
    exact ⟨d, List.mem_cons_of_mem e inRest, is⟩

/-- The name by which a file is known is in one line. -/
theorem no_feed_key : ∀ file ∈ parse text, '\n' ∉ file.key := by
  intro file inFiles
  obtain ⟨⟨p, h⟩, found, n, is⟩ := exists_of_mem_filesFrom file inFiles
  rw [is]
  exact no_feed_numberedKey (no_feed_wantedKey (Header.mem_findAll_iff.mp found).name) n

end Collection

end Chunkwise
