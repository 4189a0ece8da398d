import Chunkwise.Collection.SourceFile
import Chunkwise.Proofs.Collection.Headers

/-!
# Files within their collection

Every file of a collection lies within the text, and so does its content.
-/

namespace Chunkwise

/-- A file lies within a text of so many characters. -/
structure SourceFile.Inside (length : ℕ) (f : SourceFile) : Prop where
  start_nonneg : 0 ≤ f.start
  stop_le : f.stop ≤ length
  content_le : f.content.length ≤ length

/-- The entry of a file is a part of a text of so many characters. -/
structure SourceFile.Covers (length : ℕ) (f : SourceFile) : Prop where
  start_nonneg : 0 ≤ f.start
  start_le : f.start ≤ f.stop
  stop_le : f.stop ≤ length

theorem SourceFile.Inside.covers {length : ℕ} {f : SourceFile} (inside : f.Inside length) (proper : f.start ≤ f.stop) :
    f.Covers length :=
  ⟨inside.start_nonneg, proper, inside.stop_le⟩

theorem Text.length_dropEnding_le (ending t : Text) : (dropEnding ending t).length ≤ t.length := by
  unfold dropEnding
  split <;> simp

namespace Collection

theorem inside_filesFrom {text : Text} {used : List Text} {found : List (ℕ × Header)}
    (within : ∀ e ∈ found, e.1 ≤ text.length) : ∀ f ∈ filesFrom text used found, f.Inside text.length := by
  induction found generalizing used with
  | nil => simp [filesFrom]
  | cons e rest ih =>
    obtain ⟨start, h⟩ := e
    obtain ⟨-, later⟩ := List.forall_mem_cons.mp within
    refine List.forall_mem_cons.mpr ⟨⟨Int.natCast_nonneg start, ?_, ?_⟩, ih later⟩
    · dsimp only
      cases rest with
      | nil => exact le_refl _
      | cons next more => exact_mod_cast later next List.mem_cons_self
    · dsimp only
      refine (Text.length_dropEnding_le ..).trans ?_
      simp only [Text.slice, List.length_take, List.length_drop]
      omega

/-- Every file of a collection lies within its text. -/
theorem inside_of_mem_parse {text : Text} : ∀ f ∈ parse text, f.Inside text.length :=
  inside_filesFrom fun _ member => le_trans (Nat.le_add_right ..) (Header.le_of_mem_findAll member)

end Collection

end Chunkwise
