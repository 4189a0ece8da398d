import Chunkwise.Proofs.Text.Blank
import Chunkwise.Proofs.Text.Lines

/-!
# Parts of a text

Stripping a text, cutting it and dividing it into items gives nothing but characters of the text, and joining texts adds
only what stands between them. In particular a part of a line is in one line, and so are such parts when joined.
-/

namespace Chunkwise.Text

theorem trim_subset (p : Char → Bool) (t : Text) : trim p t ⊆ t :=
  fun _ member => (List.dropWhile_sublist p).subset (mem_of_mem_trimEnd member)

theorem strip_subset (t : Text) : strip t ⊆ t := trim_subset isBlank t

theorem before_subset (sep : Char) (t : Text) : before sep t ⊆ t := (List.takeWhile_sublist _).subset

theorem afterLast_subset (sep : Char) (t : Text) : afterLast sep t ⊆ t := by
  intro c member
  exact List.mem_reverse.mp ((List.takeWhile_sublist _).subset (List.mem_reverse.mp member))

theorem beforeText_subset (needle t : Text) : beforeText needle t ⊆ t := by
  unfold beforeText
  split
  · exact (List.take_sublist ..).subset
  · exact List.Subset.refl t

theorem subset_of_mem_items {t item : Text} (member : item ∈ items t) : item ⊆ t := by
  obtain ⟨piece, inPieces, is⟩ := List.mem_filterMap.mp member
  dsimp only at is
  split at is <;> cases is
  exact List.Subset.trans (strip_subset piece) (mem_of_mem_splitBy inPieces)

/-! ## Cutting -/

/-- A text is cut at its first separator. -/
theorem cut?_eq_some_iff {sep : Char} {t front rest : Text} :
    cut? sep t = some (front, rest) ↔ sep ∉ front ∧ t = front ++ sep :: rest := by
  induction t generalizing front rest with
  | nil => simp [cut?]
  | cons c more ih =>
    by_cases here : c = sep
    · subst here
      cases front with
      | nil => simp [cut?]
      | cons d others => simpa [cut?] using fun differs _ same => absurd same differs
    · have other : (c == sep) = false := by simpa using here
      cases front with
      | nil => simp [cut?, other, here]
      | cons d others =>
        simp only [cut?, other, Bool.false_eq_true, ↓reduceIte, Option.map_eq_some_iff, Prod.exists, Prod.mk.injEq,
          List.cons.injEq, List.cons_append, List.mem_cons, not_or, ih]
        constructor
        · rintro ⟨_, _, ⟨absent, rfl⟩, ⟨rfl, rfl⟩, rfl⟩
          exact ⟨⟨Ne.symm here, absent⟩, rfl, rfl⟩
        · rintro ⟨⟨-, absent⟩, rfl, rfl⟩
          exact ⟨others, rest, ⟨absent, rfl⟩, ⟨rfl, rfl⟩, rfl⟩

theorem cut?_eq_none_iff {sep : Char} {t : Text} : cut? sep t = none ↔ sep ∉ t := by
  induction t with
  | nil => simp [cut?]
  | cons c rest ih =>
    by_cases here : c = sep
    · simp [cut?, here]
    · simp [cut?, here, ih, Ne.symm here]

theorem cut?_append {sep : Char} {front : Text} (plain : sep ∉ front) (rest : Text) :
    cut? sep (front ++ sep :: rest) = some (front, rest) := cut?_eq_some_iff.mpr ⟨plain, rfl⟩

theorem subset_of_cut? {sep : Char} {t front rest : Text} (found : cut? sep t = some (front, rest)) : rest ⊆ t := by
  obtain ⟨-, rfl⟩ := cut?_eq_some_iff.mp found
  exact List.Subset.trans (List.subset_cons_self sep rest) (List.subset_append_right front _)

/-! ## Joining -/

/-- A joined text holds the characters of its parts and of what stands between them. -/
theorem mem_join {c : Char} {sep : Text} {parts : List Text} (member : c ∈ join sep parts) :
    c ∈ sep ∨ ∃ part ∈ parts, c ∈ part := by
  induction parts with
  | nil => cases member
  | cons part rest ih =>
    cases rest with
    | nil => exact Or.inr ⟨part, List.mem_cons_self, by simpa [join] using member⟩
    | cons next more =>
      rw [join, List.intercalate_cons_cons, List.append_assoc] at member
      rcases List.mem_append.mp member with here | after
      · exact Or.inr ⟨part, List.mem_cons_self, here⟩
      · rcases List.mem_append.mp after with between | later
        · exact Or.inl between
        · refine (ih later).imp_right ?_
          rintro ⟨other, inRest, inOther⟩
          exact ⟨other, List.mem_cons_of_mem part inRest, inOther⟩

theorem no_feed_join {sep : Text} {parts : List Text} (between : '\n' ∉ sep) (plain : ∀ part ∈ parts, '\n' ∉ part) :
    '\n' ∉ join sep parts := by
  intro feed
  rcases mem_join feed with inSep | ⟨part, inParts, inPart⟩
  · exact between inSep
  · exact plain part inParts inPart

-- Fixed words are checked as lists of characters, which is much faster than to take them apart.

theorem no_feed_words {w : List Char} (unbroken : '\n' ∉ w) : '\n' ∉ (String.ofList w).toList := by
  rwa [String.toList_ofList]

end Chunkwise.Text
