import Mathlib.Tactic

/-!
# Contiguous ranges

Items whose ranges follow each other without gap or overlap: the segments of a text, its drafts and chunks, the files
of a collection.
-/

namespace Chunkwise

variable {α ι : Type} [Preorder ι] {start stop : α → ι} {a b : ι}

/-- The ranges of some items follow each other from `a` to `b` without gap or overlap. -/
def Contiguous (start stop : α → ι) (a b : ι) : List α → Prop
  | [] => a = b
  | x :: rest => start x = a ∧ a ≤ stop x ∧ Contiguous start stop (stop x) b rest

theorem contiguous_append {items others : List α} :
    Contiguous start stop a b (items ++ others) ↔
      ∃ m, Contiguous start stop a m items ∧ Contiguous start stop m b others := by
  induction items generalizing a with
  | nil => simp [Contiguous]
  | cons x rest ih =>
    simp only [List.cons_append, Contiguous, ih]
    constructor
    · rintro ⟨here, proper, m, before, after⟩
      exact ⟨m, ⟨here, proper, before⟩, after⟩
    · rintro ⟨m, ⟨here, proper, before⟩, after⟩
      exact ⟨here, proper, m, before, after⟩

theorem contiguous_concat {items : List α} {x : α} :
    Contiguous start stop a b (items ++ [x]) ↔
      Contiguous start stop a (start x) items ∧ start x ≤ stop x ∧ stop x = b := by
  rw [contiguous_append]
  constructor
  · rintro ⟨m, before, rfl, proper, last⟩
    exact ⟨before, proper, last⟩
  · rintro ⟨before, proper, last⟩
    exact ⟨start x, before, rfl, proper, last⟩

/-- Ranges may be taken from what the items are made into. -/
theorem contiguous_map {β : Type} {f : β → α} {items : List β} :
    Contiguous start stop a b (items.map f) ↔ Contiguous (start ∘ f) (stop ∘ f) a b items := by
  induction items generalizing a with
  | nil => rfl
  | cons x rest ih => simp only [List.map_cons, Contiguous, ih, Function.comp_apply]

namespace Contiguous

variable {items : List α}

theorem le (chain : Contiguous start stop a b items) : a ≤ b := by
  induction items generalizing a with
  | nil => exact le_of_eq chain
  | cons x rest ih =>
    obtain ⟨_, proper, after⟩ := chain
    exact proper.trans (ih after)

/-- Every item lies between the ends. -/
theorem bounds (chain : Contiguous start stop a b items) :
    ∀ x ∈ items, a ≤ start x ∧ start x ≤ stop x ∧ stop x ≤ b := by
  induction items generalizing a with
  | nil => simp
  | cons x rest ih =>
    obtain ⟨rfl, proper, after⟩ := chain
    refine List.forall_mem_cons.mpr ⟨⟨le_refl _, proper, after.le⟩, ?_⟩
    intro y member
    obtain ⟨beyond, inside⟩ := ih after y member
    exact ⟨proper.trans beyond, inside⟩

/-- An item ends before every later one begins. -/
theorem pairwise (chain : Contiguous start stop a b items) : items.Pairwise fun x y => stop x ≤ start y := by
  induction items generalizing a with
  | nil => exact .nil
  | cons x rest ih =>
    obtain ⟨_, _, after⟩ := chain
    exact .cons (fun y member => (after.bounds y member).1) (ih after)

/-- Of two items one ends before the other one begins. -/
theorem disjoint (chain : Contiguous start stop a b items) {x y : α} (inItems : x ∈ items) (inItems' : y ∈ items) :
    x = y ∨ stop x ≤ start y ∨ stop y ≤ start x := by
  induction items generalizing a with
  | nil => simp at inItems
  | cons z rest ih =>
    obtain ⟨_, _, after⟩ := chain
    rcases List.mem_cons.mp inItems with rfl | later <;> rcases List.mem_cons.mp inItems' with rfl | later'
    · exact Or.inl rfl
    · exact Or.inr (Or.inl (after.bounds y later').1)
    · exact Or.inr (Or.inr (after.bounds x later).1)
    · exact ih after later later'

/-- Every place between the ends lies in an item. -/
theorem exists_mem {ι : Type} [LinearOrder ι] {start stop : α → ι} {a b p : ι} {items : List α}
    (chain : Contiguous start stop a b items) (low : a ≤ p) (high : p < b) :
    ∃ x ∈ items, start x ≤ p ∧ p < stop x := by
  induction items generalizing a with
  | nil => exact absurd ((show a = b from chain) ▸ low) high.not_ge
  | cons x rest ih =>
    obtain ⟨rfl, _, after⟩ := chain
    rcases lt_or_ge p (stop x) with here | beyond
    · exact ⟨x, List.mem_cons_self, low, here⟩
    · obtain ⟨y, member, within⟩ := ih after beyond
      exact ⟨y, List.mem_cons_of_mem x member, within⟩

end Contiguous

end Chunkwise
