import Chunkwise.Keyed
import Mathlib.Tactic

/-!
# What holds of all entries

Properties of the values that putting and changing entries leave intact.
-/

namespace Chunkwise.Keyed

variable {α : Type} {P : α → Prop}

theorem mem_of_get? {m : Keyed α} {key : Text} {v : α} (found : m.get? key = some v) : (key, v) ∈ m := by
  induction m with
  | nil => simp [get?] at found
  | cons entry rest ih =>
    obtain ⟨k, w⟩ := entry
    rw [get?_cons] at found
    split at found
    · cases found
      simp_all
    · exact List.mem_cons_of_mem _ (ih found)

theorem mem_keys_iff {m : Keyed α} {key : Text} : key ∈ m.keys ↔ ∃ v, m.get? key = some v := by
  constructor
  · intro named
    induction m with
    | nil => simp [keys] at named
    | cons entry rest ih =>
      obtain ⟨k, v⟩ := entry
      rw [get?_cons]
      split
      · exact ⟨v, rfl⟩
      · rename_i other
        exact ih ((List.mem_cons.mp named).resolve_left other)
  · rintro ⟨v, found⟩
    exact List.mem_map.mpr ⟨(key, v), mem_of_get? found, rfl⟩

/-- Among different keys every entry is found. -/
theorem get?_of_mem {m : Keyed α} (distinct : m.keys.Nodup) {key : Text} {v : α} (member : (key, v) ∈ m) :
    m.get? key = some v := by
  obtain ⟨w, found⟩ := mem_keys_iff.mp (List.mem_map.mpr ⟨(key, v), member, rfl⟩)
  have same := List.inj_on_of_nodup_map distinct member (mem_of_get? found) rfl
  rw [found, (Prod.mk.inj same).2]

/-- What holds of all entries, and of a changed entry because of what it was before, holds after an update. -/
theorem forall_update {key : Text} {f : Option α → α} {m : Keyed α} (all : ∀ e ∈ m, P e.2) (new : P (f none))
    (changed : ∀ v, P v → P (f (some v))) : ∀ e ∈ m.update key f, P e.2 := by
  induction m with
  | nil => simpa [update] using new
  | cons entry rest ih =>
    obtain ⟨k, v⟩ := entry
    have here : P v := all (k, v) List.mem_cons_self
    have later : ∀ e ∈ rest, P e.2 := fun e member => all e (List.mem_cons_of_mem _ member)
    by_cases same : k = key
    · subst same
      simp only [update, BEq.rfl, ↓reduceIte]
      exact List.forall_mem_cons.mpr ⟨changed v here, later⟩
    · simp only [update, show (k == key) = false by simpa using same, Bool.false_eq_true, ↓reduceIte]
      exact List.forall_mem_cons.mpr ⟨here, ih later⟩

/-- The entries made from a list of pairs hold nothing but what the pairs hold. -/
theorem forall_ofList {pairs : List (Text × α)} (all : ∀ e ∈ pairs, P e.2) : ∀ e ∈ ofList pairs, P e.2 := by
  suffices ∀ m : Keyed α, (∀ e ∈ m, P e.2) → ∀ e ∈ pairs.foldl (fun m pair => m.put pair.1 pair.2) m, P e.2 from
    this [] (by simp)
  induction pairs with
  | nil => exact fun m before => before
  | cons pair rest ih =>
    intro m before
    obtain ⟨here, later⟩ := List.forall_mem_cons.mp all
    exact ih later _ (forall_update before here fun _ _ => here)

theorem mem_keys_update {key other : Text} {f : Option α → α} {m : Keyed α} :
    other ∈ (m.update key f).keys ↔ other ∈ m.keys ∨ other = key := by
  rw [keys_update]
  by_cases known : key ∈ m.keys
  · rw [if_pos known]
    exact ⟨Or.inl, fun named => named.elim id fun same => same ▸ known⟩
  · rw [if_neg known, List.mem_append, List.mem_singleton]

theorem nodup_keys_update {key : Text} {f : Option α → α} {m : Keyed α} (distinct : m.keys.Nodup) :
    (m.update key f).keys.Nodup := by
  rw [keys_update]
  by_cases known : key ∈ m.keys
  · rwa [if_pos known]
  · rw [if_neg known, ← List.concat_eq_append]
    exact distinct.concat known

/-- An update leaves what comes before its key alone. -/
theorem update_append {front : Keyed α} {key : Text} (new : key ∉ front.keys) (f : Option α → α) (m : Keyed α) :
    (front ++ m).update key f = front ++ m.update key f := by
  induction front with
  | nil => rfl
  | cons entry rest ih =>
    obtain ⟨k, w⟩ := entry
    simp only [keys, List.map_cons, List.mem_cons, not_or] at new
    obtain ⟨other, later⟩ := new
    have differs : (k == key) = false := by simpa using Ne.symm other
    rw [List.cons_append, update, if_neg (by simp [differs]), ih later]
    rfl

theorem update_of_not_mem {m : Keyed α} {key : Text} (new : key ∉ m.keys) (f : Option α → α) :
    m.update key f = m ++ [(key, f none)] := by
  have last := update_append new f []
  rwa [List.append_nil] at last

theorem put_of_not_mem {m : Keyed α} {key : Text} (new : key ∉ m.keys) (v : α) : m.put key v = m ++ [(key, v)] :=
  update_of_not_mem new _

/-- Pairs with different keys are the entries made from them. -/
theorem ofList_of_nodup {pairs : List (Text × α)} (distinct : (pairs.map (·.1)).Nodup) : ofList pairs = pairs := by
  suffices ∀ m : Keyed α, (m.keys ++ pairs.map (·.1)).Nodup →
      pairs.foldl (fun m pair => m.put pair.1 pair.2) m = m ++ pairs from this [] (by simpa [keys] using distinct)
  clear distinct
  induction pairs with
  | nil => simp
  | cons pair rest ih =>
    intro m distinct
    have new : pair.1 ∉ m.keys := by
      intro member
      exact (List.nodup_append.mp distinct).2.2 _ member _ (by simp) rfl
    rw [List.foldl_cons, put_of_not_mem new, ih]
    · simp
    · simpa [keys] using distinct

end Chunkwise.Keyed
