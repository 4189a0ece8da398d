import Chunkwise.Text.Basic

/-!
# Entries by key, in first-seen order

A list of entries with one entry per key. A new key goes to the end, and a key that is seen again keeps its
place, so that listing the entries shows the order in which the keys first came up.
-/

namespace Chunkwise

/-- Entries by key, in the order in which the keys were first put. -/
abbrev Keyed (α : Type) := List (Text × α)

namespace Keyed

variable {α : Type}

def get? (m : Keyed α) (key : Text) : Option α := m.lookup key

/-- Changes the entry of a key, given what it is so far. -/
def update (key : Text) (f : Option α → α) : Keyed α → Keyed α
  | [] => [(key, f none)]
  | (k, v) :: rest => if k == key then (k, f (some v)) :: rest else (k, v) :: update key f rest

/-- The first entry decides when its key is asked for. -/
theorem get?_cons (k key : Text) (v : α) (m : Keyed α) :
    get? ((k, v) :: m) key = if key = k then some v else get? m key := by
  by_cases h : key = k
  · simp [get?, h]
  · have : (key == k) = false := by simpa using h
    simp [get?, List.lookup_cons, h, this]

/-- An update changes the entry of its key and no other. -/
theorem get?_update (key other : Text) (f : Option α → α) (m : Keyed α) :
    get? (update key f m) other = if other = key then some (f (get? m key)) else get? m other := by
  induction m with
  | nil => exact get?_cons key other (f none) []
  | cons entry rest ih =>
    obtain ⟨k, v⟩ := entry
    by_cases hk : k = key
    · subst hk
      by_cases h : other = k <;> simp [update, get?_cons, h]
    · have hk' : (k == key) = false := by simpa using hk
      simp only [update, hk', Bool.false_eq_true, ↓reduceIte, get?_cons, ih, Ne.symm hk]
      by_cases h : other = k
      · simp [h, hk]
      · simp [h]

def put (m : Keyed α) (key : Text) (value : α) : Keyed α := update key (fun _ => value) m

def keys (m : Keyed α) : List Text := m.map (·.1)

/-- A new key goes to the end. -/
theorem keys_update (key : Text) (f : Option α → α) (m : Keyed α) :
    keys (update key f m) = if key ∈ keys m then keys m else keys m ++ [key] := by
  induction m with
  | nil => simp [update, keys]
  | cons entry rest ih =>
    obtain ⟨k, v⟩ := entry
    unfold keys at ih ⊢
    by_cases hk : k = key
    · subst hk; simp [update]
    · have hk' : (k == key) = false := by simpa using hk
      simp only [update, hk', Bool.false_eq_true, ↓reduceIte, List.map_cons, ih, List.mem_cons, Ne.symm hk, false_or]
      split <;> simp

/-- The entries of a list of pairs, where a later pair replaces an earlier one of its key. -/
def ofList (pairs : List (Text × α)) : Keyed α := pairs.foldl (fun m (k, v) => m.put k v) []

/-- Adds a value at the end of the list that a key has. -/
def push (m : Keyed (List α)) (key : Text) (value : α) : Keyed (List α) :=
  update key (fun old => old.getD [] ++ [value]) m

end Keyed

end Chunkwise
