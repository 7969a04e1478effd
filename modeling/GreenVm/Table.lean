/-
  Finite tables from keys to values, listed in the order in which keys were first entered.
-/
namespace GreenVm

/-- A finite table. -/
structure Table (κ α : Type) where
  entries : List (κ × α) := []
  deriving Inhabited

namespace Table

variable {κ α : Type} [DecidableEq κ]

def empty : Table κ α := ⟨[]⟩

/-- The value at a key. -/
def get? (t : Table κ α) (k : κ) : Option α :=
  (t.entries.find? fun e => e.1 = k).map Prod.snd

def keys (t : Table κ α) : List κ := t.entries.map Prod.fst

def contains (t : Table κ α) (k : κ) : Bool := (t.get? k).isSome

/-- Enters a value in a list of entries, in place of the one at the key if there is one. -/
def putEntry (k : κ) (v : α) : List (κ × α) → List (κ × α)
  | [] => [(k, v)]
  | e :: es => if e.1 = k then (k, v) :: es else e :: putEntry k v es

/-- Enters a value, replacing the one the key had. -/
def put (t : Table κ α) (k : κ) (v : α) : Table κ α := ⟨putEntry k v t.entries⟩

def ofList (entries : List (κ × α)) : Table κ α :=
  entries.foldl (fun t e => t.put e.1 e.2) empty

@[simp] theorem get?_empty (k : κ) : (empty : Table κ α).get? k = none := rfl

theorem get?_put (t : Table κ α) (k k' : κ) (v : α) :
    (t.put k v).get? k' = if k = k' then some v else t.get? k' := by
  obtain ⟨es⟩ := t
  simp only [put, get?]
  induction es with
  | nil => by_cases h : k = k' <;> simp [putEntry, h]
  | cons e es ih =>
    by_cases h : e.1 = k
    · subst h
      by_cases h' : e.1 = k' <;> simp [putEntry, h']
    · rw [putEntry, if_neg h]
      by_cases h' : e.1 = k'
      · have : k ≠ k' := fun hk => h (h'.trans hk.symm)
        simp [h', this]
      · simp [h', ih]

@[simp] theorem get?_put_self (t : Table κ α) (k : κ) (v : α) : (t.put k v).get? k = some v := by
  simp [get?_put]

theorem get?_put_of_ne (t : Table κ α) {k k' : κ} (v : α) (h : k ≠ k') :
    (t.put k v).get? k' = t.get? k' := by
  simp [get?_put, h]

theorem mem_keys_of_get? {t : Table κ α} {k : κ} {v : α} (h : t.get? k = some v) : k ∈ t.keys := by
  obtain ⟨e, he, rfl⟩ := Option.map_eq_some_iff.1 h
  have := List.find?_some he
  exact List.mem_map.2 ⟨e, List.mem_of_find?_eq_some he, by simpa using this⟩

theorem mem_values_of_get? {t : Table κ α} {k : κ} {v : α} (h : t.get? k = some v) :
    v ∈ t.entries.map Prod.snd := by
  obtain ⟨e, he, rfl⟩ := Option.map_eq_some_iff.1 h
  exact List.mem_map.2 ⟨e, List.mem_of_find?_eq_some he, rfl⟩

end Table

end GreenVm
