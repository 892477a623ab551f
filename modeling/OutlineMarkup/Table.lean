/-
  File:      OutlineMarkup/Table.lean
  Subject:   Look-up tables that remember the order in which their keys arrived.

  Everything that the compiler prints from a table is printed in order of first arrival: a value
  written under a known key takes the place of the old one, and a new key goes to the end.
-/

namespace OutlineMarkup

/-- A table from `κ` to `α`; its entries stand in order of first arrival of their keys. -/
structure Table (κ α : Type) where
  entries : List (κ × α)
  deriving DecidableEq, Repr

namespace Table

variable {κ α : Type} [DecidableEq κ]

/-- The table without entries. -/
def empty : Table κ α := ⟨[]⟩

/-- The value under a key, if there is one. -/
def get? (t : Table κ α) (k : κ) : Option α := t.entries.lookup k

/-- Whether a key has a value. -/
def contains (t : Table κ α) (k : κ) : Bool := (t.get? k).isSome

/-- The keys in order of first arrival. -/
def keys (t : Table κ α) : List κ := t.entries.map Prod.fst

/-- The values in the order of their keys. -/
def values (t : Table κ α) : List α := t.entries.map Prod.snd

/-- The number of keys. -/
def size (t : Table κ α) : Nat := t.entries.length

/-- Whether the table has no entry. -/
def isEmpty (t : Table κ α) : Bool := t.entries.isEmpty

/-- Changes the value at a key in a list of entries: `f` is given the old value, if there is one,
    and an entry for a new key goes to the end. -/
def alterEntries (k : κ) (f : Option α → α) : List (κ × α) → List (κ × α)
  | [] => [(k, f none)]
  | (k', v) :: rest => if k' = k then (k, f (some v)) :: rest else (k', v) :: alterEntries k f rest

/-- Changes the value at a key; `f` is given the old value, if there is one. -/
def alter (t : Table κ α) (k : κ) (f : Option α → α) : Table κ α := ⟨alterEntries k f t.entries⟩

/-- Writes a value under a key: a known key keeps its place, a new one goes to the end. -/
def insert (t : Table κ α) (k : κ) (v : α) : Table κ α := t.alter k fun _ => v

/-- Writes the given entries one after the other. -/
def insertAll (t : Table κ α) (entries : List (κ × α)) : Table κ α :=
  entries.foldl (fun t e => t.insert e.1 e.2) t

/-- The table of a list of entries, where a later value for a key replaces the earlier one. -/
def ofList (entries : List (κ × α)) : Table κ α := empty.insertAll entries

/-! ## Laws of the order -/

/-- A change at a known key keeps the keys and their order. -/
theorem keys_alter_of_mem {t : Table κ α} {k : κ} (h : k ∈ t.keys) (f : Option α → α) :
    (t.alter k f).keys = t.keys := by
  obtain ⟨es⟩ := t
  simp only [alter, keys] at h ⊢
  induction es with
  | nil => simp at h
  | cons e es ih =>
    obtain ⟨k', v⟩ := e
    by_cases hk : k' = k
    · simp [alterEntries, hk]
    · have hm : k ∈ es.map Prod.fst := by
        rcases List.mem_cons.mp h with e | hm
        · exact absurd e.symm hk
        · exact hm
      simp [alterEntries, hk, ih hm]

/-- A change at a new key adds it at the end. -/
theorem keys_alter_of_not_mem {t : Table κ α} {k : κ} (h : k ∉ t.keys) (f : Option α → α) :
    (t.alter k f).keys = t.keys ++ [k] := by
  obtain ⟨es⟩ := t
  simp only [alter, keys] at h ⊢
  induction es with
  | nil => simp [alterEntries]
  | cons e es ih =>
    obtain ⟨k', v⟩ := e
    have hk : ¬ k' = k := fun e => h (List.mem_cons.mpr (.inl e.symm))
    have hm : k ∉ es.map Prod.fst := fun hm => h (List.mem_cons_of_mem _ hm)
    simp [alterEntries, hk, ih hm]

/-- Keys stay free of repeats. -/
theorem nodup_keys_alter {t : Table κ α} (h : t.keys.Nodup) (k : κ) (f : Option α → α) :
    (t.alter k f).keys.Nodup := by
  by_cases hk : k ∈ t.keys
  · rw [keys_alter_of_mem hk]
    exact h
  · rw [keys_alter_of_not_mem hk]
    refine List.nodup_append.mpr ⟨h, List.pairwise_singleton _ k, fun a ha b hb e => ?_⟩
    rw [List.mem_singleton.mp hb] at e
    exact hk (e ▸ ha)

end Table

end OutlineMarkup
