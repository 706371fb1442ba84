import Mathlib.Data.List.AList

/-!
# Finite tables

`Table κ υ` is a finite map, Mathlib's `AList` with one value type, with the lookup rules in the
form `if`-splitting wants.
-/

/-- A finite map from `κ` to `υ`. -/
abbrev Table (κ υ : Type*) := AList fun _ : κ => υ

namespace Table

variable {κ υ : Type*} [DecidableEq κ]

/-- The value stored under `k`. -/
def get (t : Table κ υ) (k : κ) : Option υ := t.lookup k

theorem get_def (t : Table κ υ) (k : κ) : t.get k = t.lookup k := rfl

@[simp] theorem get_empty (k : κ) : (∅ : Table κ υ).get k = none := AList.lookup_empty k

theorem get_insert (t : Table κ υ) (k : κ) (v : υ) (k' : κ) :
    Table.get (t.insert k v) k' = if k' = k then some v else t.get k' := by
  unfold get
  split_ifs with h
  · subst h
    exact AList.lookup_insert t
  · exact AList.lookup_insert_ne h

@[simp] theorem get_insert_self (t : Table κ υ) (k : κ) (v : υ) :
    Table.get (t.insert k v) k = some v := by
  rw [get_insert, if_pos rfl]

theorem get_erase (t : Table κ υ) (k k' : κ) :
    Table.get (t.erase k) k' = if k' = k then none else t.get k' := by
  unfold get
  split_ifs with h
  · subst h
    exact AList.lookup_erase _ t
  · exact AList.lookup_erase_ne h

theorem mem_keys_iff {t : Table κ υ} {k : κ} : k ∈ t.keys ↔ ∃ v, t.get k = some v := by
  unfold get
  rw [← AList.mem_keys, ← AList.lookup_isSome, Option.isSome_iff_exists]

/-- `t.values()` -/
def values (t : Table κ υ) : List υ := t.entries.map Sigma.snd

theorem mem_values {t : Table κ υ} {v : υ} : v ∈ t.values ↔ ∃ k, t.get k = some v := by
  unfold values get
  rw [List.mem_map]
  constructor
  · rintro ⟨⟨k, _⟩, hmem, rfl⟩
    exact ⟨k, AList.mem_lookup_iff.2 hmem⟩
  · rintro ⟨k, hk⟩
    exact ⟨⟨k, v⟩, AList.mem_lookup_iff.1 hk, rfl⟩

end Table
