import Mathlib.Data.List.DropRight
import Mathlib.Data.List.Range

/-!
# Bounded buffers of numbered items

A buffer of capacity `cap` keeps the last `cap` items appended to it.  When the items are numbered
1, 2, 3, … it has lost the number `k` exactly when `cap` later items were appended.
-/

namespace Ring

variable {α : Type*}

/-- Append `x` and drop the oldest item of a buffer that is then too long. -/
def push (cap : ℕ) (xs : List α) (x : α) : List α := (xs ++ [x]).rtake cap

/-- What was dropped before makes no difference to what a push keeps. -/
theorem push_rtake (cap : ℕ) (xs : List α) (x : α) :
    push cap (xs.rtake cap) x = (xs ++ [x]).rtake cap := by
  cases cap with
  | zero => simp [push, List.rtake_zero]
  | succ n =>
    simp only [push, List.rtake_concat_succ]
    simp only [List.rtake, List.drop_drop, List.length_drop]
    congr 2
    omega

variable {seq : α → ℕ} {xs : List α} {x y : α} {cap : ℕ}

/-- The items have the numbers 1, 2, 3, … -/
def Numbered (seq : α → ℕ) (xs : List α) : Prop := xs.map seq = List.range' 1 xs.length

theorem Numbered.concat (h : Numbered seq xs) (hx : seq x = xs.length + 1) :
    Numbered seq (xs ++ [x]) := by
  unfold Numbered at h ⊢
  rw [List.map_append, h, List.length_append, List.length_singleton, List.range'_concat,
    List.map_singleton, hx, Nat.one_mul, Nat.add_comm]

theorem Numbered.seq_getElem (h : Numbered seq xs) {i : ℕ} (hi : i < xs.length) :
    seq xs[i] = i + 1 := by
  have hmap : (xs.map seq)[i]? = (List.range' 1 xs.length)[i]? := by
    rw [show xs.map seq = List.range' 1 xs.length from h]
  rw [List.getElem?_map, List.getElem?_eq_getElem hi, List.getElem?_range' hi] at hmap
  simpa [Nat.add_comm] using hmap

theorem Numbered.getElem?_seq (h : Numbered seq xs) (hx : x ∈ xs) : xs[seq x - 1]? = some x := by
  obtain ⟨i, hi, rfl⟩ := List.getElem_of_mem hx
  rw [h.seq_getElem hi, Nat.add_sub_cancel, List.getElem?_eq_getElem hi]

theorem Numbered.seq_le (h : Numbered seq xs) (hx : x ∈ xs) : seq x ≤ xs.length := by
  obtain ⟨i, hi, rfl⟩ := List.getElem_of_mem hx
  rw [h.seq_getElem hi]
  exact hi

theorem Numbered.exists_mem (h : Numbered seq xs) {k : ℕ} (hpos : 0 < k) (hk : k ≤ xs.length) :
    ∃ x ∈ xs, seq x = k := by
  refine ⟨xs[k - 1], List.getElem_mem _, ?_⟩
  rw [h.seq_getElem (by omega)]
  omega

theorem Numbered.pairwise (h : Numbered seq xs) : xs.Pairwise (fun x y => seq x < seq y) := by
  rw [← List.pairwise_map, show xs.map seq = _ from h]
  exact List.pairwise_lt_range'

/-- An item that is not in the buffer any more is followed by at least `cap` later ones. -/
theorem Numbered.mem_rtake (h : Numbered seq xs) (hx : x ∈ xs) (hlt : xs.length < seq x + cap) :
    x ∈ xs.rtake cap := by
  obtain ⟨i, hi, rfl⟩ := List.getElem_of_mem hx
  rw [h.seq_getElem hi] at hlt
  refine List.mem_of_getElem? (i := i - (xs.length - cap)) ?_
  rw [List.rtake, List.getElem?_drop, Nat.add_sub_cancel' (by omega), List.getElem?_eq_getElem hi]

theorem mem_of_mem_rtake (h : x ∈ xs.rtake cap) : x ∈ xs := List.mem_of_mem_drop h

end Ring
