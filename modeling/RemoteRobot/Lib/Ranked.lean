import Mathlib.Data.List.Sort
import Mathlib.Data.List.Lex
import Mathlib.Data.Prod.Lex

/-!
# The highest entries of a list

`List.sort(key=…, reverse=True)` followed by a cut: an entry survives when fewer entries lie above it
than the cut leaves.
-/

namespace Ranked

variable {α κ : Type*} [LinearOrder κ]

/-- Sorted by descending key; entries of one key keep their order. -/
def descending (key : α → κ) (xs : List α) : List α := xs.insertionSort fun a b => key b ≤ key a

variable {key : α → κ} {xs : List α} {x : α} {n : ℕ}

theorem perm_descending (key : α → κ) (xs : List α) : (descending key xs).Perm xs :=
  List.perm_insertionSort _ _

/-- Where no two entries have one key, each lies strictly below those before it. -/
theorem pairwise_descending (h : (xs.map key).Nodup) :
    (descending key xs).Pairwise fun a b => key b < key a := by
  have hle : (descending key xs).Pairwise fun a b => key b ≤ key a := List.pairwise_insertionSort _ _
  have hne : (descending key xs).Pairwise fun a b => key a ≠ key b := by
    have hnd := ((perm_descending key xs).map key).nodup_iff.2 h
    rwa [List.Nodup, List.pairwise_map] at hnd
  exact (hle.and hne).imp fun hab => lt_of_le_of_ne hab.1 hab.2.symm

/-- The first of the sorted entries has the greatest key. -/
theorem exists_take_descending (key : α → κ) (hne : xs ≠ []) (hn : 0 < n) :
    ∃ x rest, (descending key xs).take n = x :: rest ∧ x ∈ xs ∧ ∀ y ∈ xs, key y ≤ key x := by
  have hle : (descending key xs).Pairwise fun a b => key b ≤ key a := List.pairwise_insertionSort _ _
  have hperm := perm_descending key xs
  obtain ⟨n, rfl⟩ := Nat.exists_eq_succ_of_ne_zero hn.ne'
  cases hsorted : descending key xs with
  | nil =>
    rw [hsorted] at hperm
    exact absurd hperm.symm.eq_nil hne
  | cons x rest =>
    rw [hsorted] at hperm hle
    refine ⟨x, rest.take n, rfl, hperm.mem_iff.1 List.mem_cons_self, fun y hy => ?_⟩
    obtain rfl | hy := List.mem_cons.1 (hperm.mem_iff.2 hy)
    · exact le_rfl
    · exact (List.pairwise_cons.1 hle).1 y hy

/-- How many entries lie above a key. -/
def above (key : α → κ) (k : κ) (xs : List α) : ℕ := xs.countP fun y => k < key y

theorem mem_take_of_pairwise (h : xs.Pairwise fun a b => key b < key a) (hx : x ∈ xs) :
    x ∈ xs.take n ↔ above key (key x) xs < n := by
  induction xs generalizing n with
  | nil => cases hx
  | cons y ys ih =>
    rw [List.pairwise_cons] at h
    cases n with
    | zero => simp
    | succ n =>
      rw [List.take_succ_cons, above, List.countP_cons]
      obtain rfl | hx := List.mem_cons.1 hx
      · have hzero : ys.countP (fun z => key x < key z) = 0 :=
          List.countP_eq_zero.2 fun z hz => by simpa using (h.1 z hz).le
        simp [hzero]
      · have hne : x ≠ y := fun heq => absurd (h.1 x hx) (by simp [heq])
        rw [List.mem_cons, or_iff_right hne, ih h.2 hx, above]
        simp [h.1 x hx]

/-- What a cut leaves of the list sorted by descending key. -/
theorem mem_take_descending (h : (xs.map key).Nodup) (hx : x ∈ xs) :
    x ∈ (descending key xs).take n ↔ above key (key x) xs < n := by
  rw [mem_take_of_pairwise (pairwise_descending h) ((perm_descending key xs).mem_iff.2 hx), above,
    (perm_descending key xs).countP_eq, above]

theorem mem_of_mem_take_descending (hx : x ∈ (descending key xs).take n) : x ∈ xs :=
  (perm_descending key xs).mem_iff.1 (List.mem_of_mem_take hx)

end Ranked
