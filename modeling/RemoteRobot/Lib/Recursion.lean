import Mathlib.Data.List.Chain
import Mathlib.Data.List.Nodup
import Mathlib.Logic.Relation
import Mathlib.Logic.Function.Iterate

/-!
# Recursion along a relation

A recursive definition is given by its body, with the recursive call as a parameter.  It returns on
an argument when finitely many unfoldings of the body leave no call open; this is so when every
call is made on an argument of smaller measure.  For a relation on finitely many points a list in
topological order gives such a measure and excludes cycles.
-/

namespace Recursion

variable {α β : Type*}

/-! ## Unfolding a body -/

/-- Unfolding the body computes `b` from `a` without any further call. -/
def Returns (body : (α → β) → α → β) (a : α) (b : β) : Prop := ∃ d, ∀ call, body^[d] call a = b

section Measure

variable {body : (α → β) → α → β} {m : α → ℕ}

/-- The body calls itself on arguments of smaller measure only. -/
def Decreases (body : (α → β) → α → β) (m : α → ℕ) : Prop :=
  ∀ a call call', (∀ b, m b < m a → call b = call' b) → body call a = body call' a

theorem Decreases.iterate_congr (h : Decreases body m) {d : ℕ} {a : α} (ha : m a < d)
    (call call' : α → β) : body^[d] call a = body^[d] call' a := by
  induction d generalizing a with
  | zero => exact absurd ha (Nat.not_lt_zero _)
  | succ d ih =>
    rw [Function.iterate_succ_apply', Function.iterate_succ_apply']
    exact h a _ _ fun b hb => ih (Nat.lt_of_lt_of_le hb (Nat.le_of_lt_succ ha))

/-- A definition that carries a depth is an iterate of its body. -/
theorem eq_iterate {f : ℕ → α → β} (h : ∀ d a, f (d + 1) a = body (f d) a) (d : ℕ) :
    f d = body^[d] (f 0) := by
  induction d with
  | zero => rfl
  | succ d ih =>
    rw [Function.iterate_succ_apply', ← ih]
    exact funext (h d)

/-- A depth above the measure of the argument is enough. -/
theorem Decreases.returns {f : ℕ → α → β} (h : Decreases body m)
    (hf : ∀ d a, f (d + 1) a = body (f d) a) {d : ℕ} {a : α} (ha : m a < d) :
    Returns body a (f d a) := by
  refine ⟨d, fun call => ?_⟩
  rw [eq_iterate hf d]
  exact h.iterate_congr ha call (f 0)

end Measure

/-! ## Topological order -/

/-- A list without duplicates in which what an entry refers to stands before it. -/
inductive Topological (r : α → α → Prop) : List α → Prop
  | nil : Topological r []
  | snoc {xs : List α} {x : α} (h : Topological r xs) (hx : x ∉ xs) (hr : ∀ y, r x y → y ∈ xs) :
      Topological r (xs ++ [x])

section Order

variable {r : α → α → Prop} {xs : List α} {x y : α}

theorem Topological.nodup (h : Topological r xs) : xs.Nodup := by
  induction h with
  | nil => exact List.nodup_nil
  | snoc _ hx _ ih =>
    exact List.Nodup.append ih (List.nodup_singleton _) (List.disjoint_singleton.2 hx)

theorem Topological.idxOf_lt [BEq α] [LawfulBEq α] (h : Topological r xs) (hx : x ∈ xs) (hr : r x y) :
    xs.idxOf y < xs.idxOf x := by
  induction h with
  | nil => cases hx
  | @snoc xs z h hz hclosed ih =>
    by_cases hmem : x ∈ xs
    · have hlt := ih hmem
      have hy : y ∈ xs := List.idxOf_lt_length_iff.1 (hlt.trans_le (List.idxOf_le_length))
      rwa [List.idxOf_append_of_mem hmem, List.idxOf_append_of_mem hy]
    · obtain rfl : x = z := by simpa [hmem] using hx
      have hy := hclosed y hr
      rw [List.idxOf_append_of_mem hy, List.idxOf_append_of_notMem hmem]
      exact Nat.lt_of_lt_of_le (List.idxOf_lt_length_of_mem hy) (Nat.le_add_right _ _)

/-- What lies below an entry stands before it. -/
theorem Topological.idxOf_lt_of_transGen [BEq α] [LawfulBEq α] (h : Topological r xs)
    (hx : x ∈ xs) (hr : Relation.TransGen r x y) : xs.idxOf y < xs.idxOf x := by
  induction hr with
  | single hr => exact h.idxOf_lt hx hr
  | tail _ hr ih =>
    have hmem := List.idxOf_lt_length_iff.1 (ih.trans_le List.idxOf_le_length)
    exact (h.idxOf_lt hmem hr).trans ih

theorem Topological.not_transGen [BEq α] [LawfulBEq α] (h : Topological r xs) (hx : x ∈ xs) :
    ¬Relation.TransGen r x x := fun hr => Nat.lt_irrefl _ (h.idxOf_lt_of_transGen hx hr)

/-! ## Cycles -/

/-- A path that ends where it starts. -/
def IsCycle (r : α → α → Prop) (ids : List α) : Prop :=
  ∃ x path, ids = x :: (path ++ [x]) ∧ ids.IsChain r

theorem IsCycle.transGen {ids : List α} (h : IsCycle r ids) : ∃ x, Relation.TransGen r x x := by
  obtain ⟨x, path, rfl, hchain⟩ := h
  cases path with
  | nil => exact ⟨x, .single (List.isChain_pair.1 hchain)⟩
  | cons y path =>
    rw [List.cons_append, List.isChain_cons_cons] at hchain
    have hrest := List.relationReflTransGen_of_exists_isChain_cons _ hchain.2
      (b := x) (by simp [List.getLast_cons])
    exact ⟨x, Relation.TransGen.head' hchain.1 hrest⟩

/-- A path that meets an entry again closes a cycle there. -/
theorem isCycle_dropWhile [DecidableEq α] {path : List α} (h : (path ++ [x]).IsChain r)
    (hx : x ∈ path) : IsCycle r (path.dropWhile (· ≠ x) ++ [x]) := by
  obtain ⟨before, after, rfl, hnot⟩ := List.eq_append_cons_of_mem hx
  have hdrop : (before ++ x :: after).dropWhile (· ≠ x) = x :: after := by
    rw [List.dropWhile_append_of_pos]
    · exact List.dropWhile_cons_of_neg (by simp)
    · exact fun a ha => decide_eq_true fun he => hnot (he ▸ ha)
  rw [hdrop]
  rw [List.append_assoc] at h
  exact ⟨x, after, rfl, h.right_of_append⟩

end Order

end Recursion
