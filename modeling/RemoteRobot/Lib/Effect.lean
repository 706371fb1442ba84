import Mathlib.Data.List.Basic

/-!
# Computations that may raise

`Effect ε σ α` is a computation on a state `σ` that returns an `α` or raises an `ε`; what it did to
the state before it raised stays done.  `Triple P x Q R` says that `x`, begun in a state with `P`,
ends in one with `Q` for its result or, where it raises, in one with `R`.
-/

abbrev Effect (ε σ α : Type) : Type := ExceptT ε (StateM σ) α

namespace Effect

variable {ε σ α β : Type} {x : Effect ε σ α} {f : α → Effect ε σ β} {handler : ε → Effect ε σ α}
variable {s s' : σ} {a : α} {e : ε}

theorem bind_of_ok (h : x s = (.ok a, s')) : (x >>= f) s = f a s' := by
  change ExceptT.bindCont f (x s).1 (x s).2 = _
  rw [h]
  rfl

theorem bind_of_error (h : x s = (.error e, s')) : (x >>= f) s = (.error e, s') := by
  change ExceptT.bindCont f (x s).1 (x s).2 = _
  rw [h]
  rfl

theorem tryCatch_of_ok (h : x s = (.ok a, s')) : tryCatch x handler s = (.ok a, s') := by
  simp only [tryCatch, tryCatchThe, MonadExceptOf.tryCatch, ExceptT.tryCatch, ExceptT.mk, bind,
    StateT.bind, h]
  rfl

theorem tryCatch_of_error (h : x s = (.error e, s')) : tryCatch x handler s = handler e s' := by
  simp [tryCatch, tryCatchThe, MonadExceptOf.tryCatch, ExceptT.tryCatch, ExceptT.mk, bind,
    StateT.bind, h]

/-- `try: x` with `except Exception: pass` -/
theorem tryCatch_pure (x : Effect ε σ Unit) (s : σ) :
    tryCatch x (fun _ => pure ()) s = (.ok (), (x s).2) := by
  rcases h : x s with ⟨e | a, s'⟩
  · rw [tryCatch_of_error h]
    rfl
  · rw [tryCatch_of_ok h]

/-! ## Triples -/

def Triple (P : σ → Prop) (x : Effect ε σ α) (Q : α → σ → Prop) (R : σ → Prop) : Prop :=
  ∀ s, P s → match (x s).1 with
    | .ok a => Q a (x s).2
    | .error _ => R (x s).2

variable {P P' R R' : σ → Prop} {Q Q' : α → σ → Prop}

/-- What holds at the end either way. -/
theorem Triple.ends (h : Triple P x (fun _ => R) R) (hs : P s) : R (x s).2 := by
  have := h s hs
  split at this <;> exact this

theorem triple_of_ends (h : ∀ s, P s → R (x s).2) : Triple P x (fun _ => R) R := by
  intro s hs
  split <;> exact h s hs

theorem Triple.mono (h : Triple P x Q R) (hP : ∀ s, P' s → P s) (hQ : ∀ a s, Q a s → Q' a s)
    (hR : ∀ s, R s → R' s) : Triple P' x Q' R' := by
  intro s hs
  have := h s (hP s hs)
  split at this
  · exact hQ _ _ this
  · exact hR _ this

theorem triple_pure (h : ∀ s, P s → Q a s) : Triple P (pure a : Effect ε σ α) Q R := h

theorem triple_throw (h : ∀ s, P s → R s) : Triple P (throw e : Effect ε σ α) Q R := h

theorem Triple.bind {Q' : β → σ → Prop} (hx : Triple P x Q R)
    (hf : ∀ a, Triple (Q a) (f a) Q' R) : Triple P (x >>= f) Q' R := by
  intro s hs
  have h := hx s hs
  rcases hxs : x s with ⟨e | a, s'⟩ <;> rw [hxs] at h
  · rw [bind_of_error hxs]
    exact h
  · rw [bind_of_ok hxs]
    exact hf a s' h

/-- What was raised is the handler's. -/
theorem Triple.tryCatch (hx : Triple P x Q R) (hh : ∀ e, Triple R (handler e) Q R') :
    Triple P (tryCatch x handler) Q R' := by
  intro s hs
  have h := hx s hs
  rcases hxs : x s with ⟨e | a, s'⟩ <;> rw [hxs] at h
  · rw [tryCatch_of_error hxs]
    exact hh e s' h
  · rw [tryCatch_of_ok hxs]
    exact h

/-- A loop keeps what each turn keeps. -/
theorem triple_forM {f : β → Effect ε σ PUnit} {bs : List β}
    (h : ∀ b ∈ bs, Triple P (f b) (fun _ => P) R) : Triple P (bs.forM f) (fun _ => P) R := by
  induction bs with
  | nil => exact triple_pure fun _ hs => hs
  | cons b bs ih =>
    rw [List.forall_mem_cons] at h
    exact h.1.bind fun _ => ih h.2

end Effect
