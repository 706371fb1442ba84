import Mathlib.Data.List.Forall2

/-!
# Reading successful computations

What follows about the parts when a computation in `Except` returns.
-/

namespace List.Forall₂

variable {α β : Type*} {R : α → β → Prop} {as : List α} {bs : List β}

theorem exists_of_mem_left (h : Forall₂ R as bs) {a : α} (ha : a ∈ as) : ∃ b ∈ bs, R a b := by
  induction h with
  | nil => cases ha
  | cons hab _ ih =>
    rcases List.mem_cons.1 ha with rfl | ha
    · exact ⟨_, List.mem_cons_self, hab⟩
    · obtain ⟨b, hb, hR⟩ := ih ha
      exact ⟨b, List.mem_cons_of_mem _ hb, hR⟩

theorem exists_of_mem_right (h : Forall₂ R as bs) {b : β} (hb : b ∈ bs) : ∃ a ∈ as, R a b := by
  obtain ⟨a, ha, hR⟩ := h.flip.exists_of_mem_left hb
  exact ⟨a, ha, hR⟩

theorem exists_of_getElem? (h : Forall₂ R as bs) {k : ℕ} {a : α} (ha : as[k]? = some a) :
    ∃ b, bs[k]? = some b ∧ R a b := by
  induction h generalizing k with
  | nil => cases ha
  | cons hab _ ih =>
    cases k with
    | zero =>
      cases ha
      exact ⟨_, rfl, hab⟩
    | succ k => exact ih ha

/-- Elements that each have a partner have a list of partners. -/
theorem of_forall_exists (h : ∀ a ∈ as, ∃ b, R a b) : ∃ bs, Forall₂ R as bs := by
  induction as with
  | nil => exact ⟨[], .nil⟩
  | cons a as ih =>
    rw [List.forall_mem_cons] at h
    obtain ⟨b, hb⟩ := h.1
    obtain ⟨bs, hbs⟩ := ih h.2
    exact ⟨b :: bs, .cons hb hbs⟩

end List.Forall₂

namespace Except

universe u

variable {ε α : Type*} {β γ : Type u}

theorem bind_eq_ok {x : Except ε β} {f : β → Except ε γ} {c : γ} :
    (x >>= f) = .ok c ↔ ∃ b, x = .ok b ∧ f b = .ok c := by
  cases x with
  | error e => simp [bind, Except.bind]
  | ok b => simp [bind, Except.bind]

/-- An exception comes from the first part or, behind it, from the second. -/
theorem bind_eq_error {x : Except ε β} {f : β → Except ε γ} {e : ε} :
    (x >>= f) = .error e ↔ x = .error e ∨ ∃ b, x = .ok b ∧ f b = .error e := by
  cases x with
  | error e => simp [bind, Except.bind]
  | ok b => simp [bind, Except.bind]

theorem exists_of_isOk {x : Except ε β} (h : x.isOk = true) : ∃ b, x = .ok b := by
  cases x with
  | error e => cases h
  | ok b => exact ⟨b, rfl⟩

theorem exists_of_isOk_eq_false {x : Except ε β} (h : x.isOk = false) : ∃ e, x = .error e := by
  cases x with
  | error e => exact ⟨e, rfl⟩
  | ok b => cases h

theorem toOption_eq_some {x : Except ε α} {a : α} : x.toOption = some a ↔ x = .ok a := by
  cases x with
  | error e => simp [Except.toOption]
  | ok b => simp [Except.toOption]

theorem map_eq_ok {x : Except ε β} {f : β → γ} {c : γ} :
    x.map f = .ok c ↔ ∃ b, x = .ok b ∧ f b = c := by
  cases x with
  | error e => simp [Except.map]
  | ok b => simp [Except.map]

theorem mapError_eq_ok {ε' : Type*} {f : ε → ε'} {x : Except ε α} {a : α} :
    x.mapError f = .ok a ↔ x = .ok a := by
  cases x <;> simp [Except.mapError]

theorem exists_unit {p : Unit → Prop} : (∃ u, p u) ↔ p () := ⟨fun ⟨_, h⟩ => h, fun h => ⟨_, h⟩⟩

theorem forall_unit {p : Unit → Prop} : (∀ u, p u) ↔ p () := ⟨fun h => h (), fun h _ => h⟩

/-- A loop that collects results returns the result of each turn. -/
theorem mapM_eq_ok {f : α → Except ε β} {xs : List α} {ys : List β} :
    xs.mapM f = .ok ys ↔ List.Forall₂ (fun x y => f x = .ok y) xs ys := by
  induction xs generalizing ys with
  | nil =>
    rw [List.mapM_nil, List.forall₂_nil_left_iff]
    exact ⟨fun h => (Except.ok.inj h).symm, fun h => h ▸ rfl⟩
  | cons x xs ih =>
    rw [List.mapM_cons, List.forall₂_cons_left_iff, bind_eq_ok]
    constructor
    · rintro ⟨y, hy, h⟩
      obtain ⟨ys', hys, h⟩ := bind_eq_ok.1 h
      exact ⟨y, ys', hy, ih.1 hys, (Except.ok.inj h).symm⟩
    · rintro ⟨y, ys', hy, hys, rfl⟩
      exact ⟨y, hy, bind_eq_ok.2 ⟨ys', ih.2 hys, rfl⟩⟩

/-- A loop that collects results raises what the first turn that raises does. -/
theorem mapM_eq_error {f : α → Except ε β} {xs : List α} {e : ε} : xs.mapM f = .error e ↔
    ∃ before x after, xs = before ++ x :: after ∧ (∀ y ∈ before, ∃ b, f y = .ok b) ∧
      f x = .error e := by
  induction xs with
  | nil =>
    rw [List.mapM_nil]
    refine iff_of_false nofun ?_
    rintro ⟨before, x, after, h, -⟩
    cases before <;> cases h
  | cons y xs ih =>
    rw [List.mapM_cons, bind_eq_error]
    constructor
    · rintro (hy | ⟨b, hb, h⟩)
      · exact ⟨[], y, xs, rfl, fun _ h => absurd h List.not_mem_nil, hy⟩
      · obtain h | ⟨bs, -, h⟩ := bind_eq_error.1 h
        · obtain ⟨before, x, after, rfl, hbefore, hx⟩ := ih.1 h
          exact ⟨y :: before, x, after, rfl, List.forall_mem_cons.2 ⟨⟨b, hb⟩, hbefore⟩, hx⟩
        · cases h
    · rintro ⟨before, x, after, h, hbefore, hx⟩
      obtain _ | ⟨z, before⟩ := before
      · obtain ⟨rfl, -⟩ := List.cons.inj h
        exact .inl hx
      · obtain ⟨rfl, htail⟩ := List.cons.inj h
        rw [List.forall_mem_cons] at hbefore
        obtain ⟨b, hb⟩ := hbefore.1
        exact .inr ⟨b, hb, bind_eq_error.2 (.inl (ih.2 ⟨before, x, after, htail, hbefore.2, hx⟩))⟩

theorem mapM_eq_ok_map {f : α → Except ε β} {g : α → β} {xs : List α}
    (h : ∀ x ∈ xs, f x = .ok (g x)) : xs.mapM f = .ok (xs.map g) :=
  mapM_eq_ok.2 (List.forall₂_map_right_iff.2 (List.forall₂_same.2 h))

theorem exists_mapM {f : α → Except ε β} {xs : List α} (h : ∀ x ∈ xs, ∃ y, f x = .ok y) :
    ∃ ys, xs.mapM f = .ok ys := by
  induction xs with
  | nil => exact ⟨[], rfl⟩
  | cons x xs ih =>
    rw [List.forall_mem_cons] at h
    obtain ⟨y, hy⟩ := h.1
    obtain ⟨ys, hys⟩ := ih h.2
    exact ⟨y :: ys, mapM_eq_ok.2 (.cons hy (mapM_eq_ok.1 hys))⟩

theorem mapM_congr {f f' : α → Except ε β} {xs : List α} (h : ∀ x ∈ xs, f x = f' x) :
    xs.mapM f = xs.mapM f' := by
  induction xs with
  | nil => rfl
  | cons x xs ih =>
    rw [List.mapM_cons, List.mapM_cons, h x List.mem_cons_self,
      ih fun y hy => h y (List.mem_cons_of_mem x hy)]

/-- A loop over items related to `xs` collects results related to `xs`. -/
theorem exists_mapM_eq_ok {R : α → β → Prop} {S : α → γ → Prop} {f : β → Except ε γ}
    (h : ∀ x w, R x w → ∃ y, S x y ∧ f w = .ok y) {xs : List α} {ws : List β}
    (hws : List.Forall₂ R xs ws) : ∃ ys, List.Forall₂ S xs ys ∧ ws.mapM f = .ok ys := by
  induction hws with
  | nil => exact ⟨[], .nil, rfl⟩
  | cons hxw _ ih =>
    obtain ⟨y, hS, hy⟩ := h _ _ hxw
    obtain ⟨ys, hys, hmap⟩ := ih
    exact ⟨y :: ys, .cons hS hys, mapM_eq_ok.2 (.cons hy (mapM_eq_ok.1 hmap))⟩

/-- A loop that only checks returns when every turn does. -/
theorem forM_eq_ok {f : α → Except ε PUnit} {xs : List α} :
    xs.forM f = .ok ⟨⟩ ↔ ∀ x ∈ xs, f x = .ok ⟨⟩ := by
  induction xs with
  | nil => simp [List.forM, pure, Except.pure]
  | cons x xs ih =>
    show (f x >>= fun _ => xs.forM f) = _ ↔ _
    rw [bind_eq_ok, List.forall_mem_cons]
    exact ⟨fun ⟨_, hx, h⟩ => ⟨hx, ih.1 h⟩, fun ⟨hx, h⟩ => ⟨_, hx, ih.2 h⟩⟩

theorem exists_of_forM_eq_error {f : α → Except ε PUnit} {xs : List α} {e : ε}
    (h : xs.forM f = .error e) : ∃ x ∈ xs, f x = .error e := by
  induction xs with
  | nil => cases h
  | cons x xs ih =>
    have h : (f x >>= fun _ => xs.forM f) = .error e := h
    cases hx : f x with
    | error e' =>
      rw [hx] at h
      cases h
      exact ⟨x, List.mem_cons_self, hx⟩
    | ok u =>
      rw [hx] at h
      obtain ⟨y, hy, he⟩ := ih h
      exact ⟨y, List.mem_cons_of_mem x hy, he⟩

/-- `if condition: raise e` -/
def raiseWhen (condition : Prop) [Decidable condition] (e : ε) : Except ε Unit :=
  if condition then .error e else .ok ()

theorem raiseWhen_eq_ok {condition : Prop} [Decidable condition] {e : ε} {u : Unit} :
    raiseWhen condition e = .ok u ↔ ¬condition := by
  unfold raiseWhen
  split_ifs with h <;> simp [h]

theorem raiseWhen_eq_error {condition : Prop} [Decidable condition] {e e' : ε} :
    raiseWhen condition e = .error e' ↔ condition ∧ e = e' := by
  unfold raiseWhen
  split_ifs with h <;> simp [h]

/-! ### What a computation can raise -/

/-- Whatever the computation raises is of the kind. -/
def RaisesOnly (S : ε → Prop) (x : Except ε α) : Prop := ∀ e, x = .error e → S e

section Raises

variable {S : ε → Prop}

@[simp] theorem raisesOnly_ok (a : α) : RaisesOnly S (.ok a : Except ε α) := nofun

@[simp] theorem raisesOnly_error {e : ε} : RaisesOnly S (.error e : Except ε α) ↔ S e := by
  refine ⟨fun h => h e rfl, fun h e' he => ?_⟩
  rw [← Except.error.inj he]
  exact h

/-- The second part is to be looked at where the first returns. -/
theorem raisesOnly_bind {x : Except ε β} {f : β → Except ε γ} :
    RaisesOnly S (x >>= f) ↔ RaisesOnly S x ∧ ∀ b, x = .ok b → RaisesOnly S (f b) := by
  constructor
  · intro h
    exact ⟨fun e he => h e (bind_eq_error.2 (.inl he)),
      fun b hb e he => h e (bind_eq_error.2 (.inr ⟨b, hb, he⟩))⟩
  · rintro ⟨hx, hf⟩ e he
    obtain he | ⟨b, hb, he⟩ := bind_eq_error.1 he
    · exact hx e he
    · exact hf b hb e he

theorem raisesOnly_bind_of {x : Except ε β} (hx : RaisesOnly S x) {f : β → Except ε γ} :
    RaisesOnly S (x >>= f) ↔ ∀ b, x = .ok b → RaisesOnly S (f b) := by
  rw [raisesOnly_bind, and_iff_right hx]

theorem raisesOnly_bind_ok {x : Except ε β} {f : β → γ} :
    RaisesOnly S (x >>= fun b => .ok (f b)) ↔ RaisesOnly S x := by
  simp [raisesOnly_bind]

@[simp] theorem raisesOnly_raiseWhen {condition : Prop} [Decidable condition] {e : ε} :
    RaisesOnly S (raiseWhen condition e) ↔ (condition → S e) := by
  unfold raiseWhen
  split_ifs with h
  · simp [h]
  · simp [h]

/-- A loop is stopped by the first turn that raises. -/
theorem raisesOnly_forM {f : α → Except ε PUnit} {xs : List α} : RaisesOnly S (xs.forM f) ↔
    ∀ before x after, xs = before ++ x :: after → (∀ y ∈ before, f y = .ok ⟨⟩) →
      RaisesOnly S (f x) := by
  induction xs with
  | nil =>
    refine iff_of_true (raisesOnly_ok _) fun before x after h => ?_
    cases before <;> cases h
  | cons y xs ih =>
    rw [show (y :: xs).forM f = (f y >>= fun _ => xs.forM f) from rfl, raisesOnly_bind, ih]
    constructor
    · rintro ⟨hy, hxs⟩ before x after h hbefore
      obtain _ | ⟨z, before⟩ := before
      · obtain ⟨rfl, -⟩ := List.cons.inj h
        exact hy
      · obtain ⟨rfl, htail⟩ := List.cons.inj h
        rw [List.forall_mem_cons] at hbefore
        exact hxs ⟨⟩ hbefore.1 before x after htail hbefore.2
    · intro h
      refine ⟨h [] y xs rfl fun _ hz => absurd hz List.not_mem_nil, fun _ hy before x after he hb => ?_⟩
      exact h (y :: before) x after (by rw [he]; rfl) (List.forall_mem_cons.2 ⟨hy, hb⟩)

theorem raisesOnly_mapM {f : α → Except ε β} {xs : List α} (h : ∀ x ∈ xs, RaisesOnly S (f x)) :
    RaisesOnly S (xs.mapM f) := by
  induction xs with
  | nil => exact raisesOnly_ok _
  | cons x xs ih =>
    rw [List.forall_mem_cons] at h
    rw [List.mapM_cons]
    exact raisesOnly_bind.2 ⟨h.1, fun _ _ => raisesOnly_bind.2 ⟨ih h.2, fun _ _ => raisesOnly_ok _⟩⟩

theorem raisesOnly_of_eq_ok {x : Except ε α} {a : α} (h : x = .ok a) : RaisesOnly S x := by
  rw [h]
  exact raisesOnly_ok a

end Raises

end Except
