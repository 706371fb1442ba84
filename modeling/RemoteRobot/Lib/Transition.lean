import Mathlib.Logic.Basic
import Mathlib.Data.Option.Basic
import Mathlib.Data.List.Basic

/-!
# Labelled transition systems with a partial step function

A system is a function `step : σ → ℓ → Option σ`: the label says which party acts and with which
data, `none` says that the action is not enabled.  `run` follows a list of labels.  Safety is
proved by `run_invariant` (an invariant of every step) or, where only the steps meeting a
condition keep it, by `run_invariant_along`.
-/

namespace Transition

variable {σ ℓ : Type*} (step : σ → ℓ → Option σ)

/-- The state after the labels `ls`, `none` when some label is not enabled in its turn. -/
def run : σ → List ℓ → Option σ
  | s, [] => some s
  | s, l :: ls => (step s l).bind fun s' => run s' ls

/-- `s` is the end of some run from `s₀`. -/
def Reachable (s₀ s : σ) : Prop := ∃ ls, run step s₀ ls = some s

/-- Every step the labels take from `s` meets the condition `ok` in the state before it. -/
def Along (ok : σ → ℓ → Prop) : σ → List ℓ → Prop
  | _, [] => True
  | s, l :: ls => ok s l ∧ ∀ s', step s l = some s' → Along ok s' ls

variable {step} {s s' s₀ : σ} {l : ℓ} {ls ls' : List ℓ}

@[simp] theorem run_nil : run step s [] = some s := rfl

theorem run_cons : run step s (l :: ls) = (step s l).bind fun s' => run step s' ls := rfl

theorem run_cons_eq_some :
    run step s (l :: ls) = some s' ↔ ∃ m, step s l = some m ∧ run step m ls = some s' := by
  rw [run_cons, Option.bind_eq_some_iff]

theorem run_append : run step s (ls ++ ls') = (run step s ls).bind fun m => run step m ls' := by
  induction ls generalizing s with
  | nil => rfl
  | cons l ls ih =>
    rw [List.cons_append, run_cons, run_cons, Option.bind_assoc]
    exact congrArg _ (funext fun m => ih)

theorem Reachable.refl (s : σ) : Reachable step s s := ⟨[], rfl⟩

theorem Reachable.tail (h : Reachable step s₀ s) (hs : step s l = some s') :
    Reachable step s₀ s' := by
  obtain ⟨ls, hls⟩ := h
  refine ⟨ls ++ [l], ?_⟩
  rw [run_append, hls]
  exact run_cons_eq_some.2 ⟨s', hs, rfl⟩

/-- A property of the first state that every step keeps holds at the end of every run. -/
theorem run_invariant {I : σ → Prop}
    (hstep : ∀ s l s', I s → step s l = some s' → I s')
    (hrun : run step s ls = some s') (h : I s) : I s' := by
  induction ls generalizing s with
  | nil => exact Option.some.inj hrun ▸ h
  | cons l ls ih =>
    obtain ⟨m, hm, hrest⟩ := run_cons_eq_some.1 hrun
    exact ih hrest (hstep s l m h hm)

theorem Reachable.invariant {I : σ → Prop} (h : Reachable step s₀ s)
    (hstep : ∀ s l s', I s → step s l = some s' → I s') (h₀ : I s₀) : I s := by
  obtain ⟨ls, hls⟩ := h
  exact run_invariant hstep hls h₀

/-- The same for the runs whose steps all meet a condition: only those steps have to keep the
invariant. -/
theorem run_invariant_along {I : σ → Prop} {ok : σ → ℓ → Prop}
    (hstep : ∀ s l s', I s → ok s l → step s l = some s' → I s')
    (hrun : run step s ls = some s') (hok : Along step ok s ls) (h : I s) : I s' := by
  induction ls generalizing s with
  | nil => exact Option.some.inj hrun ▸ h
  | cons l ls ih =>
    obtain ⟨m, hm, hrest⟩ := run_cons_eq_some.1 hrun
    exact ih hrest (hok.2 m hm) (hstep s l m h hok.1 hm)

instance decidableAlong {ok : σ → ℓ → Prop} [∀ s l, Decidable (ok s l)] :
    ∀ s ls, Decidable (Along step ok s ls)
  | _, [] => isTrue trivial
  | s, l :: ls => match h : step s l with
    | none => decidable_of_iff (ok s l)
        ⟨fun hl => ⟨hl, fun _ hs => nomatch h.symm.trans hs⟩, And.left⟩
    | some m =>
      have : Decidable (Along step ok m ls) := decidableAlong m ls
      decidable_of_iff (ok s l ∧ Along step ok m ls)
        ⟨fun hl => ⟨hl.1, fun _ hs => Option.some.inj (h.symm.trans hs) ▸ hl.2⟩,
          fun hl => ⟨hl.1, hl.2 m h⟩⟩

/-- A condition on the labels alone. -/
theorem along_of_forall {ok : ℓ → Prop} (h : ∀ l ∈ ls, ok l) :
    Along step (fun _ l => ok l) s ls := by
  induction ls generalizing s with
  | nil => trivial
  | cons l ls ih =>
    exact ⟨h l List.mem_cons_self, fun s' _ => ih fun k hk => h k (List.mem_cons_of_mem l hk)⟩

theorem Along.mono {ok ok' : σ → ℓ → Prop} (hmono : ∀ s l, ok s l → ok' s l)
    (h : Along step ok s ls) : Along step ok' s ls := by
  induction ls generalizing s with
  | nil => trivial
  | cons l ls ih => exact ⟨hmono s l h.1, fun s' hs => ih (h.2 s' hs)⟩

/-- The steps that meet the condition, and no others. -/
def guarded (step : σ → ℓ → Option σ) (ok : σ → ℓ → Prop) [∀ s l, Decidable (ok s l)] (s : σ) (l : ℓ) :
    Option σ :=
  if ok s l then step s l else none

section Guarded

variable {ok : σ → ℓ → Prop} [∀ s l, Decidable (ok s l)]

theorem guarded_eq_some : guarded step ok s l = some s' ↔ ok s l ∧ step s l = some s' := by
  unfold guarded
  split_ifs with h
  · exact ⟨fun hs => ⟨h, hs⟩, And.right⟩
  · exact ⟨nofun, fun hs => absurd hs.1 h⟩

/-- The runs whose steps all meet the condition are the runs of the guarded steps. -/
theorem run_guarded :
    run (guarded step ok) s ls = some s' ↔ run step s ls = some s' ∧ Along step ok s ls := by
  induction ls generalizing s with
  | nil => exact (and_iff_left trivial).symm
  | cons l ls ih =>
    rw [run_cons_eq_some, run_cons_eq_some]
    constructor
    · rintro ⟨m, hm, hrest⟩
      obtain ⟨hok, hstep⟩ := guarded_eq_some.1 hm
      obtain ⟨hrun, halong⟩ := ih.1 hrest
      refine ⟨⟨m, hstep, hrun⟩, hok, fun m' hm' => ?_⟩
      obtain rfl := Option.some.inj (hstep.symm.trans hm')
      exact halong
    · rintro ⟨⟨m, hstep, hrun⟩, hok, halong⟩
      exact ⟨m, guarded_eq_some.2 ⟨hok, hstep⟩, ih.2 ⟨hrun, halong m hstep⟩⟩

end Guarded

/-- Weak simulation: when some run of the second system answers each step of the first, with the
same visible labels, some run answers every run. -/
theorem run_simulation {τ κ ω : Type*} {step' : τ → κ → Option τ} {R : σ → τ → Prop}
    {view : ℓ → Option ω} {view' : κ → Option ω}
    (hstep : ∀ s t l s', R s t → step s l = some s' →
      ∃ ks t', run step' t ks = some t' ∧ R s' t' ∧ ks.filterMap view' = (view l).toList)
    {t : τ} (hrun : run step s ls = some s') (h : R s t) :
    ∃ ks t', run step' t ks = some t' ∧ R s' t' ∧ ks.filterMap view' = ls.filterMap view := by
  induction ls generalizing s t with
  | nil => exact ⟨[], t, rfl, Option.some.inj hrun ▸ h, rfl⟩
  | cons l ls ih =>
    obtain ⟨m, hm, hrest⟩ := run_cons_eq_some.1 hrun
    obtain ⟨ks, u, hks, hu, hview⟩ := hstep s t l m h hm
    obtain ⟨ks', t', hks', ht', hview'⟩ := ih hrest hu
    refine ⟨ks ++ ks', t', ?_, ht', ?_⟩
    · rw [run_append, hks]
      exact hks'
    · rw [List.filterMap_append, hview, hview', List.filterMap_cons]
      cases view l <;> rfl

/-! ## Machines that answer -/

section Answers

variable {τ α β γ : Type*}

/-- What a machine answers to the inputs, one after the other. -/
def answers (f : σ → α → σ × β) : σ → List α → List β
  | _, [] => []
  | s, a :: as => (f s a).2 :: answers f (f s a).1 as

/-- Every input meets the condition in the state it finds. -/
def Throughout (f : σ → α → σ × β) (ok : σ → α → Prop) : σ → List α → Prop
  | _, [] => True
  | s, a :: as => ok s a ∧ Throughout f ok (f s a).1 as

variable {f : σ → α → σ × β} {g : τ → α → τ × β} {R : σ → τ → Prop} {ok : σ → α → Prop}

/-- Related machines answer alike while the inputs meet the condition. -/
theorem answers_eq (hstep : ∀ s t a, R s t → ok s a → R (f s a).1 (g t a).1 ∧ (f s a).2 = (g t a).2)
    {s : σ} {t : τ} (h : R s t) {as : List α} (hok : Throughout f ok s as) :
    answers f s as = answers g t as := by
  induction as generalizing s t with
  | nil => rfl
  | cons a as ih =>
    obtain ⟨hnext, hanswer⟩ := hstep s t a h hok.1
    rw [answers, answers, hanswer, ih hnext hok.2]

/-- Where an input that fails the condition shows, the condition is what it takes. -/
theorem answers_eq_iff {view : β → γ}
    (hstep : ∀ s t a, R s t → ok s a → R (f s a).1 (g t a).1 ∧ (f s a).2 = (g t a).2)
    (hshows : ∀ s t a, R s t → ¬ok s a → view (f s a).2 ≠ view (g t a).2)
    {s : σ} {t : τ} (h : R s t) {as : List α} :
    (answers f s as).map view = (answers g t as).map view ↔ Throughout f ok s as := by
  refine ⟨fun heq => ?_, fun hok => by rw [answers_eq hstep h hok]⟩
  induction as generalizing s t with
  | nil => trivial
  | cons a as ih =>
    obtain ⟨hanswer, hrest⟩ := List.cons.inj heq
    have hok : ok s a := by
      by_contra hno
      exact hshows s t a h hno hanswer
    exact ⟨hok, ih (hstep s t a h hok).1 hrest⟩

end Answers

end Transition
