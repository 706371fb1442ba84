import RemoteRobot.Orchestrator.Moves

/-!
# All runs of one orchestrator

What `openRun` does, what holds of the lease table and the runs in every reachable state, and the
rule by which a property of one run is proved for all of them.
-/

namespace RemoteRobot

open Py Except

variable {F : Type} [Cbor F] [Sha256] [PyFloat F] [PyText F]

/-- What `execute` has checked of a run when it opens. -/
structure Run.Checked (cfg : Setup F) (r : Run F) : Prop where
  key : canonicalKey r.runId = true
  preflight : ∃ b, Preflighted cfg.registry.toRegistry r.identityId r.program b
  locks : ∃ locks, lockRequirements cfg.registry.toRegistry r.program = .ok locks ∧
    r.receipt.request =
      ⟨sortedSet locks.leaves, sortedSet locks.resources, sortedSet locks.safetyDomains⟩
  phases : r.program.phases = .ok r.phases
  participants : participantWorkerIds r.program = .ok r.participants

/-- A run that has just opened. -/
structure Task.Opened (cfg : Setup F) (t : Task F) : Prop where
  checked : t.toRun.Checked cfg
  pc : t.pc = .fanOut .disable
    (t.participants.map fun w => ⟨w, .prepareDisabled, .created⟩) false
  history : t.history = []

theorem Task.Opened.isDone_eq {cfg : Setup F} {t : Task F} (h : t.Opened cfg) :
    t.isDone = false := by
  unfold Task.isDone
  rw [h.pc]

namespace System

variable {cfg : Setup F}

/-! ## Opening a run -/

theorem prepareRun_eq_ok {s : System F} {runId identityId : Str}
    {program checked : CompiledProgram F} {locks : LockRequirements} {workerIds : List Str}
    (h : s.prepareRun cfg runId identityId program = .ok (checked, locks, workerIds)) :
    canonicalKey runId = true ∧
      (∃ b, Preflighted cfg.registry.toRegistry identityId checked b) ∧
      lockRequirements cfg.registry.toRegistry checked = .ok locks ∧
      participantWorkerIds checked = .ok workerIds := by
  unfold prepareRun at h
  simp only [bind_eq_ok, exists_unit] at h
  obtain ⟨used, hused, -, checked', hpre, locks', hlocks, ids, hids, -, h⟩ := h
  cases h
  refine ⟨?_, preflighted_of_preflight hpre, hlocks, hids⟩
  unfold hasHistory at hused
  by_contra hkey
  rw [if_neg hkey] at hused
  cases hused

/-- A call of `execute` raises with nothing changed, raises from its first journal entry with the
lease given back, or opens a run. -/
theorem openRun_cases {s s' : System F} {runId identityId : Str} {program : CompiledProgram F}
    {ns : ℕ} {appendError : Option (Error F)} {r : Except (Error F) (Task F)}
    (h : s.openRun cfg runId identityId program ns appendError = (s', r)) :
    (s' = s ∧ ∃ e, r = .error e) ∨
    (runId ∉ s.active ∧ ∃ e, ∃ locks : LockRequirements, ∃ leases receipt, appendError = some e ∧
      r = .error e ∧
      s.leases.acquire runId locks.leaves locks.resources locks.safetyDomains ns =
        (leases, .ok receipt) ∧
      s' = { s with leases := (leases.release runId).1 }) ∨
    (runId ∉ s.active ∧ ∃ t, ∃ locks : LockRequirements, ∃ leases event, r = .ok t ∧
      t.runId = runId ∧ t.Opened cfg ∧
      s.leases.acquire runId locks.leaves locks.resources locks.safetyDomains ns =
        (leases, .ok t.receipt) ∧
      s' = { leases := leases
             journal := s.journal ++ [(runId, event)]
             active := runId :: s.active
             tasks := s.tasks.insert runId t }) := by
  unfold openRun at h
  split_ifs at h with hactive
  · cases h
    exact .inl ⟨rfl, _, rfl⟩
  cases hp : s.prepareRun cfg runId identityId program with
  | error e =>
    rw [hp] at h
    cases h
    exact .inl ⟨rfl, _, rfl⟩
  | ok x =>
    obtain ⟨checked, locks, workerIds⟩ := x
    rw [hp] at h
    simp only at h
    obtain ⟨hkey, ⟨b, hb⟩, hlocks, hids⟩ := prepareRun_eq_ok hp
    cases ha : s.leases.acquire runId locks.leaves locks.resources locks.safetyDomains ns with
    | mk leases result =>
      rw [ha] at h
      cases result with
      | error e =>
        cases h
        rcases LeaseManager.acquire_cases ha with ⟨rfl, -⟩ | ⟨-, g, hg, -⟩ | ⟨g, hg, -⟩
        · exact .inl ⟨rfl, _, rfl⟩
        · cases hg
        · cases hg
      | ok receipt =>
        obtain ⟨vs, hvs, -⟩ := hb.canonical.phases
        simp only [hb.canonical.rootId, hb.canonical.manifestHash, hvs] at h
        cases appendError with
        | some e =>
          cases h
          exact .inr (.inl ⟨hactive, e, locks, leases, receipt, rfl, rfl, ha, rfl⟩)
        | none =>
          cases h
          refine .inr (.inr ⟨hactive, _, locks, leases, _, rfl, rfl, ?_, ha, rfl⟩)
          refine ⟨⟨hkey, ⟨b, hb⟩, ⟨locks, hlocks, ?_⟩, hvs, hids⟩, rfl, rfl⟩
          rcases LeaseManager.acquire_cases ha with ⟨-, e, he⟩ | ⟨-, g, hg, -, hreq⟩ |
            ⟨g, hg, -, -, hreq, -⟩
          · cases he
          · cases hg
            exact hreq
          · cases hg
            exact hreq

/-! ## Steps -/

/-- The tasks after a step: one run opened, one run moved, or no change. -/
theorem step_cases {s s' : System F} {l : Label F} (h : s.step cfg l = some s') :
    s'.tasks = s.tasks ∨
    (∃ runId t, t.runId = runId ∧ t.Opened cfg ∧ s'.tasks = s.tasks.insert runId t) ∨
    (∃ runId label t t', l = .task runId label ∧ s.tasks.get runId = some t ∧
      t.Move label t' ∧ s'.tasks = s.tasks.insert runId t') := by
  cases l with
  | call runId identityId program ns appendError =>
    cases ho : s.openRun cfg runId identityId program ns appendError with
    | mk s₁ r =>
      have hs : s₁ = s' := by
        rw [step, ho] at h
        exact Option.some.inj h
      rw [← hs]
      rcases openRun_cases ho with ⟨rfl, -⟩ | ⟨-, _, _, _, _, -, -, -, rfl⟩ |
        ⟨-, t, _, _, _, -, hid, hopen, -, rfl⟩
      · exact .inl rfl
      · exact .inl rfl
      · exact .inr (.inl ⟨runId, t, hid, hopen, rfl⟩)
  | task runId label =>
    obtain ⟨t, ht, h⟩ := Option.bind_eq_some_iff.1 h
    obtain ⟨⟨t', event⟩, hstep, rfl⟩ := Option.map_eq_some_iff.1 h
    exact .inr (.inr ⟨runId, label, t, t', rfl, ht, Task.move_of_step hstep, rfl⟩)

/-- One orchestrator before its first call: nothing is leased, the journal may have a past. -/
def Initial (s : System F) : Prop := s.leases = {} ∧ s.active = [] ∧ s.tasks = ∅

omit [Cbor F] [Sha256] [PyFloat F] [PyText F] in
theorem initial_empty : Initial ({} : System F) := ⟨rfl, rfl, rfl⟩

/-- Every run of the orchestrator has the property. -/
def AllTasks (P : Task F → Prop) (s : System F) : Prop :=
  ∀ runId t, s.tasks.get runId = some t → P t

/-- A property of a run that holds when it opens and that its moves keep, under a condition on the
labels, holds of every run. -/
theorem tasks_invariant_along {P : Task F → Prop} {ok : System F → Label F → Prop}
    (hopen : ∀ t : Task F, t.Opened cfg → P t)
    (hmove : ∀ s runId label t t', s.tasks.get runId = some t → ok s (.task runId label) →
      P t → t.Move label t' → P t')
    {s₀ s : System F} {ls : List (Label F)} (h₀ : s₀.Initial)
    (hrun : Transition.run (step cfg) s₀ ls = some s) (hok : Transition.Along (step cfg) ok s₀ ls) :
    AllTasks P s := by
  have hstep : ∀ (s : System F) l s', AllTasks P s → ok s l → step cfg s l = some s' →
      AllTasks P s' := by
    intro s l s' hI hl hs r t ht
    rcases step_cases hs with heq | ⟨runId, t', -, ho, heq⟩ | ⟨runId, label, t₁, t', rfl, h₁, hm, heq⟩
    · rw [heq] at ht
      exact hI r t ht
    · rw [heq, Table.get_insert] at ht
      split_ifs at ht with hr
      · cases ht
        exact hopen _ ho
      · exact hI r t ht
    · rw [heq, Table.get_insert] at ht
      split_ifs at ht with hr
      · cases ht
        exact hmove s runId label t₁ _ h₁ hl (hI runId t₁ h₁) hm
      · exact hI r t ht
  refine Transition.run_invariant_along hstep hrun hok fun r t ht => ?_
  rw [h₀.2.2, Table.get_empty] at ht
  cases ht

theorem along_true {s₀ : System F} {ls : List (Label F)} :
    Transition.Along (step cfg) (fun _ _ => True) s₀ ls := by
  induction ls generalizing s₀ with
  | nil => trivial
  | cons l ls ih => exact ⟨trivial, fun _ _ => ih⟩

theorem tasks_invariant {P : Task F → Prop} (hopen : ∀ t : Task F, t.Opened cfg → P t)
    (hmove : ∀ label t t', P t → Task.Move t label t' → P t') {s₀ s : System F} (h₀ : s₀.Initial)
    (h : Transition.Reachable (step cfg) s₀ s) {runId : Str} {t : Task F}
    (ht : s.tasks.get runId = some t) : P t := by
  obtain ⟨ls, hrun⟩ := h
  exact tasks_invariant_along hopen (fun _ _ label t t' _ _ hP hm => hmove label t t' hP hm) h₀ hrun
    along_true runId t ht

/-! ## Leases and runs -/

/-- The runs that are not over hold the lease of their receipt, the others hold none. -/
structure Inv (cfg : Setup F) (s : System F) : Prop where
  leases : s.leases.Inv
  runId : ∀ r t, s.tasks.get r = some t → t.runId = r
  checked : ∀ r t, s.tasks.get r = some t → t.toRun.Checked cfg
  active : ∀ r t, s.tasks.get r = some t → t.isDone = false → r ∈ s.active
  holds : ∀ r t, s.tasks.get r = some t →
    s.leases.grantFor r = if t.isDone then none else some t.receipt

theorem inv_of_initial {s : System F} (h : s.Initial) : s.Inv cfg := by
  have hnone : ∀ r t, s.tasks.get r ≠ some t := by
    intro r t ht
    rw [h.2.2, Table.get_empty] at ht
    cases ht
  refine ⟨?_, fun r t ht => absurd ht (hnone r t), fun r t ht => absurd ht (hnone r t),
    fun r t ht => absurd ht (hnone r t), fun r t ht => absurd ht (hnone r t)⟩
  rw [h.1]
  exact LeaseManager.inv_empty

/-- A run that is not active is over. -/
theorem Inv.done_of_not_active {s : System F} (hI : s.Inv cfg) {r : Str} {t : Task F}
    (ht : s.tasks.get r = some t) (hr : r ∉ s.active) : t.isDone = true := by
  by_contra hdone
  exact hr (hI.active r t ht (Bool.eq_false_iff.2 hdone))

theorem Inv.openRun {s s' : System F} {runId identityId : Str} {program : CompiledProgram F} {ns : ℕ}
    {appendError : Option (Error F)} {r : Except (Error F) (Task F)} (hI : s.Inv cfg)
    (h : s.openRun cfg runId identityId program ns appendError = (s', r)) : s'.Inv cfg := by
  rcases openRun_cases h with ⟨rfl, -⟩ | ⟨hactive, e, locks, leases, receipt, -, -, ha, rfl⟩ |
    ⟨hactive, t, locks, leases, event, -, rfl, hopen, ha, rfl⟩
  · exact hI
  · have hleases : (s.leases.acquire runId locks.leaves locks.resources locks.safetyDomains ns).1.Inv :=
      hI.leases.acquire ..
    rw [ha] at hleases
    refine ⟨hleases.release runId, hI.runId, hI.checked, hI.active, fun r t ht => ?_⟩
    rw [LeaseManager.grantFor_release _ (LeaseManager.canonicalKey_of_acquire ha),
      LeaseManager.grantFor_of_acquire ha]
    split_ifs with hr hdone hdone
    · rfl
    · rw [hr] at ht
      exact absurd (hI.done_of_not_active ht hactive) hdone
    · rw [hI.holds r t ht, if_pos hdone]
    · rw [hI.holds r t ht, if_neg hdone]
  · have hleases : (s.leases.acquire t.runId locks.leaves locks.resources locks.safetyDomains ns).1.Inv :=
      hI.leases.acquire ..
    rw [ha] at hleases
    refine ⟨hleases, fun r t' ht => ?_, fun r t' ht => ?_, fun r t' ht hdone => ?_, fun r t' ht => ?_⟩
    all_goals rw [Table.get_insert] at ht
    · split_ifs at ht with hr
      · cases ht
        exact hr.symm
      · exact hI.runId r t' ht
    · split_ifs at ht with hr
      · cases ht
        exact hopen.checked
      · exact hI.checked r t' ht
    · split_ifs at ht with hr
      · rw [hr]
        exact List.mem_cons_self
      · exact List.mem_cons_of_mem _ (hI.active r t' ht hdone)
    · rw [LeaseManager.grantFor_of_acquire ha]
      split_ifs at ht with hr
      · cases ht
        rw [if_pos hr, hopen.isDone_eq, if_neg Bool.false_ne_true]
      · rw [if_neg hr]
        exact hI.holds r t' ht

omit [Cbor F] [Sha256] [PyFloat F] [PyText F] in
theorem commit_tasks (s : System F) (runId : Str) (t : Task F) (event : Option (Val F)) :
    (s.commit runId t event).tasks = s.tasks.insert runId t := rfl

theorem Inv.commit {s : System F} {runId : Str} {t t' : Task F} (hI : s.Inv cfg)
    (ht : s.tasks.get runId = some t) (hdone : t.isDone = false) (hrun : t'.toRun = t.toRun)
    (event : Option (Val F)) : (s.commit runId t' event).Inv cfg := by
  have hchecked := hI.checked runId t ht
  have hid := hI.runId runId t ht
  have hkey : canonicalKey runId = true := by
    rw [← hid]
    exact hchecked.key
  constructor
  · unfold System.commit
    split_ifs
    · exact hI.leases.release runId
    · exact hI.leases
  · intro r t₁ h₁
    rw [commit_tasks, Table.get_insert] at h₁
    split_ifs at h₁ with hr
    · cases h₁
      rw [hrun, hid, hr]
    · exact hI.runId r t₁ h₁
  · intro r t₁ h₁
    rw [commit_tasks, Table.get_insert] at h₁
    split_ifs at h₁ with hr
    · cases h₁
      rw [hrun]
      exact hchecked
    · exact hI.checked r t₁ h₁
  · intro r t₁ h₁ hd
    rw [commit_tasks, Table.get_insert] at h₁
    unfold System.commit
    split_ifs at h₁ with hr
    · cases h₁
      rw [hd, if_neg Bool.false_ne_true, hr]
      exact hI.active runId t ht hdone
    · have := hI.active r t₁ h₁ hd
      split_ifs
      · exact (List.mem_erase_of_ne hr).2 this
      · exact this
  · intro r t₁ h₁
    rw [commit_tasks, Table.get_insert] at h₁
    have hholds := hI.holds runId t ht
    rw [hdone, if_neg Bool.false_ne_true] at hholds
    unfold System.commit
    dsimp only
    split_ifs at h₁ with hr
    · cases h₁
      rw [hrun]
      split_ifs
      · rw [LeaseManager.grantFor_release _ hkey, if_pos hr]
      · rw [hr, hholds]
    · rw [← hI.holds r t₁ h₁]
      split_ifs
      · rw [LeaseManager.grantFor_release _ hkey, if_neg hr]
      · rfl

theorem Inv.step {s s' : System F} {l : Label F} (hI : s.Inv cfg) (h : s.step cfg l = some s') :
    s'.Inv cfg := by
  cases l with
  | call runId identityId program ns appendError =>
    rw [← Option.some.inj h]
    exact hI.openRun rfl
  | task runId label =>
    obtain ⟨t, ht, h⟩ := Option.bind_eq_some_iff.1 h
    obtain ⟨⟨t', event⟩, hstep, rfl⟩ := Option.map_eq_some_iff.1 h
    have hm := Task.move_of_step hstep
    exact hI.commit ht (Task.not_done_of_move hm) (Task.toRun_of_move hm) event

theorem inv_of_reachable {s₀ s : System F} (h₀ : s₀.Initial)
    (h : Transition.Reachable (System.step cfg) s₀ s) : s.Inv cfg :=
  h.invariant (fun _ _ _ hI hs => hI.step hs) (inv_of_initial h₀)

end System

end RemoteRobot
