import RemoteRobot.Worker.Overlap

/-!
# Calls that raise

A call that raises leaves `state` as it was when it finds room for its event in the queue, or writes
what the worker already holds, and when a plan it refuses meets a worker without a plan (`Atomic`).
In the runs of such calls every phase has a plan that a `prepare_phase` which returned accepted, and
its events carry the names of that plan (`atomic_along`).

Elsewhere the worker has changed its status and its plan when the exception leaves it
(`refused_counterexample`).
-/

namespace RemoteRobot.Worker

open Py Except Transition

variable {F : Type}

/-! ## The condition -/

section Condition

variable [PyFloat F] [PyText F] [Cbor F]

omit [PyText F] in
/-- `_emit` returns for the event. -/
def InMemoryWorker.HasRoom (w : InMemoryWorker F) (event : List (String × Val F)) : Prop :=
  (dataCopy (dictOf event)).isOk = true ∧ w.events.length < w.eventLimit

instance (w : InMemoryWorker F) (event : List (String × Val F)) : Decidable (w.HasRoom event) := by
  unfold InMemoryWorker.HasRoom
  infer_instance

variable (P : InMemoryWorker F → List (String × Val F) → Prop)

/-- `P` holds of what `stop` writes behind its await, with the event it puts in the queue then. -/
def StopWrites (w : InMemoryWorker F) (faultContext : Val F) : Prop :=
  match dataCopy faultContext with
  | .error _ => True
  | .ok context => P (w.withStop context)
      (("type", .str (py "worker_stopped")) :: (w.withStop context).stoppedResult context)

/-- `P` holds of what a call that passed its checks writes, with the event it puts in the queue
then; a plan is refused by a worker without one. -/
def CallWrites (w : InMemoryWorker F) : Call F → Prop
  | .prepareDisabled => w.status = .closed ∨ w.status.isActive = true ∨
      P { w with status := .disabled, phasePlan := none }
        (("type", .str (py "worker_disabled")) :: w.disabledResult)
  | .preparePhase phasePlan => Status.takesPlan w.status = false ∨ match dataCopy phasePlan with
    | .error _ => True
    | .ok plan => match checkPlan plan with
      | .error _ => w.phasePlan.isNone = true
      | .ok () => P (w.withPlan plan)
          (("type", .str (py "phase_prepared")) :: (w.withPlan plan).preparedResult)
  | .stop faultContext => w.phaseTask.isSome = true ∨ StopWrites P w faultContext
  | _ => True

def StepWrites (s : System F) : Label F → Prop
  | .call c => CallWrites P s.worker c
  | .resume k => match s.waiting[k]? with
    | some (.stop faultContext _) => StopWrites P s.worker faultContext
    | _ => True
  | _ => True

/-- What a call writes is what the worker holds, or the call goes on to its end. -/
def Atomic (s : System F) (l : Label F) : Prop :=
  StepWrites (fun w event => s.worker = w ∨ w.HasRoom event) s l

/-- Every call goes on to its end. -/
def Roomy (s : System F) (l : Label F) : Prop := StepWrites InMemoryWorker.HasRoom s l

instance (w : InMemoryWorker F) (faultContext : Val F) :
    Decidable (StopWrites InMemoryWorker.HasRoom w faultContext) := by
  unfold StopWrites
  split <;> infer_instance

instance (w : InMemoryWorker F) : ∀ c : Call F, Decidable (CallWrites InMemoryWorker.HasRoom w c)
  | .prepareDisabled => inferInstanceAs (Decidable (_ ∨ _ ∨ InMemoryWorker.HasRoom _ _))
  | .preparePhase phasePlan => by
    unfold CallWrites
    dsimp only
    repeat' split
    all_goals infer_instance
  | .stop faultContext =>
    inferInstanceAs (Decidable (_ ∨ StopWrites InMemoryWorker.HasRoom w faultContext))
  | .startPhase _ | .state | .close => .isTrue trivial

instance (s : System F) : ∀ l : Label F, Decidable (Roomy s l)
  | .call c => inferInstanceAs (Decidable (CallWrites InMemoryWorker.HasRoom s.worker c))
  | .resume k => by
    unfold Roomy StepWrites
    dsimp only
    split <;> infer_instance
  | .abandon _ | .nextEvent | .wake _ | .tick _ => .isTrue trivial

variable {P} {P' : InMemoryWorker F → List (String × Val F) → Prop}

theorem StopWrites.mono (hmono : ∀ w event, P w event → P' w event) {w : InMemoryWorker F}
    {faultContext : Val F} (h : StopWrites P w faultContext) : StopWrites P' w faultContext := by
  unfold StopWrites at h ⊢
  split
  · trivial
  · rename_i context hcontext
    rw [hcontext] at h
    exact hmono _ _ h

theorem CallWrites.mono (hmono : ∀ w event, P w event → P' w event) {w : InMemoryWorker F}
    {c : Call F} (h : CallWrites P w c) : CallWrites P' w c := by
  cases c with
  | prepareDisabled => exact h.imp id fun h => h.imp id (hmono _ _)
  | preparePhase phasePlan =>
    refine h.imp id fun hw => ?_
    cases hcopy : dataCopy phasePlan with
    | error e => trivial
    | ok plan =>
      simp only [hcopy] at hw
      cases hcheck : checkPlan plan with
      | error e =>
        simp only [hcheck] at hw
        simp only [hcheck]
        exact hw
      | ok u =>
        simp only [hcheck] at hw
        simp only [hcheck]
        exact hmono _ _ hw
  | stop faultContext => exact h.imp id (StopWrites.mono hmono)
  | _ => trivial

theorem atomic_of_roomy {s : System F} {l : Label F} (h : Roomy s l) : Atomic s l := by
  have hmono : ∀ (w : InMemoryWorker F) (event : List (String × Val F)), w.HasRoom event →
      s.worker = w ∨ w.HasRoom event := fun _ _ => .inr
  cases l with
  | call c => exact CallWrites.mono hmono h
  | resume k =>
    simp only [Roomy, Atomic, StepWrites] at h ⊢
    cases hk : s.waiting[k]? with
    | none => trivial
    | some c =>
      rw [hk] at h
      cases c with
      | stop faultContext i => exact StopWrites.mono hmono h
      | close i => trivial
  | _ => trivial

end Condition

/-! ## Calls that raise -/

section Raises

variable [PyFloat F] [PyText F] [Cbor F] {s s' : System F} {w w' : InMemoryWorker F}
  {e : WorkerError F}

omit [PyText F] in
/-- A call that raises in the end leaves what it wrote, and found no room. -/
theorem emitResult_eq_error {type : String} {result : List (String × Val F)}
    (h : w.emitResult type result = (.error e, w')) :
    w' = w ∧ ¬w.HasRoom (("type", .str (py type)) :: result) := by
  unfold InMemoryWorker.emitResult InMemoryWorker.emit at h
  unfold InMemoryWorker.HasRoom
  cases hcopy : dataCopy (dictOf (("type", .str (py type)) :: result)) with
  | error e' =>
    rw [hcopy] at h
    exact ⟨(congrArg Prod.snd h).symm, fun hr => nomatch hr.1⟩
  | ok copy =>
    rw [hcopy] at h
    by_cases hroom : w.events.length < w.eventLimit
    · simp only [hroom, if_true] at h
      cases congrArg Prod.fst h
    · simp only [hroom, if_false] at h
      exact ⟨(congrArg Prod.snd h).symm, fun hr => hroom hr.2⟩

omit [PyText F] in
/-- What a call wrote that raised in the end is what the worker held. -/
theorem eq_of_writes {w₀ : InMemoryWorker F} {type : String} {result : List (String × Val F)}
    (hok : w₀ = w ∨ w.HasRoom (("type", .str (py type)) :: result))
    (h : w.emitResult type result = (.error e, w')) : w' = w₀ := by
  obtain ⟨rfl, hroom⟩ := emitResult_eq_error h
  obtain hsame | hr := hok
  · exact hsame.symm
  · exact absurd hr hroom

theorem prepareDisabled_raises (hok : CallWrites (fun u event => w = u ∨ u.HasRoom event) w
    .prepareDisabled) (h : w.prepareDisabled = (.error e, w')) : w' = w := by
  unfold InMemoryWorker.prepareDisabled at h
  by_cases hc : w.status = .closed
  · rw [if_pos hc] at h
    exact (congrArg Prod.snd h).symm
  rw [if_neg hc] at h
  by_cases ha : w.status = .scheduled ∨ w.status = .running
  · rw [if_pos ha] at h
    exact (congrArg Prod.snd h).symm
  rw [if_neg ha] at h
  obtain hc' | ha' | hok := hok
  · exact absurd hc' hc
  · exact absurd (Status.isActive_iff.1 ha') ha
  · exact eq_of_writes hok h

theorem preparePhase_raises {phasePlan : Val F} (hok : CallWrites
    (fun u event => w = u ∨ u.HasRoom event) w (.preparePhase phasePlan))
    (h : w.preparePhase phasePlan = (.error e, w')) : w' = w := by
  unfold InMemoryWorker.preparePhase at h
  by_cases hc : w.status = .closed
  · rw [if_pos hc] at h
    exact (congrArg Prod.snd h).symm
  rw [if_neg hc] at h
  by_cases ht : Status.takesPlan w.status = false
  · rw [if_pos ht] at h
    exact (congrArg Prod.snd h).symm
  rw [if_neg ht] at h
  have hok := hok.resolve_left ht
  cases phasePlan with
  | dict kvs =>
    cases hcopy : dataCopy (Val.dict kvs) with
    | error e' =>
      rw [hcopy] at h
      exact (congrArg Prod.snd h).symm
    | ok plan =>
      simp only [hcopy] at h hok
      cases hcheck : checkPlan plan with
      | error e' =>
        simp only [hcheck] at h hok
        have hnone : w.phasePlan = none := Option.isNone_iff_eq_none.1 hok
        obtain ⟨-, rfl⟩ := Prod.mk.inj h
        rw [← hnone]
      | ok u =>
        simp only [hcheck] at h hok
        exact eq_of_writes hok h
  | _ => exact (congrArg Prod.snd h).symm

theorem stopFinish_raises {faultContext : Val F}
    (hok : StopWrites (fun u event => w = u ∨ u.HasRoom event) w faultContext)
    (h : w.stopFinish faultContext = (.error e, w')) : w' = w := by
  unfold InMemoryWorker.stopFinish at h
  unfold StopWrites at hok
  rcases hcopy : dataCopy faultContext with e' | context
  · rw [hcopy] at h
    exact (congrArg Prod.snd h).symm
  · rw [hcopy] at h hok
    exact eq_of_writes hok h

omit [PyFloat F] [PyText F] [Cbor F] in
theorem map_eq_error {α β : Type} {x : Except (WorkerError F) α} {f : α → β}
    (h : x.map f = .error e) : x = .error e := by
  rcases x with e' | a
  · exact congrArg _ (Except.error.inj h)
  · cases h

theorem finishStop_raises {faultContext : Val F}
    (hok : StopWrites (fun u event => s.worker = u ∨ u.HasRoom event) s.worker faultContext)
    (h : s.finishStop faultContext = (some (.error e), s')) : s'.worker = s.worker := by
  unfold System.finishStop at h
  split at h
  · rename_i e' w' hw
    obtain ⟨-, rfl⟩ := Prod.mk.inj h
    exact stopFinish_raises hok hw
  · cases congrArg Prod.fst h

theorem call_raises {c : Call F} (hok : Atomic s (.call c))
    (h : s.call c = (some (.error e), s')) : s'.worker = s.worker := by
  cases c with
  | prepareDisabled =>
    have hx : s.worker.prepareDisabled = (.error e, s.worker.prepareDisabled.2) :=
      Prod.ext (map_eq_error (Option.some.inj (congrArg Prod.fst h))) rfl
    obtain ⟨-, rfl⟩ := Prod.mk.inj h
    exact prepareDisabled_raises hok hx
  | preparePhase phasePlan =>
    simp only [System.call] at h
    split at h
    · rename_i e' w' hw
      obtain ⟨-, rfl⟩ := Prod.mk.inj h
      exact preparePhase_raises hok hw
    · cases congrArg Prod.fst h
  | startPhase deadlineUs =>
    simp only [System.call] at h
    obtain ⟨e', h'⟩ | ⟨n, -, -, -, h'⟩ := s.worker.startPhase_cases deadlineUs s.tasks.length
    · rw [h'] at h
      obtain ⟨-, rfl⟩ := Prod.mk.inj h
      rfl
    · rw [h'] at h
      cases congrArg Prod.fst h
  | stop faultContext =>
    simp only [System.call] at h
    cases hchecks : s.worker.stopChecks faultContext with
    | error e' =>
      rw [hchecks] at h
      obtain ⟨-, rfl⟩ := Prod.mk.inj h
      rfl
    | ok u =>
    obtain h' | ⟨i, hi, h'⟩ := cancelPhaseTask_cases s
    · simp only [hchecks, h'] at h
      refine finishStop_raises (hok.resolve_left fun hsome => ?_) h
      obtain ⟨i, hi⟩ := Option.isSome_iff_exists.1 hsome
      unfold System.cancelPhaseTask at h'
      rw [hi] at h'
      cases congrArg Prod.fst h'
    · simp only [hchecks, h'] at h
      cases congrArg Prod.fst h
  | state =>
    obtain ⟨-, rfl⟩ := Prod.mk.inj h
    rfl
  | close =>
    simp only [System.call] at h
    by_cases hc : s.worker.status = .closed
    · rw [if_pos hc] at h
      cases congrArg Prod.fst h
    rw [if_neg hc] at h
    obtain h' | ⟨i, hi, h'⟩ := cancelPhaseTask_cases s <;> simp only [h'] at h <;>
      cases congrArg Prod.fst h

/-- A call that raises leaves the worker as it was. -/
theorem worker_of_raises {l : Label F} (hok : Atomic s l)
    (h : s.react l = some (some (.error e), s')) : s'.worker = s.worker := by
  cases l with
  | call c => exact call_raises hok (Option.some.inj h)
  | resume k =>
    obtain ⟨c, hc, h⟩ := Option.bind_eq_some_iff.1 h
    unfold System.resume at h
    split_ifs at h
    cases c with
    | stop faultContext i =>
      simp only [Atomic, StepWrites, hc] at hok
      exact finishStop_raises (s := { s with waiting := s.waiting.eraseIdx k }) hok
        (Option.some.inj h)
    | close i => cases congrArg Prod.fst (Option.some.inj h)
  | abandon k =>
    simp only [System.react] at h
    split_ifs at h
    cases congrArg Prod.fst (Option.some.inj h)
  | nextEvent =>
    simp only [System.react] at h
    split_ifs at h
    · obtain ⟨-, rfl⟩ := Prod.mk.inj (Option.some.inj h)
      rfl
    · split at h
      · cases h
      · cases congrArg Prod.fst (Option.some.inj h)
  | wake i =>
    obtain ⟨s₁, -, he⟩ := Option.map_eq_some_iff.1 h
    cases congrArg Prod.fst he
  | tick nowUs =>
    simp only [System.react] at h
    split_ifs at h
    cases congrArg Prod.fst (Option.some.inj h)

/-- `stop` and `close` leave `state` as it is until their await, and so does the end of the task
they cancel. -/
theorem state_of_waits {c : Call F} (h : s.react (.call c) = some (none, s')) :
    s'.worker.state = s.worker.state := by
  have h := Option.some.inj h
  have hcancels := cancelPhaseTask_cases s
  cases c with
  | stop faultContext =>
    simp only [System.call] at h
    cases hchecks : s.worker.stopChecks faultContext with
    | error e' =>
      rw [hchecks] at h
      cases congrArg Prod.fst h
    | ok u =>
    obtain h' | ⟨i, hi, h'⟩ := hcancels
    · simp only [hchecks, h', System.finishStop] at h
      split at h <;> cases congrArg Prod.fst h
    · simp only [hchecks, h'] at h
      obtain ⟨-, rfl⟩ := Prod.mk.inj h
      rfl
  | close =>
    simp only [System.call] at h
    split_ifs at h
    · cases congrArg Prod.fst h
    obtain h' | ⟨i, hi, h'⟩ := hcancels
    · simp only [h'] at h
      cases congrArg Prod.fst h
    · simp only [h'] at h
      obtain ⟨-, rfl⟩ := Prod.mk.inj h
      rfl
  | preparePhase phasePlan =>
    simp only [System.call] at h
    split at h <;> cases congrArg Prod.fst h
  | startPhase deadlineUs =>
    simp only [System.call] at h
    split at h <;> cases congrArg Prod.fst h
  | prepareDisabled => cases congrArg Prod.fst h
  | state => cases congrArg Prod.fst h

theorem state_of_cancelled {i : ℕ} {t : PhaseTask F} (ht : s.tasks[i]? = some t)
    (hc : t.cancelled = true) (h : s.step (.wake i) = some s') :
    s'.worker.state = s.worker.state := by
  simp only [System.step, System.react, ht, Option.bind_some, Option.map_map] at h
  obtain ⟨s₁, hw, rfl⟩ := Option.map_eq_some_iff.1 h
  have hleave : (s.leave i).worker.state = s.worker.state := by
    unfold System.leave
    simp only
    split_ifs <;> rfl
  unfold System.wake at hw
  rw [hc] at hw
  split at hw
  · rw [← Option.some.inj hw]
    rfl
  · rw [← Option.some.inj hw]
    exact hleave
  · rw [← Option.some.inj hw]
    exact hleave
  · cases hw

end Raises

/-! ## Plans -/

section Plans

variable [PyFloat F] [PyText F] [Cbor F] {s s' : System F} {l : Label F}

/-- The plan of the worker was accepted, and a prepared worker has one. -/
structure PlanInv (s : System F) : Prop where
  plan : ∀ p, s.worker.phasePlan = some p → p ∈ s.accepted
  prepared : s.worker.status = .prepared → s.worker.phasePlan ≠ none
  tasks : ∀ t ∈ s.tasks, ∃ p ∈ s.accepted, t.plan = some p
  checked : ∀ p ∈ s.accepted, checkPlan p = .ok ()

omit [PyFloat F] [PyText F] [Cbor F] in
/-- A step that accepts no plan and starts no phase. -/
theorem PlanInv.kept (h : PlanInv s) (hk : Kept s s')
    (htasks : ∀ t ∈ s'.tasks, ∃ u ∈ s.tasks, t.plan = u.plan) : PlanInv s' := by
  refine ⟨fun p hp => ?_, fun hs => ?_, fun t ht => ?_, ?_⟩
  · rw [hk.accepted]
    obtain hplan | hplan := hk.plan
    · exact h.plan p (hplan ▸ hp)
    · rw [hplan] at hp
      cases hp
  · obtain ⟨hs, hplan⟩ := hk.prepared hs
    rw [hplan]
    exact h.prepared hs
  · obtain ⟨u, hu, he⟩ := htasks t ht
    rw [hk.accepted, he]
    exact h.tasks u hu
  · rw [hk.accepted]
    exact h.checked

omit [PyFloat F] [PyText F] [Cbor F] in
theorem mem_modify {f : PhaseTask F → PhaseTask F} {i : ℕ} {t : PhaseTask F}
    (ht : t ∈ s.tasks.modify i f) (hf : ∀ t, (f t).plan = t.plan) :
    ∃ u ∈ s.tasks, t.plan = u.plan := by
  obtain ⟨j, hj⟩ := List.mem_iff_getElem?.1 ht
  obtain ⟨u, hu, rfl⟩ := getElem?_modify_eq_some.1 hj
  refine ⟨u, List.mem_of_getElem? hu, ?_⟩
  split_ifs
  · exact hf u
  · rfl

/-- A plan is accepted, or nothing is written. -/
theorem PlanInv.preparePhase (h : PlanInv s) {phasePlan : Val F}
    (hok : Atomic s (.call (.preparePhase phasePlan))) :
    PlanInv (s.call (.preparePhase phasePlan)).2 := by
  simp only [System.call]
  cases hx : s.worker.preparePhase phasePlan with
  | mk r w =>
    cases r with
    | error e =>
      obtain rfl := preparePhase_raises hok hx
      exact h
    | ok result =>
      obtain ⟨e, h'⟩ | ⟨-, plan, -, ⟨e, -, h'⟩ | ⟨hcheck, h'⟩⟩ :=
        s.worker.preparePhase_cases phasePlan
      · rw [h'] at hx
        cases congrArg Prod.fst hx
      · rw [h'] at hx
        cases congrArg Prod.fst hx
      · have hsame := (s.worker.withPlan plan).emitResult_same "phase_prepared"
          (s.worker.withPlan plan).preparedResult
        rw [← h', hx] at hsame
        have hplan : w.phasePlan = some plan := hsame.plan
        have hmem : ∀ p ∈ s.accepted, p ∈ s.accepted ++ w.phasePlan.toList := fun p hp =>
          List.mem_append_left _ hp
        refine ⟨fun p hp => ?_, fun _ => ?_, fun t ht => ?_, fun p hp => ?_⟩
        · exact List.mem_append_right _ (Option.mem_toList.2 hp)
        · intro hn
          cases hplan.symm.trans hn
        · obtain ⟨p, hp, he⟩ := h.tasks t ht
          exact ⟨p, hmem p hp, he⟩
        · have hp : p ∈ s.accepted ++ w.phasePlan.toList := hp
          rw [hplan, Option.toList_some, List.mem_append, List.mem_singleton] at hp
          obtain hp | rfl := hp
          · exact h.checked p hp
          · exact hcheck

theorem PlanInv.step (h : PlanInv s) (hok : Atomic s l) (hs : s.step l = some s') :
    PlanInv s' := by
  cases move_of_step hs with
  | quiet hq hstops hkept =>
    obtain ⟨phasePlan, rfl⟩ | hk := hkept
    · obtain rfl := Option.some.inj hs
      exact h.preparePhase hok
    · exact h.kept hk fun t ht => ⟨t, hq.tasks ▸ ht, rfl⟩
  | stopped hq hk hidle hstops => exact h.kept hk fun t ht => ⟨t, hq.tasks ▸ ht, rfl⟩
  | starts n hl hn hprepared hstatus hplan hheld htasks hlog hstops haccepted =>
    refine ⟨fun p hp => ?_, fun hp => ?_, fun t ht => ?_, ?_⟩
    · rw [haccepted]
      exact h.plan p (hplan ▸ hp)
    · rw [hstatus] at hp
      cases hp
    · rw [htasks, List.mem_append, List.mem_singleton] at ht
      rw [haccepted]
      obtain ht | rfl := ht
      · exact h.tasks t ht
      · obtain ⟨p, hp⟩ := Option.ne_none_iff_exists'.1 (h.prepared hprepared)
        exact ⟨p, h.plan p hp, hp⟩
    · rw [haccepted]
      exact h.checked
  | cancels i hheld hheld' htasks hstatus hplan hlog hstops haccepted =>
    refine h.kept ⟨haccepted, .inl hplan, fun hp => ⟨hstatus ▸ hp, hplan⟩⟩ fun t ht => ?_
    rw [htasks] at ht
    exact mem_modify ht fun _ => rfl
  | woken i t ht hw =>
    have hmoved : ∃ stage new, Moved s s' i stage new := by
      cases hw with
      | dropped _ _ hm _ _ => exact ⟨_, _, hm⟩
      | sleeps _ _ hm _ _ => exact ⟨_, _, hm⟩
      | runs _ _ _ _ _ hm _ _ => exact ⟨_, _, hm⟩
      | leaves _ _ hm _ => exact ⟨_, _, hm⟩
      | startsAndLeaves _ _ _ _ _ hm _ => exact ⟨_, _, hm⟩
      | startsAndCompletes _ _ _ _ _ _ _ _ hm _ => exact ⟨_, _, hm⟩
      | completes _ _ _ _ _ _ _ _ hm _ => exact ⟨_, _, hm⟩
    obtain ⟨stage, new, hm⟩ := hmoved
    refine h.kept ⟨hm.accepted, .inl hm.plan, fun hp => ⟨hm.prepared hp, hm.plan⟩⟩ fun u hu => ?_
    rw [hm.tasks] at hu
    exact mem_modify hu fun _ => rfl

end Plans

/-! ## The names in the events -/

section Names

variable [PyFloat F] [PyText F] [Cbor F] [PlainCbor F]

omit [PyText F] in
/-- The copy of a dictionary is what it reads back as. -/
theorem reads_of_dataCopy {v : Val F} {copy : Dict F} (hv : v.wellFormed = true)
    (h : dataCopy v = .ok copy) : v.Reads (.dict copy) := by
  obtain ⟨payload, hp, hc⟩ := bind_eq_ok.1 h
  obtain ⟨-, -, hd⟩ := Ipc.canonicalPayload_eq_ok.1 hp
  obtain ⟨-, -, hl, -⟩ := Ipc.decodePayload_eq_ok.1 hc
  obtain ⟨w, hw, hr⟩ := PlainCbor.loads_dumps v payload hv hd
  rw [Except.ok.inj (hl.symm.trans hw)]
  exact hr

omit [PyText F] in
/-- What a copy holds is a Python value. -/
theorem wellFormed_of_dataCopy {v : Val F} {copy : Dict F} (h : dataCopy v = .ok copy) :
    (Val.dict copy).wellFormed = true := by
  obtain ⟨payload, -, hc⟩ := bind_eq_ok.1 h
  obtain ⟨-, -, hl, -⟩ := Ipc.decodePayload_eq_ok.1 hc
  exact (PlainCbor.loads_ok payload _ hl).1

omit [PyText F] in
/-- A string in a record is in its copy. -/
theorem lookup_of_dataCopy {fields : List (String × Val F)} {copy : Dict F}
    (hv : (dictOf fields).wellFormed = true) (hnd : (fields.map Prod.fst).Nodup)
    (h : dataCopy (dictOf fields) = .ok copy) {k : String} {x : Str}
    (hk : lookup (py k) (entries fields) = some (.str x)) : lookup (py k) copy = some (.str x) := by
  obtain ⟨b, he, -, -, hb⟩ := (reads_of_dataCopy hv h).fields (nodup_entries hnd)
  obtain ⟨u, hu, hr⟩ := (hb (py k)).1 _ hk
  obtain rfl := Val.dict.inj he
  rw [hu]
  exact congrArg some hr

omit [PyFloat F] [PyText F] [Cbor F] [PlainCbor F] in
/-- An accepted plan has strings under the names of the phase. -/
theorem lookup_of_checkPlan {plan : Dict F} (h : checkPlan plan = .ok ()) {k : String}
    (hk : k ∈ identityFields) : ∃ x, lookup (py k) plan = some (.str x) := by
  obtain ⟨_, hi, -⟩ := bind_eq_ok.1 h
  have hf := forM_eq_ok.1 hi k hk
  unfold checkIdentity at hf
  split at hf
  · rename_i x hx
    exact ⟨x, hx⟩
  · cases hf

theorem Announces.named {plan : Dict F} {e : PhaseEvent F} (h : Announces (some plan) e)
    (hcheck : checkPlan plan = .ok ()) {k : String} (hk : k ∈ identityFields) :
    lookup (py k) e.event = lookup (py k) plan := by
  obtain ⟨w, deadlineUs, actualStartUs, hplan, hcopy⟩ := h
  obtain ⟨x, hx⟩ := lookup_of_checkPlan hcheck hk
  rw [hx]
  have hnames : ∀ {a b : List (String × Val F)}, (∀ p ∈ a, p.1 ∉ identityFields) →
      lookup (py k) (entries (a ++ w.phaseIdentity ++ b)) = some (.str x) := by
    intro a b ha
    have hskip : lookup (py k) (entries (a ++ w.phaseIdentity ++ b)) =
        lookup (py k) (entries (w.phaseIdentity ++ b)) := by
      induction a with
      | nil => rfl
      | cons p a ih =>
        rw [List.forall_mem_cons] at ha
        have hne : ¬py p.1 = py k := fun he => ha.1 (py_inj.1 he ▸ hk)
        rw [List.cons_append, List.cons_append, entries_cons, lookup_cons_str, if_neg hne]
        exact ih ha.2
    rw [hskip]
    unfold InMemoryWorker.phaseIdentity
    rw [hplan, Option.getD_some]
    simp only [identityFields, List.mem_cons, List.not_mem_nil, or_false] at hk
    obtain rfl | rfl | rfl := hk <;>
      simp [identityFields, hx, Val.toStr]
  cases e with
  | mk task kind atUs event =>
    cases kind with
    | started =>
      refine lookup_of_dataCopy (wellFormed_dictOf ?_ ?_) ?_ hcopy (hnames ?_)
      · simp [InMemoryWorker.startedEvent, InMemoryWorker.phaseIdentity, identityFields]
      · simp [InMemoryWorker.startedEvent, InMemoryWorker.phaseIdentity, identityFields,
          Val.wellFormed, Status.toVal]
      · simp [InMemoryWorker.startedEvent, InMemoryWorker.phaseIdentity, identityFields]
      · simp [identityFields]
    | completed =>
      refine lookup_of_dataCopy (wellFormed_dictOf ?_ ?_) ?_ hcopy (hnames ?_)
      · simp [InMemoryWorker.completedEvent, InMemoryWorker.phaseIdentity, identityFields]
      · simp [InMemoryWorker.completedEvent, InMemoryWorker.phaseIdentity, identityFields,
          Val.wellFormed, Status.toVal]
      · simp [InMemoryWorker.completedEvent, InMemoryWorker.phaseIdentity, identityFields]
      · simp [identityFields]

end Names

/-! ## Runs -/

/-- The phases have accepted plans, their events the names of these, and they last as long. -/
structure Consistent (s : System F) : Prop where
  scheduled : ∀ t ∈ s.tasks, ∃ plan ∈ s.accepted, t.plan = some plan
  named : ∀ e ∈ s.log, ∃ t, ∃ plan ∈ s.accepted, s.tasks[e.task]? = some t ∧ t.plan = some plan ∧
    ∀ k ∈ identityFields, lookup (py k) e.event = lookup (py k) plan
  order : ∀ i t, s.tasks[i]? = some t → InOrder t.plan (eventsOf s.log i)
  /-- the sleep of a phase is set to its duration -/
  sleep : ∀ (i : ℕ) (t : PhaseTask F) (a u : ℤ), s.tasks[i]? = some t → t.stage = .working a u →
    u = a + planDuration t.plan

section Runs

variable [PyFloat F] [PyText F] [Cbor F] [PlainCbor F] {s : System F}

theorem consistent_of_inv (h : PhaseInv s) (hp : PlanInv s) : Consistent s := by
  refine ⟨hp.tasks, fun e he => ?_, h.phasesOk.order, fun i t a u ht hstage => ?_⟩
  · obtain ⟨t, ht, ha⟩ := h.source e he
    obtain ⟨plan, hmem, hplan⟩ := hp.tasks t (List.mem_of_getElem? ht)
    rw [hplan] at ha
    exact ⟨t, plan, hmem, ht, hplan, fun k hk => ha.named (hp.checked plan hmem) hk⟩
  · have hprogress := h.progress i t ht
    rw [hstage] at hprogress
    exact hprogress.1

omit [PyFloat F] [PyText F] [Cbor F] [PlainCbor F] in
theorem planInv_create {adapterName : Str} {eventLimit nowUs : ℤ} {w : InMemoryWorker F}
    (h : InMemoryWorker.create adapterName eventLimit = .ok w) :
    PlanInv { worker := w, nowUs } := by
  unfold InMemoryWorker.create at h
  split_ifs at h
  obtain rfl := Except.ok.inj h
  refine ⟨fun p hp => ?_, fun hs => ?_, fun t ht => ?_, fun p hp => ?_⟩
  · cases hp
  · cases hs
  · cases ht
  · cases hp

/-- A call that raises changes nothing `state` shows, before an await of `stop` either, and every
phase runs under an accepted plan. -/
theorem atomic_along {adapterName : Str} {eventLimit nowUs : ℤ} {w : InMemoryWorker F}
    {ls : List (Label F)} (hw : InMemoryWorker.create adapterName eventLimit = .ok w)
    (hrun : run System.step { worker := w, nowUs } ls = some s)
    (hok : Along System.step (fun s l => Exclusive s l ∧ Atomic s l) { worker := w, nowUs } ls) :
    Consistent s ∧
    (∀ l e s', Atomic s l → s.react l = some (some (.error e), s') →
      s'.worker.state = s.worker.state) ∧
    (∀ c s', s.react (.call c) = some (none, s') → s'.worker.state = s.worker.state) ∧
    ∀ i t s', s.tasks[i]? = some t → t.cancelled = true → s.step (.wake i) = some s' →
      s'.worker.state = s.worker.state := by
  refine ⟨?_, fun l e s' hl h => ?_, fun c s' h => state_of_waits h,
    fun i t s' ht hc h => state_of_cancelled ht hc h⟩
  · have hphase : PhaseInv s := run_invariant_along (fun _ _ _ hi hl hs => hi.step hl.1 hs) hrun hok
      (phaseInv_create hw nowUs)
    have hplan : PlanInv s := run_invariant_along (fun _ _ _ hi hl hs => hi.step hl.2 hs) hrun hok
      (planInv_create hw)
    exact consistent_of_inv hphase hplan
  · rw [worker_of_raises hl h]

end Runs

section Demo

local instance atomicCodec : Cbor ℚ := strictCodec

local instance atomicPlain : PlainCbor ℚ := plainCbor_strictCodec

/-- A plan without its `run_id`. -/
def refusedPlan : Val ℚ := dictOf [("duration_us", .int 50)]

theorem atomic_along_demo : ∃ s, run System.step { worker := demoWorker, nowUs := 100 } phaseRun =
    some s ∧ Consistent s ∧ s.log.map PhaseEvent.brief =
      [(0, .started, 125, some (py "e1")), (0, .completed, 175, some (py "e1"))] := by
  have hsome : (run System.step { worker := demoWorker, nowUs := 100 } phaseRun).any (fun s =>
      decide (s.log.map PhaseEvent.brief =
        [(0, .started, 125, some (py "e1")), (0, .completed, 175, some (py "e1"))])) = true := by
    decide +kernel
  obtain ⟨s, hrun, he⟩ := (Option.any_eq_true _ _).1 hsome
  have hroomy : Along System.step (fun s l => Exclusive s l ∧ Roomy s l)
      { worker := demoWorker, nowUs := 100 } phaseRun := by decide +kernel
  exact ⟨s, hrun, (atomic_along (show InMemoryWorker.create (py "in-memory") 256 = _ from rfl) hrun
    (hroomy.mono fun _ _ h => ⟨h.1, atomic_of_roomy h.2⟩)).1, of_decide_eq_true he⟩

/-- The `run_id` that `state` shows. -/
def shownRun (w : InMemoryWorker ℚ) : Option Str :=
  w.state.toOption.bind fun record => (lookup (py "run_id") record).map Val.toStr

/-- A plan that is refused takes the accepted one away; the worker stays prepared, and what it then
schedules is no plan. -/
theorem refused_counterexample : ∃ s s' s'' : System ℚ, ∃ e,
    run System.step { worker := demoWorker, nowUs := 100 }
      [.call .prepareDisabled, .call (.preparePhase (demoPlan "e1"))] = some s ∧
    s.react (.call (.preparePhase refusedPlan)) = some (some (.error e), s') ∧
    s'.worker.state ≠ s.worker.state ∧
    s'.step (.call (.startPhase (.int 120))) = some s'' ∧ ∃ t ∈ s''.tasks, t.plan = none := by
  have hsome : (run System.step { worker := demoWorker, nowUs := 100 }
      [.call .prepareDisabled, .call (.preparePhase (demoPlan "e1"))]).any (fun s =>
        (s.react (.call (.preparePhase refusedPlan))).any fun r =>
          r.1.any (fun x => x.isOk == false) &&
            (decide (shownRun r.2.worker ≠ shownRun s.worker) &&
              (r.2.step (.call (.startPhase (.int 120)))).any fun s'' =>
                s''.tasks.any fun t => t.plan.isNone)) = true := by
    decide +kernel
  obtain ⟨s, hrun, he⟩ := (Option.any_eq_true _ _).1 hsome
  obtain ⟨⟨reply, s'⟩, hreact, he⟩ := (Option.any_eq_true _ _).1 he
  rw [Bool.and_eq_true, Bool.and_eq_true, decide_eq_true_iff] at he
  obtain ⟨herror, hne, hstart⟩ := he
  obtain ⟨x, hx, herror⟩ := (Option.any_eq_true _ _).1 herror
  obtain rfl : reply = some x := hx
  obtain ⟨e, rfl⟩ := exists_of_isOk_eq_false (eq_of_beq herror)
  obtain ⟨s'', hs, hany⟩ := (Option.any_eq_true _ _).1 hstart
  obtain ⟨t, ht, hnone⟩ := List.any_eq_true.1 hany
  refine ⟨s, s', s'', e, hrun, hreact, fun hsame => hne ?_, hs, t, ht,
    Option.isNone_iff_eq_none.1 hnone⟩
  show shownRun s'.worker = shownRun s.worker
  unfold shownRun
  rw [hsame]

end Demo

end RemoteRobot.Worker
