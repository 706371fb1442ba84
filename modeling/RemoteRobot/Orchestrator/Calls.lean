import RemoteRobot.Orchestrator.Runs

/-!
# The calls of a run

Every call a run makes or is about to make goes to a participant, carries the command of its
fan-out and, for `prepare_phase`, a plan of the phase.  A fan-out has one call per worker.
-/

namespace RemoteRobot

open Py Except

variable {F : Type}

/-! ## Members of a fan-out -/

theorem mem_setStatus {w : Str} {status : CallStatus F} {calls : List (Call F)} {c : Call F}
    (h : c ∈ setStatus w status calls) :
    ∃ c₀ ∈ calls, c₀.worker = c.worker ∧ c₀.command = c.command ∧
      (c₀.worker ≠ w ∧ c = c₀ ∨ c₀.worker = w ∧ c.status = status) := by
  obtain ⟨c₀, hc₀, rfl⟩ := List.mem_map.1 h
  refine ⟨c₀, hc₀, ?_⟩
  by_cases hw : c₀.worker = w
  · rw [if_pos hw]
    exact ⟨rfl, rfl, .inr ⟨hw, rfl⟩⟩
  · rw [if_neg hw]
    exact ⟨rfl, rfl, .inl ⟨hw, rfl⟩⟩

theorem mem_cancel {calls : List (Call F)} {c : Call F} (h : c ∈ calls.map Call.cancel) :
    ∃ c₀ ∈ calls, c₀.worker = c.worker ∧ c₀.command = c.command ∧
      (c = c₀ ∨ c₀.status = .created) := by
  obtain ⟨⟨w, command, status⟩, hc₀, rfl⟩ := List.mem_map.1 h
  refine ⟨_, hc₀, ?_⟩
  cases status with
  | created => exact ⟨rfl, rfl, .inr rfl⟩
  | _ => exact ⟨rfl, rfl, .inl rfl⟩

theorem mem_prepareCalls {k : ℕ} {plans : List (Str × PhasePlan F)} {c : Call F} :
    c ∈ Task.prepareCalls k plans ↔
      ∃ p ∈ plans, c = ⟨p.1, .preparePhase k p.2, .created⟩ := by
  unfold Task.prepareCalls
  simp only [List.mem_flatMap, mem_sortedSet, List.mem_map, List.mem_filter, decide_eq_true_eq]
  constructor
  · rintro ⟨w, -, p, ⟨hp, rfl⟩, rfl⟩
    exact ⟨p, hp, rfl⟩
  · rintro ⟨p, hp, rfl⟩
    exact ⟨p.1, ⟨p, hp, rfl⟩, p, ⟨hp, rfl⟩, rfl⟩

/-- The command of a fan-out. -/
def Fan.Issues : Fan → Command F → Prop
  | .disable, .prepareDisabled => True
  | .prepare k, .preparePhase k' _ => k' = k
  | .start k startAtUs, .startPhase k' startAtUs' => k' = k ∧ startAtUs' = startAtUs
  | .stop _, .stop _ => True
  | _, _ => False

theorem workers_setStatus (w : Str) (status : CallStatus F) (calls : List (Call F)) :
    (setStatus w status calls).map Call.worker = calls.map Call.worker := by
  unfold setStatus
  rw [List.map_map]
  refine List.map_congr_left fun c _ => ?_
  show (if c.worker = w then { c with status := status } else c).worker = c.worker
  split_ifs <;> rfl

theorem workers_setWaitStatus (w : Str) (status : WaitStatus F) (waits : List (Wait F)) :
    (setWaitStatus w status waits).map Wait.worker = waits.map Wait.worker := by
  unfold setWaitStatus
  rw [List.map_map]
  refine List.map_congr_left fun x _ => ?_
  show (if x.worker = w then { x with status := status } else x).worker = x.worker
  split_ifs <;> rfl

theorem workers_cancel (calls : List (Call F)) :
    (calls.map Call.cancel).map Call.worker = calls.map Call.worker := by
  rw [List.map_map]
  refine List.map_congr_left fun c _ => ?_
  obtain ⟨w, command, status⟩ := c
  cases status <;> rfl

theorem workers_prepareCalls {k : ℕ} {plans : List (Str × PhasePlan F)}
    (h : (plans.map Prod.fst).Nodup) :
    ((Task.prepareCalls k plans).map Call.worker).Nodup := by
  have hcalls : ∀ w, ((plans.filter fun p => p.1 = w).map fun p =>
      (⟨w, .preparePhase k p.2, .created⟩ : Call F)).map Call.worker =
        (plans.filter fun p => p.1 = w).map Prod.fst := by
    intro w
    rw [List.map_map]
    refine List.map_congr_left fun p hp => ?_
    exact (of_decide_eq_true (List.mem_filter.1 hp).2).symm
  unfold Task.prepareCalls
  rw [List.map_flatMap, List.nodup_flatMap]
  refine ⟨fun w _ => ?_, (nodup_sortedSet _).imp fun {w w'} hne => ?_⟩
  · rw [hcalls]
    exact h.sublist (List.filter_sublist.map _)
  · rw [Function.onFun_apply, hcalls, hcalls]
    intro x hx hx'
    obtain ⟨p, hp, rfl⟩ := List.mem_map.1 hx
    obtain ⟨p', hp', heq⟩ := List.mem_map.1 hx'
    have h₁ := of_decide_eq_true (List.mem_filter.1 hp).2
    have h₂ := of_decide_eq_true (List.mem_filter.1 hp').2
    exact hne (h₁.symm.trans (heq.symm.trans h₂))

section Runs

variable [PyText F]

/-- A command the run may send to the worker. -/
def Run.Issues (r : Run F) (w : Str) : Command F → Prop
  | .preparePhase k plan => w ∈ r.participants ∧ ∃ phase plans, r.phases[k]? = some phase ∧
      workerPhasePlans r.runId r.program k phase = .ok plans ∧ (w, plan) ∈ plans
  | _ => w ∈ r.participants

theorem Run.Issues.participant {r : Run F} {w : Str} {command : Command F}
    (h : r.Issues w command) : w ∈ r.participants := by
  cases command with
  | preparePhase k plan => exact h.1
  | _ => exact h

/-- Every call the run made or is about to make is one it may issue. -/
structure Task.CallsOk (t : Task F) : Prop where
  participants : t.participants.Nodup
  sent : ∀ w command, .sent w command ∈ t.history → t.toRun.Issues w command
  calls : ∀ fan calls cancelled, t.pc = .fanOut fan calls cancelled →
    (calls.map Call.worker).Nodup ∧
      ∀ c ∈ calls, t.toRun.Issues c.worker c.command ∧ fan.Issues c.command

/-- A fan-out with one call for each of some distinct workers. -/
theorem Task.CallsOk.fanOut {t t' : Task F} (h : t.CallsOk) (hrun : t'.toRun = t.toRun)
    (hsent : ∀ w command, .sent w command ∈ t'.history → t.toRun.Issues w command) {fan : Fan}
    {calls : List (Call F)} {cancelled : Bool} (hpc : t'.pc = .fanOut fan calls cancelled)
    (hnd : (calls.map Call.worker).Nodup)
    (hcalls : ∀ c ∈ calls, t.toRun.Issues c.worker c.command ∧ fan.Issues c.command) :
    t'.CallsOk := by
  refine ⟨?_, ?_, ?_⟩
  · rw [hrun]
    exact h.participants
  · rw [hrun]
    exact hsent
  · intro fan' calls' cancelled' hpc'
    rw [hpc] at hpc'
    cases hpc'
    rw [hrun]
    exact ⟨hnd, hcalls⟩

theorem Task.CallsOk.noFanOut {t t' : Task F} (h : t.CallsOk) (hrun : t'.toRun = t.toRun)
    (hsent : ∀ w command, .sent w command ∈ t'.history → t.toRun.Issues w command)
    (hpc : ∀ fan calls cancelled, t'.pc ≠ .fanOut fan calls cancelled) : t'.CallsOk := by
  refine ⟨?_, ?_, fun fan calls cancelled h' => absurd h' (hpc fan calls cancelled)⟩
  · rw [hrun]
    exact h.participants
  · rw [hrun]
    exact hsent

theorem Task.CallsOk.stopAll {t t' : Task F} (h : t.CallsOk) (hrun : t'.toRun = t.toRun)
    (hhist : t'.history = t.history) (failure : Option Failure) : (t'.stopAll failure).CallsOk := by
  have hpart : t'.participants = t.participants := by rw [hrun]
  refine h.fanOut hrun (hhist ▸ h.sent) rfl ?_ ?_
  · rw [List.map_map, show (Call.worker ∘ fun w => _) = id from rfl, List.map_id, hpart]
    exact h.participants
  · intro c hc
    obtain ⟨w, hw, rfl⟩ := List.mem_map.1 hc
    rw [hpart] at hw
    exact ⟨hw, trivial⟩

theorem Task.CallsOk.resumed {t t' : Task F} (h : t.CallsOk) (hr : Task.Resumed t t') :
    t'.CallsOk := by
  cases hr with
  | fail => refine h.stopAll ?_ ?_ _ <;> rfl
  | complete => exact h.stopAll rfl rfl _
  | prepare hbefore hphase hplans hq hpart =>
    refine h.fanOut rfl h.sent rfl (workers_prepareCalls (nodup_plans hplans)) ?_
    intro c hc
    obtain ⟨p, hp, rfl⟩ := mem_prepareCalls.1 hc
    exact ⟨⟨hpart p hp, _, _, hphase, hplans, hp⟩, rfl⟩
  | start hpc hret =>
    obtain ⟨hnd, hcalls⟩ := h.calls _ _ _ hpc
    refine h.fanOut rfl h.sent rfl ?_ ?_
    · rw [List.map_map]
      exact hnd
    · intro c hc
      obtain ⟨c₀, hc₀, rfl⟩ := List.mem_map.1 hc
      exact ⟨(hcalls c₀ hc₀).1.participant, rfl, rfl⟩
  | awaitStarted | awaitCompleted | drain | completed | failed => exact h.noFanOut rfl h.sent nofun

theorem Task.CallsOk.setStatus {t : Task F} (h : t.CallsOk) {fan : Fan} {calls : List (Call F)}
    {cancelled : Bool} (hpc : t.pc = .fanOut fan calls cancelled) (w : Str) (status : CallStatus F)
    {o : Obs F} (ho : ∀ w' command, o = .sent w' command → t.toRun.Issues w' command) :
    Task.CallsOk { t with
      pc := .fanOut fan (RemoteRobot.setStatus w status calls) cancelled
      history := t.history ++ [o] } := by
  obtain ⟨hnd, hcalls⟩ := h.calls _ _ _ hpc
  refine h.fanOut rfl ?_ rfl ?_ ?_
  · intro w' command hmem
    rcases List.mem_append.1 hmem with hmem | hmem
    · exact h.sent w' command hmem
    · exact ho w' command (List.mem_singleton.1 hmem).symm
  · rw [workers_setStatus]
    exact hnd
  · intro c hc
    obtain ⟨c₀, hc₀, hw, hcommand, -⟩ := mem_setStatus hc
    rw [← hw, ← hcommand]
    exact hcalls c₀ hc₀

variable [PyFloat F]

theorem Task.CallsOk.move {t t' : Task F} {label : Task.Label F} (h : t.CallsOk)
    (hm : Task.Move t label t') : t'.CallsOk := by
  cases hm with
  | resumed hr => exact h.resumed hr
  | sent hpc hcall =>
    refine h.setStatus hpc _ _ fun w command ho => ?_
    cases ho
    exact ((h.calls _ _ _ hpc).2 _ hcall).1
  | finished hpc hcall => exact h.setStatus hpc _ _ nofun
  | cancelCalls hpc =>
    obtain ⟨hnd, hcalls⟩ := h.calls _ _ _ hpc
    refine h.fanOut rfl h.sent rfl ?_ ?_
    · rw [workers_cancel]
      exact hnd
    · intro c hc
      obtain ⟨c₀, hc₀, hw, hcommand, -⟩ := mem_cancel hc
      rw [← hw, ← hcommand]
      exact hcalls c₀ hc₀
  | delivered hpc hwait =>
    refine h.noFanOut rfl ?_ nofun
    intro w command hmem
    rcases List.mem_append.1 hmem with hmem | hmem
    · exact h.sent w command hmem
    · cases List.mem_singleton.1 hmem
  | waitFailed | cancelWaits | drained => exact h.noFanOut rfl h.sent nofun

variable [Cbor F] [Sha256] {cfg : Setup F}

theorem Task.Opened.callsOk {t : Task F} (h : t.Opened cfg) : t.CallsOk := by
  have hnd : t.participants.Nodup := by
    have := h.checked.participants
    unfold participantWorkerIds at this
    simp only [bind_eq_ok] at this
    obtain ⟨_, _, _, _, hids⟩ := this
    rw [← Except.ok.inj hids]
    exact nodup_sortedSet _
  refine ⟨hnd, ?_, ?_⟩
  · rw [h.history]
    intro w command hmem
    cases hmem
  · intro fan calls cancelled hpc
    rw [h.pc] at hpc
    cases hpc
    refine ⟨?_, ?_⟩
    · rw [List.map_map, show (Call.worker ∘ fun w => _) = id from rfl, List.map_id]
      exact hnd
    · intro c hc
      obtain ⟨w, hw, rfl⟩ := List.mem_map.1 hc
      exact ⟨hw, trivial⟩

theorem System.callsOk {s₀ s : System F} (h₀ : s₀.Initial)
    (h : Transition.Reachable (System.step cfg) s₀ s) {runId : Str} {t : Task F}
    (ht : s.tasks.get runId = some t) : t.CallsOk :=
  System.tasks_invariant (fun _ ho => ho.callsOk) (fun _ _ _ hP hm => hP.move hm) h₀ h ht

/-! ## The workers of a phase -/

omit [Cbor F] [Sha256] [PyFloat F]

/-- These are the workers of phase `k`, one call of `prepare_phase` each, and this is the ID of its
plans. -/
def Run.PhaseWorkers (r : Run F) (k : ℕ) (executionId : Option Str) (workers : List Str) : Prop :=
  ∃ phase plans, r.phases[k]? = some phase ∧
    workerPhasePlans r.runId r.program k phase = .ok plans ∧
    (∃ q ∈ plans, executionId = some q.2.phaseExecutionId) ∧
    workers = (Task.prepareCalls k plans).map Call.worker

/-- From the preparation of a phase to its completion the run deals with the workers of the phase,
in the same order. -/
def Task.AtPhase (t : Task F) : Prop :=
  match t.pc with
  | .fanOut (.prepare k) calls _ | .fanOut (.start k _) calls _ =>
    t.PhaseWorkers k t.currentPhaseExecutionId (calls.map Call.worker)
  | .waiting k _ _ waits => t.PhaseWorkers k t.currentPhaseExecutionId (waits.map Wait.worker)
  | _ => True

theorem Task.AtPhase.waiting {t : Task F} (h : t.AtPhase) {k startAtUs : ℕ} {stage : WaitStage}
    {waits : List (Wait F)} (hpc : t.pc = .waiting k startAtUs stage waits) :
    t.PhaseWorkers k t.currentPhaseExecutionId (waits.map Wait.worker) := by
  unfold AtPhase at h
  rw [hpc] at h
  exact h

theorem Task.AtPhase.fanOut {t t' : Task F} (h : t.AtPhase) {fan : Fan} {calls calls' : List (Call F)}
    {cancelled cancelled' : Bool} (hpc : t.pc = .fanOut fan calls cancelled)
    (hpc' : t'.pc = .fanOut fan calls' cancelled') (hrun : t'.toRun = t.toRun)
    (hid : t'.currentPhaseExecutionId = t.currentPhaseExecutionId)
    (hw : calls'.map Call.worker = calls.map Call.worker) : t'.AtPhase := by
  unfold AtPhase at h ⊢
  rw [hpc] at h
  rw [hpc', hrun, hid]
  cases fan with
  | disable | stop => trivial
  | prepare k | start k =>
    simp only at h ⊢
    rw [hw]
    exact h

theorem Task.AtPhase.resumed {t t' : Task F} (h : t.AtPhase) (hr : Task.Resumed t t') :
    t'.AtPhase := by
  cases hr with
  | fail | complete | drain | completed | failed => trivial
  | prepare hbefore hphase hplans hq hpart =>
    exact ⟨_, _, hphase, hplans, ⟨_, hq, rfl⟩, rfl⟩
  | start hpc | awaitStarted hpc =>
    unfold AtPhase at h ⊢
    rw [hpc] at h
    simpa only [Task.waitAll, List.map_map, Function.comp_def, List.map_id'] using h
  | awaitCompleted hpc =>
    have := h.waiting hpc
    unfold AtPhase
    simpa only [Task.waitAll, List.map_map, Function.comp_def, List.map_id'] using this

theorem Task.AtPhase.move [PyFloat F] {t t' : Task F} {label : Task.Label F} (h : t.AtPhase)
    (hm : Task.Move t label t') : t'.AtPhase := by
  cases hm with
  | resumed hr => exact h.resumed hr
  | sent hpc | finished hpc => exact h.fanOut hpc rfl rfl rfl (workers_setStatus ..)
  | cancelCalls hpc => exact h.fanOut hpc rfl rfl rfl (workers_cancel _)
  | delivered hpc | waitFailed hpc =>
    have := h.waiting hpc
    unfold AtPhase
    simpa only [workers_setWaitStatus] using this
  | cancelWaits | drained => trivial

theorem Task.Opened.atPhase [Cbor F] [Sha256] [PyFloat F] {cfg : Setup F} {t : Task F}
    (h : t.Opened cfg) : t.AtPhase := by
  unfold Task.AtPhase
  rw [h.pc]
  trivial

theorem System.atPhase [Cbor F] [Sha256] [PyFloat F] {cfg : Setup F} {s₀ s : System F}
    (h₀ : s₀.Initial) (h : Transition.Reachable (System.step cfg) s₀ s) {runId : Str} {t : Task F}
    (ht : s.tasks.get runId = some t) : t.AtPhase :=
  System.tasks_invariant (fun _ ho => ho.atPhase) (fun _ _ _ hP hm => hP.move hm) h₀ h ht

end Runs

end RemoteRobot
