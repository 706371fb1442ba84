import RemoteRobot.Worker.Atomic

/-!
# The queue of a worker

The backlog of a worker counts the events in its queue and those that the phases underway can still
put there.  A phase task only pays off the backlog, so that the calls alone make it grow: by one
event each, and by two where a phase is started.  While the backlog is within the limit no phase
event is lost.
-/

namespace RemoteRobot.Worker

open Py Except

variable {F : Type}

/-! ## The backlog -/

/-- The events the task can still put in the queue. -/
def PhaseTask.debt (t : PhaseTask F) : ℕ :=
  if t.cancelled then 0
  else match t.stage with
    | .created | .sleeping _ => 2
    | .working _ _ => 1
    | .done => 0

namespace System

def debt (s : System F) : ℕ := (s.tasks.map PhaseTask.debt).sum

def backlog (s : System F) : ℕ := s.worker.events.length + s.debt

/-- The queue can take `n` events more than the phases underway can put there. -/
def Room (s : System F) (n : ℕ) : Prop := s.backlog + n ≤ s.worker.eventLimit

instance (s : System F) (n : ℕ) : Decidable (s.Room n) := by
  unfold Room
  infer_instance

/-- A phase can run only in the task the worker holds, and none while a call waits. -/
structure Sole (s : System F) : Prop where
  live : ∀ i t, s.tasks[i]? = some t → t.debt ≠ 0 →
    s.worker.phaseTask = some i ∧ s.worker.status.isActive = true
  waiting : s.waiting ≠ [] → s.debt = 0

theorem Room.mono {s : System F} {m n : ℕ} (h : s.Room n) (hle : m ≤ n) : s.Room m :=
  (Nat.add_le_add_left hle _).trans h

end System

section Debt

variable {s s' : System F} {i : ℕ} {t : PhaseTask F}

theorem debt_done (t : PhaseTask F) : ({ t with stage := .done } : PhaseTask F).debt = 0 := by
  unfold PhaseTask.debt
  split_ifs <;> rfl

theorem debt_eq_zero_iff :
    s.debt = 0 ↔ ∀ (i : ℕ) (t : PhaseTask F), s.tasks[i]? = some t → t.debt = 0 := by
  unfold System.debt
  rw [List.sum_eq_zero_iff_forall_eq_nat]
  constructor
  · exact fun h i t ht => h _ (List.mem_map_of_mem (List.mem_of_getElem? ht))
  · intro h n hn
    obtain ⟨t, ht, rfl⟩ := List.mem_map.1 hn
    obtain ⟨i, hi⟩ := List.mem_iff_getElem?.1 ht
    exact h i t hi

theorem sum_modify {xs : List (PhaseTask F)} {f : PhaseTask F → PhaseTask F}
    (ht : xs[i]? = some t) :
    ((xs.modify i f).map PhaseTask.debt).sum + t.debt =
      (xs.map PhaseTask.debt).sum + (f t).debt := by
  induction xs generalizing i with
  | nil => cases ht
  | cons x xs ih =>
    cases i with
    | zero =>
      obtain rfl := Option.some.inj ht
      simp only [List.modify_zero_cons, List.map_cons, List.sum_cons]
      omega
    | succ i =>
      have := ih ht
      simp only [List.modify_succ_cons, List.map_cons, List.sum_cons]
      omega

theorem le_debt (ht : s.tasks[i]? = some t) : t.debt ≤ s.debt := by
  have hsum := sum_modify (f := fun u => { u with stage := .done }) ht
  have hdone : ({ t with stage := .done } : PhaseTask F).debt = 0 := debt_done t
  unfold System.debt
  omega

/-- No phase is underway where none is active. -/
theorem System.Sole.debt_eq_zero (h : s.Sole) (hidle : s.worker.status.isActive = false) :
    s.debt = 0 := by
  refine debt_eq_zero_iff.2 fun i t ht => ?_
  by_contra hlive
  rw [(h.live i t ht hlive).2] at hidle
  cases hidle

end Debt

/-! ## The events -/

/-- The run of the plan the worker holds. -/
def InMemoryWorker.planRun [PyText F] (w : InMemoryWorker F) : Str :=
  ((lookup (py "run_id") (w.phasePlan.getD [])).getD (.str [])).toStr

/-- The event says that a phase of the run completed. -/
def Completes (runId : Str) (e : Dict F) : Prop :=
  lookup (py "type") e = some (.str (py "phase_completed")) ∧
    lookup (py "run_id") e = some (.str runId)

/-- What a call puts in the queue. -/
def Notes (es : List (Dict F)) : Prop := es = [] ∨ ∃ e, es = [e] ∧ ∀ r, ¬Completes r e

namespace System

variable [PyText F]

/-- The worker has not completed a phase of the run, and none is underway. -/
structure Unmarked (runId : Str) (s : System F) : Prop where
  events : ∀ e ∈ s.worker.events, ¬Completes runId e
  plan : s.debt ≠ 0 → s.worker.planRun ≠ runId

/-- The completion of a phase of the run is not in the queue, or it is there in the last place and
no phase is underway. -/
def Marked (runId : Str) (s : System F) : Prop :=
  (∀ e ∈ s.worker.events, ¬Completes runId e) ∨
    s.debt = 0 ∧ ∀ e ∈ s.worker.events.dropLast, ¬Completes runId e

/-- The worker has completed phases of these runs alone. -/
structure Known (runIds : List Str) (s : System F) : Prop where
  events : ∀ e ∈ s.worker.events, ∀ r, Completes r e → r = [] ∨ r ∈ runIds
  plan : s.worker.planRun = [] ∨ s.worker.planRun ∈ runIds

/-- The queue is empty and stays so. -/
structure Settled (s : System F) : Prop where
  events : s.worker.events = []
  debt : s.debt = 0

/-- What the steps of the phase tasks keep. -/
structure Later (s s' : System F) : Prop where
  backlog : s'.backlog ≤ s.backlog
  limit : s'.worker.eventLimit = s.worker.eventLimit
  waiting : s'.waiting = s.waiting
  sole : s.Sole → s'.Sole
  known : ∀ runIds, s.Known runIds → s'.Known runIds
  unmarked : ∀ runId, s.Unmarked runId → s'.Unmarked runId
  marked : ∀ runId, s.Sole → s.Marked runId → s'.Marked runId
  idle : s.debt = 0 → s'.debt = 0 ∧ s'.worker.events = s.worker.events

/-- A call puts at most one event in the queue, none about a phase that completed. -/
structure Noted (s s' : System F) : Prop where
  tasks : s'.tasks = s.tasks
  limit : s'.worker.eventLimit = s.worker.eventLimit
  events : ∃ es, Notes es ∧ s'.worker.events = s.worker.events ++ es

end System

section Copies

variable [PyFloat F] [PyText F] [Cbor F] [PlainCbor F]

omit [PyText F] in
/-- An event of another type. -/
theorem not_completes (type : String) {fields : List (String × Val F)} {copy : Dict F}
    (hne : type ≠ "phase_completed") (hv : ∀ p ∈ fields, p.2.wellFormed = true)
    (hnd : ("type" :: fields.map Prod.fst).Nodup)
    (h : dataCopy (dictOf (("type", .str (py type)) :: fields)) = .ok copy) (r : Str) :
    ¬Completes r copy := by
  rintro ⟨htype, -⟩
  have hnd' : ((("type", (.str (py type) : Val F)) :: fields).map Prod.fst).Nodup := hnd
  have hlookup : lookup (py "type") copy = some (.str (py type)) := by
    refine lookup_of_dataCopy (wellFormed_dictOf hnd' ?_) hnd' h ?_
    · exact List.forall_mem_cons.2 ⟨rfl, hv⟩
    · rw [entries_cons, lookup_cons_str, if_pos rfl]
  rw [hlookup] at htype
  exact hne (py_inj.1 (Val.str.inj (Option.some.inj htype)))

omit [PyText F] in
theorem emitResult_notes (w : InMemoryWorker F) (type : String) (result : List (String × Val F))
    (hne : type ≠ "phase_completed") (hv : ∀ p ∈ result, p.2.wellFormed = true)
    (hnd : ("type" :: result.map Prod.fst).Nodup) :
    ∃ es, Notes es ∧ (w.emitResult type result).2 = { w with events := w.events ++ es } := by
  unfold InMemoryWorker.emitResult
  obtain ⟨e, h⟩ | ⟨copy, hcopy, -, h⟩ := w.emit_cases (("type", .str (py type)) :: result)
  · rw [h]
    exact ⟨[], .inl rfl, by simp⟩
  · rw [h]
    exact ⟨[copy], .inr ⟨copy, rfl, not_completes type hne hv hnd hcopy⟩, rfl⟩

end Copies

/-! ## Calls -/

section Calls

variable {s s' : System F} {r : Str} {n : ℕ}

theorem System.sole_of_debt (h : s.debt = 0) : s.Sole :=
  ⟨fun i t ht hlive => absurd (debt_eq_zero_iff.1 h i t ht) hlive, fun _ => h⟩

namespace System.Noted

theorem refl (s : System F) : Noted s s := ⟨rfl, rfl, [], .inl rfl, (List.append_nil _).symm⟩

theorem debt (h : Noted s s') : s'.debt = s.debt := by
  unfold System.debt
  rw [h.tasks]

theorem room (h : Noted s s') (hroom : s.Room (n + 1)) : s'.Room n := by
  obtain ⟨es, hes, he⟩ := h.events
  have hlen : es.length ≤ 1 := by
    obtain rfl | ⟨e, rfl, -⟩ := hes
    · exact Nat.zero_le _
    · exact le_refl _
  unfold Room backlog at hroom ⊢
  rw [h.debt, h.limit, he, List.length_append]
  omega

theorem fresh (h : Noted s s') (hs : ∀ e ∈ s.worker.events, ¬Completes r e) :
    ∀ e ∈ s'.worker.events, ¬Completes r e := by
  obtain ⟨es, hes, he⟩ := h.events
  rw [he, List.forall_mem_append]
  refine ⟨hs, ?_⟩
  obtain rfl | ⟨e, rfl, hne⟩ := hes
  · nofun
  · exact List.forall_mem_singleton.2 (hne r)

theorem known [PyText F] (h : Noted s s') {runIds : List Str} (hs : s.Known runIds)
    (hplan : s'.worker.planRun = [] ∨ s'.worker.planRun ∈ runIds) : s'.Known runIds := by
  obtain ⟨es, hes, he⟩ := h.events
  refine ⟨?_, hplan⟩
  rw [he, List.forall_mem_append]
  refine ⟨hs.events, ?_⟩
  obtain rfl | ⟨e, rfl, hne⟩ := hes
  · nofun
  · exact List.forall_mem_singleton.2 fun r hr => absurd hr (hne r)

end System.Noted

theorem System.Settled.room (h : s.Settled) (hn : n ≤ s.worker.eventLimit) : s.Room n := by
  unfold Room backlog
  rw [h.events, h.debt, List.length_nil]
  omega

section Queue

variable [PyText F]

theorem System.Settled.unmarked (h : s.Settled) (r : Str) : s.Unmarked r := by
  refine ⟨?_, fun hlive => absurd h.debt hlive⟩
  rw [h.events]
  nofun

theorem System.Unmarked.noted (hu : s.Unmarked r) (h : s.Noted s') (hdebt : s.debt = 0) :
    s'.Unmarked r :=
  ⟨h.fresh hu.events, fun hlive => absurd (h.debt.trans hdebt) hlive⟩

theorem System.Known.mono {runIds runIds' : List Str} (h : s.Known runIds)
    (hsub : runIds ⊆ runIds') : s.Known runIds' := by
  refine ⟨fun e he r hr => ?_, ?_⟩
  · exact (h.events e he r hr).imp id fun hmem => hsub hmem
  · exact h.plan.imp id fun hmem => hsub hmem

omit [PyText F] in
/-- The waiter of a phase that completed takes the last event there is. -/
theorem System.Marked.next {e : Dict F} {es : List (Dict F)} (hm : s.Marked r)
    (hevents : s.worker.events = e :: es) :
    ({ s with worker := { s.worker with events := es } } : System F).Marked r ∧
      (Completes r e → ({ s with worker := { s.worker with events := es } } : System F).Settled) := by
  unfold System.Marked at hm
  rw [hevents] at hm
  obtain hnone | ⟨hdebt, hlast⟩ := hm
  · refine ⟨.inl fun e' he' => hnone e' (List.mem_cons_of_mem _ he'), fun hc => ?_⟩
    exact absurd hc (hnone e List.mem_cons_self)
  · cases es with
    | nil => exact ⟨.inr ⟨hdebt, nofun⟩, fun _ => ⟨rfl, hdebt⟩⟩
    | cons e' es =>
      rw [List.dropLast_cons_cons] at hlast
      refine ⟨.inr ⟨hdebt, fun e'' he'' => hlast e'' (List.mem_cons_of_mem _ he'')⟩, fun hc => ?_⟩
      exact absurd hc (hlast e List.mem_cons_self)

theorem System.Later.room (h : s.Later s') (hr : s.Room n) : s'.Room n := by
  have := h.backlog
  unfold Room at hr ⊢
  rw [h.limit]
  omega

end Queue

variable [PyFloat F] [PyText F] [Cbor F] [PlainCbor F]

/-- `prepare_disabled` is refused, or no phase is underway and the plan is dropped. -/
theorem call_prepareDisabled (h : s.Sole) :
    (∃ e, s.call .prepareDisabled = (some (.error e), s)) ∨
    (s.debt = 0 ∧ s.Noted (s.call .prepareDisabled).2 ∧
      (s.call .prepareDisabled).2.waiting = s.waiting ∧
      (s.call .prepareDisabled).2.worker.planRun = []) := by
  rw [System.call, System.answer]
  unfold InMemoryWorker.prepareDisabled
  by_cases hc : s.worker.status = .closed
  · rw [if_pos hc]
    exact .inl ⟨_, rfl⟩
  rw [if_neg hc]
  by_cases ha : s.worker.status = .scheduled ∨ s.worker.status = .running
  · rw [if_pos ha]
    exact .inl ⟨_, rfl⟩
  rw [if_neg ha]
  have hidle : s.worker.status.isActive = false := by
    rw [← Bool.not_eq_true, Status.isActive_iff]
    exact ha
  obtain ⟨es, hes, he⟩ := emitResult_notes { s.worker with status := .disabled, phasePlan := none }
    "worker_disabled" s.worker.disabledResult (by decide)
    (by simp [InMemoryWorker.disabledResult, Status.toVal, Val.wellFormed])
    (by simp [InMemoryWorker.disabledResult])
  refine .inr ⟨h.debt_eq_zero hidle, ?_, rfl, ?_⟩
  · rw [he]
    exact ⟨rfl, rfl, es, hes, rfl⟩
  · rw [he]
    rfl

/-- `prepare_phase` is refused, or no phase is underway and the plan is taken or dropped. -/
theorem call_preparePhase (h : s.Sole) (phasePlan : Val F) :
    (∃ e, s.call (.preparePhase phasePlan) = (some (.error e), s)) ∨
    (s.debt = 0 ∧ s.Noted (s.call (.preparePhase phasePlan)).2 ∧
      (s.call (.preparePhase phasePlan)).2.waiting = s.waiting ∧
      ((s.call (.preparePhase phasePlan)).2.worker.planRun = [] ∨
        ∃ plan, dataCopy phasePlan = .ok plan ∧ lookup (py "run_id") plan =
          some (.str (s.call (.preparePhase phasePlan)).2.worker.planRun))) := by
  rw [System.call]
  obtain ⟨e, h'⟩ | ⟨hidle, plan, hcopy, ⟨e, -, h'⟩ | ⟨hcheck, h'⟩⟩ :=
    s.worker.preparePhase_cases phasePlan
  · rw [h']
    exact .inl ⟨e, rfl⟩
  · rw [h']
    exact .inr ⟨h.debt_eq_zero hidle, ⟨rfl, rfl, [], .inl rfl, (List.append_nil _).symm⟩, rfl,
      .inl rfl⟩
  obtain ⟨es, hes, he⟩ := emitResult_notes (s.worker.withPlan plan) "phase_prepared"
    (s.worker.withPlan plan).preparedResult (by decide)
    (by simp [InMemoryWorker.preparedResult, InMemoryWorker.phaseIdentity, identityFields,
      Status.toVal, Val.wellFormed])
    (by simp [InMemoryWorker.preparedResult, InMemoryWorker.phaseIdentity, identityFields])
  obtain ⟨x, hx⟩ := lookup_of_checkPlan hcheck (k := "run_id") (by decide)
  have hrun : (s.worker.withPlan plan).planRun = x := by
    unfold InMemoryWorker.planRun InMemoryWorker.withPlan
    simp only [Option.getD_some, hx]
    rfl
  refine .inr ⟨h.debt_eq_zero hidle, ?_⟩
  rw [h']
  cases hr : (s.worker.withPlan plan).emitResult "phase_prepared"
      (s.worker.withPlan plan).preparedResult with
  | mk r w =>
    rw [hr] at he
    obtain rfl : w = _ := he
    cases r with
    | error e => exact ⟨⟨rfl, rfl, es, hes, rfl⟩, rfl, .inr ⟨plan, hcopy, hx.trans (hrun ▸ rfl)⟩⟩
    | ok result => exact ⟨⟨rfl, rfl, es, hes, rfl⟩, rfl, .inr ⟨plan, hcopy, hx.trans (hrun ▸ rfl)⟩⟩

omit [PyFloat F] [PyText F] [Cbor F] [PlainCbor F] in
theorem System.Sole.debt_of_released (h : s.Sole) (hnone : s.worker.phaseTask = none) :
    s.debt = 0 := by
  refine debt_eq_zero_iff.2 fun i t ht => ?_
  by_contra hlive
  rw [(h.live i t ht hlive).1] at hnone
  cases hnone

omit [PlainCbor F] in
/-- `start_phase` is refused, or it starts the only phase. -/
theorem call_startPhase (h : s.Sole) (hwaiting : s.waiting = []) (deadlineUs : Val F) :
    (∃ e, s.call (.startPhase deadlineUs) = (some (.error e), s)) ∨
    (s.debt = 0 ∧ (s.call (.startPhase deadlineUs)).2.debt = 2 ∧
      (s.call (.startPhase deadlineUs)).2.worker.events = s.worker.events ∧
      (s.call (.startPhase deadlineUs)).2.worker.eventLimit = s.worker.eventLimit ∧
      (s.call (.startPhase deadlineUs)).2.waiting = s.waiting ∧
      (s.call (.startPhase deadlineUs)).2.worker.planRun = s.worker.planRun ∧
      (s.call (.startPhase deadlineUs)).2.Sole) := by
  rw [System.call]
  obtain ⟨e, h'⟩ | ⟨n, rfl, hn, hprepared, h'⟩ := s.worker.startPhase_cases deadlineUs s.tasks.length
  · rw [h']
    exact .inl ⟨e, rfl⟩
  have hdebt : s.debt = 0 := h.debt_eq_zero (by rw [hprepared]; rfl)
  rw [h']
  refine .inr ⟨hdebt, ?_, rfl, rfl, rfl, rfl,
    ⟨fun i t ht hlive => ?_, fun hne => absurd hwaiting hne⟩⟩
  · unfold System.debt at hdebt ⊢
    simp only [List.map_append, List.sum_append, hdebt]
    rfl
  · refine ⟨?_, rfl⟩
    simp only [List.getElem?_append] at ht
    split_ifs at ht with hlt
    · exact absurd (debt_eq_zero_iff.1 hdebt i t ht) hlive
    · have hi : i - s.tasks.length < 1 := by
        by_contra hge
        rw [List.getElem?_eq_none (Nat.not_lt.1 hge)] at ht
        cases ht
      show some s.tasks.length = some i
      exact congrArg some (by omega)

/-- `stop` behind its await. -/
theorem finishStop_notes (s : System F) (faultContext : Val F) :
    s.Noted (s.finishStop faultContext).2 ∧ (s.finishStop faultContext).2.waiting = s.waiting ∧
      (s.finishStop faultContext).2.worker.planRun = s.worker.planRun := by
  unfold System.finishStop
  obtain ⟨e, h⟩ | ⟨context, hcopy, h⟩ := s.worker.stopFinish_cases faultContext
  · rw [h]
    exact ⟨.refl s, rfl, rfl⟩
  have hcontext := wellFormed_of_dataCopy hcopy
  obtain ⟨es, hes, he⟩ := emitResult_notes (s.worker.withStop context) "worker_stopped"
    ((s.worker.withStop context).stoppedResult context) (by decide)
    (by simpa [InMemoryWorker.stoppedResult, InMemoryWorker.phaseIdentity, identityFields,
      Status.toVal, Val.wellFormed] using hcontext)
    (by simp [InMemoryWorker.stoppedResult, InMemoryWorker.phaseIdentity, identityFields])
  rw [h]
  cases hr : (s.worker.withStop context).emitResult "worker_stopped"
      ((s.worker.withStop context).stoppedResult context) with
  | mk r w =>
    rw [hr] at he
    obtain rfl : w = _ := he
    cases r with
    | error e => exact ⟨⟨rfl, rfl, es, hes, rfl⟩, rfl, rfl⟩
    | ok result => exact ⟨⟨rfl, rfl, es, hes, rfl⟩, rfl, rfl⟩

/-- `stop` ends at once, or it cancels the phase underway and waits. -/
theorem call_stop (h : s.Sole) (faultContext : Val F) :
    (∃ r, (s.call (.stop faultContext)).1 = some r ∧ s.Noted (s.call (.stop faultContext)).2 ∧
      (s.call (.stop faultContext)).2.waiting = s.waiting ∧
      (s.call (.stop faultContext)).2.worker.planRun = s.worker.planRun ∧
      (s.call (.stop faultContext)).2.Sole) ∨
    (∃ i, (s.call (.stop faultContext)).1 = none ∧ (s.call (.stop faultContext)).2.debt = 0 ∧
      (s.call (.stop faultContext)).2.worker.events = s.worker.events ∧
      (s.call (.stop faultContext)).2.worker.eventLimit = s.worker.eventLimit ∧
      (s.call (.stop faultContext)).2.worker.planRun = s.worker.planRun ∧
      (s.call (.stop faultContext)).2.waiting = s.waiting ++ [Waiting.stop faultContext i]) := by
  rw [System.call]
  rcases s.worker.stopChecks faultContext with e | u
  · exact .inl ⟨_, rfl, .refl s, rfl, rfl, h⟩
  unfold System.cancelPhaseTask
  cases hheld : s.worker.phaseTask with
  | none =>
    obtain ⟨hnoted, hwaiting, hplan⟩ := finishStop_notes s faultContext
    have hsole := System.sole_of_debt (hnoted.debt.trans (h.debt_of_released hheld))
    refine .inl ?_
    simp only
    cases hr : (s.finishStop faultContext).1 with
    | some r => exact ⟨r, rfl, hnoted, hwaiting, hplan, hsole⟩
    | none =>
      unfold System.finishStop at hr
      split at hr <;> cases hr
  | some i =>
    refine .inr ⟨i, rfl, debt_eq_zero_iff.2 fun j u hu => ?_, rfl, rfl, rfl, rfl⟩
    obtain ⟨t, ht, rfl⟩ := getElem?_modify_eq_some.1 hu
    by_cases hij : i = j
    · rw [if_pos hij]
      rfl
    · rw [if_neg hij]
      by_contra hlive
      obtain ⟨hj, -⟩ := h.live j t ht hlive
      exact hij (Option.some.inj (hheld.symm.trans hj))

end Calls

/-! ## Phase tasks -/

section Tasks

variable [PyFloat F] [PyText F] [Cbor F] {s s' : System F} {i : ℕ} {t : PhaseTask F}

/-- The new events of the log are those that were put in the queue. -/
structure Reports (s s' : System F) : Prop where
  events : ∃ new, s'.log = s.log ++ new ∧
    s'.worker.events = s.worker.events ++ new.map PhaseEvent.event
  limit : s'.worker.eventLimit = s.worker.eventLimit
  waiting : s'.waiting = s.waiting

omit [PyFloat F] [PyText F] [Cbor F] in
theorem reports_leave {s₀ : System F} (h : Reports s₀ s) (i : ℕ) : Reports s₀ (s.leave i) := by
  unfold System.leave
  refine ⟨?_, ?_, h.waiting⟩ <;> simp only <;> split_ifs
  · exact h.events
  · exact h.events
  · exact h.limit
  · exact h.limit

omit [PyFloat F] [PyText F] [Cbor F] in
theorem Reports.worker (h : Reports s s') {w : InMemoryWorker F}
    (hevents : w.events = s'.worker.events) (hlimit : w.eventLimit = s'.worker.eventLimit) : Reports s { s' with worker := w } :=
  ⟨hevents ▸ h.events, hlimit.trans h.limit, h.waiting⟩

omit [PyFloat F] [PyText F] [Cbor F] in
theorem Reports.record {s₀ : System F} (h : Reports s₀ s) (i : ℕ) (kind : EventKind)
    {w : InMemoryWorker F} {copy : Dict F} (hevents : w.events = s.worker.events ++ [copy])
    (hlimit : w.eventLimit = s.worker.eventLimit) : Reports s₀ (s.record i kind w) := by
  obtain ⟨new, hlog, he⟩ := h.events
  rw [record_eq s i kind hevents]
  refine ⟨⟨new ++ [⟨i, kind, s.nowUs, copy⟩], ?_, ?_⟩, hlimit.trans h.limit, h.waiting⟩
  · simp only [hlog, List.append_assoc]
  · simp only [hevents, he, List.map_append, List.map_cons, List.map_nil, List.append_assoc]

theorem reports_finishPhase {s₀ : System F} (h : Reports s₀ s) (i : ℕ)
    (deadlineUs actualStartUs : ℤ) :
    Reports s₀ (s.finishPhase i deadlineUs actualStartUs) := by
  unfold System.finishPhase InMemoryWorker.complete
  split_ifs
  · obtain ⟨e, he⟩ | ⟨copy, -, -, he⟩ := InMemoryWorker.emit_cases
      { s.worker with status := .completed }
      (s.worker.completedEvent deadlineUs actualStartUs s.nowUs)
    · rw [he]
      have hfailed : Reports s₀ { s with worker := { s.worker with status := .completed } } :=
        h.worker rfl rfl
      exact reports_leave hfailed i
    · rw [he]
      have hrecord : Reports s₀ (s.record i .completed
          { s.worker with status := .completed, events := s.worker.events ++ [copy] }) :=
        h.record i .completed rfl rfl
      exact reports_leave hrecord i
  · exact reports_leave h i

theorem reports_enterPhase {s₀ : System F} (h : Reports s₀ s) (i : ℕ) (deadlineUs : ℤ) :
    Reports s₀ (s.enterPhase i deadlineUs) := by
  unfold System.enterPhase InMemoryWorker.startRunning
  split_ifs
  · obtain ⟨e, he⟩ | ⟨copy, -, -, he⟩ := InMemoryWorker.emit_cases
      { s.worker with status := .running } (s.worker.startedEvent deadlineUs s.nowUs)
    · rw [he]
      have hfailed : Reports s₀ { s with worker := { s.worker with status := .running } } :=
        h.worker rfl rfl
      exact reports_leave hfailed i
    · rw [he]
      have hrecord : Reports s₀ (s.record i .started
          { s.worker with status := .running, events := s.worker.events ++ [copy] }) :=
        h.record i .started rfl rfl
      simp only
      split_ifs
      · exact reports_finishPhase hrecord i deadlineUs s.nowUs
      · exact ⟨hrecord.events, hrecord.limit, hrecord.waiting⟩
  · exact reports_leave h i

theorem reports_wake (h : s.wake i t = some s') : Reports s s' := by
  have hrefl : Reports s s := ⟨⟨[], by simp, by simp⟩, rfl, rfl⟩
  unfold System.wake at h
  split at h
  · split_ifs at h <;> obtain rfl := Option.some.inj h
    · exact ⟨hrefl.events, rfl, rfl⟩
    · exact ⟨hrefl.events, rfl, rfl⟩
    · exact reports_enterPhase hrefl i _
  · split_ifs at h <;> obtain rfl := Option.some.inj h
    · exact reports_leave hrefl i
    · exact reports_enterPhase hrefl i _
  · split_ifs at h <;> obtain rfl := Option.some.inj h
    · exact reports_leave hrefl i
    · exact reports_finishPhase hrefl i _ _
  · cases h

omit [PyFloat F] [PyText F] [Cbor F] in
theorem debt_of_waiting (hc : t.cancelled = false) (hstage : t.stage.IsWaiting) : t.debt = 2 := by
  unfold PhaseTask.debt
  rw [hc, if_neg Bool.false_ne_true]
  cases hs : t.stage with
  | created | sleeping => rfl
  | working | done =>
    rw [hs] at hstage
    exact hstage.elim

omit [PyFloat F] [PyText F] [Cbor F] in
theorem debt_ne_zero (hc : t.cancelled = false) (hstage : t.stage ≠ .done) : t.debt ≠ 0 := by
  unfold PhaseTask.debt
  rw [hc, if_neg Bool.false_ne_true]
  cases hs : t.stage with
  | done => exact absurd hs hstage
  | _ => exact nofun

/-- A step of a task pays for its events out of the debt of the task. -/
theorem Woken.spends (h : Woken s i t s') : ∃ stage started new, Moved s s' i stage new ∧
    new.length + ({ t with stage } : PhaseTask F).debt ≤ t.debt ∧
    (∀ e ∈ started, Emitted s i .started e) ∧
    (new = started ∨ ∃ e, new = started ++ [e] ∧ Emitted s i .completed e ∧ stage = .done) := by
  have hdone := debt_done t
  cases h with
  | dropped hc hstage hm =>
    exact ⟨_, [], [], hm, by simp [hdone], nofun, .inl rfl⟩
  | sleeps hc hstage hm =>
    refine ⟨_, [], [], hm, ?_, nofun, .inl rfl⟩
    rw [debt_of_waiting hc (hstage ▸ trivial)]
    simp [PhaseTask.debt, hc]
  | runs e hc hstage hstatus he hm =>
    refine ⟨_, [e], [e], hm, ?_, List.forall_mem_singleton.2 he, .inl rfl⟩
    rw [debt_of_waiting hc hstage]
    simp [PhaseTask.debt, hc]
  | leaves hc hstage hm =>
    exact ⟨_, [], [], hm, by simp [hdone], nofun, .inl rfl⟩
  | startsAndLeaves e hc hstage hstatus he hm =>
    refine ⟨_, [e], [e], hm, ?_, List.forall_mem_singleton.2 he, .inl rfl⟩
    rw [debt_of_waiting hc hstage, hdone]
    simp
  | startsAndCompletes e e' hc hstage hstatus hd he he' hm =>
    refine ⟨_, [e], [e, e'], hm, ?_, List.forall_mem_singleton.2 he, .inr ⟨e', rfl, he', rfl⟩⟩
    rw [debt_of_waiting hc hstage, hdone]
    simp
  | completes e actualStartUs untilUs hc hstage hle hstatus he hm =>
    refine ⟨_, [], [e], hm, ?_, nofun, .inr ⟨e, rfl, he, rfl⟩⟩
    rw [hdone]
    simp [PhaseTask.debt, hc, hstage]

/-- The phase underway is still that of the task the worker holds. -/
theorem Woken.sole (h : Woken s i t s') (hs : s.Sole) (ht : s.tasks[i]? = some t)
    (hwaiting : s'.waiting = s.waiting) (hdebt : s'.debt ≤ s.debt) : s'.Sole := by
  have hother : ∀ {stage new}, Moved s s' i stage new →
      (t.debt = 0 → (s'.worker.phaseTask = s.worker.phaseTask ∨ Released s s' i) ∧
        s'.worker.status = s.worker.status) →
      (({ t with stage } : PhaseTask F).debt ≠ 0 →
        s'.worker.phaseTask = some i ∧ s'.worker.status.isActive = true) → s'.Sole := by
    intro stage new hm hidle hself
    refine ⟨fun j u hu hlive => ?_, fun hne => ?_⟩
    · rw [hm.tasks] at hu
      obtain ⟨v, hv, rfl⟩ := getElem?_modify_eq_some.1 hu
      by_cases hij : i = j
      · subst hij
        obtain rfl := Option.some.inj (ht.symm.trans hv)
        rw [if_pos rfl] at hlive
        exact hself hlive
      · rw [if_neg hij] at hlive
        obtain ⟨hheld, hactive⟩ := hs.live j v hv hlive
        have hzero : t.debt = 0 := by
          by_contra hne
          exact hij (Option.some.inj ((hs.live i t ht hne).1.symm.trans hheld))
        obtain ⟨htask, hstatus⟩ := hidle hzero
        rw [hstatus]
        refine ⟨?_, hactive⟩
        obtain htask | htask := htask
        · exact htask.trans hheld
        · exact (released_iff htask j).2 ⟨hheld, fun h => absurd h.symm hij⟩
    · exact Nat.le_zero.1 (hs.waiting (hwaiting ▸ hne) ▸ hdebt)
  have hdone := debt_done t
  cases h with
  | dropped hc hstage hm htask hstatus =>
    refine hother hm (fun _ => ⟨htask, hstatus⟩) fun hne => absurd ?_ hne
    simp [PhaseTask.debt, hc]
  | sleeps hc hstage hm htask hstatus =>
    refine hother hm (fun _ => ⟨.inl htask, hstatus⟩) fun _ => ?_
    have hlive : t.debt ≠ 0 := by
      rw [debt_of_waiting hc (hstage ▸ trivial)]
      exact two_ne_zero
    rw [htask, hstatus]
    exact hs.live i t ht hlive
  | runs e hc hstage hstatus he hm htask hstatus' =>
    have hdebt := debt_of_waiting hc hstage
    refine hother hm (fun hzero => by omega) fun _ => ?_
    rw [htask, hstatus']
    exact ⟨(hs.live i t ht (by omega)).1, rfl⟩
  | leaves hc hstage hm =>
    exact hother hm (fun hzero => absurd hzero (debt_ne_zero hc hstage)) fun hne => absurd hdone hne
  | startsAndLeaves e hc hstage hstatus he hm =>
    have hdebt := debt_of_waiting hc hstage
    exact hother hm (fun hzero => by omega) fun hne => absurd hdone hne
  | startsAndCompletes e e' hc hstage hstatus hd he he' hm =>
    have hdebt := debt_of_waiting hc hstage
    exact hother hm (fun hzero => by omega) fun hne => absurd hdone hne
  | completes e actualStartUs untilUs hc hstage hle hstatus he hm =>
    refine hother hm (fun hzero => absurd hzero (debt_ne_zero hc ?_)) fun hne => absurd hdone hne
    rw [hstage]
    exact nofun

variable [PlainCbor F]

theorem not_completes_of_started {e : PhaseEvent F} (h : Emitted s i .started e) (r : Str) :
    ¬Completes r e.event := by
  obtain ⟨w, deadlineUs, actualStartUs, -, hcopy⟩ := h.announces
  rw [h.kind] at hcopy
  refine not_completes "phase_started" (by decide) ?_ ?_ hcopy r
  · simp [InMemoryWorker.phaseIdentity, identityFields, Val.wellFormed, Status.toVal]
  · simp [InMemoryWorker.phaseIdentity, identityFields]

/-- A phase completes under the run of the plan. -/
theorem eq_planRun_of_completes {e : PhaseEvent F} (h : Emitted s i .completed e) {r : Str}
    (hr : Completes r e.event) : r = s.worker.planRun := by
  obtain ⟨w, deadlineUs, actualStartUs, hplan, hcopy⟩ := h.announces
  rw [h.kind] at hcopy
  have hlookup : lookup (py "run_id") e.event = some (.str s.worker.planRun) := by
    refine lookup_of_dataCopy (wellFormed_dictOf ?_ ?_) ?_ hcopy ?_
    · simp [InMemoryWorker.completedEvent, InMemoryWorker.phaseIdentity, identityFields]
    · simp [InMemoryWorker.completedEvent, InMemoryWorker.phaseIdentity, identityFields,
        Val.wellFormed, Status.toVal]
    · simp [InMemoryWorker.completedEvent, InMemoryWorker.phaseIdentity, identityFields]
    · unfold InMemoryWorker.planRun
      rw [← hplan]
      simp [InMemoryWorker.completedEvent, InMemoryWorker.phaseIdentity, identityFields]
  exact Val.str.inj (Option.some.inj (hr.2.symm.trans hlookup))

/-- A step of a task. -/
theorem later_of_woken (h : Woken s i t s') (ht : s.tasks[i]? = some t) (hreports : Reports s s') :
    s.Later s' := by
  obtain ⟨stage, started, new, hm, hspends, hstarted, hnew⟩ := h.spends
  obtain ⟨new', hlog, hevents⟩ := hreports.events
  obtain rfl : new = new' := List.append_cancel_left (hm.log.symm.trans hlog)
  have hsum := sum_modify (f := fun u => { u with stage }) ht
  have hdebt : s'.debt + t.debt = s.debt + ({ t with stage } : PhaseTask F).debt := by
    unfold System.debt
    rw [hm.tasks]
    exact hsum
  have hplan : s'.worker.planRun = s.worker.planRun := by
    unfold InMemoryWorker.planRun
    rw [hm.plan]
  have hfresh : ∀ r, ∀ e ∈ started.map PhaseEvent.event, ¬Completes r e := by
    intro r e he
    obtain ⟨e', he', rfl⟩ := List.mem_map.1 he
    exact not_completes_of_started (hstarted e' he') r
  have hruns : ∀ r, ∀ e ∈ new.map PhaseEvent.event, Completes r e →
      s.debt ≠ 0 ∧ r = s.worker.planRun := by
    intro r e he hr
    obtain rfl | ⟨e', rfl, he', rfl⟩ := hnew
    · exact absurd hr (hfresh r e he)
    · rw [List.map_append, List.mem_append, List.map_singleton, List.mem_singleton] at he
      obtain he | rfl := he
      · exact absurd hr (hfresh r e he)
      · rw [List.length_append, List.length_singleton] at hspends
        have := le_debt ht
        exact ⟨by omega, eq_planRun_of_completes he' hr⟩
  refine ⟨?_, hreports.limit, hreports.waiting,
    fun hs => h.sole hs ht hreports.waiting (by omega), fun runIds hk => ⟨?_, hplan ▸ hk.plan⟩,
    fun r hu => ⟨?_, ?_⟩, fun r hs hmarked => ?_, fun hzero => ?_⟩
  · unfold System.backlog
    rw [hevents, List.length_append, List.length_map]
    omega
  · rw [hevents, List.forall_mem_append]
    refine ⟨hk.events, fun e he r hr => ?_⟩
    rw [(hruns r e he hr).2]
    exact hk.plan
  · rw [hevents, List.forall_mem_append]
    refine ⟨hu.events, fun e he hr => ?_⟩
    obtain ⟨hlive, hrun⟩ := hruns r e he hr
    exact hu.plan hlive hrun.symm
  · intro hlive
    rw [hplan]
    exact hu.plan (by omega)
  · obtain hnone | ⟨hzero, hlast⟩ := hmarked
    · obtain rfl | ⟨e, rfl, he, rfl⟩ := hnew
      · refine .inl ?_
        rw [hevents, List.forall_mem_append]
        exact ⟨hnone, hfresh r⟩
      · -- the task was the only one underway, and it is done
        rw [List.length_append, List.length_singleton] at hspends
        obtain ⟨hheld, -⟩ := hs.live i t ht (by omega)
        refine .inr ⟨debt_eq_zero_iff.2 fun j u hu => ?_, ?_⟩
        · rw [hm.tasks] at hu
          obtain ⟨v, hv, rfl⟩ := getElem?_modify_eq_some.1 hu
          by_cases hij : i = j
          · rw [if_pos hij]
            exact debt_done v
          · rw [if_neg hij]
            by_contra hlive
            exact hij (Option.some.inj (hheld.symm.trans (hs.live j v hv hlive).1))
        · rw [hevents, List.map_append, ← List.append_assoc, List.map_singleton,
            List.dropLast_concat, List.forall_mem_append]
          exact ⟨hnone, hfresh r⟩
    · have := le_debt ht
      have hnil : new = [] := List.eq_nil_of_length_eq_zero (by omega)
      refine .inr ⟨by omega, ?_⟩
      rw [hevents, hnil, List.map_nil, List.append_nil]
      exact hlast
  · have := le_debt ht
    have hnil : new = [] := List.eq_nil_of_length_eq_zero (by omega)
    refine ⟨by omega, ?_⟩
    rw [hevents, hnil, List.map_nil, List.append_nil]

theorem later_of_wake (h : s.step (.wake i) = some s') : s.Later s' := by
  simp only [System.step, System.react, Option.map_map] at h
  obtain ⟨s₁, hw, rfl⟩ := Option.map_eq_some_iff.1 h
  obtain ⟨t, ht, hw⟩ := Option.bind_eq_some_iff.1 hw
  exact later_of_woken (woken_of_wake hw) ht (reports_wake hw)

omit [PyFloat F] [Cbor F] [PlainCbor F] in
theorem System.Later.tick (s : System F) (nowUs : ℤ) : s.Later { s with nowUs } :=
  ⟨le_refl _, rfl, rfl, fun h => ⟨h.live, h.waiting⟩, fun _ h => ⟨h.events, h.plan⟩,
    fun _ h => ⟨h.events, h.plan⟩, fun _ _ h => h, fun h => ⟨h, rfl⟩⟩

end Tasks

/-! ## A full queue -/

/-- What `_emit` raises when the queue is full. -/
def fullError : WorkerError F := .worker ⟨"worker event queue is full", []⟩

/-- The worker with a queue of another size. -/
def System.withLimit (s : System F) (n : ℕ) : System F :=
  { s with worker := { s.worker with eventLimit := n } }

section Full

variable [PyFloat F] [PyText F] [Cbor F] {s s' : System F} {w : InMemoryWorker F} {n k i : ℕ}

/-- The step of the task puts in the queue what it would put in a larger one. -/
def Lossless (s : System F) (i : ℕ) : Prop :=
  ∀ n, s.worker.eventLimit ≤ n →
    (s.withLimit n).step (.wake i) = (s.step (.wake i)).map fun s' => s'.withLimit n

/-! ### Calls -/

omit [PyText F] in
theorem emitResult_ne_full (hroom : w.events.length < w.eventLimit) (type : String)
    (result : List (String × Val F)) : (w.emitResult type result).1 ≠ .error fullError := by
  unfold InMemoryWorker.emitResult InMemoryWorker.emit
  rcases dataCopy (dictOf (("type", .str (py type)) :: result)) with e | copy
  · exact nofun
  · simp only [hroom, if_true]
    exact nofun

omit [PyFloat F] [Cbor F] [PyText F] in
theorem checkPlan_raises (plan : Dict F) :
    RaisesOnly (fun e => ∃ text args, e = schemaError text args) (checkPlan plan) := by
  unfold checkPlan
  have hidentity : RaisesOnly (fun e => ∃ text args, e = schemaError text args)
      (identityFields.forM (checkIdentity plan)) := by
    refine raisesOnly_forM.2 fun _ k _ _ _ => ?_
    unfold checkIdentity
    split
    · exact raisesOnly_raiseWhen.2 fun _ => ⟨_, _, rfl⟩
    · exact raisesOnly_error.2 ⟨_, _, rfl⟩
  refine (raisesOnly_bind_of hidentity).2 fun _ _ => ?_
  unfold checkDuration
  split
  · exact raisesOnly_ok _
  · exact raisesOnly_raiseWhen.2 fun _ => ⟨_, _, rfl⟩
  · exact raisesOnly_error.2 ⟨_, _, rfl⟩

omit [PyText F] in
theorem prepareDisabled_ne_full (hroom : w.events.length < w.eventLimit) :
    w.prepareDisabled.1 ≠ .error fullError := by
  unfold InMemoryWorker.prepareDisabled
  split_ifs
  · exact nofun
  · exact nofun
  · refine emitResult_ne_full ?_ _ _
    exact hroom

theorem preparePhase_ne_full (hroom : w.events.length < w.eventLimit) (phasePlan : Val F) :
    (w.preparePhase phasePlan).1 ≠ .error fullError := by
  unfold InMemoryWorker.preparePhase
  split_ifs
  · exact fun he => by cases he
  · exact fun he => by cases he
  split
  · split
    · exact fun he => by cases he
    · split
      · rename_i e he
        obtain ⟨text, args, rfl⟩ := checkPlan_raises _ e he
        exact fun he => by cases he
      · refine emitResult_ne_full ?_ _ _
        exact hroom
  · exact fun he => by cases he

omit [PyFloat F] [Cbor F] in
theorem startPhase_ne_full (deadlineUs : Val F) (task : ℕ) :
    (w.startPhase deadlineUs task).1 ≠ .error fullError := by
  unfold InMemoryWorker.startPhase
  split_ifs
  · exact nofun
  · exact nofun
  split
  · split_ifs <;> exact nofun
  · exact nofun

theorem finishStop_ne_full (hroom : s.worker.events.length < s.worker.eventLimit)
    (faultContext : Val F) : (s.finishStop faultContext).1 ≠ some (.error fullError) := by
  have hfinish : (s.worker.stopFinish faultContext).1 ≠ .error fullError := by
    unfold InMemoryWorker.stopFinish
    split
    · exact fun he => by cases he
    · refine emitResult_ne_full ?_ _ _
      exact hroom
  unfold System.finishStop
  split
  · rename_i e w hw
    rw [hw] at hfinish
    exact fun he => hfinish (congrArg _ (Except.error.inj (Option.some.inj he)))
  · exact fun he => by cases he

/-- A call that finds room in the queue does not fail for want of it. -/
theorem call_ne_full (hroom : s.worker.events.length < s.worker.eventLimit) (c : Call F) :
    (s.call c).1 ≠ some (.error fullError) := by
  cases c with
  | prepareDisabled =>
    exact fun he => prepareDisabled_ne_full hroom (map_eq_error (Option.some.inj he))
  | preparePhase phasePlan =>
    have := preparePhase_ne_full hroom phasePlan
    rw [System.call]
    split
    · rename_i e w hw
      rw [hw] at this
      exact fun he => this (congrArg _ (Except.error.inj (Option.some.inj he)))
    · exact fun he => by cases he
  | startPhase deadlineUs =>
    have := startPhase_ne_full (w := s.worker) deadlineUs s.tasks.length
    rw [System.call]
    split
    · rename_i e w hw
      rw [hw] at this
      exact fun he => this (congrArg _ (Except.error.inj (Option.some.inj he)))
    · exact fun he => by cases he
  | stop faultContext =>
    rw [System.call]
    split
    · rename_i e he
      unfold InMemoryWorker.stopChecks at he
      split_ifs at he
      · cases he
        exact fun he => by cases he
      · split at he <;> cases he
        exact fun he => by cases he
    · obtain h | ⟨i, -, h⟩ := cancelPhaseTask_cases s <;> rw [h]
      · exact finishStop_ne_full hroom faultContext
      · exact fun he => by cases he
  | state =>
    intro he
    have he := map_eq_error (Option.some.inj he)
    unfold InMemoryWorker.state at he
    split_ifs at he
    · cases he
    · split at he <;> cases he
  | close =>
    rw [System.call]
    split_ifs
    · exact fun he => by cases he
    · obtain h | ⟨i, -, h⟩ := cancelPhaseTask_cases s <;> rw [h] <;> exact fun he => by cases he

/-- A waiting call ends. -/
theorem resume_cases {r : Reply F} (h : s.react (.resume k) = some (r, s')) :
    ∃ c, s.waiting[k]? = some c ∧
      (r, s') = match c with
        | .stop faultContext _ =>
          ({ s with waiting := s.waiting.eraseIdx k }).finishStop faultContext
        | .close _ => ({ s with waiting := s.waiting.eraseIdx k }).finishClose := by
  obtain ⟨c, hc, h⟩ := Option.bind_eq_some_iff.1 h
  unfold System.resume at h
  split_ifs at h
  refine ⟨c, hc, ?_⟩
  cases c with
  | stop faultContext i => exact (Option.some.inj h).symm
  | close i => exact (Option.some.inj h).symm

/-- A waiting call that ends puts in the queue what a call does. -/
theorem resume_notes [PlainCbor F] {r : Reply F} (h : s.react (.resume k) = some (r, s')) :
    k < s.waiting.length ∧ s.Noted s' ∧ s'.waiting = s.waiting.eraseIdx k ∧
      s'.worker.planRun = s.worker.planRun := by
  obtain ⟨c, hc, he⟩ := resume_cases h
  obtain ⟨hk, -⟩ := List.getElem?_eq_some_iff.1 hc
  obtain rfl : s' = _ := congrArg Prod.snd he
  cases c with
  | stop faultContext i =>
    obtain ⟨hnoted, hw, hplan⟩ :=
      finishStop_notes { s with waiting := s.waiting.eraseIdx k } faultContext
    exact ⟨hk, ⟨hnoted.tasks, hnoted.limit, hnoted.events⟩, hw, hplan⟩
  | close i =>
    refine ⟨hk, ⟨rfl, rfl, [], .inl rfl, ?_⟩, rfl, rfl⟩
    exact (List.append_nil _).symm

/-- An event is taken from the head of the queue. -/
theorem nextEvent_cases {v : Val F}
    (h : s.react .nextEvent = some (some (.ok v), s')) :
    ∃ e es, v = .dict e ∧ s.worker.events = e :: es ∧
      s' = { s with worker := { s.worker with events := es } } := by
  simp only [System.react] at h
  split_ifs at h
  · cases h
  split at h
  · cases h
  · rename_i e es he
    cases h
    exact ⟨e, es, rfl, he, rfl⟩

theorem resume_ne_full (hroom : s.worker.events.length < s.worker.eventLimit) {r : Reply F}
    (h : s.react (.resume k) = some (r, s')) : r ≠ some (.error fullError) := by
  obtain ⟨c, -, he⟩ := resume_cases h
  have hr := congrArg Prod.fst he
  cases c with
  | stop faultContext i =>
    rw [show r = _ from hr]
    exact finishStop_ne_full (s := { s with waiting := s.waiting.eraseIdx k }) hroom faultContext
  | close i =>
    rw [show r = _ from hr]
    exact nofun

/-! ### Phase tasks -/

omit [PyText F] in
theorem emit_withLimit (hroom : w.events.length < w.eventLimit) (hn : w.eventLimit ≤ n)
    (event : List (String × Val F)) : ({ w with eventLimit := n } : InMemoryWorker F).emit event =
      ((w.emit event).1, { (w.emit event).2 with eventLimit := n }) := by
  unfold InMemoryWorker.emit
  rcases dataCopy (dictOf event) with e | copy
  · rfl
  · simp only [hroom, hroom.trans_le hn, if_true]

omit [PyFloat F] [PyText F] [Cbor F] in
theorem leave_withLimit (s : System F) (n i : ℕ) :
    (s.withLimit n).leave i = (s.leave i).withLimit n := by
  unfold System.leave System.withLimit
  simp only
  split_ifs <;> rfl

theorem finishPhase_withLimit (hroom : s.worker.events.length < s.worker.eventLimit)
    (hn : s.worker.eventLimit ≤ n) (i : ℕ) (deadlineUs actualStartUs : ℤ) :
    (s.withLimit n).finishPhase i deadlineUs actualStartUs =
      (s.finishPhase i deadlineUs actualStartUs).withLimit n := by
  unfold System.finishPhase InMemoryWorker.complete
  by_cases hr : s.worker.status = .running
  · rw [if_pos hr, if_pos (show (s.withLimit n).worker.status = .running from hr)]
    have hemit : ({ (s.withLimit n).worker with status := .completed } : InMemoryWorker F).emit
        ((s.withLimit n).worker.completedEvent deadlineUs actualStartUs (s.withLimit n).nowUs) = _ :=
      emit_withLimit (w := { s.worker with status := .completed }) hroom hn
        (s.worker.completedEvent deadlineUs actualStartUs s.nowUs)
    rw [hemit]
    obtain ⟨e, h⟩ | ⟨copy, -, -, h⟩ := InMemoryWorker.emit_cases
      { s.worker with status := .completed }
      (s.worker.completedEvent deadlineUs actualStartUs s.nowUs)
    · rw [h]
      exact leave_withLimit { s with worker := { s.worker with status := .completed } } n i
    · rw [h]
      exact leave_withLimit (s.record i .completed
        { s.worker with status := .completed, events := s.worker.events ++ [copy] }) n i
  · rw [if_neg hr, if_neg (show ¬(s.withLimit n).worker.status = .running from hr)]
    exact leave_withLimit s n i

theorem enterPhase_withLimit (hroom : s.worker.events.length + 2 ≤ s.worker.eventLimit)
    (hn : s.worker.eventLimit ≤ n) (i : ℕ) (deadlineUs : ℤ) :
    (s.withLimit n).enterPhase i deadlineUs = (s.enterPhase i deadlineUs).withLimit n := by
  unfold System.enterPhase InMemoryWorker.startRunning
  by_cases hr : s.worker.status = .scheduled
  · rw [if_pos hr, if_pos (show (s.withLimit n).worker.status = .scheduled from hr)]
    have hone : s.worker.events.length < s.worker.eventLimit := by omega
    have hemit : ({ (s.withLimit n).worker with status := .running } : InMemoryWorker F).emit
        ((s.withLimit n).worker.startedEvent deadlineUs (s.withLimit n).nowUs) = _ :=
      emit_withLimit (w := { s.worker with status := .running }) hone hn
        (s.worker.startedEvent deadlineUs s.nowUs)
    rw [hemit]
    obtain ⟨e, h⟩ | ⟨copy, -, -, h⟩ := InMemoryWorker.emit_cases
      { s.worker with status := .running } (s.worker.startedEvent deadlineUs s.nowUs)
    · rw [h]
      exact leave_withLimit { s with worker := { s.worker with status := .running } } n i
    rw [h]
    have hlen : (s.worker.events ++ [copy]).length < s.worker.eventLimit := by
      rw [List.length_append, List.length_singleton]
      omega
    simp only
    by_cases hd : planDuration s.worker.phasePlan = 0
    · rw [if_pos hd, if_pos hd]
      refine finishPhase_withLimit (s := s.record i .started
        { s.worker with status := .running, events := s.worker.events ++ [copy] }) ?_ hn i
        deadlineUs s.nowUs
      exact hlen
    · rw [if_neg hd, if_neg hd]
      rfl
  · rw [if_neg hr, if_neg (show ¬(s.withLimit n).worker.status = .scheduled from hr)]
    exact leave_withLimit s n i

theorem wake_withLimit {t : PhaseTask F}
    (hroom : s.worker.events.length + t.debt ≤ s.worker.eventLimit)
    (hn : s.worker.eventLimit ≤ n) (i : ℕ) :
    (s.withLimit n).wake i t = (s.wake i t).map fun s' => s'.withLimit n := by
  have henter : t.cancelled = false → t.stage.IsWaiting →
      (s.withLimit n).enterPhase i t.deadlineUs = (s.enterPhase i t.deadlineUs).withLimit n := by
    intro hc hstage
    rw [debt_of_waiting hc hstage] at hroom
    exact enterPhase_withLimit hroom hn i t.deadlineUs
  have hfinish : t.cancelled = false → ∀ actualStartUs untilUs,
      t.stage = .working actualStartUs untilUs →
        (s.withLimit n).finishPhase i t.deadlineUs actualStartUs =
          (s.finishPhase i t.deadlineUs actualStartUs).withLimit n := by
    intro hc actualStartUs untilUs hstage
    have hdebt : t.debt = 1 := by
      unfold PhaseTask.debt
      rw [hc, hstage, if_neg Bool.false_ne_true]
    exact finishPhase_withLimit (by omega) hn i t.deadlineUs actualStartUs
  have hnow : (s.withLimit n).nowUs = s.nowUs := rfl
  unfold System.wake
  rw [hnow]
  cases hstage : t.stage with
  | created =>
    simp only
    split_ifs with hc
    · rfl
    · rfl
    · rw [henter (Bool.eq_false_iff.2 hc) (hstage ▸ trivial)]
      rfl
  | sleeping untilUs =>
    simp only
    split_ifs with hc
    · rw [leave_withLimit]
      rfl
    · rw [henter (Bool.eq_false_iff.2 hc) (hstage ▸ trivial)]
      rfl
    · rfl
  | working actualStartUs untilUs =>
    simp only
    split_ifs with hc
    · rw [leave_withLimit]
      rfl
    · rw [hfinish (Bool.eq_false_iff.2 hc) actualStartUs untilUs hstage]
      rfl
    · rfl
  | done => rfl

/-- No phase event is lost while the backlog is within the limit. -/
theorem lossless_of_room (h : s.Room 0) (i : ℕ) : Lossless s i := by
  intro n hn
  simp only [System.step, System.react, Option.map_map]
  rw [show (s.withLimit n).tasks = s.tasks from rfl]
  cases ht : s.tasks[i]? with
  | none => rfl
  | some t =>
    have hdebt := le_debt ht
    unfold System.Room System.backlog at h
    rw [Option.bind_some, Option.bind_some, wake_withLimit (by omega) hn i, Option.map_map]
    rfl

end Full

end RemoteRobot.Worker
