import RemoteRobot.Worker.Tasks

/-!
# The phases of a worker

What one step of `System` does to the status, the plan, the tasks and the log (`Move`), and from it
the order of the phase events.

The status and the plan belong to the task whose number the worker holds, as long as no phase is
started while it holds one (`Exclusive`): `stop` gives the number up before it waits, so a phase can
be started while it waits, and the status it writes behind its await is then not that of the phase.
-/

namespace RemoteRobot.Worker

open Py Except

variable {F : Type}

/-! ## Reading the calls -/

def Stage.IsWaiting : Stage → Prop
  | .created | .sleeping _ => True
  | _ => False

def Status.isActive (s : Status) : Bool := s == .scheduled || s == .running

theorem Status.isActive_iff {s : Status} :
    s.isActive = true ↔ s = .scheduled ∨ s = .running := by
  cases s <;> simp [Status.isActive]

namespace InMemoryWorker

variable [PyFloat F] [Cbor F] {w w' : InMemoryWorker F}

/-- `_emit` changes the queue alone, and puts a copy of the event there when it returns. -/
theorem emit_cases (w : InMemoryWorker F) (event : List (String × Val F)) :
    (∃ e, w.emit event = (.error e, w)) ∨
    ∃ copy, dataCopy (dictOf event) = .ok copy ∧ w.events.length < w.eventLimit ∧
      w.emit event = (.ok (), { w with events := w.events ++ [copy] }) := by
  unfold emit
  rcases dataCopy (dictOf event) with e | copy
  · exact .inl ⟨_, rfl⟩
  · by_cases hroom : w.events.length < w.eventLimit
    · exact .inr ⟨copy, rfl, hroom, by simp only [hroom, if_true]⟩
    · exact .inl ⟨_, if_neg hroom⟩

theorem emitResult_cases (w : InMemoryWorker F) (type : String) (result : List (String × Val F)) :
    (∃ e, w.emitResult type result = (.error e, w)) ∨
    ∃ copy, w.emitResult type result =
      (.ok (entries result), { w with events := w.events ++ [copy] }) := by
  unfold emitResult
  obtain ⟨e, h⟩ | ⟨copy, -, -, h⟩ := w.emit_cases (("type", .str (py type)) :: result)
  · exact .inl ⟨e, by rw [h]⟩
  · exact .inr ⟨copy, by rw [h]⟩

/-- The record of `w'` is that of `w` but for the queue of events. -/
def SameButEvents (w w' : InMemoryWorker F) : Prop := w' = { w with events := w'.events }

omit [PyFloat F] [Cbor F] in
theorem SameButEvents.rfl : w.SameButEvents w := Eq.refl w

theorem emitResult_same (w : InMemoryWorker F) (type : String) (result : List (String × Val F)) :
    w.SameButEvents (w.emitResult type result).2 := by
  obtain ⟨e, h⟩ | ⟨copy, h⟩ := w.emitResult_cases type result <;> rw [h]
  · exact SameButEvents.rfl
  · exact Eq.refl _

/-- A call to prepare that changes the worker finds it without an active phase and leaves it so. -/
theorem prepareDisabled_cases (w : InMemoryWorker F) :
    (∃ e, w.prepareDisabled = (.error e, w)) ∨
    (w.status.isActive = false ∧ w.status ≠ .closed ∧
      ({ w with status := .disabled, phasePlan := none }).SameButEvents w.prepareDisabled.2) := by
  unfold prepareDisabled
  by_cases hc : w.status = .closed
  · exact .inl ⟨_, if_pos hc⟩
  rw [if_neg hc]
  by_cases ha : w.status = .scheduled ∨ w.status = .running
  · exact .inl ⟨_, if_pos ha⟩
  rw [if_neg ha]
  refine .inr ⟨?_, hc, emitResult_same _ _ _⟩
  rw [← Bool.not_eq_true, Status.isActive_iff]
  exact ha

variable [PyText F]

theorem preparePhase_cases (w : InMemoryWorker F) (phasePlan : Val F) :
    (∃ e, w.preparePhase phasePlan = (.error e, w)) ∨
    (w.status.isActive = false ∧ ∃ plan, dataCopy phasePlan = .ok plan ∧
      ((∃ e, checkPlan plan = .error e ∧
          w.preparePhase phasePlan = (.error e, { w with phasePlan := none })) ∨
        (checkPlan plan = .ok () ∧ w.preparePhase phasePlan =
          (w.withPlan plan).emitResult "phase_prepared" (w.withPlan plan).preparedResult))) := by
  unfold preparePhase
  by_cases hc : w.status = .closed
  · exact .inl ⟨_, if_pos hc⟩
  rw [if_neg hc]
  by_cases ht : Status.takesPlan w.status = false
  · exact .inl ⟨_, if_pos ht⟩
  rw [if_neg ht]
  have hidle : w.status.isActive = false := by
    revert ht
    cases w.status <;> simp [Status.takesPlan, Status.isActive]
  by_cases hd : ∃ kvs, phasePlan = .dict kvs
  · obtain ⟨kvs, rfl⟩ := hd
    simp only
    rcases dataCopy (Val.dict kvs) with e | plan
    · exact .inl ⟨_, rfl⟩
    · refine .inr ⟨hidle, plan, rfl, ?_⟩
      simp only
      rcases checkPlan plan with e | u
      · exact .inl ⟨e, rfl, rfl⟩
      · exact .inr ⟨rfl, rfl⟩
  · cases phasePlan with
    | dict kvs => exact absurd ⟨kvs, rfl⟩ hd
    | _ => exact .inl ⟨_, rfl⟩

omit [PyFloat F] [Cbor F] in
theorem startPhase_cases (w : InMemoryWorker F) (deadlineUs : Val F) (task : ℕ) :
    (∃ e, w.startPhase deadlineUs task = (.error e, w)) ∨
    ∃ n, deadlineUs = .int n ∧ 0 ≤ n ∧ w.status = .prepared ∧ w.startPhase deadlineUs task =
      (.ok (entries (w.scheduledResult n)), { w with
        lastStartDeadlineUs := some n, status := .scheduled, phaseTask := some task }) := by
  unfold startPhase
  by_cases hc : w.status = .closed
  · exact .inl ⟨_, if_pos hc⟩
  rw [if_neg hc]
  by_cases hp : w.status ≠ .prepared
  · exact .inl ⟨_, if_pos hp⟩
  rw [if_neg hp]
  by_cases hd : ∃ n, deadlineUs = .int n
  · obtain ⟨n, rfl⟩ := hd
    simp only
    by_cases hn : n < 0
    · exact .inl ⟨_, if_pos hn⟩
    · exact .inr ⟨n, rfl, by omega, not_not.1 hp, if_neg hn⟩
  · cases deadlineUs with
    | int n => exact absurd ⟨n, rfl⟩ hd
    | _ => exact .inl ⟨_, rfl⟩

theorem stopFinish_cases (w : InMemoryWorker F) (faultContext : Val F) :
    (∃ e, w.stopFinish faultContext = (.error e, w)) ∨
    ∃ context, dataCopy faultContext = .ok context ∧ w.stopFinish faultContext =
      (w.withStop context).emitResult "worker_stopped"
        ((w.withStop context).stoppedResult context) := by
  unfold stopFinish
  rcases dataCopy faultContext with e | context
  · exact .inl ⟨_, rfl⟩
  · exact .inr ⟨context, rfl, rfl⟩

end InMemoryWorker

/-! ## Steps of a task -/

section Steps

variable [PyFloat F] [PyText F] [Cbor F] {s s' : System F} {i : ℕ} {t : PhaseTask F}

/-- The event is the copy of what the phase task announces for a worker with this plan. -/
def Announces (plan : Option (Dict F)) (e : PhaseEvent F) : Prop :=
  ∃ (w : InMemoryWorker F) (deadlineUs actualStartUs : ℤ), w.phasePlan = plan ∧
    dataCopy (dictOf (match e.kind with
      | .started => w.startedEvent deadlineUs e.atUs
      | .completed => w.completedEvent deadlineUs actualStartUs e.atUs)) = .ok e.event

/-- A new event of task `i`. -/
structure Emitted (s : System F) (i : ℕ) (kind : EventKind) (e : PhaseEvent F) : Prop where
  task : e.task = i
  kind : e.kind = kind
  atUs : e.atUs = s.nowUs
  announces : Announces s.worker.phasePlan e

/-- Task `i` moved to a stage and put `new` in the queue; the rest is as it was, but for the status
and the task the worker holds. -/
structure Moved (s s' : System F) (i : ℕ) (stage : Stage) (new : List (PhaseEvent F)) : Prop where
  tasks : s'.tasks = s.tasks.modify i fun t => { t with stage }
  log : s'.log = s.log ++ new
  stops : s'.stops = s.stops
  accepted : s'.accepted = s.accepted
  nowUs : s'.nowUs = s.nowUs
  plan : s'.worker.phasePlan = s.worker.phasePlan
  prepared : s'.worker.status = .prepared → s.worker.status = .prepared

/-- The worker gives the number of an ended task up. -/
def Released (s s' : System F) (i : ℕ) : Prop :=
  s'.worker.phaseTask = if s.worker.phaseTask = some i then none else s.worker.phaseTask

omit [PyFloat F] [PyText F] [Cbor F] in
theorem status_leave (s : System F) (i : ℕ) : (s.leave i).worker.status = s.worker.status := by
  unfold System.leave
  simp only
  split_ifs <;> rfl

omit [PyFloat F] [PyText F] [Cbor F] in
theorem moved_leave (s : System F) (i : ℕ) : Moved s (s.leave i) i .done [] := by
  refine ⟨rfl, (List.append_nil _).symm, rfl, rfl, rfl, ?_, fun h => (status_leave s i) ▸ h⟩
  unfold System.leave
  simp only
  split_ifs <;> rfl

omit [PyFloat F] [PyText F] [Cbor F] in
theorem released_leave (s : System F) (i : ℕ) : Released s (s.leave i) i := by
  unfold Released System.leave
  simp only
  split_ifs <;> rfl

omit [PyFloat F] [PyText F] [Cbor F] in
theorem record_eq (s : System F) (i : ℕ) (kind : EventKind) {w : InMemoryWorker F}
    {events : List (Dict F)} {copy : Dict F} (h : w.events = events ++ [copy]) :
    s.record i kind w =
      { s with worker := w, log := s.log ++ [⟨i, kind, s.nowUs, copy⟩] } := by
  unfold System.record
  rw [h, List.getLast?_concat, Option.map_some, Option.toList_some]

/-- The end of a phase. -/
theorem finishPhase_cases (s : System F) (i : ℕ) (deadlineUs actualStartUs : ℤ) :
    ∃ new, Moved s (s.finishPhase i deadlineUs actualStartUs) i .done new ∧
      Released s (s.finishPhase i deadlineUs actualStartUs) i ∧
      (new = [] ∨ s.worker.status = .running ∧ ∃ e, Emitted s i .completed e ∧ new = [e]) := by
  unfold System.finishPhase
  by_cases hr : s.worker.status = .running
  · rw [if_pos hr]
    unfold InMemoryWorker.complete
    obtain ⟨e, h⟩ | ⟨copy, hcopy, -, h⟩ := InMemoryWorker.emit_cases
      { s.worker with status := .completed }
      (s.worker.completedEvent deadlineUs actualStartUs s.nowUs)
    · rw [h]
      have hm := moved_leave { s with worker := { s.worker with status := .completed } } i
      exact ⟨[], ⟨hm.tasks, hm.log, hm.stops, hm.accepted, hm.nowUs, hm.plan,
        fun h => nomatch hm.prepared h⟩,
        released_leave { s with worker := { s.worker with status := .completed } } i, .inl rfl⟩
    · rw [h]
      simp only
      rw [record_eq s i _ (show _ = s.worker.events ++ [copy] from rfl)]
      have hcompleted : Emitted s i .completed ⟨i, .completed, s.nowUs, copy⟩ :=
        ⟨rfl, rfl, rfl, s.worker, deadlineUs, actualStartUs, rfl, hcopy⟩
      refine ⟨[⟨i, .completed, s.nowUs, copy⟩], ?_, released_leave _ i,
        .inr ⟨hr, _, hcompleted, rfl⟩⟩
      have hm := moved_leave { s with
        worker := { s.worker with status := .completed, events := s.worker.events ++ [copy] }
        log := s.log ++ [⟨i, .completed, s.nowUs, copy⟩] } i
      exact ⟨hm.tasks, hm.log.trans (List.append_nil _), hm.stops, hm.accepted, hm.nowUs, hm.plan,
        fun h => nomatch hm.prepared h⟩
  · rw [if_neg hr]
    exact ⟨[], moved_leave s i, released_leave s i, .inl rfl⟩

/-- The start of a phase: it is not to be, or it begins and goes on, or it begins and ends. -/
theorem enterPhase_cases (s : System F) (i : ℕ) (deadlineUs : ℤ) :
    (∃ new, Moved s (s.enterPhase i deadlineUs) i .done new ∧
      Released s (s.enterPhase i deadlineUs) i ∧
      (new = [] ∨ s.worker.status = .scheduled ∧ ∃ e, Emitted s i .started e ∧
        (new = [e] ∨ planDuration s.worker.phasePlan = 0 ∧
          ∃ e', Emitted s i .completed e' ∧ new = [e, e']))) ∨
    (s.worker.status = .scheduled ∧ ∃ e, Emitted s i .started e ∧
      Moved s (s.enterPhase i deadlineUs) i
        (.working s.nowUs (s.nowUs + planDuration s.worker.phasePlan)) [e] ∧
      (s.enterPhase i deadlineUs).worker.phaseTask = s.worker.phaseTask ∧
      (s.enterPhase i deadlineUs).worker.status = .running) := by
  unfold System.enterPhase
  by_cases hs : s.worker.status = .scheduled
  · rw [if_pos hs]
    unfold InMemoryWorker.startRunning
    obtain ⟨e, h⟩ | ⟨copy, hcopy, -, h⟩ := InMemoryWorker.emit_cases
      { s.worker with status := .running } (s.worker.startedEvent deadlineUs s.nowUs)
    · rw [h]
      have hm := moved_leave { s with worker := { s.worker with status := .running } } i
      exact .inl ⟨[], ⟨hm.tasks, hm.log, hm.stops, hm.accepted, hm.nowUs, hm.plan,
        fun h => nomatch hm.prepared h⟩,
        released_leave { s with worker := { s.worker with status := .running } } i, .inl rfl⟩
    · rw [h]
      simp only
      rw [record_eq s i _ (show _ = s.worker.events ++ [copy] from rfl)]
      have hstarted : Emitted s i .started ⟨i, .started, s.nowUs, copy⟩ :=
        ⟨rfl, rfl, rfl, s.worker, deadlineUs, s.nowUs, rfl, hcopy⟩
      by_cases hd : planDuration s.worker.phasePlan = 0
      · rw [if_pos hd]
        obtain ⟨new, hm, hr, hnew⟩ := finishPhase_cases { s with
          worker := { s.worker with status := .running, events := s.worker.events ++ [copy] }
          log := s.log ++ [⟨i, .started, s.nowUs, copy⟩] } i deadlineUs s.nowUs
        refine .inl ⟨⟨i, .started, s.nowUs, copy⟩ :: new, ⟨hm.tasks, ?_, hm.stops, hm.accepted,
          hm.nowUs, hm.plan, fun h => nomatch hm.prepared h⟩, hr, .inr ⟨hs, _, hstarted, ?_⟩⟩
        · rw [hm.log, List.append_assoc]
          rfl
        · obtain rfl | ⟨-, e, he, rfl⟩ := hnew
          · exact .inl rfl
          · exact .inr ⟨hd, e, ⟨he.task, he.kind, he.atUs, he.announces⟩, rfl⟩
      · rw [if_neg hd]
        exact .inr ⟨hs, _, hstarted, ⟨rfl, rfl, rfl, rfl, rfl, rfl, fun h => nomatch h⟩, rfl, rfl⟩
  · rw [if_neg hs]
    exact .inl ⟨[], moved_leave s i, released_leave s i, .inl rfl⟩

/-- What a step of task `i` does. -/
inductive Woken (s : System F) (i : ℕ) (t : PhaseTask F) (s' : System F) : Prop
  | dropped (hc : t.cancelled = true) (hstage : t.stage ≠ .done) (hm : Moved s s' i .done [])
      (htask : s'.worker.phaseTask = s.worker.phaseTask ∨ Released s s' i)
      (hstatus : s'.worker.status = s.worker.status)
  | sleeps (hc : t.cancelled = false) (hstage : t.stage = .created)
      (hm : Moved s s' i (.sleeping t.deadlineUs) [])
      (htask : s'.worker.phaseTask = s.worker.phaseTask)
      (hstatus : s'.worker.status = s.worker.status)
  | runs (e : PhaseEvent F) (hc : t.cancelled = false) (hstage : t.stage.IsWaiting)
      (hstatus : s.worker.status = .scheduled) (he : Emitted s i .started e)
      (hm : Moved s s' i (.working s.nowUs (s.nowUs + planDuration s.worker.phasePlan)) [e])
      (htask : s'.worker.phaseTask = s.worker.phaseTask)
      (hstatus' : s'.worker.status = .running)
  | leaves (hc : t.cancelled = false) (hstage : t.stage ≠ .done) (hm : Moved s s' i .done [])
      (hr : Released s s' i)
  | startsAndLeaves (e : PhaseEvent F) (hc : t.cancelled = false) (hstage : t.stage.IsWaiting)
      (hstatus : s.worker.status = .scheduled) (he : Emitted s i .started e)
      (hm : Moved s s' i .done [e]) (hr : Released s s' i)
  | startsAndCompletes (e e' : PhaseEvent F) (hc : t.cancelled = false)
      (hstage : t.stage.IsWaiting) (hstatus : s.worker.status = .scheduled)
      (hd : planDuration s.worker.phasePlan = 0) (he : Emitted s i .started e)
      (he' : Emitted s i .completed e') (hm : Moved s s' i .done [e, e']) (hr : Released s s' i)
  | completes (e : PhaseEvent F) (actualStartUs untilUs : ℤ) (hc : t.cancelled = false)
      (hstage : t.stage = .working actualStartUs untilUs) (hle : untilUs ≤ s.nowUs)
      (hstatus : s.worker.status = .running) (he : Emitted s i .completed e)
      (hm : Moved s s' i .done [e]) (hr : Released s s' i)

theorem woken_enterPhase (hc : t.cancelled = false) (hstage : t.stage.IsWaiting) :
    Woken s i t (s.enterPhase i t.deadlineUs) := by
  have hne : t.stage ≠ .done := by
    intro he
    rw [he] at hstage
    exact hstage
  obtain ⟨new, hm, hr, rfl | ⟨hs, e, he, rfl | ⟨hd, e', he', rfl⟩⟩⟩ | ⟨hs, e, he, hm, ht, hs'⟩ :=
    enterPhase_cases s i t.deadlineUs
  · exact .leaves hc hne hm hr
  · exact .startsAndLeaves e hc hstage hs he hm hr
  · exact .startsAndCompletes e e' hc hstage hs hd he he' hm hr
  · exact .runs e hc hstage hs he hm ht hs'

theorem woken_of_wake (h : s.wake i t = some s') : Woken s i t s' := by
  have hleave : t.cancelled = true → t.stage ≠ .done → Woken s i t (s.leave i) := fun hc hne =>
    .dropped hc hne (moved_leave s i) (.inr (released_leave s i)) (status_leave s i)
  unfold System.wake at h
  split at h
  · rename_i hstage
    have hwait : t.stage.IsWaiting := by rw [hstage]; trivial
    split_ifs at h with hc hlt <;> obtain rfl := Option.some.inj h
    · exact .dropped hc (by rw [hstage]; simp)
        ⟨rfl, (List.append_nil _).symm, rfl, rfl, rfl, rfl, id⟩ (.inl rfl) rfl
    · exact .sleeps (Bool.eq_false_iff.2 hc) hstage
        ⟨rfl, (List.append_nil _).symm, rfl, rfl, rfl, rfl, id⟩ rfl rfl
    · exact woken_enterPhase (Bool.eq_false_iff.2 hc) hwait
  · rename_i untilUs hstage
    have hwait : t.stage.IsWaiting := by rw [hstage]; trivial
    split_ifs at h with hc hle <;> obtain rfl := Option.some.inj h
    · exact hleave hc (by rw [hstage]; simp)
    · exact woken_enterPhase (Bool.eq_false_iff.2 hc) hwait
  · rename_i actualStartUs untilUs hstage
    have hne : t.stage ≠ .done := by rw [hstage]; simp
    split_ifs at h with hc hle <;> obtain rfl := Option.some.inj h
    · exact hleave hc hne
    · obtain ⟨new, hm, hr, rfl | ⟨hs, e, he, rfl⟩⟩ :=
        finishPhase_cases s i t.deadlineUs actualStartUs
      · exact .leaves (Bool.eq_false_iff.2 hc) hne hm hr
      · exact .completes e actualStartUs untilUs (Bool.eq_false_iff.2 hc) hstage hle hs he hm hr
  · cases h

end Steps

/-! ## Steps of the system -/

section Moves

variable [PyFloat F] [PyText F] [Cbor F] {s s' : System F} {l : Label F}

omit [PyFloat F] [PyText F] [Cbor F] in
theorem InMemoryWorker.SameButEvents.status {w w' : InMemoryWorker F} (h : w.SameButEvents w') :
    w'.status = w.status := by
  unfold InMemoryWorker.SameButEvents at h
  rw [h]

omit [PyFloat F] [PyText F] [Cbor F] in
theorem InMemoryWorker.SameButEvents.plan {w w' : InMemoryWorker F} (h : w.SameButEvents w') :
    w'.phasePlan = w.phasePlan := by
  unfold InMemoryWorker.SameButEvents at h
  rw [h]

omit [PyFloat F] [PyText F] [Cbor F] in
theorem InMemoryWorker.SameButEvents.held {w w' : InMemoryWorker F} (h : w.SameButEvents w') :
    w'.phaseTask = w.phaseTask := by
  unfold InMemoryWorker.SameButEvents at h
  rw [h]

/-- The tasks, the log and the task the worker holds are as they were; an active status too, with
the plan. -/
structure Quiet (s s' : System F) : Prop where
  tasks : s'.tasks = s.tasks
  log : s'.log = s.log
  nowUs : s.nowUs ≤ s'.nowUs
  held : s'.worker.phaseTask = s.worker.phaseTask
  active : s'.worker.status.isActive = true →
    s'.worker.status = s.worker.status ∧ s'.worker.phasePlan = s.worker.phasePlan

/-- No plan is accepted, and none is kept for a prepared worker but the one it held. -/
structure Kept (s s' : System F) : Prop where
  accepted : s'.accepted = s.accepted
  plan : s'.worker.phasePlan = s.worker.phasePlan ∨ s'.worker.phasePlan = none
  prepared : s'.worker.status = .prepared →
    s.worker.status = .prepared ∧ s'.worker.phasePlan = s.worker.phasePlan

/-- What a step does. -/
inductive Move (s : System F) (l : Label F) (s' : System F) : Prop
  | quiet (h : Quiet s s') (hstops : s'.stops = s.stops)
      (hkept : (∃ phasePlan, l = .call (.preparePhase phasePlan)) ∨ Kept s s')
  | stopped (h : Quiet s s') (hkept : Kept s s') (hidle : s'.worker.status.isActive = false)
      (hstops : s'.stops = s.stops ++ [(s.log.length, s.tasks.length)])
  | starts (deadlineUs : ℤ) (hl : l = .call (.startPhase (.int deadlineUs))) (hn : 0 ≤ deadlineUs)
      (hprepared : s.worker.status = .prepared) (hstatus : s'.worker.status = .scheduled)
      (hplan : s'.worker.phasePlan = s.worker.phasePlan)
      (hheld : s'.worker.phaseTask = some s.tasks.length)
      (htasks : s'.tasks = s.tasks ++ [⟨deadlineUs, s.worker.phasePlan, .created, false⟩])
      (hlog : s'.log = s.log) (hstops : s'.stops = s.stops)
      (haccepted : s'.accepted = s.accepted)
  | cancels (i : ℕ) (hheld : s.worker.phaseTask = some i) (hheld' : s'.worker.phaseTask = none)
      (htasks : s'.tasks = s.tasks.modify i fun t => { t with cancelled := true })
      (hstatus : s'.worker.status = s.worker.status)
      (hplan : s'.worker.phasePlan = s.worker.phasePlan)
      (hlog : s'.log = s.log) (hstops : s'.stops = s.stops)
      (haccepted : s'.accepted = s.accepted)
  | woken (i : ℕ) (t : PhaseTask F) (ht : s.tasks[i]? = some t) (h : Woken s i t s')

omit [PyFloat F] [PyText F] [Cbor F] in
/-- A call that ends at once and changes no active status is quiet. -/
theorem quiet_worker {w : InMemoryWorker F} (hheld : w.phaseTask = s.worker.phaseTask)
    (hactive : w.status.isActive = true →
      w.status = s.worker.status ∧ w.phasePlan = s.worker.phasePlan) :
    Quiet s { s with worker := w } := ⟨rfl, rfl, le_refl _, hheld, hactive⟩

omit [PyFloat F] [PyText F] [Cbor F] in
theorem Quiet.refl (s : System F) : Quiet s s := ⟨rfl, rfl, le_refl _, rfl, fun _ => ⟨rfl, rfl⟩⟩

omit [PyFloat F] [PyText F] [Cbor F] in
theorem Kept.refl (s : System F) : Kept s s := ⟨rfl, .inl rfl, fun h => ⟨h, rfl⟩⟩

omit [PyFloat F] [PyText F] [Cbor F] in
/-- A call that leaves the worker without an active phase. -/
theorem quiet_of_idle {w w' : InMemoryWorker F} (h : w.SameButEvents w')
    (hidle : w.status.isActive = false) (hheld : w.phaseTask = s.worker.phaseTask) :
    Quiet s { s with worker := w' } :=
  quiet_worker (h.held.trans hheld) fun ha => by
    rw [h.status, hidle] at ha
    cases ha

theorem finishStop_cases (s : System F) (faultContext : Val F) :
    Quiet s (s.finishStop faultContext).2 ∧ Kept s (s.finishStop faultContext).2 ∧
    ((s.finishStop faultContext).2.stops = s.stops ∨
      (s.finishStop faultContext).2.worker.status.isActive = false ∧
      (s.finishStop faultContext).2.stops = s.stops ++ [(s.log.length, s.tasks.length)]) := by
  unfold System.finishStop
  obtain ⟨e, h⟩ | ⟨context, -, h⟩ := s.worker.stopFinish_cases faultContext
  · rw [h]
    exact ⟨Quiet.refl s, Kept.refl s, .inl rfl⟩
  rw [h]
  obtain ⟨e, h'⟩ | ⟨copy, h'⟩ := (s.worker.withStop context).emitResult_cases "worker_stopped"
    ((s.worker.withStop context).stoppedResult context)
  · rw [h']
    exact ⟨quiet_of_idle .rfl rfl rfl, ⟨rfl, .inl rfl, fun hp => nomatch hp⟩, .inl rfl⟩
  · rw [h']
    have hq : Quiet s { s with worker := { s.worker.withStop context with
        events := s.worker.events ++ [copy] } } := quiet_worker rfl fun ha => nomatch ha
    exact ⟨⟨hq.tasks, hq.log, hq.nowUs, hq.held, hq.active⟩,
      ⟨rfl, .inl rfl, fun hp => nomatch hp⟩, .inr ⟨rfl, rfl⟩⟩

omit [PyFloat F] [PyText F] [Cbor F] in
theorem cancelPhaseTask_cases (s : System F) :
    s.cancelPhaseTask = (none, s) ∨ ∃ i, s.worker.phaseTask = some i ∧ s.cancelPhaseTask =
      (some i, { s with
        worker := { s.worker with phaseTask := none }
        tasks := s.tasks.modify i fun t => { t with cancelled := true } }) := by
  unfold System.cancelPhaseTask
  cases s.worker.phaseTask with
  | none => exact .inl rfl
  | some i => exact .inr ⟨i, rfl, rfl⟩

omit [PyFloat F] [PyText F] [Cbor F] in
/-- The worker `close` leaves. -/
theorem quiet_finishClose (s : System F) : Quiet s s.finishClose.2 :=
  quiet_worker rfl fun ha => nomatch ha

theorem move_finishStop (s : System F) (l : Label F) (faultContext : Val F) :
    Move s l (s.finishStop faultContext).2 := by
  obtain ⟨h, hk, hstops | ⟨hidle, hstops⟩⟩ := finishStop_cases s faultContext
  · exact .quiet h hstops (.inr hk)
  · exact .stopped h hk hidle hstops

theorem move_call (s : System F) (c : Call F) : Move s (.call c) (s.call c).2 := by
  have hcancels : ∀ (i : ℕ) (w : Waiting F), s.worker.phaseTask = some i →
      Move s (.call c) { s with
        worker := { s.worker with phaseTask := none }
        tasks := s.tasks.modify i fun t => { t with cancelled := true }
        waiting := s.waiting ++ [w] } := fun i w h =>
    .cancels i h rfl rfl rfl rfl rfl rfl rfl
  cases c with
  | prepareDisabled =>
    obtain ⟨e, h⟩ | ⟨hidle, -, h⟩ := s.worker.prepareDisabled_cases
    · simp only [System.call, System.answer, h]
      exact .quiet (Quiet.refl s) rfl (.inr (Kept.refl s))
    · refine .quiet (quiet_of_idle h rfl rfl) rfl (.inr ⟨rfl, .inr h.plan, fun hp => ?_⟩)
      exact absurd (h.status.symm.trans hp) (fun he => nomatch he)
  | preparePhase phasePlan =>
    simp only [System.call]
    obtain ⟨e, h⟩ | ⟨hidle, plan, -, ⟨e, -, h⟩ | ⟨-, h⟩⟩ := s.worker.preparePhase_cases phasePlan
    · rw [h]
      exact .quiet (Quiet.refl s) rfl (.inr (Kept.refl s))
    · rw [h]
      exact .quiet (quiet_of_idle .rfl hidle rfl) rfl (.inl ⟨_, rfl⟩)
    · rw [h]
      obtain ⟨e, h'⟩ | ⟨copy, h'⟩ := (s.worker.withPlan plan).emitResult_cases "phase_prepared"
        (s.worker.withPlan plan).preparedResult
      · rw [h']
        exact .quiet (quiet_of_idle .rfl rfl rfl) rfl (.inl ⟨_, rfl⟩)
      · rw [h']
        exact .quiet ⟨rfl, rfl, le_refl _, rfl, fun ha => nomatch ha⟩ rfl (.inl ⟨_, rfl⟩)
  | startPhase deadlineUs =>
    simp only [System.call]
    obtain ⟨e, h⟩ | ⟨n, rfl, hn, hp, h⟩ := s.worker.startPhase_cases deadlineUs s.tasks.length
    · rw [h]
      exact .quiet (Quiet.refl s) rfl (.inr (Kept.refl s))
    · rw [h]
      exact .starts n rfl hn hp rfl rfl rfl rfl rfl rfl rfl
  | stop faultContext =>
    simp only [System.call]
    rcases s.worker.stopChecks faultContext with e | u
    · exact .quiet (Quiet.refl s) rfl (.inr (Kept.refl s))
    obtain h | ⟨i, hi, h⟩ := cancelPhaseTask_cases s
    · simp only [h]
      exact move_finishStop s _ faultContext
    · simp only [h]
      exact hcancels i _ hi
  | state => exact .quiet (Quiet.refl s) rfl (.inr (Kept.refl s))
  | close =>
    simp only [System.call]
    by_cases hc : s.worker.status = .closed
    · rw [if_pos hc]
      exact .quiet (Quiet.refl s) rfl (.inr (Kept.refl s))
    rw [if_neg hc]
    obtain h | ⟨i, hi, h⟩ := cancelPhaseTask_cases s
    · simp only [h]
      exact .quiet (quiet_finishClose s) rfl (.inr ⟨rfl, .inl rfl, fun hp => nomatch hp⟩)
    · simp only [h]
      exact hcancels i _ hi

theorem move_resume {k : ℕ} {c : Waiting F} {r : Reply F} (h : s.resume k c = some (r, s')) :
    Move s l s' := by
  unfold System.resume at h
  split_ifs at h with hdone
  cases c with
  | stop faultContext i =>
    obtain rfl := congrArg Prod.snd (Option.some.inj h)
    obtain ⟨h, hk, hstops | ⟨hidle, hstops⟩⟩ :=
      finishStop_cases { s with waiting := s.waiting.eraseIdx k } faultContext
    · exact .quiet ⟨h.tasks, h.log, h.nowUs, h.held, h.active⟩ hstops
        (.inr ⟨hk.accepted, hk.plan, hk.prepared⟩)
    · exact .stopped ⟨h.tasks, h.log, h.nowUs, h.held, h.active⟩
        ⟨hk.accepted, hk.plan, hk.prepared⟩ hidle hstops
  | close i =>
    obtain rfl := congrArg Prod.snd (Option.some.inj h)
    exact .quiet ⟨rfl, rfl, le_refl _, rfl, fun ha => nomatch ha⟩ rfl
      (.inr ⟨rfl, .inl rfl, fun hp => nomatch hp⟩)

theorem move_of_step (h : s.step l = some s') : Move s l s' := by
  obtain ⟨⟨r, s₁⟩, hr, rfl⟩ := Option.map_eq_some_iff.1 h
  clear h
  cases l with
  | call c =>
    obtain rfl := congrArg Prod.snd (Option.some.inj hr)
    exact move_call s c
  | resume k =>
    obtain ⟨c, -, hc⟩ := Option.bind_eq_some_iff.1 hr
    exact move_resume hc
  | abandon k =>
    simp only [System.react] at hr
    split_ifs at hr
    obtain rfl := congrArg Prod.snd (Option.some.inj hr)
    exact .quiet ⟨rfl, rfl, le_refl _, rfl, fun _ => ⟨rfl, rfl⟩⟩ rfl
      (.inr ⟨rfl, .inl rfl, fun hp => ⟨hp, rfl⟩⟩)
  | nextEvent =>
    simp only [System.react] at hr
    split_ifs at hr with hc
    · obtain rfl := congrArg Prod.snd (Option.some.inj hr)
      exact .quiet (Quiet.refl s) rfl (.inr (Kept.refl s))
    · split at hr
      · cases hr
      · obtain rfl := congrArg Prod.snd (Option.some.inj hr)
        exact .quiet (quiet_worker rfl fun _ => ⟨rfl, rfl⟩) rfl
          (.inr ⟨rfl, .inl rfl, fun hp => ⟨hp, rfl⟩⟩)
  | wake i =>
    obtain ⟨s₂, hw, he⟩ := Option.map_eq_some_iff.1 hr
    obtain ⟨t, ht, hw⟩ := Option.bind_eq_some_iff.1 hw
    obtain rfl := congrArg Prod.snd he
    exact .woken i t ht (woken_of_wake hw)
  | tick nowUs =>
    simp only [System.react] at hr
    split_ifs at hr with hle
    obtain rfl := congrArg Prod.snd (Option.some.inj hr)
    exact .quiet ⟨rfl, rfl, hle, rfl, fun _ => ⟨rfl, rfl⟩⟩ rfl
      (.inr ⟨rfl, .inl rfl, fun hp => ⟨hp, rfl⟩⟩)

end Moves

end RemoteRobot.Worker
