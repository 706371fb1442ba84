import RemoteRobot.Orchestrator.Calls

/-!
# Stale events

The events of a worker as a stream that the waits of a run consume: `Fed` is a run with one stream
for each worker.  `relevant` deletes from a stream what is not about the phase awaited when it is
read.  Two assignments of streams with the same relevant events give the same runs: a weak
simulation in which a run answers each event of the other after it has skipped its own stale ones.
-/

namespace RemoteRobot

open Py Except

variable {F : Type}

/-! ## Streams of events -/

/-- One wait of a run for an event of a worker. -/
structure Await where
  executionId : Str
  stage : WaitStage

section Relevant

variable [PyFloat F]

/-- The event is not about the awaited phase. -/
def Task.isStale (t : Task F) (a : Await) : Val F → Bool
  | .dict kvs => !(Val.eq (field "run_id" kvs) (.str t.runId) &&
      Val.eq (field "phase_execution_id" kvs) (.str a.executionId))
  | _ => false

/-- The waits that are left after the event: the same, those after it, or none. -/
def Task.following (t : Task F) (a : Await) (as : List Await) (event : Val F) : List Await :=
  match Task.classify { t with currentPhaseExecutionId := some a.executionId } a.stage event with
  | .waiting => a :: as
  | .got _ => as
  | .failed => []

/-- The events of the stream that are about the phase awaited when they are read. -/
def Task.relevant (t : Task F) : List Await → List (Val F) → List (Val F)
  | _, [] => []
  | [], _ :: _ => []
  | a :: as, e :: es =>
    if t.isStale a e then t.relevant (a :: as) es else e :: t.relevant (t.following a as e) es
  termination_by structural _ es => es

variable {t u : Task F}

@[simp] theorem Task.relevant_nil (es : List (Val F)) : t.relevant [] es = [] := by
  cases es <;> rfl

theorem Task.classify_congr (hrun : u.runId = t.runId)
    (hid : u.currentPhaseExecutionId = t.currentPhaseExecutionId) (stage : WaitStage) (e : Val F) :
    u.classify stage e = t.classify stage e := by
  unfold Task.classify
  rw [hrun, hid]

theorem Task.isStale_congr (h : u.runId = t.runId) (a : Await) (e : Val F) :
    u.isStale a e = t.isStale a e := by
  unfold Task.isStale
  rw [h]

theorem Task.relevant_congr (h : u.runId = t.runId) (as : List Await) (es : List (Val F)) :
    u.relevant as es = t.relevant as es := by
  induction es generalizing as with
  | nil => cases as <;> rfl
  | cons e es ih =>
    cases as with
    | nil => rfl
    | cons a as =>
      have hfollowing : u.following a as e = t.following a as e := by
        unfold Task.following
        rw [Task.classify_congr (t := { t with currentPhaseExecutionId := some a.executionId })
          (u := { u with currentPhaseExecutionId := some a.executionId }) h rfl]
      rw [Task.relevant, Task.relevant, Task.isStale_congr h, hfollowing, ih, ih]

/-- A stale event leaves the wait as it is. -/
theorem Task.classify_of_stale {a : Await} (hid : t.currentPhaseExecutionId = some a.executionId)
    {stage : WaitStage} {e : Val F} (h : t.isStale a e = true) : t.classify stage e = .waiting := by
  unfold Task.isStale at h
  split at h
  · rw [Bool.not_eq_true'] at h
    unfold Task.classify
    rw [hid]
    simp only [Task.optStr, h, Bool.false_eq_true, if_false]
  · cases h

/-- A stream whose next relevant event is `e` holds it after stale ones. -/
theorem Task.relevant_eq_cons {a : Await} {as : List Await} {es rest : List (Val F)} {e : Val F}
    (h : t.relevant (a :: as) es = e :: rest) :
    ∃ stale es', es = stale ++ e :: es' ∧ (∀ x ∈ stale, t.isStale a x = true) ∧
      t.isStale a e = false ∧ t.relevant (t.following a as e) es' = rest := by
  induction es with
  | nil => cases h
  | cons x es ih =>
    rw [Task.relevant] at h
    split_ifs at h with hx
    · obtain ⟨stale, es', rfl, hall, he, hrest⟩ := ih h
      exact ⟨x :: stale, es', rfl, List.forall_mem_cons.2 ⟨hx, hall⟩, he, hrest⟩
    · obtain ⟨rfl, hrest⟩ := List.cons.inj h
      exact ⟨[], es, rfl, nofun, Bool.eq_false_iff.2 hx, hrest⟩

end Relevant

/-! ## The waits that are left -/

section Awaits

variable [PyText F]

/-- The plans of phase `k`. -/
def Run.phasePlans (r : Run F) (k : ℕ) : Option (List (Str × PhasePlan F)) :=
  r.phases[k]?.bind fun phase => (workerPhasePlans r.runId r.program k phase).toOption

/-- The waits for the events of the worker in these phases. -/
def Run.awaits (r : Run F) (w : Str) : List ℕ → List Await
  | [] => []
  | k :: ks => match r.phasePlans k with
    | none => []
    | some plans => (match plans.find? fun q => q.1 = w with
      | some q => [⟨q.2.phaseExecutionId, .started⟩, ⟨q.2.phaseExecutionId, .completed⟩]
      | none => []) ++ r.awaits w ks

def Run.awaitsFrom (r : Run F) (w : Str) (k : ℕ) : List Await :=
  r.awaits w (List.range' k (r.phases.length - k))

variable {r : Run F} {k : ℕ} {executionId : Option Str} {workers : List Str}

theorem Run.PhaseWorkers.awaitsFrom (h : r.PhaseWorkers k executionId workers) (w : Str) :
    ∃ id, executionId = some id ∧ r.awaitsFrom w k =
      (if w ∈ workers then [⟨id, .started⟩, ⟨id, .completed⟩] else []) ++ r.awaitsFrom w (k + 1) := by
  obtain ⟨phase, plans, hphase, hplans, ⟨q, hq, rfl⟩, rfl⟩ := h
  obtain ⟨hlt, -⟩ := List.getElem?_eq_some_iff.1 hphase
  obtain ⟨sha, -, hids⟩ := plans_executionId hplans
  have hrange : List.range' k (r.phases.length - k) =
      k :: List.range' (k + 1) (r.phases.length - (k + 1)) := by
    rw [show r.phases.length - k = (r.phases.length - (k + 1)) + 1 by omega, List.range'_succ]
  have hmem : w ∈ (Task.prepareCalls k plans).map Call.worker ↔ ∃ p ∈ plans, p.1 = w := by
    simp only [List.mem_map, mem_prepareCalls]
    constructor
    · rintro ⟨c, ⟨p, hp, rfl⟩, rfl⟩
      exact ⟨p, hp, rfl⟩
    · rintro ⟨p, hp, rfl⟩
      exact ⟨_, ⟨p, hp, rfl⟩, rfl⟩
  refine ⟨_, rfl, ?_⟩
  unfold Run.awaitsFrom
  rw [hrange, Run.awaits, Run.phasePlans, hphase, Option.bind_some, hplans]
  simp only [Except.toOption]
  congr 1
  cases hfind : plans.find? fun q => q.1 = w with
  | none =>
    rw [if_neg]
    rw [hmem]
    rintro ⟨p, hp, hpw⟩
    exact List.find?_eq_none.1 hfind p hp (decide_eq_true hpw)
  | some p =>
    have hp := List.mem_of_find?_eq_some hfind
    have hpw := List.find?_some hfind
    rw [if_pos (hmem.2 ⟨p, hp, of_decide_eq_true hpw⟩)]
    simp only [hids p hp, hids q hq]

/-- Waits of a phase that are over at this stage. -/
def WaitStage.index : WaitStage → ℕ
  | .started => 0
  | .completed => 1

/-- The phase all whose waits are left during the fan-out. -/
def Fan.phase : Fan → Option ℕ
  | .disable => some 0
  | .prepare k | .start k _ => some k
  | .stop _ => none

/-- The waits for the worker that are left. -/
def Task.remaining (t : Task F) (w : Str) : List Await :=
  match t.pc with
  | .fanOut fan _ _ => (fan.phase.map (t.awaitsFrom w)).getD []
  | .waiting k _ stage waits => match waits.find? fun x => x.worker = w with
    | none => t.awaitsFrom w k
    | some x => match x.status with
      | .waiting => (t.awaitsFrom w k).drop stage.index
      | .got _ => (t.awaitsFrom w k).drop (stage.index + 1)
      | .failed => []
  | _ => []

variable {t t' : Task F}

omit [PyText F] in
theorem find?_waitAll (ws : List Str) (w : Str) :
    (ws.map fun w => ({ worker := w } : Wait F)).find? (fun x => x.worker = w) =
      if w ∈ ws then some { worker := w } else none := by
  induction ws with
  | nil => rfl
  | cons v ws ih =>
    rw [List.map_cons, List.find?_cons]
    by_cases h : v = w
    · simp [h]
    · simp only [h, decide_false, ih, List.mem_cons]
      simp [Ne.symm h]

theorem Task.remaining_waitAll {k startAtUs : ℕ} {stage : WaitStage} {workers : List Str} (w : Str) :
    (t.waitAll k startAtUs stage workers).remaining w =
      if w ∈ workers then (t.awaitsFrom w k).drop stage.index else t.awaitsFrom w k := by
  unfold Task.remaining Task.waitAll
  simp only [find?_waitAll]
  split_ifs <;> rfl

theorem Task.remaining_of_waiting {k startAtUs : ℕ} {stage : WaitStage} {waits : List (Wait F)}
    (hpc : t.pc = .waiting k startAtUs stage waits) (hgot : Task.AllGot waits) (w : Str) :
    t.remaining w = if w ∈ waits.map Wait.worker then (t.awaitsFrom w k).drop (stage.index + 1)
      else t.awaitsFrom w k := by
  unfold Task.remaining
  rw [hpc]
  simp only
  cases hfind : waits.find? fun x => x.worker = w with
  | none =>
    rw [if_neg]
    intro hw
    obtain ⟨x, hx, hxw⟩ := List.mem_map.1 hw
    exact List.find?_eq_none.1 hfind x hx (decide_eq_true hxw)
  | some x =>
    have hx := List.mem_of_find?_eq_some hfind
    obtain ⟨e, he⟩ := hgot x hx
    have hxw := List.find?_some hfind
    rw [if_pos (List.mem_map.2 ⟨x, hx, of_decide_eq_true hxw⟩)]
    simp only [he]

/-- When a phase begins the waits from it on are left. -/
theorem Task.remaining_before {k : ℕ} (hat : t.AtPhase) (h : t.Before k) (w : Str) :
    t.remaining w = t.awaitsFrom w k := by
  cases h with
  | first hpc =>
    unfold Task.remaining
    rw [hpc]
    rfl
  | @next k startAtUs waits hpc hgot =>
    obtain ⟨id, -, hfrom⟩ := (hat.waiting hpc).awaitsFrom w
    rw [Task.remaining_of_waiting hpc hgot, hfrom]
    split_ifs <;> rfl

omit [PyText F] in
theorem find?_setWaitStatus {w v : Str} {status : WaitStatus F} {waits : List (Wait F)} :
    (setWaitStatus w status waits).find? (fun x => x.worker = v) =
      (waits.find? fun x => x.worker = v).map fun x =>
        if v = w then { x with status := status } else x := by
  unfold setWaitStatus
  rw [List.find?_map]
  have hworker : ((fun x : Wait F => decide (x.worker = v)) ∘ fun x : Wait F =>
      if x.worker = w then { x with status := status } else x) = fun x => decide (x.worker = v) := by
    funext x
    simp only [Function.comp_apply]
    split_ifs <;> rfl
  rw [hworker]
  cases hfind : waits.find? fun x => x.worker = v with
  | none => rfl
  | some x =>
    have hxw : x.worker = v := of_decide_eq_true (List.find?_some hfind :)
    rw [Option.map_some, Option.map_some, hxw]

/-- A step that is no event leaves the waits of a worker as they are, or none. -/
theorem Task.remaining_of_move [PyFloat F] {l : Task.Label F} (hat : t.AtPhase)
    (hm : Task.Move t l t') (hl : ∀ w e, l ≠ .event w e) (w : Str) :
    t'.remaining w = t.remaining w ∨ t'.remaining w = [] := by
  cases hm with
  | sent hpc | finished hpc | cancelCalls hpc =>
    left
    unfold Task.remaining
    rw [hpc]
  | delivered => exact absurd rfl (hl _ _)
  | @waitFailed k startAtUs stage waits w' hpc =>
    unfold Task.remaining
    rw [hpc]
    simp only [find?_setWaitStatus]
    cases waits.find? fun x => x.worker = w with
    | none => exact .inl rfl
    | some x =>
      simp only [Option.map_some]
      split_ifs
      · exact .inr rfl
      · exact .inl rfl
  | cancelWaits | drained => exact .inr rfl
  | resumed hr =>
    cases hr with
    | fail | complete | drain | completed | failed => exact .inr rfl
    | prepare hbefore => exact .inl (Task.remaining_before hat hbefore w).symm
    | start hpc =>
      left
      unfold Task.remaining
      rw [hpc]
      rfl
    | awaitStarted hpc =>
      left
      rw [Task.remaining_waitAll]
      unfold Task.remaining
      rw [hpc]
      exact ite_self _
    | awaitCompleted hpc hgot =>
      left
      rw [Task.remaining_waitAll, Task.remaining_of_waiting hpc hgot]
      rfl

end Awaits

/-! ## Runs that differ in what was delivered -/

/-- Commands and answers, not events. -/
def Obs.isCommand : Obs F → Bool
  | .delivered _ _ => false
  | _ => true

/-- The same run, but for the events it was delivered. -/
structure Task.Alike (t u : Task F) : Prop where
  task : u = { t with history := u.history }
  commands : u.history.filter Obs.isCommand = t.history.filter Obs.isCommand

section Alike

variable {t u : Task F}

theorem Task.Alike.refl (t : Task F) : t.Alike t := ⟨rfl, rfl⟩

theorem Task.Alike.symm (h : t.Alike u) : u.Alike t := by
  refine ⟨?_, h.commands.symm⟩
  rw [h.task]

theorem Task.Alike.trans {v : Task F} (h : t.Alike u) (h' : u.Alike v) : t.Alike v := by
  refine ⟨?_, h'.commands.trans h.commands⟩
  rw [h'.task, h.task]

theorem Task.Alike.pc (h : t.Alike u) : u.pc = t.pc := by rw [h.task]

theorem Task.Alike.toRun (h : t.Alike u) : u.toRun = t.toRun := by rw [h.task]

theorem Task.Alike.executionId (h : t.Alike u) :
    u.currentPhaseExecutionId = t.currentPhaseExecutionId := by rw [h.task]

/-- One more observation of both. -/
theorem Task.Alike.observe (h : t.Alike u) (pc : Pc F) (o : Obs F) :
    Task.Alike { t with pc := pc, history := t.history ++ [o] }
      { u with pc := pc, history := u.history ++ [o] } := by
  refine ⟨?_, ?_⟩
  · rw [h.task]
  · simp only [List.filter_append, h.commands]

theorem Task.Alike.setPc (h : t.Alike u) (pc : Pc F) :
    Task.Alike { t with pc := pc } { u with pc := pc } := by
  refine ⟨?_, h.commands⟩
  rw [h.task]

/-- An event delivered to the second only. -/
theorem Task.Alike.delivered (h : t.Alike u) (w : Str) (e : Val F) :
    t.Alike { u with history := u.history ++ [Obs.delivered w e] } := by
  refine ⟨?_, ?_⟩
  · rw [h.task]
  · rw [List.filter_append, h.commands]
    exact List.append_nil _

section Resume

variable [PyText F]

/-- What follows an `await` does not depend on what was delivered before. -/
theorem Task.beginPhase_history (t : Task F) (history : List (Obs F)) (k : ℕ) :
    Task.beginPhase { t with history := history } k = { t.beginPhase k with history := history } := by
  unfold Task.beginPhase
  dsimp only
  split
  · rfl
  · split
    · rfl
    · split
      · rfl
      · split_ifs
        · split <;> rfl
        · rfl

variable [Cbor F] [Sha256] [PyFloat F] (cfg : Setup F)

theorem Task.afterStarted_history (t : Task F) (history : List (Obs F)) (k startAtUs : ℕ)
    (waits : List (Wait F)) (appendError : Option Str) :
    Task.afterStarted cfg { t with history := history } k startAtUs waits appendError =
      ({ (t.afterStarted cfg k startAtUs waits appendError).1 with history := history },
        (t.afterStarted cfg k startAtUs waits appendError).2) := by
  unfold Task.afterStarted
  dsimp only
  split
  · rfl
  · split
    · rfl
    · split_ifs
      · cases appendError <;> rfl
      · split
        · cases appendError <;> rfl
        · cases appendError <;> rfl

theorem Task.afterFanOut_history (t : Task F) (history : List (Obs F)) (fan : Fan)
    (calls : List (Call F)) (nowUs : ℕ) (appendError : Option Str) :
    Task.afterFanOut cfg { t with history := history } fan calls nowUs appendError =
      ({ (t.afterFanOut cfg fan calls nowUs appendError).1 with history := history },
        (t.afterFanOut cfg fan calls nowUs appendError).2) := by
  unfold Task.afterFanOut
  cases fan with
  | disable =>
    dsimp only
    rw [Task.beginPhase_history]
    split_ifs
    · rfl
    · cases appendError <;> rfl
  | prepare k =>
    dsimp only
    split_ifs
    · rfl
    · cases appendError <;> rfl
  | start k startAtUs =>
    have hack : calls.all (Task.scheduledAck { t with history := history }) =
        calls.all t.scheduledAck := rfl
    dsimp only
    rw [hack]
    split_ifs
    · rfl
    · cases appendError <;> rfl
  | stop failure =>
    cases failure with
    | none =>
      dsimp only
      split_ifs
      · rfl
      · cases appendError <;> rfl
    | some failure => rfl

theorem Task.resume_history (t : Task F) (history : List (Obs F)) (nowUs : ℕ)
    (appendError : Option Str) :
    Task.resume cfg { t with history := history } nowUs appendError =
      (t.resume cfg nowUs appendError).map fun r => ({ r.1 with history := history }, r.2) := by
  unfold Task.resume
  dsimp only
  split
  · split_ifs
    · split <;> rfl
    · rw [Task.afterFanOut_history]
      rfl
    · rfl
  · split_ifs
    · rfl
    · split
      · rw [Task.afterStarted_history]
        rfl
      · rw [Task.beginPhase_history]
        cases appendError <;> rfl
    · rfl
  · split_ifs <;> rfl
  · rfl

omit [Cbor F] [Sha256] [PyFloat F] in
theorem Task.Resumed.history (h : Task.Resumed t u) : u.history = t.history := by
  cases h <;> rfl

/-- A step that is no event is a step of a run that is alike. -/
theorem Task.Alike.step (h : t.Alike u) {l : Task.Label F} (hl : ∀ w e, l ≠ .event w e)
    {r : Task F × Option (Val F)} (hs : t.step cfg l = some r) :
    ∃ q, u.step cfg l = some q ∧ r.1.Alike q.1 ∧ q.2 = r.2 := by
  cases l with
  | event w e => exact absurd rfl (hl w e)
  | resume nowUs appendError =>
    refine ⟨({ r.1 with history := u.history }, r.2), ?_, ⟨rfl, ?_⟩, rfl⟩
    · show u.resume cfg nowUs appendError = _
      rw [h.task, Task.resume_history, show t.resume cfg nowUs appendError = some r from hs]
      rfl
    · have hr : t.Resumed r.1 :=
        .of_resume (show t.resume cfg nowUs appendError = some (r.1, r.2) from hs)
      rw [hr.history]
      exact h.commands
  | begin w =>
    obtain ⟨t', hb, rfl⟩ := Option.map_eq_some_iff.1 hs
    unfold Task.begin at hb
    split at hb
    · rename_i hpc
      split at hb
      · rename_i hfind
        cases hb
        refine ⟨(_, none), ?_, h.observe _ _, rfl⟩
        simp only [Task.step, Task.begin, h.pc, hpc, hfind, Option.map_some]
      · cases hb
    · cases hb
  | reply w reply =>
    obtain ⟨t', hb, rfl⟩ := Option.map_eq_some_iff.1 hs
    unfold Task.answer at hb
    split at hb
    · rename_i hpc
      split at hb
      · rename_i hfind
        cases hb
        refine ⟨(_, none), ?_, h.observe _ _, rfl⟩
        simp only [Task.step, Task.answer, h.pc, hpc, hfind, Option.map_some]
      · cases hb
    · cases hb
  | waitError w =>
    obtain ⟨t', hb, rfl⟩ := Option.map_eq_some_iff.1 hs
    unfold Task.setWait at hb
    split at hb
    · rename_i hpc
      split_ifs at hb with hany
      cases hb
      refine ⟨(_, none), ?_, h.setPc _, rfl⟩
      simp only [Task.step, Task.setWait, h.pc, hpc, hany, if_true, Option.map_some]
    · cases hb
  | waiterEnd w =>
    obtain ⟨t', hb, rfl⟩ := Option.map_eq_some_iff.1 hs
    unfold Task.waiterEnd at hb
    split at hb
    · rename_i hpc
      split_ifs at hb with hmem
      cases hb
      refine ⟨(_, none), ?_, h.setPc _, rfl⟩
      simp only [Task.step, Task.waiterEnd, h.pc, hpc, hmem, if_true, Option.map_some]
    · cases hb
  | cancel =>
    obtain ⟨t', hb, rfl⟩ := Option.map_eq_some_iff.1 hs
    unfold Task.cancel at hb
    split at hb
    · rename_i hpc
      cases hb
      refine ⟨(_, none), ?_, h.setPc _, rfl⟩
      simp only [Task.step, Task.cancel, h.pc, hpc, Option.map_some]
    · rename_i hpc
      cases hb
      refine ⟨(_, none), ?_, h.setPc _, rfl⟩
      simp only [Task.step, Task.cancel, h.pc, hpc, Option.map_some]
    · rename_i hpc
      cases hb
      refine ⟨(_, none), ?_, h.setPc _, rfl⟩
      simp only [Task.step, Task.cancel, h.pc, hpc, Option.map_some]
    · cases hb

end Resume

end Alike

/-! ## A run fed from streams -/

/-- A run, what the queues of its workers will give it, and what it has written. -/
structure Fed (F : Type) where
  task : Task F
  feeds : Str → List (Val F)
  journal : List (Val F) := []

/-- The waiter of a worker takes the next event of its queue, or the run takes another step. -/
inductive Fed.Label (F : Type) where
  | next (w : Str)
  | act (l : Task.Label F)

/-- A step as it shows outside of the queues. -/
def Fed.Label.view : Fed.Label F → Option (Task.Label F)
  | .next _ => none
  | .act l => some l

section Fed

variable [Cbor F] [Sha256] [PyFloat F] [PyText F] (cfg : Setup F)

def Fed.step (s : Fed F) : Fed.Label F → Option (Fed F)
  | .next w => match s.feeds w with
    | [] => none
    | e :: es => (s.task.deliver w e).map fun t =>
      { s with task := t, feeds := Function.update s.feeds w es }
  | .act (.event _ _) => none
  | .act l => (s.task.step cfg l).map fun r =>
    { s with task := r.1, journal := s.journal ++ r.2.toList }

variable {cfg}

theorem Fed.step_act {s s' : Fed F} {l : Task.Label F} (h : s.step cfg (.act l) = some s') :
    (∀ w e, l ≠ .event w e) ∧ ∃ r, s.task.step cfg l = some r ∧
      s' = { s with task := r.1, journal := s.journal ++ r.2.toList } := by
  cases l with
  | event w e => cases h
  | _ =>
    obtain ⟨r, hr, rfl⟩ := Option.map_eq_some_iff.1 h
    exact ⟨nofun, r, hr, rfl⟩

theorem Fed.step_next {s : Fed F} {w : Str} {e : Val F} {es : List (Val F)} (h : s.feeds w = e :: es) :
    s.step cfg (.next w) = (s.task.deliver w e).map fun t =>
      { s with task := t, feeds := Function.update s.feeds w es } := by
  show (match s.feeds w with
    | [] => none
    | e :: es => (s.task.deliver w e).map fun t =>
      { s with task := t, feeds := Function.update s.feeds w es }) = _
  rw [h]

omit [Cbor F] [Sha256] [PyText F] in
theorem Task.deliver_of_waiting {t : Task F} {k startAtUs : ℕ} {stage : WaitStage}
    {waits : List (Wait F)} (hpc : t.pc = .waiting k startAtUs stage waits) {w : Str}
    (hw : ⟨w, .waiting⟩ ∈ waits) (e : Val F) :
    t.deliver w e = some { t with
      pc := .waiting k startAtUs stage (setWaitStatus w (t.classify stage e) waits)
      history := t.history ++ [Obs.delivered w e] } := by
  have hany : (waits.any fun x => x.worker = w && x.isWaiting) = true :=
    List.any_eq_true.2 ⟨_, hw, by simp [Wait.isWaiting]⟩
  unfold Task.deliver Task.setWait
  rw [hpc]
  simp only [hany, if_true, Option.map_some]

omit [Cbor F] [Sha256] [PyFloat F] [PyText F] in
theorem setWaitStatus_waiting {waits : List (Wait F)} (hnd : (waits.map Wait.worker).Nodup) {w : Str}
    (hw : ⟨w, .waiting⟩ ∈ waits) : setWaitStatus w .waiting waits = waits := by
  unfold setWaitStatus
  conv_rhs => rw [← List.map_id waits]
  refine List.map_congr_left fun x hx => ?_
  split_ifs with hxw
  · rw [List.inj_on_of_nodup_map hnd hx hw hxw]
    rfl
  · rfl

variable (cfg) in
/-- The waiter of the worker takes stale events and goes on waiting. -/
theorem Fed.skip {s : Fed F} {k startAtUs : ℕ} {stage : WaitStage} {waits : List (Wait F)} {id w : Str}
    (hpc : s.task.pc = .waiting k startAtUs stage waits) (hnd : (waits.map Wait.worker).Nodup)
    (hw : ⟨w, .waiting⟩ ∈ waits) (hid : s.task.currentPhaseExecutionId = some id)
    {stale es : List (Val F)} (hfeed : s.feeds w = stale ++ es)
    (hstale : ∀ x ∈ stale, s.task.isStale ⟨id, stage⟩ x = true) :
    ∃ ks t, Transition.run (Fed.step cfg) s ks =
        some { s with task := t, feeds := Function.update s.feeds w es } ∧
      s.task.Alike t ∧ ks.filterMap Fed.Label.view = [] := by
  induction stale generalizing s with
  | nil =>
    refine ⟨[], s.task, ?_, .refl _, rfl⟩
    rw [List.nil_append] at hfeed
    rw [Transition.run_nil, ← hfeed, Function.update_eq_self]
  | cons x stale ih =>
    rw [List.forall_mem_cons] at hstale
    have hwaiting : s.task.classify stage x = .waiting :=
      Task.classify_of_stale (a := ⟨id, stage⟩) hid hstale.1
    have hdeliver := Task.deliver_of_waiting hpc hw x
    rw [hwaiting, setWaitStatus_waiting hnd hw, ← hpc] at hdeliver
    have hstep : s.step cfg (.next w) = some { s with
        task := { s.task with history := s.task.history ++ [Obs.delivered w x] }
        feeds := Function.update s.feeds w (stale ++ es) } := by
      rw [Fed.step_next hfeed, hdeliver]
      rfl
    have halike : s.task.Alike { s.task with history := s.task.history ++ [Obs.delivered w x] } :=
      (Task.Alike.refl _).delivered w x
    obtain ⟨ks, t, hrun, ht, hview⟩ := ih (s := { s with
      task := { s.task with history := s.task.history ++ [Obs.delivered w x] }
      feeds := Function.update s.feeds w (stale ++ es) }) hpc hid
      (Function.update_self ..) hstale.2
    refine ⟨.next w :: ks, t, ?_, ⟨?_, ?_⟩, hview⟩
    · rw [Transition.run_cons, hstep]
      simp only [Option.bind_some, hrun, Function.update_idem]
    · rw [ht.task]
    · rw [ht.commands, halike.commands]

/-- Two fed runs that have sent, been answered and written the same, with the same relevant events
to come. -/
structure Fed.Follows (s s' : Fed F) : Prop where
  alike : s.task.Alike s'.task
  journal : s'.journal = s.journal
  atPhase : s.task.AtPhase
  relevant : ∀ w, s.task.relevant (s.task.remaining w) (s'.feeds w) =
    s.task.relevant (s.task.remaining w) (s.feeds w)

theorem Fed.Follows.act {s s₁ s' : Fed F} (h : s.Follows s') {l : Task.Label F}
    (hs : s.step cfg (.act l) = some s₁) :
    ∃ s₁', s'.step cfg (.act l) = some s₁' ∧ s₁.Follows s₁' := by
  obtain ⟨hl, r, hr, rfl⟩ := Fed.step_act hs
  obtain ⟨q, hq, halike, hevent⟩ := h.alike.step cfg hl hr
  have hstep : s'.step cfg (.act l) =
      some { s' with task := q.1, journal := s'.journal ++ q.2.toList } := by
    cases l with
    | event w e => exact absurd rfl (hl w e)
    | _ => exact congrArg (Option.map _) hq
  have hm := Task.move_of_step (show s.task.step cfg l = some (r.1, r.2) from hr)
  refine ⟨_, hstep, halike, ?_, h.atPhase.move hm, fun w => ?_⟩
  · rw [h.journal, hevent]
  · have hrun : r.1.runId = s.task.runId := by rw [Task.toRun_of_move hm]
    simp only [Task.relevant_congr hrun]
    rcases Task.remaining_of_move h.atPhase hm hl w with hrem | hrem
    · rw [hrem]
      exact h.relevant w
    · rw [hrem, Task.relevant_nil, Task.relevant_nil]

section Delivered

omit [Cbor F] [Sha256]

variable {t : Task F} {k startAtUs : ℕ} {stage : WaitStage} {waits : List (Wait F)} {id w : Str}

omit [PyFloat F] in
theorem Task.remaining_of_find {x : Wait F} (hpc : t.pc = .waiting k startAtUs stage waits)
    (hfind : waits.find? (fun x => x.worker = w) = some x) :
    t.remaining w = match x.status with
      | .waiting => (t.awaitsFrom w k).drop stage.index
      | .got _ => (t.awaitsFrom w k).drop (stage.index + 1)
      | .failed => [] := by
  unfold Task.remaining
  rw [hpc]
  simp only [hfind]

omit [PyFloat F] [PyText F] in
theorem find?_of_waiting (hnd : (waits.map Wait.worker).Nodup) (hw : ⟨w, .waiting⟩ ∈ waits) :
    waits.find? (fun x => x.worker = w) = some ⟨w, .waiting⟩ := by
  cases hfind : waits.find? fun x => x.worker = w with
  | none => exact absurd rfl (of_decide_eq_false (Bool.eq_false_iff.2 (List.find?_eq_none.1 hfind _ hw)))
  | some x =>
    have hxw : x.worker = w := of_decide_eq_true (List.find?_some hfind :)
    rw [List.inj_on_of_nodup_map hnd (List.mem_of_find?_eq_some hfind) hw hxw]

omit [PyFloat F] in
/-- A worker that is waited for has the current wait before it. -/
theorem Task.remaining_waiting (hat : t.AtPhase) (hpc : t.pc = .waiting k startAtUs stage waits)
    (hnd : (waits.map Wait.worker).Nodup) (hw : ⟨w, .waiting⟩ ∈ waits)
    (hid : t.currentPhaseExecutionId = some id) :
    t.remaining w = ⟨id, stage⟩ :: (t.awaitsFrom w k).drop (stage.index + 1) := by
  obtain ⟨id', hid', hfrom⟩ := (hat.waiting hpc).awaitsFrom w
  rw [hid] at hid'
  cases hid'
  rw [if_pos (List.mem_map.2 ⟨_, hw, rfl⟩)] at hfrom
  rw [Task.remaining_of_find hpc (find?_of_waiting hnd hw), hfrom]
  cases stage <;> rfl

/-- What is left after an event. -/
theorem Task.remaining_delivered (hat : t.AtPhase) (hpc : t.pc = .waiting k startAtUs stage waits)
    (hnd : (waits.map Wait.worker).Nodup) (hw : ⟨w, .waiting⟩ ∈ waits)
    (hid : t.currentPhaseExecutionId = some id) (e : Val F) (history : List (Obs F)) (v : Str) :
    Task.remaining { t with
      pc := .waiting k startAtUs stage (setWaitStatus w (t.classify stage e) waits)
      history := history } v =
      if v = w then t.following ⟨id, stage⟩ ((t.awaitsFrom w k).drop (stage.index + 1)) e
      else t.remaining v := by
  split_ifs with hv
  · have hfind : (setWaitStatus w (t.classify stage e) waits).find? (fun x => x.worker = v) =
        some ⟨w, t.classify stage e⟩ := by
      rw [hv, find?_setWaitStatus, find?_of_waiting hnd hw, Option.map_some, if_pos rfl]
    have hdrop := Task.remaining_waiting hat hpc hnd hw hid
    rw [Task.remaining_of_find hpc (find?_of_waiting hnd hw)] at hdrop
    rw [Task.remaining_of_find rfl hfind, hv]
    unfold Task.following
    rw [Task.classify_congr (t := t) (u := { t with currentPhaseExecutionId := some id }) rfl hid.symm]
    cases t.classify stage e with
    | waiting => exact hdrop
    | got | failed => rfl
  · unfold Task.remaining
    rw [hpc]
    simp only [find?_setWaitStatus, if_neg hv]
    cases waits.find? fun x => x.worker = v <;> rfl

theorem Task.relevant_delivered (hat : t.AtPhase) (hpc : t.pc = .waiting k startAtUs stage waits)
    (hnd : (waits.map Wait.worker).Nodup) (hw : ⟨w, .waiting⟩ ∈ waits)
    (hid : t.currentPhaseExecutionId = some id) (e : Val F) (history : List (Obs F)) (v : Str)
    (es : List (Val F)) :
    Task.relevant { t with
      pc := .waiting k startAtUs stage (setWaitStatus w (t.classify stage e) waits)
      history := history } (Task.remaining { t with
      pc := .waiting k startAtUs stage (setWaitStatus w (t.classify stage e) waits)
      history := history } v) es =
      t.relevant (if v = w then t.following ⟨id, stage⟩ ((t.awaitsFrom w k).drop (stage.index + 1)) e
        else t.remaining v) es := by
  rw [Task.remaining_delivered hat hpc hnd hw hid]
  apply Task.relevant_congr
  rfl

end Delivered

/-- An event of the first run is skipped by the second when it is stale, and otherwise taken after
the stale ones before it. -/
theorem Fed.Follows.next {s s₁ s' : Fed F} (h : s.Follows s') {w : Str}
    (hs : s.step cfg (.next w) = some s₁) :
    ∃ ks s₁', Transition.run (Fed.step cfg) s' ks = some s₁' ∧ s₁.Follows s₁' ∧
      ks.filterMap Fed.Label.view = [] := by
  cases hfeed : s.feeds w with
  | nil =>
    rw [show s.step cfg (.next w) = none from by
      show (match s.feeds w with
        | [] => none
        | e :: es => _) = _
      rw [hfeed]] at hs
    cases hs
  | cons e es =>
    rw [Fed.step_next hfeed] at hs
    obtain ⟨t₁, hd, rfl⟩ := Option.map_eq_some_iff.1 hs
    obtain ⟨_, hset, -⟩ := Option.map_eq_some_iff.1 hd
    obtain ⟨k, startAtUs, stage, waits, hpc, hw, -⟩ := Task.setWait_eq_some hset
    rw [Task.deliver_of_waiting hpc hw] at hd
    cases hd
    obtain ⟨_, plans, -, hplans, ⟨q, -, hid⟩, hworkers⟩ := h.atPhase.waiting hpc
    have hnd : (waits.map Wait.worker).Nodup := by
      rw [hworkers]
      exact workers_prepareCalls (nodup_plans hplans)
    set id := q.2.phaseExecutionId with hidq
    have hrem := Task.remaining_waiting h.atPhase hpc hnd hw hid
    have hat : Task.AtPhase { s.task with
        pc := .waiting k startAtUs stage (setWaitStatus w (s.task.classify stage e) waits)
        history := s.task.history ++ [Obs.delivered w e] } := h.atPhase.move (.delivered hpc hw)
    have hnext := h.relevant w
    rw [hrem, hfeed, Task.relevant] at hnext
    by_cases hstale : s.task.isStale ⟨id, stage⟩ e = true
    · rw [if_pos hstale] at hnext
      have hwaiting : s.task.classify stage e = .waiting :=
        Task.classify_of_stale (a := ⟨id, stage⟩) hid hstale
      have hsame : Task.Alike s.task { s.task with
          pc := .waiting k startAtUs stage (setWaitStatus w (s.task.classify stage e) waits)
          history := s.task.history ++ [Obs.delivered w e] } := by
        rw [hwaiting, setWaitStatus_waiting hnd hw, ← hpc]
        exact (Task.Alike.refl _).delivered w e
      refine ⟨[], s', rfl, ⟨hsame.symm.trans h.alike, h.journal, hat, fun v => ?_⟩, rfl⟩
      dsimp only
      rw [Task.relevant_delivered h.atPhase hpc hnd hw hid,
        Task.relevant_delivered h.atPhase hpc hnd hw hid]
      by_cases hv : v = w
      · have hfollowing : s.task.following ⟨id, stage⟩ ((s.task.awaitsFrom w k).drop (stage.index + 1))
            e = ⟨id, stage⟩ :: (s.task.awaitsFrom w k).drop (stage.index + 1) := by
          unfold Task.following
          rw [Task.classify_congr (t := s.task)
            (u := { s.task with currentPhaseExecutionId := some id }) rfl hid.symm, hwaiting]
        rw [if_pos hv, hv, Function.update_self, hfollowing]
        exact hnext
      · rw [if_neg hv, Function.update_of_ne hv]
        exact h.relevant v
    · rw [if_neg hstale] at hnext
      obtain ⟨stale, es', hfeed', hall, -, hrest⟩ := Task.relevant_eq_cons hnext
      have hrun : s'.task.runId = s.task.runId := congrArg Run.runId h.alike.toRun
      have hall' : ∀ x ∈ stale, s'.task.isStale ⟨id, stage⟩ x = true := by
        intro x hx
        rw [Task.isStale_congr hrun]
        exact hall x hx
      obtain ⟨ks, t', hks, halike, hview⟩ := Fed.skip cfg (h.alike.pc.trans hpc) hnd hw
        (h.alike.executionId.trans hid) hfeed' hall'
      have halike' := h.alike.trans halike
      have hclassify : t'.classify stage e = s.task.classify stage e :=
        Task.classify_congr (congrArg Run.runId halike'.toRun) halike'.executionId stage e
      have hstep : Fed.step cfg { s' with task := t', feeds := Function.update s'.feeds w (e :: es') }
          (.next w) = some { s' with
            task := { t' with
              pc := .waiting k startAtUs stage (setWaitStatus w (s.task.classify stage e) waits)
              history := t'.history ++ [Obs.delivered w e] }
            feeds := Function.update s'.feeds w es' } := by
        rw [Fed.step_next (Function.update_self ..),
          Task.deliver_of_waiting (halike'.pc.trans hpc) hw, hclassify]
        simp only [Option.map_some, Function.update_idem]
      have hrun' : Transition.run (Fed.step cfg) s' (ks ++ [Label.next w]) = some { s' with
          task := { t' with
            pc := .waiting k startAtUs stage (setWaitStatus w (s.task.classify stage e) waits)
            history := t'.history ++ [Obs.delivered w e] }
          feeds := Function.update s'.feeds w es' } := by
        rw [Transition.run_append, hks]
        exact Transition.run_cons_eq_some.2 ⟨_, hstep, rfl⟩
      refine ⟨_, _, hrun', ⟨halike'.observe _ _, h.journal, hat, fun v => ?_⟩, ?_⟩
      · dsimp only
        rw [Task.relevant_delivered h.atPhase hpc hnd hw hid,
          Task.relevant_delivered h.atPhase hpc hnd hw hid]
        by_cases hv : v = w
        · rw [if_pos hv, hv, Function.update_self, Function.update_self, hrest]
        · rw [if_neg hv, Function.update_of_ne hv, Function.update_of_ne hv]
          exact h.relevant v
      · rw [List.filterMap_append, hview]
        rfl

/-- Streams with the same relevant events give the same runs: the same steps but for the events
taken, the same commands and answers, the same journal and the same program counter.  An event of
another run, or of another phase of this one, leaves every wait as it is. -/
theorem stale_events_ignored (cfg : Setup F) {t : Task F} (ht : t.Opened cfg) :
    (∀ A B : Str → List (Val F),
      (∀ w, t.relevant (t.awaitsFrom w 0) (A w) = t.relevant (t.awaitsFrom w 0) (B w)) →
        ∀ ls s, Transition.run (Fed.step cfg) ⟨t, A, []⟩ ls = some s →
          ∃ ls' s', Transition.run (Fed.step cfg) ⟨t, B, []⟩ ls' = some s' ∧
            ls'.filterMap Fed.Label.view = ls.filterMap Fed.Label.view ∧
            s'.journal = s.journal ∧ s.task.Alike s'.task) ∧
    ∀ u : Task F, u.AtPhase → u.toRun = t.toRun → ∀ k startAtUs stage waits,
      u.pc = .waiting k startAtUs stage waits → ∀ d,
        (field "run_id" d ≠ .str t.runId ∨ ∃ k' sha, k' ≠ k ∧
          field "phase_execution_id" d = .str (phaseExecutionId t.runId k' sha)) →
          u.classify stage (.dict d) = .waiting := by
  constructor
  · intro A B hAB ls s hrun
    have hrem : ∀ w, t.remaining w = t.awaitsFrom w 0 := by
      intro w
      unfold Task.remaining
      rw [ht.pc]
      rfl
    have hstart : Fed.Follows ⟨t, A, []⟩ ⟨t, B, []⟩ := by
      refine ⟨.refl t, rfl, ht.atPhase, fun w => ?_⟩
      rw [hrem w]
      exact (hAB w).symm
    have hstep : ∀ (s₁ s₁' : Fed F) (l : Fed.Label F) (s₂ : Fed F), s₁.Follows s₁' →
        s₁.step cfg l = some s₂ → ∃ ks s₂', Transition.run (Fed.step cfg) s₁' ks = some s₂' ∧
          s₂.Follows s₂' ∧ ks.filterMap Fed.Label.view = l.view.toList := by
      intro s₁ s₁' l s₂ hR hs
      cases l with
      | next w => exact hR.next hs
      | act l =>
        obtain ⟨s₂', hs', hR'⟩ := hR.act hs
        exact ⟨[.act l], s₂', Transition.run_cons_eq_some.2 ⟨_, hs', rfl⟩, hR', rfl⟩
    obtain ⟨ls', s', hrun', hfollows, hview⟩ := Transition.run_simulation hstep hrun hstart
    exact ⟨ls', s', hrun', hview, hfollows.journal, hfollows.alike⟩
  · intro u hat hrun k startAtUs stage waits hpc d hd
    obtain ⟨phase, plans, -, hplans, ⟨q, hq, hid⟩, -⟩ := hat.waiting hpc
    obtain ⟨sha, -, hids⟩ := plans_executionId hplans
    refine Task.classify_of_stale (a := ⟨q.2.phaseExecutionId, stage⟩) hid ?_
    unfold Task.isStale
    rw [Bool.not_eq_true', Bool.and_eq_false_iff, congrArg Run.runId hrun, hids q hq,
      congrArg Run.runId hrun]
    rcases hd with hd | ⟨k', sha', hk, hd⟩
    · left
      by_contra heq
      exact hd (eq_str_of_eq (Bool.not_eq_false _ ▸ heq))
    · right
      rw [hd]
      simp [Val.eq, phaseExecutionId_ne hk]

end Fed

/-! ### A fault of an earlier run -/

section Demo

local instance staleHash : Sha256 := demoHash

def leftoverFault : Val ℚ :=
  dictOf [("type", .str (py "worker_fault")), ("run_id", .str (py "earlier")),
    ("phase_execution_id", .str (py "earlier:0:000000000000"))]

theorem relevant_leftoverFault {t : Task ℚ} (h : t.runId = py "run") (as : List Await) :
    t.relevant as [leftoverFault] = [] := by
  cases as with
  | nil => rfl
  | cons a as =>
    have hstale : t.isStale a leftoverFault = true := by
      simp [Task.isStale, leftoverFault, dictOf, field, h, Val.eq]
    rw [Task.relevant, if_pos hstale]
    rfl

set_option maxRecDepth 20000 in
theorem stale_events_ignored_demo : ∃ t : Task ℚ, t.Opened demoSetup ∧ t.runId = py "run" ∧
    ∀ ls s, Transition.run (Fed.step demoSetup) ⟨t, fun _ => [leftoverFault], []⟩ ls = some s →
      ∃ ls' s', Transition.run (Fed.step demoSetup) ⟨t, fun _ => [], []⟩ ls' = some s' ∧
        s'.journal = s.journal ∧ s.task.Alike s'.task := by
  have hopen : (System.openRun demoSetup {} (py "run") (py "example_operator") (demoProgram "arm") 0
      none).2.isOk = true := by decide +kernel
  cases ho : System.openRun demoSetup {} (py "run") (py "example_operator") (demoProgram "arm") 0
      none with
  | mk s r =>
    rw [ho] at hopen
    rcases System.openRun_cases ho with ⟨-, e, rfl⟩ | ⟨-, e, _, _, _, -, rfl, -⟩ |
      ⟨-, t, _, _, _, -, hid, ht, -⟩
    · cases hopen
    · cases hopen
    · refine ⟨t, ht, hid, fun ls s hrun => ?_⟩
      have hsame : ∀ w, t.relevant (t.awaitsFrom w 0) [leftoverFault] =
          t.relevant (t.awaitsFrom w 0) [] := by
        intro w
        rw [relevant_leftoverFault hid]
        cases t.awaitsFrom w 0 <;> rfl
      obtain ⟨ls', s', hrun', -, hjournal, halike⟩ := (stale_events_ignored demoSetup ht).1
        (fun _ => [leftoverFault]) (fun _ => []) hsame ls s hrun
      exact ⟨ls', s', hrun', hjournal, halike⟩

end Demo

end RemoteRobot
