import RemoteRobot.Orchestrator.Execute
import RemoteRobot.Orchestrator.Plans

/-!
# What a step can do

`Task.Move` lists the moves of one run with everything their guards say, and `move_of_step` reads
them off the step function.  Every property of all runs is proved from the moves by
`tasks_invariant`.
-/

namespace RemoteRobot

open Py Except

variable {F : Type}

namespace Task

/-! ## Resuming -/

/-- The run is in the stop fan-out of its `except` block. -/
def InFailureStop (t : Task F) : Prop :=
  ∃ failure calls cancelled, t.pc = .fanOut (.stop (some failure)) calls cancelled

/-- Every call came back with a value. -/
def AllReturned (calls : List (Call F)) : Prop :=
  ∀ c ∈ calls, ∃ v, c.status = .finished (.returned v)

def AllGot (waits : List (Wait F)) : Prop := ∀ x ∈ waits, ∃ e, x.status = .got e

/-- The run is about to begin phase `k`. -/
inductive Before (t : Task F) : ℕ → Prop where
  | first {calls} (hpc : t.pc = .fanOut .disable calls false) : Before t 0
  | next {k startAtUs waits} (hpc : t.pc = .waiting k startAtUs .completed waits)
      (hgot : AllGot waits) : Before t (k + 1)

/-- A run suspended elsewhere is neither in the failure stops nor done. -/
theorem not_inFailureStop {t : Task F}
    (hstop : ∀ failure calls cancelled, t.pc ≠ .fanOut (.stop (some failure)) calls cancelled)
    (hopen : ∀ outcome, t.pc ≠ .done outcome) : ¬t.InFailureStop ∧ ¬t.isDone := by
  constructor
  · rintro ⟨failure, calls, cancelled, hpc⟩
    exact hstop failure calls cancelled hpc
  · intro hdone
    unfold isDone at hdone
    split at hdone
    · rename_i outcome hpc
      exact hopen outcome hpc
    · cases hdone

theorem not_inFailureStop_of_fanOut {t : Task F} {fan : Fan} {calls : List (Call F)}
    {cancelled : Bool} (hpc : t.pc = .fanOut fan calls cancelled)
    (hfan : ∀ f, fan ≠ .stop (some f)) : ¬t.InFailureStop ∧ ¬t.isDone := by
  refine not_inFailureStop ?_ ?_
  · simp [hpc, hfan]
  · simp [hpc]

theorem allReturned_of_not_error {calls : List (Call F)}
    (hfin : calls.all (fun c => c.reply.isSome) = true) (herr : ¬calls.any Call.isError = true) :
    AllReturned calls := by
  intro c hc
  have h₁ := List.all_eq_true.1 hfin c hc
  have h₂ : ¬c.isError = true := fun h => herr (List.any_eq_true.2 ⟨c, hc, h⟩)
  obtain ⟨w, command, _ | _ | ⟨_ | _⟩⟩ := c
  · cases h₁
  · cases h₁
  · exact ⟨_, rfl⟩
  · exact absurd rfl h₂

theorem allGot_of_events {waits : List (Wait F)} (h : waits.all (fun w => w.event.isSome) = true) :
    AllGot waits := by
  intro x hx
  have := List.all_eq_true.1 h x hx
  obtain ⟨w, _ | e | _⟩ := x
  · cases this
  · exact ⟨e, rfl⟩
  · cases this

theorem mem_of_find? {calls : List (Call F)} {w w' : Str} {command : Command F}
    {status : CallStatus F} (h : calls.find? (fun c => c.worker = w) = some ⟨w', command, status⟩) :
    ⟨w, command, status⟩ ∈ calls := by
  have hw : w' = w := of_decide_eq_true (List.find?_some h :)
  rw [← hw]
  exact List.mem_of_find?_eq_some h

theorem setWait_eq_some {t t' : Task F} {w : Str} {status : WaitStage → WaitStatus F}
    (h : t.setWait w status = some t') :
    ∃ k startAtUs stage waits, t.pc = .waiting k startAtUs stage waits ∧ ⟨w, .waiting⟩ ∈ waits ∧
      t' = { t with pc := .waiting k startAtUs stage (setWaitStatus w (status stage) waits) } := by
  unfold Task.setWait at h
  split at h
  · rename_i k startAtUs stage waits hpc
    split_ifs at h with hany
    obtain ⟨⟨w', status'⟩, hx, hw⟩ := List.any_eq_true.1 hany
    rw [Bool.and_eq_true, decide_eq_true_iff] at hw
    obtain ⟨rfl, hwaiting⟩ := hw
    cases status' with
    | waiting => exact ⟨k, startAtUs, stage, waits, hpc, hx, (Option.some.inj h).symm⟩
    | _ => cases hwaiting
  · cases h

section Resumed

variable [PyText F]

/-- Where the run goes on after an `await` that is over. -/
inductive Resumed (t : Task F) : Task F → Prop where
  | fail {phase executionId failure} (hpc : ¬t.InFailureStop) (hdone : ¬t.isDone) :
      Resumed t (Task.stopAll
        { t with currentPhase := phase, currentPhaseExecutionId := executionId } (some failure))
  | complete {k} (hbefore : t.Before k) (hend : t.phases[k]? = none) : Resumed t (t.stopAll none)
  | prepare {k phase plans q name} (hbefore : t.Before k) (hphase : t.phases[k]? = some phase)
      (hplans : workerPhasePlans t.runId t.program k phase = .ok plans) (hq : q ∈ plans)
      (hpart : ∀ p ∈ plans, p.1 ∈ t.participants) :
      Resumed t { t with
        currentPhase := name
        currentPhaseExecutionId := some q.2.phaseExecutionId
        pc := .fanOut (.prepare k) (prepareCalls k plans) false }
  | start {k startAtUs calls} (hpc : t.pc = .fanOut (.prepare k) calls false)
      (hret : AllReturned calls) :
      Resumed t { t with
        pc := .fanOut (.start k startAtUs)
          (calls.map fun c => ⟨c.worker, .startPhase k startAtUs, .created⟩) false }
  | awaitStarted {k startAtUs calls} (hpc : t.pc = .fanOut (.start k startAtUs) calls false)
      (hret : AllReturned calls) :
      Resumed t (t.waitAll k startAtUs .started (calls.map Call.worker))
  | awaitCompleted {k startAtUs waits} (hpc : t.pc = .waiting k startAtUs .started waits)
      (hgot : AllGot waits) : Resumed t (t.waitAll k startAtUs .completed (waits.map Wait.worker))
  | drain {k startAtUs stage waits failure pending} (hpc : t.pc = .waiting k startAtUs stage waits) :
      Resumed t { t with pc := .draining failure pending }
  | completed {calls} (hpc : t.pc = .fanOut (.stop none) calls false) (hret : AllReturned calls) :
      Resumed t { t with pc := .done .completed }
  | failed {failure failure' calls cancelled}
      (hpc : t.pc = .fanOut (.stop (some failure)) calls cancelled)
      (hfin : ∀ c ∈ calls, c.reply.isSome = true) :
      Resumed t { t with pc := .done (.failed failure') }

/-- One move of a run. -/
inductive Move [PyFloat F] (t : Task F) : Label F → Task F → Prop where
  | sent {fan calls cancelled w command} (hpc : t.pc = .fanOut fan calls cancelled)
      (hcall : ⟨w, command, .created⟩ ∈ calls) :
      Move t (.begin w) { t with
        pc := .fanOut fan (setStatus w .running calls) cancelled
        history := t.history ++ [Obs.sent w command] }
  | finished {fan calls cancelled w command reply} (hpc : t.pc = .fanOut fan calls cancelled)
      (hcall : ⟨w, command, .running⟩ ∈ calls) :
      Move t (.reply w reply) { t with
        pc := .fanOut fan (setStatus w (.finished reply) calls) cancelled
        history := t.history ++ [Obs.finished w command reply] }
  | cancelCalls {fan calls cancelled} (hpc : t.pc = .fanOut fan calls cancelled) :
      Move t .cancel { t with pc := .fanOut fan (calls.map Call.cancel) true }
  | delivered {k startAtUs stage waits w event} (hpc : t.pc = .waiting k startAtUs stage waits)
      (hwait : ⟨w, .waiting⟩ ∈ waits) :
      Move t (.event w event) { t with
        pc := .waiting k startAtUs stage (setWaitStatus w (t.classify stage event) waits)
        history := t.history ++ [Obs.delivered w event] }
  | waitFailed {k startAtUs stage waits w} (hpc : t.pc = .waiting k startAtUs stage waits) :
      Move t (.waitError w) { t with
        pc := .waiting k startAtUs stage (setWaitStatus w .failed waits) }
  | cancelWaits {k startAtUs stage waits pending} (hpc : t.pc = .waiting k startAtUs stage waits) :
      Move t .cancel { t with pc := .draining .cancelled pending }
  | drained {l failure failure' pending pending'} (hpc : t.pc = .draining failure pending) :
      Move t l { t with pc := .draining failure' pending' }
  | resumed {nowUs appendError t'} (h : Resumed t t') : Move t (.resume nowUs appendError) t'

/-! ## The step function makes these moves -/

variable {t t' : Task F}

theorem Resumed.stopAll {failure : Failure} (hpc : ¬t.InFailureStop) (hdone : ¬t.isDone) :
    Resumed t (t.stopAll (some failure)) := .fail hpc hdone

/-- A journal entry inside the `try` block is followed by the next statement or by the stops. -/
theorem Resumed.append (hpc : ¬t.InFailureStop) (hdone : ¬t.isDone) (event : Val F)
    (appendError : Option Str) (h : Resumed t t') :
    Resumed t (t.append event appendError t').1 := by
  cases appendError with
  | none => exact h
  | some errorType => exact .stopAll hpc hdone

theorem Resumed.beginPhase (hpc : ¬t.InFailureStop) (hdone : ¬t.isDone) {k : ℕ}
    (hbefore : t.Before k) : Resumed t (t.beginPhase k) := by
  unfold Task.beginPhase
  split
  · rename_i hphase
    exact .complete hbefore hphase
  · rename_i phase hphase
    split
    · exact .stopAll hpc hdone
    · dsimp only
      split
      · exact .fail hpc hdone
      · rename_i plans hplans
        split_ifs with hpart
        · split
          · exact .fail hpc hdone
          · refine .prepare hbefore hphase hplans List.mem_cons_self fun p hp => ?_
            exact List.contains_iff_mem.1 (List.all_eq_true.1 hpart p hp)
        · exact .fail hpc hdone

end Resumed

section Moves

variable [PyFloat F] [PyText F] {t t' : Task F}

theorem Move.of_begin {w : Str} (h : t.begin w = some t') : Move t (.begin w) t' := by
  unfold Task.begin at h
  split at h
  · rename_i hpc
    split at h
    · rename_i hfind
      cases h
      exact .sent hpc (mem_of_find? hfind)
    · cases h
  · cases h

theorem Move.of_answer {w : Str} {reply : Reply F} (h : t.answer w reply = some t') :
    Move t (.reply w reply) t' := by
  unfold Task.answer at h
  split at h
  · rename_i hpc
    split at h
    · rename_i hfind
      cases h
      exact .finished hpc (mem_of_find? hfind)
    · cases h
  · cases h

theorem Move.of_deliver {w : Str} {event : Val F} (h : t.deliver w event = some t') :
    Move t (.event w event) t' := by
  obtain ⟨t₁, h₁, rfl⟩ := Option.map_eq_some_iff.1 h
  obtain ⟨k, startAtUs, stage, waits, hpc, hwait, rfl⟩ := setWait_eq_some h₁
  exact .delivered hpc hwait

theorem Move.of_waiterEnd {w : Str} (h : t.waiterEnd w = some t') : Move t (.waiterEnd w) t' := by
  unfold Task.waiterEnd at h
  split at h
  · rename_i hpc
    split_ifs at h
    cases h
    exact .drained hpc
  · cases h

theorem Move.of_cancel (h : t.cancel = some t') : Move t .cancel t' := by
  unfold Task.cancel at h
  split at h
  · rename_i hpc
    cases h
    exact .cancelCalls hpc
  · rename_i hpc
    cases h
    exact .cancelWaits hpc
  · rename_i hpc
    cases h
    exact .drained hpc
  · cases h

/-- A run that is over makes no move. -/
theorem not_done_of_move {l : Label F} (h : Move t l t') : t.isDone = false := by
  unfold isDone
  cases h with
  | resumed h =>
    cases h with
    | fail _ hdone => exact Bool.eq_false_iff.2 hdone
    | complete hbefore | prepare hbefore => cases hbefore with
      | first hpc | next hpc => rw [hpc]
    | start hpc | awaitStarted hpc | awaitCompleted hpc | drain hpc | completed hpc | failed hpc =>
      rw [hpc]
  | sent hpc | finished hpc | cancelCalls hpc | delivered hpc | waitFailed hpc | cancelWaits hpc
  | drained hpc => rw [hpc]

/-- What the run has from its opening stays. -/
theorem toRun_of_move {l : Label F} (h : Move t l t') : t'.toRun = t.toRun := by
  cases h with
  | resumed h => cases h <;> rfl
  | _ => rfl

end Moves

section Step

variable [Cbor F] [Sha256] [PyFloat F] [PyText F] {t t' : Task F}

theorem Resumed.afterStarted (cfg : Setup F) {k startAtUs : ℕ} {waits : List (Wait F)} (appendError : Option Str)
    (hpc : t.pc = .waiting k startAtUs .started waits) (hgot : AllGot waits) :
    Resumed t (t.afterStarted cfg k startAtUs waits appendError).1 := by
  obtain ⟨hfail, hdone⟩ := not_inFailureStop (t := t) (by simp [hpc]) (by simp [hpc])
  unfold Task.afterStarted
  split
  · exact .stopAll hfail hdone
  · split
    · exact .stopAll hfail hdone
    · refine .append hfail hdone _ _ ?_
      split_ifs
      · exact .stopAll hfail hdone
      · split
        · exact .awaitCompleted hpc hgot
        · exact .stopAll hfail hdone

theorem Resumed.afterFanOut (cfg : Setup F) {fan : Fan} {calls : List (Call F)} (nowUs : ℕ)
    (appendError : Option Str) (hpc : t.pc = .fanOut fan calls false)
    (hfin : calls.all (fun c => c.reply.isSome) = true) :
    Resumed t (t.afterFanOut cfg fan calls nowUs appendError).1 := by
  cases fan with
  | disable =>
    obtain ⟨hfail, hdone⟩ := not_inFailureStop_of_fanOut hpc nofun
    simp only [Task.afterFanOut]
    split_ifs with herr
    · exact .stopAll hfail hdone
    · exact .append hfail hdone _ _ (.beginPhase hfail hdone (.first hpc))
  | prepare k =>
    obtain ⟨hfail, hdone⟩ := not_inFailureStop_of_fanOut hpc nofun
    simp only [Task.afterFanOut]
    split_ifs with herr
    · exact .stopAll hfail hdone
    · exact .append hfail hdone _ _ (.start hpc (allReturned_of_not_error hfin herr))
  | start k startAtUs =>
    obtain ⟨hfail, hdone⟩ := not_inFailureStop_of_fanOut hpc nofun
    simp only [Task.afterFanOut]
    split_ifs with herr
    · exact .stopAll hfail hdone
    · rw [Bool.or_eq_true, not_or] at herr
      exact .append hfail hdone _ _ (.awaitStarted hpc (allReturned_of_not_error hfin herr.1))
  | stop failure =>
    cases failure with
    | none =>
      obtain ⟨hfail, hdone⟩ := not_inFailureStop_of_fanOut hpc nofun
      simp only [Task.afterFanOut]
      split_ifs with herr
      · exact .stopAll hfail hdone
      · exact .append hfail hdone _ _ (.completed hpc (allReturned_of_not_error hfin herr))
    | some failure => exact .failed hpc (List.all_eq_true.1 hfin)

theorem Resumed.of_resume {cfg : Setup F} {nowUs : ℕ} {appendError : Option Str} {event : Option (Val F)}
    (h : t.resume cfg nowUs appendError = some (t', event)) : Resumed t t' := by
  unfold Task.resume at h
  split at h
  · rename_i fan calls cancelled hpc
    split_ifs at h with hfin hcancel
    · split at h
      · cases h
        exact .failed hpc (List.all_eq_true.1 hfin)
      · rename_i hfan
        cases h
        obtain ⟨hfail, hdone⟩ := not_inFailureStop_of_fanOut hpc hfan
        exact .stopAll hfail hdone
    · have hpc' : t.pc = .fanOut fan calls false := by rw [hpc, Bool.eq_false_iff.2 hcancel]
      have := Resumed.afterFanOut cfg nowUs appendError hpc' hfin
      rw [Option.some.inj h] at this
      exact this
  · rename_i k startAtUs stage waits hpc
    split_ifs at h with hfailed hgot
    · cases h
      exact .drain hpc
    · have hgot := allGot_of_events hgot
      obtain ⟨hfail, hdone⟩ := not_inFailureStop (t := t) (by simp [hpc]) (by simp [hpc])
      cases stage with
      | started =>
        have := Resumed.afterStarted cfg appendError hpc hgot
        rw [Option.some.inj h] at this
        exact this
      | completed =>
        have := Resumed.append hfail hdone (t.phaseEvent "phase.completed" k
          [("workers", safeEvents waits)]) appendError
          (.beginPhase hfail hdone (.next hpc hgot))
        rw [Option.some.inj h] at this
        exact this
  · rename_i failure pending hpc
    split_ifs at h
    cases h
    obtain ⟨hfail, hdone⟩ := not_inFailureStop (t := t) (by simp [hpc]) (by simp [hpc])
    exact .stopAll hfail hdone
  · cases h

/-- The step function makes only the listed moves. -/
theorem move_of_step {cfg : Setup F} {l : Label F} {event : Option (Val F)} (h : t.step cfg l = some (t', event)) :
    Move t l t' := by
  cases l with
  | begin w =>
    obtain ⟨t₁, h₁, h₂⟩ := Option.map_eq_some_iff.1 h
    cases h₂
    exact .of_begin h₁
  | reply w reply =>
    obtain ⟨t₁, h₁, h₂⟩ := Option.map_eq_some_iff.1 h
    cases h₂
    exact .of_answer h₁
  | resume nowUs appendError => exact .resumed (.of_resume h)
  | event w event =>
    obtain ⟨t₁, h₁, h₂⟩ := Option.map_eq_some_iff.1 h
    cases h₂
    exact .of_deliver h₁
  | waitError w =>
    obtain ⟨t₁, h₁, h₂⟩ := Option.map_eq_some_iff.1 h
    cases h₂
    obtain ⟨k, startAtUs, stage, waits, hpc, -, rfl⟩ := setWait_eq_some h₁
    exact .waitFailed hpc
  | waiterEnd w =>
    obtain ⟨t₁, h₁, h₂⟩ := Option.map_eq_some_iff.1 h
    cases h₂
    exact .of_waiterEnd h₁
  | cancel =>
    obtain ⟨t₁, h₁, h₂⟩ := Option.map_eq_some_iff.1 h
    cases h₂
    exact .of_cancel h₁

end Step

end Task

end RemoteRobot
