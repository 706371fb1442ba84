import RemoteRobot.Orchestrator.Calls

/-!
# Stops

A run that ends has stopped every worker it sent a command to, unless it was cancelled in its
failure stops before some of them had begun: `gather` cancels its children, and a child that has
not run yet never calls its worker.
-/

namespace RemoteRobot

open Py Except

variable {F : Type}

/-! ## Stopped workers -/

/-- The worker was sent this stop after its last other command. -/
def StopSent (w : Str) (context : Val F) (history : List (Obs F)) : Prop :=
  ∃ pre post, history = pre ++ .sent w (.stop context) :: post ∧
    ∀ command, .sent w command ∈ post → command.isStop = true

/-- The worker was sent a stop after its last other command, and that stop has finished. -/
def Stopped (w : Str) (history : List (Obs F)) : Prop :=
  ∃ pre post context reply, history = pre ++ .sent w (.stop context) :: post ∧
    (∀ command, .sent w command ∈ post → command.isStop = true) ∧
    .finished w (.stop context) reply ∈ post

/-- What is appended while a run stops its workers sends nothing but stops. -/
def OnlyStops (o : Obs F) : Prop := ∀ w command, o = .sent w command → command.isStop = true

variable {w : Str} {context : Val F} {history : List (Obs F)} {o : Obs F}

theorem StopSent.append (h : StopSent w context history) (ho : OnlyStops o) :
    StopSent w context (history ++ [o]) := by
  obtain ⟨pre, post, rfl, hpost⟩ := h
  refine ⟨pre, post ++ [o], by rw [List.append_assoc, List.cons_append], fun command hmem => ?_⟩
  rcases List.mem_append.1 hmem with hmem | hmem
  · exact hpost command hmem
  · exact ho w command (List.mem_singleton.1 hmem).symm

theorem Stopped.append (h : Stopped w history) (ho : OnlyStops o) : Stopped w (history ++ [o]) := by
  obtain ⟨pre, post, context, reply, rfl, hpost, hfin⟩ := h
  refine ⟨pre, post ++ [o], context, reply, by rw [List.append_assoc, List.cons_append],
    fun command hmem => ?_, List.mem_append_left _ hfin⟩
  rcases List.mem_append.1 hmem with hmem | hmem
  · exact hpost command hmem
  · exact ho w command (List.mem_singleton.1 hmem).symm

theorem stopSent_self : StopSent w context (history ++ [Obs.sent w (.stop context)]) :=
  ⟨history, [], rfl, nofun⟩

theorem StopSent.finished (h : StopSent w context history) (reply : Reply F) :
    Stopped w (history ++ [Obs.finished w (.stop context) reply]) := by
  obtain ⟨pre, post, rfl, hpost⟩ := h
  refine ⟨pre, post ++ [Obs.finished w (.stop context) reply], context, reply,
    by rw [List.append_assoc, List.cons_append], fun command hmem => ?_,
    List.mem_append_right _ (List.mem_singleton_self _)⟩
  rcases List.mem_append.1 hmem with hmem | hmem
  · exact hpost command hmem
  · cases List.mem_singleton.1 hmem

/-! ## The stop fan-out -/

/-- How far the stop of one worker is. -/
def Call.StopProgress (history : List (Obs F)) (c : Call F) : Prop :=
  ∃ context, c.command = .stop context ∧ match c.status with
    | .created => True
    | .running => StopSent c.worker context history
    | .finished _ => Stopped c.worker history

theorem Call.StopProgress.append {c : Call F} (h : c.StopProgress history) (ho : OnlyStops o) :
    c.StopProgress (history ++ [o]) := by
  obtain ⟨context, hcommand, h⟩ := h
  refine ⟨context, hcommand, ?_⟩
  split at h
  · trivial
  · exact h.append ho
  · exact h.append ho

/-- The stops of a run are on their way, and a run that is over has stopped its participants. -/
structure Task.StopsOk (t : Task F) : Prop where
  stopping : ∀ failure calls cancelled, t.pc = .fanOut (.stop failure) calls cancelled →
    (∀ w ∈ t.participants, ∃ c ∈ calls, c.worker = w) ∧
      (failure ≠ none ∨ cancelled = false → ∀ c ∈ calls, c.StopProgress t.history)
  ended : t.isDone = true → ∀ w ∈ t.participants, Stopped w t.history

/-- Some worker is not being stopped yet in the failure stops of the run. -/
def Task.hasUnstartedStop (t : Task F) : Bool :=
  match t.pc with
  | .fanOut (.stop (some _)) calls _ => calls.any fun c => match c.status with
    | .created => true
    | _ => false
  | _ => false

/-- Outside the stops and before the end there is nothing to show. -/
theorem Task.StopsOk.of_pc {t : Task F}
    (hstop : ∀ failure calls cancelled, t.pc ≠ .fanOut (.stop failure) calls cancelled)
    (hdone : t.isDone = false) : t.StopsOk :=
  ⟨fun failure calls cancelled hpc => absurd hpc (hstop failure calls cancelled),
    fun h => absurd h (Bool.eq_false_iff.1 hdone)⟩

theorem Task.StopsOk.fanOut {t : Task F} {fan : Fan} {calls : List (Call F)} {cancelled : Bool}
    (hpc : t.pc = .fanOut fan calls cancelled)
    (h : ∀ failure, fan = .stop failure → (∀ w ∈ t.participants, ∃ c ∈ calls, c.worker = w) ∧
      (failure ≠ none ∨ cancelled = false → ∀ c ∈ calls, c.StopProgress t.history)) :
    t.StopsOk := by
  refine ⟨fun failure calls' cancelled' hpc' => ?_, fun hdone => ?_⟩
  · rw [hpc] at hpc'
    cases hpc'
    exact h failure rfl
  · unfold Task.isDone at hdone
    rw [hpc] at hdone
    cases hdone

theorem Task.StopsOk.stopAll (t : Task F) (failure : Option Failure) :
    (t.stopAll failure).StopsOk := by
  refine .fanOut rfl fun failure' _ => ⟨fun w hw => ?_, fun _ c hc => ?_⟩
  · exact ⟨_, List.mem_map_of_mem hw, rfl⟩
  · obtain ⟨w, -, rfl⟩ := List.mem_map.1 hc
    exact ⟨_, rfl, trivial⟩

/-- When the stops are over every participant is stopped. -/
theorem Task.StopsOk.stopped {t : Task F} (h : t.StopsOk) {failure : Option Failure}
    {calls : List (Call F)} {cancelled : Bool}
    (hpc : t.pc = .fanOut (.stop failure) calls cancelled)
    (hcancel : failure ≠ none ∨ cancelled = false) (hfin : ∀ c ∈ calls, c.reply.isSome = true) :
    ∀ w ∈ t.participants, Stopped w t.history := by
  obtain ⟨hcover, hprogress⟩ := h.stopping _ _ _ hpc
  intro w hw
  obtain ⟨c, hc, rfl⟩ := hcover w hw
  obtain ⟨context, -, hstatus⟩ := hprogress hcancel c hc
  have hreply := hfin c hc
  obtain ⟨w, command, _ | _ | reply⟩ := c
  · cases hreply
  · cases hreply
  · exact hstatus

theorem isSome_of_allReturned {calls : List (Call F)} (h : Task.AllReturned calls) :
    ∀ c ∈ calls, c.reply.isSome = true := by
  intro c hc
  obtain ⟨v, hv⟩ := h c hc
  obtain ⟨w, command, status⟩ := c
  rw [show status = _ from hv]
  rfl

/-! ## The moves keep it -/

theorem Fan.Issues.isStop {failure : Option Failure} {command : Command F}
    (h : (Fan.stop failure).Issues command) : command.isStop = true := by
  cases command with
  | stop context => rfl
  | _ => cases h

/-- One stop moves on, the others stay where they are. -/
theorem Task.StopsOk.setStatus {t : Task F} (h : t.StopsOk) {fan : Fan} {calls : List (Call F)}
    {cancelled : Bool} (hpc : t.pc = .fanOut fan calls cancelled) (w : Str) (status : CallStatus F)
    (o : Obs F) (ho : ∀ failure, fan = .stop failure → OnlyStops o)
    (hw : ∀ failure, fan = .stop failure → (failure ≠ none ∨ cancelled = false) →
      ∀ c ∈ calls, c.worker = w → c.StopProgress t.history →
        Call.StopProgress (t.history ++ [o]) { c with status := status }) :
    Task.StopsOk { t with
      pc := .fanOut fan (RemoteRobot.setStatus w status calls) cancelled
      history := t.history ++ [o] } := by
  refine .fanOut rfl fun failure hfan => ?_
  cases hfan
  obtain ⟨hcover, hprogress⟩ := h.stopping _ _ _ hpc
  refine ⟨fun w' hw' => ?_, fun hcancel c hc => ?_⟩
  · have hmem : w' ∈ calls.map Call.worker := by
      obtain ⟨c, hc, rfl⟩ := hcover w' hw'
      exact List.mem_map_of_mem hc
    rw [← workers_setStatus w status] at hmem
    exact List.mem_map.1 hmem
  · obtain ⟨c₀, hc₀, hworker, hcommand, ⟨-, rfl⟩ | ⟨hworker', hstatus⟩⟩ := mem_setStatus hc
    · exact (hprogress hcancel _ hc₀).append (ho failure rfl)
    · have := hw failure rfl hcancel c₀ hc₀ hworker' (hprogress hcancel c₀ hc₀)
      obtain ⟨w₁, command₁, status₁⟩ := c
      cases hworker
      cases hcommand
      cases hstatus
      exact this

section Moves

variable [PyText F]

theorem Task.StopsOk.resumed {t t' : Task F} (h : t.StopsOk) (hr : Task.Resumed t t') :
    t'.StopsOk := by
  cases hr with
  | fail => exact .stopAll _ _
  | complete => exact .stopAll _ _
  | prepare => exact .of_pc nofun rfl
  | start => exact .of_pc nofun rfl
  | awaitStarted | awaitCompleted | drain => exact .of_pc nofun rfl
  | completed hpc hret =>
    exact ⟨nofun, fun _ => h.stopped hpc (.inr rfl) (isSome_of_allReturned hret)⟩
  | failed hpc hfin => exact ⟨nofun, fun _ => h.stopped hpc (.inl nofun) hfin⟩

variable [PyFloat F]

theorem Task.StopsOk.move {t t' : Task F} {label : Task.Label F} (h : t.StopsOk) (hcalls : t.CallsOk)
    (hcancel : label = .cancel → t.hasUnstartedStop = false) (hm : Task.Move t label t') :
    t'.StopsOk := by
  cases hm with
  | resumed hr => exact h.resumed hr
  | delivered | waitFailed | cancelWaits | drained => exact .of_pc nofun rfl
  | @sent fan calls cancelled w command hpc hcall =>
    obtain ⟨hnd, hissues⟩ := hcalls.calls _ _ _ hpc
    refine h.setStatus hpc w .running (.sent w command) ?_ ?_
    · rintro failure rfl w' command' ho
      cases ho
      exact (hissues _ hcall).2.isStop
    · rintro failure rfl - c hc hw ⟨context, hcommand, -⟩
      obtain rfl := List.inj_on_of_nodup_map hnd hc hcall hw
      cases hcommand
      exact ⟨context, rfl, stopSent_self⟩
  | @finished fan calls cancelled w command reply hpc hcall =>
    obtain ⟨hnd, hissues⟩ := hcalls.calls _ _ _ hpc
    refine h.setStatus hpc w (.finished reply) (.finished w command reply) ?_ ?_
    · rintro failure rfl w' command' ho
      cases ho
    · rintro failure rfl - c hc hw ⟨context, hcommand, hsent⟩
      obtain rfl := List.inj_on_of_nodup_map hnd hc hcall hw
      cases hcommand
      exact ⟨context, rfl, StopSent.finished hsent reply⟩
  | @cancelCalls fan calls cancelled hpc =>
    refine .fanOut rfl fun failure hfan => ?_
    cases hfan
    obtain ⟨hcover, hprogress⟩ := h.stopping _ _ _ hpc
    refine ⟨fun w hw => ?_, fun hfailed c hc => ?_⟩
    · have hmem : w ∈ calls.map Call.worker := by
        obtain ⟨c, hc, rfl⟩ := hcover w hw
        exact List.mem_map_of_mem hc
      rw [← workers_cancel] at hmem
      exact List.mem_map.1 hmem
    · rcases hfailed with hfailed | hfalse
      · -- in the failure stops every call has begun, and cancelling leaves it as it is
        obtain ⟨f, rfl⟩ := Option.ne_none_iff_exists'.1 hfailed
        have hbegun := hcancel rfl
        unfold Task.hasUnstartedStop at hbegun
        rw [hpc] at hbegun
        obtain ⟨c₀, hc₀, -, -, rfl | hcreated⟩ := mem_cancel hc
        · exact hprogress (.inl nofun) _ hc₀
        · have := List.any_eq_false.1 hbegun c₀ hc₀
          rw [hcreated] at this
          exact absurd rfl this
      · cases hfalse

variable [Cbor F] [Sha256] {cfg : Setup F}

theorem Task.Opened.stopsOk {t : Task F} (h : t.Opened cfg) : t.StopsOk := by
  refine .of_pc ?_ h.isDone_eq
  rw [h.pc]
  nofun

/-! ## Every run stops its workers -/

/-- No run is cancelled in its failure stops before they have all begun. -/
def System.StopsBegin (s : System F) (l : System.Label F) : Prop :=
  ∀ runId t, l = .task runId .cancel → s.tasks.get runId = some t → t.hasUnstartedStop = false

/-- When a run has given its lease back, every worker it sent a command to is stopped. -/
theorem System.stopped_of_released (cfg : Setup F) {s₀ s : System F} {ls : List (System.Label F)}
    (h₀ : s₀.Initial) (hrun : Transition.run (System.step cfg) s₀ ls = some s)
    (hok : Transition.Along (System.step cfg) System.StopsBegin s₀ ls) {runId : Str} {t : Task F}
    (ht : s.tasks.get runId = some t) (hreleased : s.leases.grantFor runId = none) {w : Str}
    {command : Command F} (hsent : .sent w command ∈ t.history) : Stopped w t.history := by
  have hinv : t.CallsOk ∧ t.StopsOk := by
    refine System.tasks_invariant_along (P := fun t => t.CallsOk ∧ t.StopsOk)
      (fun t ho => ⟨ho.callsOk, ho.stopsOk⟩) ?_ h₀ hrun hok runId t ht
    intro s runId label t t' ht hbegin ⟨hcalls, hstops⟩ hm
    refine ⟨hcalls.move hm, hstops.move hcalls (fun hl => ?_) hm⟩
    exact hbegin runId t (by rw [hl]) ht
  have hI := System.inv_of_reachable h₀ ⟨ls, hrun⟩
  have hdone : t.isDone = true := by
    have hholds := hI.holds runId t ht
    rw [hreleased] at hholds
    by_contra hdone
    rw [if_neg hdone] at hholds
    cases hholds
  exact hinv.2.ended hdone w (hinv.1.sent w command hsent).participant

end Moves

/-! ### A late and an absent cancellation -/

section Demo

local instance stopHash : Sha256 := demoHash

/-- The demo run up to the failure of its first command. -/
def demoFailed : List (System.Label ℚ) :=
  [demoCall "run" "arm", .task (py "run") (.begin (py "demo_robot")),
    .task (py "run") (.reply (py "demo_robot") (.raised (py "RuntimeError"))),
    .task (py "run") (.resume 0 none)]

/-- The run is cancelled before the stop of its worker begins. -/
def demoCancelled : List (System.Label ℚ) :=
  [.task (py "run") .cancel, .task (py "run") (.resume 0 none)]

/-- The run goes on to stop its worker. -/
def demoStopped : List (System.Label ℚ) :=
  [.task (py "run") (.begin (py "demo_robot")),
    .task (py "run") (.reply (py "demo_robot") (.returned .none)), .task (py "run") (.resume 0 none)]

/-- The run has given back its lease after it sent the worker a first command. -/
def System.releasedAfter (s : System ℚ) (runId w : Str) : Bool :=
  (s.leases.grantFor runId).isNone && (s.tasks.get runId).any fun t => match t.history with
    | .sent w' .prepareDisabled :: _ => w' = w
    | _ => false

/-- The run has sent no stop. -/
def System.sentNoStop (s : System ℚ) (runId : Str) : Bool :=
  (s.tasks.get runId).any fun t => t.history.all fun o => match o with
    | .sent _ command => !command.isStop
    | _ => true

theorem System.exists_of_releasedAfter {s : System ℚ} {runId w : Str}
    (h : s.releasedAfter runId w = true) : s.leases.grantFor runId = none ∧
      ∃ t, s.tasks.get runId = some t ∧ .sent w .prepareDisabled ∈ t.history := by
  obtain ⟨hnone, h⟩ := Bool.and_eq_true_iff.1 h
  obtain ⟨t, ht, h⟩ := (Option.any_eq_true _ _).1 h
  refine ⟨Option.isNone_iff_eq_none.1 hnone, t, ht, ?_⟩
  split at h
  · rename_i w' rest hhist
    rw [hhist, ← of_decide_eq_true h]
    exact List.mem_cons_self
  · cases h

set_option maxRecDepth 20000 in
theorem demoFailed_runs : (Transition.run (System.step demoSetup) {} demoFailed).any (fun s =>
    (Transition.run (System.step demoSetup) s demoCancelled).any (fun s' =>
      s'.releasedAfter (py "run") (py "demo_robot") && s'.sentNoStop (py "run")) &&
    (Transition.run (System.step demoSetup) s demoStopped).any fun s' =>
      s'.releasedAfter (py "run") (py "demo_robot")) = true := by decide +kernel

/-- Without a cancellation the condition on the labels holds. -/
theorem along_of_no_cancel {s₀ : System ℚ} {ls : List (System.Label ℚ)}
    (h : ∀ l ∈ ls, ∀ runId, l ≠ .task runId .cancel) :
    Transition.Along (System.step demoSetup) System.StopsBegin s₀ ls := by
  induction ls generalizing s₀ with
  | nil => trivial
  | cons l ls ih =>
    rw [List.forall_mem_cons] at h
    exact ⟨fun runId _ hl => absurd hl (h.1 runId), fun _ _ => ih h.2⟩

theorem System.stopped_of_released_demo : ∃ t : Task ℚ, .sent (py "demo_robot") .prepareDisabled ∈
    t.history ∧ Stopped (py "demo_robot") t.history := by
  obtain ⟨s, hs, hcheck⟩ := (Option.any_eq_true _ _).1 demoFailed_runs
  obtain ⟨s', hs', hreleased⟩ := (Option.any_eq_true _ _).1 (Bool.and_eq_true_iff.1 hcheck).2
  obtain ⟨hnone, t, ht, hsent⟩ := exists_of_releasedAfter hreleased
  have hrun : Transition.run (System.step demoSetup) {} (demoFailed ++ demoStopped) = some s' := by
    rw [Transition.run_append, hs]
    exact hs'
  refine ⟨t, hsent, stopped_of_released demoSetup initial_empty hrun ?_ ht hnone hsent⟩
  refine along_of_no_cancel fun l hl runId => ?_
  simp only [demoFailed, demoStopped, demoCall, List.cons_append, List.nil_append, List.mem_cons,
    List.not_mem_nil, or_false] at hl
  rcases hl with rfl | rfl | rfl | rfl | rfl | rfl | rfl <;> nofun

/-- Cancelled between the failure of its first command and the start of its stops, a run gives its
lease back without a stop. -/
theorem System.stopped_counterexample : ¬∀ (s : System ℚ) (runId : Str) (t : Task ℚ) (w : Str)
    (command : Command ℚ), Transition.Reachable (System.step demoSetup) {} s →
      s.tasks.get runId = some t → s.leases.grantFor runId = none →
        .sent w command ∈ t.history → Stopped w t.history := by
  intro hclaim
  obtain ⟨s, hs, hcheck⟩ := (Option.any_eq_true _ _).1 demoFailed_runs
  obtain ⟨s', hs', hcheck⟩ := (Option.any_eq_true _ _).1 (Bool.and_eq_true_iff.1 hcheck).1
  obtain ⟨hreleased, hnostop⟩ := Bool.and_eq_true_iff.1 hcheck
  obtain ⟨hnone, t, ht, hsent⟩ := exists_of_releasedAfter hreleased
  have hrun : Transition.run (System.step demoSetup) {} (demoFailed ++ demoCancelled) = some s' := by
    rw [Transition.run_append, hs]
    exact hs'
  obtain ⟨pre, post, context, reply, hhist, -, -⟩ := hclaim s' _ t _ _ ⟨_, hrun⟩ ht hnone hsent
  obtain ⟨t', ht', hall⟩ := (Option.any_eq_true _ _).1 hnostop
  rw [ht] at ht'
  cases ht'
  rw [hhist] at hall
  have := List.all_eq_true.1 hall _ (List.mem_append_right _ List.mem_cons_self)
  cases this

end Demo

end RemoteRobot
