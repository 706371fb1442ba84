import RemoteRobot.Orchestrator.Attached
import RemoteRobot.Orchestrator.Skew

/-!
# Runs that find room in the queue

The worker puts an event in its queue at every call but that of `start_phase`, and two for a phase,
but only `_wait_all_for_event` takes events out.  A run adds five at most, and a phase that
completes leaves the queue empty; a run that fails before leaves there what it has added.  So the
queue never overflows where each run of the worker finds room for five events in it.
-/

namespace RemoteRobot

open Py Except Transition

variable {F : Type}

namespace Attached

section Runs

variable [Cbor F] [Sha256] [PyFloat F] [PyText F] {cfg : Setup F} {name r : Str}
  {s s' : Attached F} {s₀ o : System F} {t t' : Task F} {ws ws' : Worker.System F}

/-! ## Runs -/

theorem Inv.idle (hI : Inv cfg name s₀ s) (h₀ : s₀.Initial) (hidle : s.orchestrator.active = []) :
    ∀ r t, s.orchestrator.tasks.get r = some t → t.isDone = true := by
  intro r t ht
  refine (System.inv_of_reachable h₀ hI.sequential.reachable).done_of_not_active ht ?_
  rw [hidle]
  nofun

/-- A call of `execute`. -/
theorem Inv.of_call [PlainCbor F] (hI : Inv cfg name s₀ s) (h₀ : s₀.Initial)
    (hidle : s.orchestrator.active = []) {identityId : Str} {program : CompiledProgram F} {ns : ℕ}
    {appendError : Option (Error F)}
    (hstep : s.orchestrator.step cfg (.call r identityId program ns appendError) = some o)
    (hroom : s.Spacious cfg name (.orchestrator (.call r identityId program ns appendError))) :
    Inv cfg name s₀ { s with orchestrator := o } := by
  have hdone := hI.idle h₀ hidle
  have hwaiting : s.worker.waiting = [] := by
    by_contra hne
    obtain ⟨r', u, hu, hundone⟩ := hI.pending hne
    rw [hdone r' u hu] at hundone
    cases hundone
  have hseq := hI.sequential.call hidle hstep
  obtain ⟨htasks, hjournal, -⟩ | ⟨t, locks, event, hid, hopen, hprepared, htasks, hjournal, -⟩ :=
    System.opened_of_call hstep
  · refine ⟨hseq, hI.sole, hjournal ▸ hI.known, hI.room, hI.waiting, fun hne => absurd hwaiting hne,
      fun r' u hu hundone => ?_⟩
    rw [hdone r' u (htasks ▸ hu)] at hundone
    cases hundone
  · obtain ⟨hr, hfresh, -⟩ := System.prepareRun_spec hprepared
    refine ⟨hseq, hI.sole, hI.known.mono ?_, hI.room, hI.waiting, fun hne => absurd hwaiting hne,
      fun r' u hu hundone => ?_⟩
    · rw [hjournal, List.map_append]
      exact List.subset_append_left _ _
    · rw [show ({ s with orchestrator := o } : Attached F).orchestrator.tasks.get r' = _ from
        congrArg (fun ts => ts.get r') htasks, Table.get_insert] at hu
      split_ifs at hu with hr'
      · obtain rfl := Option.some.inj hu
        refine ⟨fun hmem => ?_, fun hne => absurd hwaiting hne⟩
        unfold Spacious at hroom
        simp only [hprepared] at hroom
        have hroom := hroom hmem
        have hunmarked : s.worker.Unmarked t.runId := by
          rw [hid]
          refine ⟨fun e he hc => ?_, fun _ hrun => ?_⟩
          · exact (hI.known.events e he r hc).elim hr hfresh
          · exact (hrun ▸ hI.known.plan).elim hr hfresh
        refine ⟨?_, ?_⟩
        · exact (Nat.le_add_left 5 _).trans hroom
        · rw [hopen.pc]
          refine ⟨⟨hunmarked, hroom.mono (by omega)⟩, fun c hc _ => ?_, fun _ => trivial⟩
          obtain ⟨w, -, rfl⟩ := List.mem_map.1 hc
          exact hroom
      · rw [hdone r' u hu] at hundone
        cases hundone

/-- A step of a run that the worker has no part in. -/
theorem Inv.of_task (hI : Inv cfg name s₀ s) (h₀ : s₀.Initial) {l : Task.Label F}
    (hstep : s.orchestrator.step cfg (.task r l) = some o) (hother : s.Allows name (.task r l)) :
    Inv cfg name s₀ { s with orchestrator := o } := by
  have hseq := hI.sequential.task hstep
  obtain ⟨t, t', event, ht, hm, rfl⟩ := System.step_of_task hstep
  have hmove := Task.move_of_step hm
  have hdone := Task.not_done_of_move hmove
  have hfits := hI.fits r t ht hdone
  refine hI.of_tasks h₀ ht hdone hseq (System.get_commit _ _ _ _) hI.sole
    (hI.known.mono (System.subset_journal_commit ..)) hI.room hI.waiting
    ⟨fun hmem => ?_, fun hne => ?_⟩
  · rw [Task.toRun_of_move hmove] at hmem ⊢
    obtain ⟨hlimit, hpc⟩ := hfits.room hmem
    exact ⟨hlimit, hpc.move hlimit hmove hother⟩
  · exact (hfits.stopping hne).step hm hother

end Runs

/-! ## Calls -/

section Calls

variable [PyText F] {r : Str} {ws ws' : Worker.System F}

/-- The call on the worker waits, or it has finished. -/
def statusOf : Worker.Reply F → CallStatus F
  | none => .running
  | some reply => .finished (.ofWorker reply)

/-- What a call of the fan-out leaves behind. -/
structure Keeps (r : Str) (ws ws' : Worker.System F) (fan : Fan) (status : CallStatus F) : Prop where
  fanFits : FanFits r ws' fan
  callFits : CallFits r ws' fan status
  room : ws'.Room 0
  sole : ws'.Sole
  limit : ws'.worker.eventLimit = ws.worker.eventLimit
  known : ∀ runIds, r ∈ runIds → ws.Known runIds → ws'.Known runIds
  waiting : ws'.waiting.length ≤ 1
  stopping : ws'.waiting ≠ [] → status = .running ∧ ∃ failure, fan = .stop failure

theorem Keeps.refused [PyFloat F] [Cbor F] {fan : Fan} {c : Worker.Call F}
    {e : Worker.WorkerError F} (hsole : ws.Sole) (hwaiting : ws.waiting = []) (hroom : ws.Room 0) (hfan : FanFits r ws fan)
    (h : ws.call c = (some (.error e), ws)) :
    Keeps r ws (ws.call c).2 fan (statusOf (ws.call c).1) := by
  rw [h]
  refine ⟨hfan, ?_, hroom, hsole, rfl, fun _ _ hk => hk, ?_, fun hne => absurd hwaiting hne⟩
  · cases fan with
    | stop failure => cases failure <;> trivial
    | _ => trivial
  · rw [hwaiting]
    exact Nat.zero_le 1

section Commands

variable [PyFloat F] [Cbor F] [PlainCbor F] (hsole : ws.Sole) (hwaiting : ws.waiting = [])
  (hroom : ws.Room 0)

include hsole hwaiting hroom

theorem keeps_prepareDisabled (hfan : FanFits r ws .disable)
    (hcall : CallFits r ws .disable .created) :
    Keeps r ws (ws.call .prepareDisabled).2 .disable (statusOf (ws.call .prepareDisabled).1) := by
  obtain ⟨e, h⟩ | ⟨hdebt, hnoted, hw, hplan⟩ := Worker.call_prepareDisabled hsole
  · exact .refused hsole hwaiting hroom hfan h
  · have hroom' := hnoted.room (n := 4) hcall
    refine ⟨⟨hfan.1.noted hnoted hdebt, hroom'⟩, ?_, hroom'.mono (by omega),
      Worker.System.sole_of_debt (hnoted.debt.trans hdebt), hnoted.limit,
      fun _ _ hk => hnoted.known hk (.inl hplan), ?_, fun hne => absurd (hw.trans hwaiting) hne⟩
    · cases (ws.call .prepareDisabled).1 <;> trivial
    · rw [hw, hwaiting]
      exact Nat.zero_le 1

theorem keeps_preparePhase {k : ℕ} {phasePlan : Val F}
    (hplan : ∀ copy, Worker.dataCopy phasePlan = .ok copy →
      lookup (py "run_id") copy = some (.str r))
    (hfan : FanFits r ws (.prepare k)) (hcall : CallFits r ws (.prepare k) .created) :
    Keeps r ws (ws.call (.preparePhase phasePlan)).2 (.prepare k)
      (statusOf (ws.call (.preparePhase phasePlan)).1) := by
  obtain ⟨e, h⟩ | ⟨hdebt, hnoted, hw, hrun⟩ := Worker.call_preparePhase hsole phasePlan
  · exact .refused hsole hwaiting hroom hfan h
  · have hroom' := hnoted.room (n := 3) hcall
    refine ⟨⟨hfan.1.noted hnoted hdebt, hroom'⟩, ?_, hroom'.mono (by omega),
      Worker.System.sole_of_debt (hnoted.debt.trans hdebt), hnoted.limit,
      fun runIds hmem hk => hnoted.known hk ?_, ?_, fun hne => absurd (hw.trans hwaiting) hne⟩
    · cases (ws.call (.preparePhase phasePlan)).1 with
      | none => trivial
      | some reply => cases reply with
        | error e => trivial
        | ok v => exact hnoted.debt.trans hdebt
    · refine hrun.imp id ?_
      rintro ⟨plan, hcopy, hlookup⟩
      rw [hplan plan hcopy] at hlookup
      rw [← Val.str.inj (Option.some.inj hlookup)]
      exact hmem
    · rw [hw, hwaiting]
      exact Nat.zero_le 1

omit [PlainCbor F] in
theorem keeps_startPhase {k startAtUs : ℕ} (deadlineUs : Val F)
    (hfan : FanFits r ws (.start k startAtUs)) (hcall : CallFits r ws (.start k startAtUs) .created) :
    Keeps r ws (ws.call (.startPhase deadlineUs)).2 (.start k startAtUs)
      (statusOf (ws.call (.startPhase deadlineUs)).1) := by
  obtain ⟨e, h⟩ | ⟨hdebt, hdebt', hevents, hlimit, hw, hplan, hsole'⟩ :=
    Worker.call_startPhase hsole hwaiting deadlineUs
  · exact .refused hsole hwaiting hroom hfan h
  · obtain ⟨hroom₃, hunmarked, -⟩ := hcall
    have hroom' : (ws.call (.startPhase deadlineUs)).2.Room 1 := by
      unfold Worker.System.Room Worker.System.backlog at hroom₃ ⊢
      rw [hlimit, hevents, hdebt']
      rw [hdebt] at hroom₃
      exact hroom₃
    refine ⟨hroom', ?_, hroom'.mono (by omega), hsole', hlimit, fun runIds _ hk => ⟨?_, ?_⟩, ?_,
      fun hne => absurd (hw.trans hwaiting) hne⟩
    · cases (ws.call (.startPhase deadlineUs)).1 with
      | none => trivial
      | some reply => cases reply with
        | error e => trivial
        | ok v =>
          refine .inl ?_
          rw [hevents]
          exact hunmarked.events
    · rw [hevents]
      exact hk.events
    · rw [hplan]
      exact hk.plan
    · rw [hw, hwaiting]
      exact Nat.zero_le 1

theorem keeps_stop {failure : Option Failure} (faultContext : Val F)
    (hcall : CallFits r ws (.stop failure) .created) :
    Keeps r ws (ws.call (.stop faultContext)).2 (.stop failure)
      (statusOf (ws.call (.stop faultContext)).1) := by
  obtain ⟨reply, hr, hnoted, hw, hplan, hsole'⟩ | ⟨i, hr, hdebt, hevents, hlimit, hplan, hw⟩ :=
    Worker.call_stop hsole faultContext
  · rw [hr]
    have hknown : ∀ runIds, r ∈ runIds → ws.Known runIds →
        (ws.call (.stop faultContext)).2.Known runIds := by
      intro runIds _ hk
      refine hnoted.known hk ?_
      rw [hplan]
      exact hk.plan
    have hnone : (ws.call (.stop faultContext)).2.waiting.length ≤ 1 := by
      rw [hw, hwaiting]
      exact Nat.zero_le 1
    cases failure with
    | none =>
      have hroom' := hnoted.room (n := 1) hcall
      exact ⟨hroom', trivial, hroom'.mono (by omega), hsole', hnoted.limit, hknown, hnone,
        fun hne => absurd (hw.trans hwaiting) hne⟩
    | some f =>
      have hroom' := hnoted.room (n := 0) hcall
      exact ⟨trivial, trivial, hroom', hsole', hnoted.limit, hknown, hnone,
        fun hne => absurd (hw.trans hwaiting) hne⟩
  · rw [hr]
    have hfree : ∀ {n}, ws.Room n → (ws.call (.stop faultContext)).2.Room n := by
      intro n h
      unfold Worker.System.Room Worker.System.backlog at h ⊢
      rw [hlimit, hevents, hdebt]
      omega
    have hknown : ∀ runIds, r ∈ runIds → ws.Known runIds →
        (ws.call (.stop faultContext)).2.Known runIds := by
      intro runIds _ hk
      refine ⟨?_, ?_⟩
      · rw [hevents]
        exact hk.events
      · rw [hplan]
        exact hk.plan
    have hone : (ws.call (.stop faultContext)).2.waiting.length ≤ 1 := by
      rw [hw, hwaiting]
      exact le_refl 1
    cases failure with
    | none =>
      exact ⟨(hfree hcall).mono (by omega), hfree hcall, hfree hroom,
        Worker.System.sole_of_debt hdebt, hlimit, hknown, hone, fun _ => ⟨rfl, none, rfl⟩⟩
    | some f =>
      exact ⟨trivial, hfree hcall, hfree hroom, Worker.System.sole_of_debt hdebt,
        hlimit, hknown, hone, fun _ => ⟨rfl, some f, rfl⟩⟩

/-- A call of the fan-out. -/
theorem keeps_call {fan : Fan} {command : Command F} (hissues : fan.Issues command)
    (hplan : ∀ k plan, command = .preparePhase k plan → ∀ copy,
      Worker.dataCopy plan.toVal = .ok copy → lookup (py "run_id") copy = some (.str r))
    (hfan : FanFits r ws fan) (hcall : CallFits r ws fan .created) :
    Keeps r ws (ws.call command.toCall).2 fan (statusOf (ws.call command.toCall).1) := by
  cases fan with
  | disable => cases command with
    | prepareDisabled => exact keeps_prepareDisabled hsole hwaiting hroom hfan hcall
    | _ => exact hissues.elim
  | prepare k => cases command with
    | preparePhase k' plan =>
      exact keeps_preparePhase hsole hwaiting hroom (hplan k' plan rfl) hfan hcall
    | _ => exact hissues.elim
  | start k startAtUs => cases command with
    | startPhase => exact keeps_startPhase hsole hwaiting hroom _ hfan hcall
    | _ => exact hissues.elim
  | stop failure => cases command with
    | stop context => exact keeps_stop hsole hwaiting hroom context hcall
    | _ => exact hissues.elim

end Commands

end Calls

/-! ## The worker's part -/

section Steps

variable [Cbor F] [Sha256] [PyFloat F] [PyText F] {cfg : Setup F} {name r : Str}
  {s s' : Attached F} {s₀ o : System F} {t t' : Task F} {ws ws' : Worker.System F}
  {fan : Fan} {calls calls' : List (Call F)} {cancelled : Bool} {status : CallStatus F}
  {event : Option (Val F)}

omit [PyText F] [Cbor F] [Sha256] [PyFloat F] in
theorem nextCommand_eq_some {command : Command F} (h : t.nextCommand name = some command) :
    ∃ fan calls cancelled, t.pc = .fanOut fan calls cancelled ∧
      ⟨name, command, .created⟩ ∈ calls := by
  unfold Task.nextCommand at h
  split at h
  · rename_i fan calls cancelled hpc
    split at h
    · rename_i hfind
      obtain rfl := Option.some.inj h
      exact ⟨fan, calls, cancelled, hpc, Task.mem_of_find? hfind⟩
    · cases h
  · cases h

theorem pc_of_begin (hpc : t.pc = .fanOut fan calls cancelled)
    (h : t.step cfg (.begin name) = some (t', event)) :
    t'.pc = .fanOut fan (setStatus name .running calls) cancelled := by
  cases Task.move_of_step h with
  | sent hpc' =>
    rw [hpc] at hpc'
    cases hpc'
    rfl
  | drained hpc' =>
    rw [hpc] at hpc'
    cases hpc'

theorem pc_of_reply {reply : Reply F} (hpc : t.pc = .fanOut fan calls cancelled)
    (h : t.step cfg (.reply name reply) = some (t', event)) :
    t'.pc = .fanOut fan (setStatus name (.finished reply) calls) cancelled := by
  cases Task.move_of_step h with
  | finished hpc' =>
    rw [hpc] at hpc'
    cases hpc'
    rfl
  | drained hpc' =>
    rw [hpc] at hpc'
    cases hpc'

omit [PyText F] [Cbor F] [Sha256] [PyFloat F] in
theorem status_of_setStatus {c : Call F} (hc : c ∈ setStatus name status calls)
    (hw : c.worker = name) : c.status = status := by
  obtain ⟨c₀, -, hworker, -, ⟨hne, -⟩ | ⟨-, hstatus⟩⟩ := mem_setStatus hc
  · exact absurd (hworker.trans hw) hne
  · exact hstatus

omit [Cbor F] [Sha256] [PyFloat F] in
/-- What the run finds of the worker behind a call on it. -/
theorem Fits.of_keeps (hf : Fits name ws t) (hpart : name ∈ t.participants)
    (hk : Keeps t.runId ws ws' fan status) (hrun : t'.toRun = t.toRun)
    (hpc : t'.pc = .fanOut fan calls cancelled) (hmem : name ∈ calls.map Call.worker)
    (hstatus : ∀ c ∈ calls, c.worker = name → c.status = status) : Fits name ws' t' := by
  refine ⟨fun _ => ?_, fun hne => ?_⟩
  · rw [hrun, hpc, hk.limit]
    refine ⟨(hf.room hpart).1, hk.fanFits, fun c hc hw => ?_, fun habsent => absurd hmem habsent⟩
    rw [hstatus c hc hw]
    exact hk.callFits
  · obtain ⟨rfl, failure, rfl⟩ := hk.stopping hne
    obtain ⟨c, hc, hw⟩ := List.mem_map.1 hmem
    exact ⟨failure, calls, cancelled, hpc, ⟨c, hc, hw⟩, hstatus⟩

/-- The run and the worker behind a call. -/
theorem Inv.of_keeps (hI : Inv cfg name s₀ s) (h₀ : s₀.Initial)
    (ht : s.orchestrator.tasks.get r = some t) (hdone : t.isDone = false)
    (hseq : o.Sequential cfg s₀)
    (hget : ∀ r', o.tasks.get r' = if r' = r then some t' else s.orchestrator.tasks.get r')
    (hjournal : s.orchestrator.journal.map Prod.fst ⊆ o.journal.map Prod.fst)
    (hpart : name ∈ t.participants) (hk : Keeps t.runId s.worker ws' fan status)
    (hrun : t'.toRun = t.toRun) (hpc : t'.pc = .fanOut fan calls cancelled)
    (hmem : name ∈ calls.map Call.worker)
    (hstatus : ∀ c ∈ calls, c.worker = name → c.status = status) : Inv cfg name s₀ ⟨o, ws'⟩ := by
  have hknown : ws'.Known (o.journal.map Prod.fst) := by
    refine (hk.known _ ?_ hI.known).mono hjournal
    rw [(System.inv_of_reachable h₀ hI.sequential.reachable).runId r t ht]
    exact (hI.sequential.opened r t ht).1
  exact hI.of_tasks h₀ ht hdone hseq hget hk.sole hknown hk.room hk.waiting
    ((hI.fits r t ht hdone).of_keeps hpart hk hrun hpc hmem hstatus)

omit [PyText F] [Cbor F] [Sha256] [PyFloat F] in
theorem not_stopping (hpc : t.pc = .fanOut fan calls cancelled) {command : Command F}
    (hmem : ⟨name, command, .created⟩ ∈ calls) : ¬Stopping name t := by
  rintro ⟨failure, calls', cancelled', hpc', -, hrunning⟩
  rw [hpc] at hpc'
  cases hpc'
  cases hrunning _ hmem rfl

/-- The plan of a `prepare_phase` call is one of the run. -/
theorem runId_of_copy [PlainCbor F] (hI : Inv cfg name s₀ s) (h₀ : s₀.Initial)
    (ht : s.orchestrator.tasks.get r = some t) {w : Str} {k : ℕ} {plan : PhasePlan F}
    (hissues : t.toRun.Issues w (.preparePhase k plan)) {copy : Dict F}
    (hcopy : Worker.dataCopy plan.toVal = .ok copy) :
    lookup (py "run_id") copy = some (.str t.runId) := by
  obtain ⟨-, phase, plans, hphase, hplans, hq⟩ := hissues
  have hchecked := (System.inv_of_reachable h₀ hI.sequential.reachable).checked r t ht
  have hbody := (hI.sequential.opened r t ht).2
  have hplan : plan.toVal.wellFormed = true :=
    wellFormed_plan hbody hchecked.phases hphase hplans hq
  refine Worker.lookup_of_dataCopy hplan (by simp) hcopy ?_
  rw [← (plan_fields hplans hq).1, entries_cons, lookup_cons_str, if_pos rfl]

/-- The child of the run calls the worker. -/
theorem Inv.of_calls [PlainCbor F] (hI : Inv cfg name s₀ s) (h₀ : s₀.Initial)
    (h : s.step cfg name (.calls r) = some s') : Inv cfg name s₀ s' := by
  obtain ⟨command, hcommand, h⟩ := Option.bind_eq_some_iff.1 h
  obtain ⟨t, ht, hnext⟩ := Option.bind_eq_some_iff.1 hcommand
  obtain ⟨fan, calls, cancelled, hpc, hmem⟩ := nextCommand_eq_some hnext
  obtain ⟨s₁, htell, h⟩ := Option.bind_eq_some_iff.1 h
  obtain ⟨o₁, hstep₁, rfl⟩ := Option.map_eq_some_iff.1 htell
  have hseq₁ := hI.sequential.task hstep₁
  obtain ⟨t₀, t₁, event₁, ht₀, hm₁, rfl⟩ := System.step_of_task hstep₁
  obtain rfl := Option.some.inj (ht.symm.trans ht₀)
  have hdone := Task.not_done_of_move (Task.move_of_step hm₁)
  have hfits := hI.fits r t ht hdone
  obtain ⟨hissues, hfan⟩ :=
    ((System.callsOk h₀ hI.sequential.reachable ht).calls fan calls cancelled hpc).2 _ hmem
  have hpart : name ∈ t.participants := hissues.participant
  have hname : name ∈ calls.map Call.worker := List.mem_map_of_mem hmem
  obtain ⟨hlimit, hpcFits⟩ := hfits.room hpart
  rw [hpc] at hpcFits
  have hwaiting : s.worker.waiting = [] := by
    by_contra hne
    exact not_stopping hpc hmem (hfits.stopping hne)
  have hkeeps : Keeps t.runId s.worker (s.worker.call command.toCall).2 fan
      (statusOf (s.worker.call command.toCall).1) := by
    refine keeps_call hI.sole hwaiting hI.room hfan ?_ hpcFits.1 (hpcFits.2.1 _ hmem rfl)
    rintro k plan rfl copy hcopy
    exact runId_of_copy hI h₀ ht hissues hcopy
  have hpc₁ := pc_of_begin hpc hm₁
  have hrun₁ := Task.toRun_of_move (Task.move_of_step hm₁)
  have hget₁ := System.get_commit s.orchestrator r t₁ event₁
  cases hreply : (s.worker.call command.toCall).1 with
  | none =>
    -- a `stop` waits for the phase it has cancelled
    rw [hreply] at h hkeeps
    obtain rfl := Option.some.inj h
    refine hI.of_keeps h₀ ht hdone hseq₁ hget₁ (System.subset_journal_commit ..) hpart hkeeps hrun₁
      hpc₁ ?_ fun c => status_of_setStatus
    rw [workers_setStatus]
    exact hname
  | some reply =>
    rw [hreply] at h hkeeps
    obtain ⟨o₂, hstep₂, rfl⟩ := Option.map_eq_some_iff.1 h
    have hseq₂ := hseq₁.task hstep₂
    obtain ⟨t₁', t₂, event₂, ht₁, hm₂, rfl⟩ := System.step_of_task hstep₂
    obtain rfl : t₁ = t₁' := by
      rw [hget₁, if_pos rfl] at ht₁
      exact Option.some.inj ht₁
    have hrun₂ := (Task.toRun_of_move (Task.move_of_step hm₂)).trans hrun₁
    have hget₂ : ∀ r', ((s.orchestrator.commit r t₁ event₁).commit r t₂ event₂).tasks.get r' =
        if r' = r then some t₂ else s.orchestrator.tasks.get r' := fun r' => by
      rw [System.get_commit, hget₁]
      split_ifs <;> rfl
    refine hI.of_keeps h₀ ht hdone hseq₂ hget₂ ?_ hpart hkeeps hrun₂ (pc_of_reply hpc₁ hm₂) ?_
      fun c => status_of_setStatus
    · exact List.Subset.trans (System.subset_journal_commit ..) (System.subset_journal_commit ..)
    · rw [workers_setStatus, workers_setStatus]
      exact hname

/-- A `stop` that waited ends. -/
theorem Inv.of_answer (hI : Inv cfg name s₀ s) (h₀ : s₀.Initial) {k : ℕ} {reply : Reply F}
    (hk : k < s.worker.waiting.length) (hnoted : s.worker.Noted ws')
    (hw : ws'.waiting = s.worker.waiting.eraseIdx k)
    (hplan : ws'.worker.planRun = s.worker.worker.planRun)
    (h : s.tell cfg r (.reply name reply) ws' = some s') : Inv cfg name s₀ s' := by
  have hne : s.worker.waiting ≠ [] := List.ne_nil_of_length_pos (Nat.zero_lt_of_lt hk)
  obtain ⟨o, hstep, rfl⟩ := Option.map_eq_some_iff.1 h
  have hseq := hI.sequential.task hstep
  obtain ⟨t, t', event, ht, hm, rfl⟩ := System.step_of_task hstep
  have hdone := Task.not_done_of_move (Task.move_of_step hm)
  have hfits := hI.fits r t ht hdone
  obtain ⟨failure, calls, cancelled, hpc, ⟨c, hc, hname⟩, hrunning⟩ := hfits.stopping hne
  have hissues :=
    ((System.callsOk h₀ hI.sequential.reachable ht).calls _ calls cancelled hpc).2 c hc
  have hpart : name ∈ t.participants := hname ▸ hissues.1.participant
  have hpcFits := (hfits.room hpart).2
  rw [hpc] at hpcFits
  have hcall := hpcFits.2.1 c hc hname
  rw [hrunning c hc hname] at hcall
  have hnone : ws'.waiting = [] := by
    have := hI.waiting
    rw [hw]
    refine List.eq_nil_of_length_eq_zero ?_
    rw [List.length_eraseIdx_of_lt hk]
    omega
  have hkeeps : Keeps t.runId s.worker ws' (.stop failure) (.finished reply) := by
    have hroom : ws'.Room (if failure = none then 1 else 0) := by
      refine hnoted.room ?_
      cases failure <;> exact hcall
    refine ⟨?_, ?_, hroom.mono (Nat.zero_le _), ?_, hnoted.limit, fun _ _ hk => hnoted.known hk ?_,
      ?_, fun hne => absurd hnone hne⟩
    · cases failure with
      | none => exact hroom
      | some f => trivial
    · cases failure <;> trivial
    · exact Worker.System.sole_of_debt (hnoted.debt.trans (hI.sole.waiting hne))
    · rw [hplan]
      exact hk.plan
    · rw [hnone]
      exact Nat.zero_le 1
  refine hI.of_keeps h₀ ht hdone hseq (System.get_commit _ _ _ _)
    (System.subset_journal_commit ..) hpart hkeeps (Task.toRun_of_move (Task.move_of_step hm)) (pc_of_reply hpc hm) ?_ fun c => status_of_setStatus
  rw [workers_setStatus]
  exact hname ▸ List.mem_map_of_mem hc

theorem Inv.of_resumes [PlainCbor F] (hI : Inv cfg name s₀ s) (h₀ : s₀.Initial) {k : ℕ}
    (h : s.step cfg name (.resumes r k) = some s') : Inv cfg name s₀ s' := by
  obtain ⟨⟨result, ws'⟩, hreact, h⟩ := Option.bind_eq_some_iff.1 h
  obtain ⟨reply, rfl, h⟩ := Option.bind_eq_some_iff.1 h
  obtain ⟨hk, hnoted, hw, hplan⟩ := Worker.resume_notes hreact
  exact hI.of_answer h₀ hk hnoted hw hplan h

theorem Inv.of_abandons (hI : Inv cfg name s₀ s) (h₀ : s₀.Initial) {k : ℕ}
    (h : s.step cfg name (.abandons r k) = some s') : Inv cfg name s₀ s' := by
  obtain ⟨⟨result, ws'⟩, hreact, h⟩ := Option.bind_eq_some_iff.1 h
  simp only [Worker.System.react] at hreact
  split_ifs at hreact with hk
  cases hreact
  have hnoted : s.worker.Noted { s.worker with waiting := s.worker.waiting.eraseIdx k } :=
    ⟨rfl, rfl, [], .inl rfl, (List.append_nil _).symm⟩
  exact hI.of_answer h₀ hk hnoted rfl rfl h

/-! ## Events -/

omit [Cbor F] [Sha256] [PyText F] in
/-- What a waiter for the completion of a phase took. -/
theorem completes_of_got {e : Dict F} {v : Val F} (h : t.classify .completed (.dict e) = .got v) :
    Worker.Completes t.runId e := by
  unfold Task.classify at h
  simp only at h
  split_ifs at h with hids htype
  rw [Bool.and_eq_true] at hids
  exact ⟨lookup_of_field (eq_str_of_eq htype), lookup_of_field (eq_str_of_eq hids.1)⟩

/-- The waiter of the run takes an event. -/
theorem Inv.of_receives (hI : Inv cfg name s₀ s) (h₀ : s₀.Initial)
    (h : s.step cfg name (.receives r) = some s') : Inv cfg name s₀ s' := by
  obtain ⟨⟨reply, ws'⟩, hreact, h⟩ := Option.bind_eq_some_iff.1 h
  obtain ⟨v, rfl⟩ : ∃ v, reply = some (.ok v) := by
    split at h
    · rename_i hreply
      exact ⟨_, hreply⟩
    · cases h
  obtain ⟨e, es, rfl, hevents, rfl⟩ := Worker.nextEvent_cases hreact
  obtain ⟨o, hstep, rfl⟩ := Option.map_eq_some_iff.1 h
  have hseq := hI.sequential.task hstep
  obtain ⟨t, t', event, ht, hm, rfl⟩ := System.step_of_task hstep
  have hmove := Task.move_of_step hm
  have hdone := Task.not_done_of_move hmove
  have hfits := hI.fits r t ht hdone
  have hmem : ∀ e' ∈ es, e' ∈ s.worker.worker.events := fun e' he' =>
    hevents ▸ List.mem_cons_of_mem e he'
  have hroom : ∀ {n}, s.worker.Room n →
      ({ s.worker with worker := { s.worker.worker with events := es } } :
        Worker.System F).Room n := by
    intro n hr
    unfold Worker.System.Room Worker.System.backlog at hr ⊢
    rw [hevents, List.length_cons] at hr
    exact le_trans (by show es.length + s.worker.debt + n ≤ _; omega) hr
  have hknown : ({ s.worker with worker := { s.worker.worker with events := es } } :
      Worker.System F).Known (s.orchestrator.journal.map Prod.fst) :=
    ⟨fun e' he' => hI.known.events e' (hmem e' he'), hI.known.plan⟩
  refine hI.of_tasks h₀ ht hdone hseq (System.get_commit _ _ _ _) ⟨hI.sole.live, hI.sole.waiting⟩
    (hknown.mono (System.subset_journal_commit ..)) (hroom hI.room) hI.waiting ?_
  obtain ⟨_, hd, he⟩ := Option.map_eq_some_iff.1 hm
  cases he
  obtain ⟨_, hset, rfl⟩ := Option.map_eq_some_iff.1 hd
  obtain ⟨k, startAtUs, stage, waits, hpc, hwait, rfl⟩ := Task.setWait_eq_some hset
  refine ⟨fun hpart => ?_, fun hne => ?_⟩
  · obtain ⟨hlimit, hpcFits⟩ := hfits.room hpart
    rw [hpc] at hpcFits
    obtain ⟨hone, hwaits, -⟩ := hpcFits
    have hmarked : s.worker.Marked t.runId := by
      cases stage <;> exact hwaits _ hwait rfl
    refine ⟨hlimit, hroom hone, fun x hx hw => ?_, fun habsent => ?_⟩
    · obtain ⟨x₀, -, -, ⟨hother, -⟩ | ⟨-, hstatus⟩⟩ := mem_of_setWaitStatus hx
      · exact absurd hw hother
      · rw [hstatus]
        obtain ⟨hnext, hsettled⟩ := hmarked.next hevents
        cases hc : t.classify stage (.dict e) with
        | waiting => cases stage <;> exact hnext
        | got v => cases stage with
          | started => exact hnext
          | completed => exact hsettled (completes_of_got hc)
        | failed => cases stage <;> trivial
    · rw [workers_setWaitStatus] at habsent
      exact absurd (List.mem_map_of_mem hwait) habsent
  · obtain ⟨_, _, _, hpc', -⟩ := hfits.stopping hne
    rw [hpc] at hpc'
    cases hpc'

/-! ## The phases of the worker -/

theorem Inv.of_later (hI : Inv cfg name s₀ s) (h : s.worker.Later ws') :
    Inv cfg name s₀ { s with worker := ws' } := by
  refine ⟨hI.sequential, h.sole hI.sole, h.known _ hI.known, h.room hI.room, ?_, fun hne => ?_,
    fun r t ht hdone => ⟨fun hpart => ?_, fun hne => ?_⟩⟩
  · rw [h.waiting]
    exact hI.waiting
  · exact hI.pending (h.waiting ▸ hne)
  · obtain ⟨hlimit, hpc⟩ := (hI.fits r t ht hdone).room hpart
    rw [h.limit]
    exact ⟨hlimit, hpc.later h hI.sole⟩
  · exact (hI.fits r t ht hdone).stopping (h.waiting ▸ hne)

/-! ## The run -/

theorem inv_of_initial (h : s.Initial) : Inv cfg name s.orchestrator s := by
  obtain ⟨⟨hleases, hactive, htasks⟩, adapterName, eventLimit, nowUs, w, hcreate, hworker⟩ := h
  have hnone : ∀ r t, s.orchestrator.tasks.get r ≠ some t := by
    intro r t ht
    rw [htasks, Table.get_empty] at ht
    cases ht
  unfold Worker.InMemoryWorker.create at hcreate
  split_ifs at hcreate
  obtain rfl := Except.ok.inj hcreate
  have hdebt : s.worker.debt = 0 := by
    rw [hworker]
    rfl
  refine ⟨⟨.refl _, ?_, fun r t ht => absurd ht (hnone r t)⟩, Worker.System.sole_of_debt hdebt, ?_,
    ?_, ?_, fun hne => ?_, fun r t ht => absurd ht (hnone r t)⟩
  · rw [hactive]
    exact Nat.zero_le 1
  · rw [hworker]
    exact ⟨nofun, .inl rfl⟩
  · rw [hworker]
    exact Nat.zero_le _
  · rw [hworker]
    exact Nat.zero_le 1
  · rw [hworker] at hne
    exact absurd rfl hne

theorem Inv.step [PlainCbor F] (h₀ : s₀.Initial) {l : Label F} (hI : Inv cfg name s₀ s)
    (hroom : s.Spacious cfg name l) (h : s.step cfg name l = some s') : Inv cfg name s₀ s' := by
  cases l with
  | orchestrator l =>
    simp only [Attached.step] at h
    split_ifs at h with hallows
    obtain ⟨o, hstep, rfl⟩ := Option.map_eq_some_iff.1 h
    cases l with
    | call => exact hI.of_call h₀ hallows hstep hroom
    | task r l => exact hI.of_task h₀ hstep hallows
  | calls r => exact hI.of_calls h₀ h
  | resumes r k => exact hI.of_resumes h₀ h
  | abandons r k => exact hI.of_abandons h₀ h
  | receives r => exact hI.of_receives h₀ h
  | wakes i =>
    obtain ⟨ws', hwake, rfl⟩ := Option.map_eq_some_iff.1 h
    exact hI.of_later (Worker.later_of_wake hwake)
  | ticks nowUs =>
    obtain ⟨ws', htick, rfl⟩ := Option.map_eq_some_iff.1 h
    simp only [Worker.System.step, Worker.System.react] at htick
    split_ifs at htick
    · obtain rfl := Option.some.inj htick
      exact hI.of_later (.tick s.worker nowUs)
    · cases htick

/-- Where a run may call the worker, the queue takes one event more. -/
theorem Inv.not_full [PlainCbor F] (hI : Inv cfg name s₀ s) (h₀ : s₀.Initial) (l : Label F) :
    ¬s.Full name l := by
  have hfree : s.worker.Room 1 → s.worker.worker.events.length < s.worker.worker.eventLimit :=
    fun h => (Nat.add_le_add_right (Nat.le_add_right _ _) 1).trans h
  cases l with
  | calls r =>
    rintro ⟨t, command, ht, hnext, hfull⟩
    obtain ⟨fan, calls, cancelled, hpc, hmem⟩ := nextCommand_eq_some hnext
    have hdone : t.isDone = false := by
      unfold Task.isDone
      rw [hpc]
    obtain ⟨hissues, -⟩ :=
      ((System.callsOk h₀ hI.sequential.reachable ht).calls fan calls cancelled hpc).2 _ hmem
    have hpcFits := ((hI.fits r t ht hdone).room hissues.participant).2
    rw [hpc] at hpcFits
    have hcall := hpcFits.2.1 _ hmem rfl
    have hroom : s.worker.Room 1 := by
      cases fan with
      | disable | prepare => exact Worker.System.Room.mono hcall (by omega)
      | start => exact Worker.System.Room.mono hcall.1 (by omega)
      | stop failure => cases failure <;> exact Worker.System.Room.mono hcall (by omega)
    exact Worker.call_ne_full (hfree hroom) _ hfull
  | resumes r k =>
    rintro ⟨ws', hreact⟩
    obtain ⟨hk, -⟩ := Worker.resume_notes hreact
    have hne : s.worker.waiting ≠ [] := List.ne_nil_of_length_pos (Nat.zero_lt_of_lt hk)
    obtain ⟨r', t, ht, hdone⟩ := hI.pending hne
    have hfits := hI.fits r' t ht hdone
    obtain ⟨failure, calls, cancelled, hpc, ⟨c, hc, hname⟩, hrunning⟩ := hfits.stopping hne
    obtain ⟨hissues, -⟩ :=
      ((System.callsOk h₀ hI.sequential.reachable ht).calls _ calls cancelled hpc).2 c hc
    have hpcFits := (hfits.room (hname ▸ hissues.participant)).2
    rw [hpc] at hpcFits
    have hcall := hpcFits.2.1 c hc hname
    rw [hrunning c hc hname] at hcall
    have hroom : s.worker.Room 1 := by
      cases failure <;> exact Worker.System.Room.mono hcall (by omega)
    exact Worker.resume_ne_full (hfree hroom) hreact rfl
  | wakes i => exact fun hlossy => hlossy (Worker.lossless_of_room hI.room i)
  | orchestrator | abandons | receives | ticks => exact id

/-- No call on the worker fails and no event of a phase is lost for want of room in the queue, where
each run of the worker finds room for five events. -/
theorem never_full [PlainCbor F] {ls : List (Label F)} (h₀ : s.Initial)
    (hrun : run (step cfg name) s ls = some s')
    (hroom : Along (step cfg name) (fun s l => s.Spacious cfg name l) s ls) (l : Label F) :
    ¬s'.Full name l := by
  have hI : Inv cfg name s.orchestrator s' :=
    run_invariant_along (fun _ _ _ hI hok hstep => hI.step h₀.1 hok hstep) hrun hroom
      (inv_of_initial h₀)
  exact hI.not_full h₀.1 l

end Steps

/-! ### A queue for six events -/

section Demo

local instance backlogHash : Sha256 := lengthHash

local instance backlogCodec : Cbor ℚ := strictCodec

local instance backlogPlain : PlainCbor ℚ := plainCbor_strictCodec

set_option maxRecDepth 20000 in
theorem pairedRegistry_accepted : cellRegistry.check = .ok () := by
  have hok : cellRegistry.check.isOk = true := by decide +kernel
  obtain ⟨_, h⟩ := exists_of_isOk hok
  exact h

def pairedSetup : Setup ℚ :=
  { registry := ⟨cellRegistry, pairedRegistry_accepted⟩, workers := [py "left", py "right"] }

def pairedProgram : CompiledProgram ℚ :=
  match compile cellRegistry cellTemplate with
  | .ok program => program
  | .error _ => ⟨[], []⟩

/-- A new worker for the left robot. -/
def leftAttached (eventLimit : ℕ) : Attached ℚ := ⟨{}, { worker := { eventLimit } }⟩

theorem initial_leftAttached {n : ℕ} (hn : 0 < n) : (leftAttached n).Initial := by
  refine ⟨System.initial_empty, py "in-memory", n, 0, { eventLimit := n }, ?_, rfl⟩
  unfold Worker.InMemoryWorker.create
  rw [if_neg (by omega), Int.toNat_natCast]

def opens (runId : String) : Label ℚ :=
  .orchestrator (.call (py runId) (py "example_operator") pairedProgram 0 none)

/-- The right robot is called, and the run goes on behind its reply. -/
def rightReplies (runId : String) (reply : Reply ℚ) : List (Label ℚ) :=
  [.orchestrator (.task (py runId) (.begin (py "right"))),
    .orchestrator (.task (py runId) (.reply (py "right") reply)),
    .orchestrator (.task (py runId) (.resume 0 none))]

def bothReply (runId : String) (value : Val ℚ) : List (Label ℚ) :=
  .calls (py runId) :: rightReplies runId (.returned value)

def rightReports (report : Val ℚ) : List (Label ℚ) :=
  [.orchestrator (.task (py "run") (.event (py "right") report)),
    .orchestrator (.task (py "run") (.resume 0 none))]

def leftWakes (nowUs : ℤ) : List (Label ℚ) := [.ticks nowUs, .wakes 0]

/-- Both robots complete their phase, and the run drains the queue of the left one. -/
def completedRun : List (Label ℚ) :=
  opens "run" :: bothReply "run" .none ++ bothReply "run" .none ++
    bothReply "run" (dictOf [("status", .str (py "scheduled")), ("run_id", .str (py "run")),
      ("phase_execution_id", .str cellExecutionId)]) ++
    leftWakes 100000 ++ List.replicate 3 (Label.receives (py "run")) ++
    rightReports (startReport (py "run") cellExecutionId 0) ++
    leftWakes 1100000 ++ [Label.receives (py "run")] ++
    rightReports (dictOf [("type", .str (py "phase_completed")), ("run_id", .str (py "run")),
      ("phase_execution_id", .str cellExecutionId)]) ++
    bothReply "run" .none

/-- The right robot refuses its first command. -/
def refusedRun (runId : String) : List (Label ℚ) :=
  opens runId :: .calls (py runId) :: rightReplies runId (.raised (py "WorkerError")) ++
    bothReply runId .none

/-- The left robot completes its phase before the right one refuses to start: the run goes on to
stop them. -/
def brokenRun (runId : String) : List (Label ℚ) :=
  opens runId :: bothReply runId .none ++ bothReply runId .none ++ .calls (py runId) ::
    leftWakes 100000 ++ leftWakes 1100000 ++ rightReplies runId (.raised (py "WorkerError"))

/-- The next call on the left robot finds its queue full. -/
def findsFull (s : Attached ℚ) (runId : Str) : Bool :=
  (s.orchestrator.tasks.get runId).any fun t => (t.nextCommand (py "left")).any fun command =>
    match (s.worker.call command.toCall).1 with
    | some (.error (.worker ⟨text, []⟩)) => text = "worker event queue is full"
    | _ => false

theorem full_of_findsFull {s : Attached ℚ} {runId : Str} (h : s.findsFull runId = true) :
    s.Full (py "left") (.calls runId) := by
  obtain ⟨t, ht, h⟩ := (Option.any_eq_true _ _).1 h
  obtain ⟨command, hcommand, h⟩ := (Option.any_eq_true _ _).1 h
  refine ⟨t, command, ht, hcommand, ?_⟩
  split at h
  · rename_i text hreply
    rw [hreply, of_decide_eq_true h]
    rfl
  · cases h

set_option maxRecDepth 20000 in
theorem leftAttached_runs :
    ((run (step pairedSetup (py "left")) (leftAttached 6)
        (refusedRun "first" ++ brokenRun "second")).any fun s =>
      s.findsFull (py "second")) = true ∧
    ((run (step pairedSetup (py "left")) (leftAttached 6) (completedRun ++ refusedRun "second")).any
      fun s => decide (s.worker.worker.events.length = 3)) = true ∧
    Along (step pairedSetup (py "left")) (fun s l => s.Spacious pairedSetup (py "left") l)
      (leftAttached 6) (completedRun ++ refusedRun "second") := by
  decide +kernel

/-- The right robot fails two runs: the second finds room for four events in the queue of the left
one, and cannot stop it. -/
theorem never_full_counterexample : ¬∀ (s₀ s : Attached ℚ) (ls : List (Label ℚ)) (l : Label ℚ),
    s₀.Initial → run (step pairedSetup (py "left")) s₀ ls = some s → ¬s.Full (py "left") l := by
  intro hclaim
  obtain ⟨s, hrun, hfull⟩ := (Option.any_eq_true _ _).1 leftAttached_runs.1
  exact hclaim _ s _ _ (initial_leftAttached (by decide)) hrun (full_of_findsFull hfull)

theorem never_full_demo : ∃ s, run (step pairedSetup (py "left")) (leftAttached 6)
    (completedRun ++ refusedRun "second") = some s ∧
      s.worker.worker.events.length = 3 ∧ ∀ l, ¬s.Full (py "left") l := by
  obtain ⟨s, hrun, hevents⟩ := (Option.any_eq_true _ _).1 leftAttached_runs.2.1
  exact ⟨s, hrun, of_decide_eq_true hevents,
    never_full (initial_leftAttached (by decide)) hrun leftAttached_runs.2.2⟩

end Demo

end Attached

end RemoteRobot
