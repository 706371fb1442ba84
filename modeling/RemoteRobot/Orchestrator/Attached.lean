import RemoteRobot.Worker.Backlog
import RemoteRobot.Orchestrator.Calls
import RemoteRobot.Orchestrator.Handover

/-!
# The orchestrator and one worker over many runs

`Attached` is the orchestrator with one `InMemoryWorker`, one run at a time.  The other workers, the
timeouts, the journal and the cancellations of `execute` are left open.  `Fits` says what a run
finds of the worker at each of its `await`s: how much room its queue has, and whether the events in
it can still be those of a phase of the run.
-/

namespace RemoteRobot

open Py Except Transition

variable {F : Type}

/-! ## The worker and the orchestrator -/

/-- The class of what a worker raises. -/
def Worker.WorkerError.typeName : Worker.WorkerError F → String
  | .worker _ => "WorkerError"
  | .state _ => "WorkerStateError"
  | .closed _ => "WorkerClosedError"
  | .protocol _ => "WorkerProtocolError"
  | .timeout _ => "WorkerTimeoutError"
  | .remote _ _ => "WorkerRemoteError"
  | .ipc (.schema _) => "IPCSchemaError"
  | .ipc (.frameTooLarge _) => "FrameTooLargeError"
  | .ipc (.truncatedFrame _) => "TruncatedFrameError"
  | .ipc (.nonCanonicalFrame _) => "NonCanonicalFrameError"
  | .ipc (.valueError _) => "ValueError"
  | .ipc (.encoding e) => (Error.builtin e : Error F).typeName
  | .valueError _ => "ValueError"

/-- What a call on the worker is to the orchestrator. -/
def Reply.ofWorker : Except (Worker.WorkerError F) (Val F) → Reply F
  | .ok value => .returned value
  | .error e => .raised (py e.typeName)

def Command.toCall : Command F → Worker.Call F
  | .prepareDisabled => .prepareDisabled
  | .preparePhase _ plan => .preparePhase plan.toVal
  | .startPhase _ startAtUs => .startPhase (.int startAtUs)
  | .stop context => .stop context

/-- The command of the created child of the worker. -/
def Task.nextCommand (t : Task F) (name : Str) : Option (Command F) :=
  match t.pc with
  | .fanOut _ calls _ => match calls.find? fun c => c.worker = name with
    | some ⟨_, command, .created⟩ => some command
    | _ => none
  | _ => none

structure Attached (F : Type) where
  orchestrator : System F
  worker : Worker.System F

namespace Attached

inductive Label (F : Type) where
  /-- the orchestrator, but for its dealings with the worker -/
  | orchestrator (l : System.Label F)
  /-- the child of the run calls the worker -/
  | calls (runId : Str)
  /-- the waiting call of the worker goes on -/
  | resumes (runId : Str) (k : ℕ)
  /-- its caller is cancelled -/
  | abandons (runId : Str) (k : ℕ)
  /-- the waiter of the run takes an event -/
  | receives (runId : Str)
  /-- phase task `i` of the worker runs -/
  | wakes (i : ℕ)
  | ticks (nowUs : ℤ)

/-- A call of `execute` finds no other underway; what is said to the worker or by it has labels of
its own. -/
def Allows (name : Str) (s : Attached F) : System.Label F → Prop
  | .call .. => s.orchestrator.active = []
  | .task _ (.begin w) | .task _ (.reply w _) | .task _ (.event w _) => w ≠ name
  | _ => True

instance (name : Str) (s : Attached F) (l : System.Label F) : Decidable (s.Allows name l) := by
  unfold Allows
  split <;> infer_instance

section Step

variable [Cbor F] [Sha256] [PyFloat F] [PyText F] (cfg : Setup F) (name : Str)

/-- The run sees what its child of the worker does. -/
def tell (s : Attached F) (runId : Str) (l : Task.Label F) (worker : Worker.System F) :
    Option (Attached F) :=
  (s.orchestrator.step cfg (.task runId l)).map fun orchestrator => ⟨orchestrator, worker⟩

def step (s : Attached F) : Label F → Option (Attached F)
  | .orchestrator l =>
    if s.Allows name l then
      (s.orchestrator.step cfg l).map fun orchestrator => { s with orchestrator }
    else none
  | .calls runId =>
    ((s.orchestrator.tasks.get runId).bind fun t => t.nextCommand name).bind fun command =>
      (s.tell cfg runId (.begin name) (s.worker.call command.toCall).2).bind fun s' =>
        match (s.worker.call command.toCall).1 with
        | none => some s'
        | some reply => s'.tell cfg runId (.reply name (.ofWorker reply)) s'.worker
  | .resumes runId k =>
    (s.worker.react (.resume k)).bind fun r => r.1.bind fun reply =>
      s.tell cfg runId (.reply name (.ofWorker reply)) r.2
  | .abandons runId k =>
    (s.worker.react (.abandon k)).bind fun r =>
      s.tell cfg runId (.reply name (.raised (py "CancelledError"))) r.2
  | .receives runId =>
    (s.worker.react .nextEvent).bind fun r => match r.1 with
      | some (.ok event) => s.tell cfg runId (.event name event) r.2
      | _ => none
  | .wakes i => (s.worker.step (.wake i)).map fun worker => { s with worker }
  | .ticks nowUs => (s.worker.step (.tick nowUs)).map fun worker => { s with worker }

/-! ## The property -/

/-- The queue is full for an event of the step: a call raises, or an event of a phase is lost. -/
def Full (s : Attached F) : Label F → Prop
  | .calls runId => ∃ t command, s.orchestrator.tasks.get runId = some t ∧
      t.nextCommand name = some command ∧
      (s.worker.call command.toCall).1 = some (.error Worker.fullError)
  | .resumes _ k => ∃ worker,
      s.worker.react (.resume k) = some (some (.error Worker.fullError), worker)
  | .wakes i => ¬Worker.Lossless s.worker i
  | _ => False

/-- A run that the worker is to take part in finds room for five events, besides those of a phase
that is still underway. -/
def Spacious (s : Attached F) : Label F → Prop
  | .orchestrator (.call runId identityId program _ _) =>
    match s.orchestrator.prepareRun cfg runId identityId program with
    | .ok (_, _, workers) => name ∈ workers → s.worker.Room 5
    | .error _ => True
  | _ => True

instance (s : Attached F) (l : Label F) : Decidable (s.Spacious cfg name l) := by
  unfold Spacious
  split
  · split <;> infer_instance
  · infer_instance

/-- A new worker, and an orchestrator before its first call. -/
def Initial (s : Attached F) : Prop :=
  s.orchestrator.Initial ∧ ∃ adapterName eventLimit nowUs w,
    Worker.InMemoryWorker.create adapterName eventLimit = .ok w ∧
    s.worker = { worker := w, nowUs }

end Step

/-! ## What a run finds -/

section Fits

variable [PyText F] (name runId : Str) (ws : Worker.System F)

/-- What holds of the worker during a fan-out of the run. -/
def FanFits : Fan → Prop
  | .disable => ws.Unmarked runId ∧ ws.Room 4
  | .prepare _ => ws.Unmarked runId ∧ ws.Room 3
  | .start _ _ | .stop none => ws.Room 1
  | .stop (some _) => True

/-- What holds when the fan-out is not for the worker. -/
def AbsentFits : Fan → Prop
  | .prepare _ | .start _ _ => ws.Unmarked runId ∧ ws.Room 4
  | _ => True

/-- What holds at this status of the call on the worker. -/
def CallFits : Fan → CallStatus F → Prop
  | .disable, .created => ws.Room 5
  | .prepare _, .created => ws.Room 4
  | .prepare _, .finished (.returned _) => ws.debt = 0
  | .start _ _, .created => ws.Room 3 ∧ ws.Unmarked runId ∧ ws.debt = 0
  | .start _ _, .finished (.returned _) => ws.Marked runId
  | .stop none, .created | .stop none, .running => ws.Room 2
  | .stop (some _), .created | .stop (some _), .running => ws.Room 1
  | _, _ => True

def WaitFits : WaitStage → WaitStatus F → Prop
  | _, .waiting | .started, .got _ => ws.Marked runId
  | .completed, .got _ => ws.Settled
  | _, .failed => True

def PcFits : Pc F → Prop
  | .fanOut fan calls _ => FanFits runId ws fan ∧
      (∀ c ∈ calls, c.worker = name → CallFits runId ws fan c.status) ∧
      (name ∉ calls.map Call.worker → AbsentFits runId ws fan)
  | .waiting _ _ stage waits => ws.Room 1 ∧
      (∀ x ∈ waits, x.worker = name → WaitFits runId ws stage x.status) ∧
      (name ∉ waits.map Wait.worker → ws.Unmarked runId ∧ ws.Room 4)
  | .draining _ _ => ws.Room 1
  | .done _ => True

end Fits

/-- The run waits for the worker to stop. -/
def Stopping (name : Str) (t : Task F) : Prop :=
  ∃ failure calls cancelled, t.pc = .fanOut (.stop failure) calls cancelled ∧
    (∃ c ∈ calls, c.worker = name) ∧ ∀ c ∈ calls, c.worker = name → c.status = .running

end Attached

/-! ## The plan of a phase -/

section Plans

theorem wellFormed_of_mem [PyFloat F] {vs : List (Val F)} (h : Val.wellFormeds vs = true)
    {v : Val F} (hv : v ∈ vs) : v.wellFormed = true := by
  induction vs with
  | nil => cases hv
  | cons x vs ih =>
    rw [Val.wellFormeds, Bool.and_eq_true] at h
    obtain rfl | hv := List.mem_cons.1 hv
    · exact h.1
    · exact ih h.2 hv

variable [PyFloat F]

theorem wellFormed_of_lookup {kvs : Dict F} (h : (Val.dict kvs).wellFormed = true) {k : Str}
    {v : Val F} (hk : lookup k kvs = some v) : v.wellFormed = true := by
  rw [Val.wellFormed, Bool.and_eq_true, Val.wellFormedDict_eq_all, List.all_eq_true] at h
  exact h.2 _ (mem_of_lookup hk)

theorem wellFormed_of_getItem {x v : Val F} {k : String} (h : x.wellFormed = true)
    (hk : x.getItem k = .ok v) : v.wellFormed = true := by
  cases x with
  | dict kvs => exact wellFormed_of_lookup h (lookup_of_getItem hk)
  | _ => cases hk

/-- A mapping among the items of a value. -/
theorem wellFormed_of_iter {x : Val F} {vs : List (Val F)} (h : x.wellFormed = true)
    (hvs : x.iter = .ok vs) {kvs : Dict F} (hv : .dict kvs ∈ vs) :
    (Val.dict kvs).wellFormed = true := by
  cases x with
  | list xs | tuple xs =>
    cases hvs
    exact wellFormed_of_mem h hv
  | dict d =>
    cases hvs
    obtain ⟨⟨k, v⟩, -, hk⟩ := List.mem_map.1 hv
    cases k <;> cases hk
  | str s =>
    cases hvs
    obtain ⟨c, -, hc⟩ := List.mem_map.1 hv
    cases hc
  | bytes b =>
    cases hvs
    obtain ⟨c, -, hc⟩ := List.mem_map.1 hv
    cases hc
  | none | bool | int | float => cases hvs

variable [Cbor F] [Sha256] [PyText F]

omit [Cbor F] [Sha256] in
/-- The plans of a well-formed program are well-formed. -/
theorem wellFormed_plan {program : CompiledProgram F} {runId : Str} {k : ℕ} {phases : List (Val F)}
    {phase : Val F} {plans : List (Str × PhasePlan F)}
    (hbody : (Val.dict program.body).wellFormed = true) (hphases : program.phases = .ok phases)
    (hk : phases[k]? = some phase) (hplans : workerPhasePlans runId program k phase = .ok plans)
    {q : Str × PhasePlan F} (hq : q ∈ plans) : q.2.toVal.wellFormed = true := by
  unfold CompiledProgram.phases at hphases
  simp only [bind_eq_ok, liftExc_eq_ok] at hphases
  obtain ⟨x, hx, hphases⟩ := hphases
  obtain ⟨-, -, -, hid, hdur, hcomp⟩ := plan_fields hplans hq
  obtain ⟨kvs, rfl⟩ : ∃ kvs, phase = .dict kvs := by
    cases phase with
    | dict kvs => exact ⟨kvs, rfl⟩
    | _ => cases hid
  have hphase := wellFormed_of_iter (wellFormed_of_getItem hbody hx) hphases
    (List.mem_of_getElem? hk)
  have htracks : Val.wellFormeds q.2.tracks = true := by
    have hall : ∀ v ∈ q.2.tracks, v.wellFormed = true := by
      intro v hv
      obtain ⟨htrack, u, vs, hu, hvs, hmem⟩ := mem_tracks hplans hq hv
      obtain ⟨d, rfl⟩ : ∃ d, v = .dict d := by
        obtain ⟨_, _, _, hd, -⟩ := track_eq_ok htrack
        exact ⟨_, hd⟩
      exact wellFormed_of_iter (wellFormed_of_getItem hphase hu) hvs hmem
    generalize q.2.tracks = vs at hall
    induction vs with
    | nil => rfl
    | cons v vs ih =>
      rw [List.forall_mem_cons] at hall
      rw [Val.wellFormeds, hall.1, ih hall.2, Bool.and_true]
  refine wellFormed_dictOf (by simp) ?_
  simp only [List.forall_mem_cons]
  exact ⟨rfl, rfl, rfl, rfl, wellFormed_of_getItem hphase hid, wellFormed_of_getItem hphase hdur,
    wellFormed_of_getItem hphase hcomp, rfl, htracks, fun _ h => by cases h⟩

theorem wellFormed_of_preflight [PlainCbor F] {R : Registry F} {identityId : Str}
    {program checked : CompiledProgram F} (h : preflight R identityId program = .ok checked) :
    (Val.dict checked.body).wellFormed = true := by
  unfold preflight at h
  simp only [bind_eq_ok, exists_unit] at h
  obtain ⟨data, -, checked', hfrom, -, _, -, _, -, _, -, -, h⟩ := h
  obtain rfl := Except.ok.inj h
  unfold fromBytes at hfrom
  split at hfrom
  · cases hfrom
  rename_i value hloads
  obtain ⟨hvalue, -⟩ := PlainCbor.loads_ok data value hloads
  unfold fromValue at hfrom
  simp only [bind_eq_ok, exists_unit] at hfrom
  obtain ⟨_, -, -, hfrom⟩ := hfrom
  split at hfrom
  · rename_i kvs
    simp only [bind_eq_ok, exists_unit] at hfrom
    obtain ⟨-, hfrom⟩ := hfrom
    split at hfrom
    · rename_i body supplied hbody hsha
      unfold checkEnvelope at hfrom
      simp only [bind_eq_ok, exists_unit] at hfrom
      obtain ⟨-, _, -, -, -, hfrom⟩ := hfrom
      obtain rfl := Except.ok.inj hfrom
      unfold field at hbody
      cases hlookup : lookup (py "body") kvs with
      | none =>
        rw [hlookup] at hbody
        cases hbody
      | some v =>
        rw [hlookup] at hbody
        obtain rfl : v = .dict body := hbody
        exact wellFormed_of_lookup hvalue hlookup
    · cases hfrom
  · cases hfrom

end Plans

/-! ## One run at a time -/

section Sequential

variable [Cbor F] [Sha256] [PyFloat F] [PyText F] {cfg : Setup F}

namespace System

theorem prepareRun_spec {s : System F} {runId identityId : Str} {program checked : CompiledProgram F}
    {locks : LockRequirements} {workers : List Str}
    (h : s.prepareRun cfg runId identityId program = .ok (checked, locks, workers)) :
    runId ≠ [] ∧ runId ∉ s.journal.map Prod.fst ∧
      preflight cfg.registry.toRegistry identityId program = .ok checked := by
  unfold prepareRun at h
  simp only [bind_eq_ok, exists_unit] at h
  obtain ⟨used, hused, hfresh, checked', hpre, locks', -, ids, -, -, h⟩ := h
  cases h
  unfold hasHistory at hused
  split_ifs at hused with hkey
  rw [raiseWhen_eq_ok] at hfresh
  refine ⟨?_, ?_, hpre⟩
  · rintro rfl
    cases hkey
  · intro hmem
    obtain ⟨e, he, rfl⟩ := List.mem_map.1 hmem
    refine hfresh ((Except.ok.inj hused).symm.trans ?_)
    exact List.any_eq_true.2 ⟨e, he, decide_eq_true rfl⟩

/-- A run that opens is made of what was prepared. -/
theorem prepareRun_of_openRun {s s' : System F} {runId identityId : Str}
    {program : CompiledProgram F} {ns : ℕ} {appendError : Option (Error F)} {t : Task F}
    (h : s.openRun cfg runId identityId program ns appendError = (s', .ok t)) :
    ∃ locks, s.prepareRun cfg runId identityId program = .ok (t.program, locks, t.participants) := by
  unfold openRun at h
  split_ifs at h
  · cases congrArg Prod.snd h
  split at h
  · cases congrArg Prod.snd h
  rename_i checked locks workers hprepared
  split at h
  · cases congrArg Prod.snd h
  split at h
  · obtain rfl := Except.ok.inj (congrArg Prod.snd h)
    exact ⟨locks, hprepared⟩
  all_goals cases congrArg Prod.snd h

/-- What is known of an orchestrator with one run at a time. -/
structure Sequential (cfg : Setup F) (s s₀ : System F) : Prop where
  reachable : Transition.Reachable (System.step cfg) s₀ s
  active : s.active.length ≤ 1
  opened : ∀ r t, s.tasks.get r = some t →
    r ∈ s.journal.map Prod.fst ∧ (Val.dict t.program.body).wellFormed = true

/-- A run moves. -/
theorem step_of_task {s s' : System F} {r : Str} {l : Task.Label F}
    (h : s.step cfg (.task r l) = some s') : ∃ t t' event, s.tasks.get r = some t ∧
      t.step cfg l = some (t', event) ∧ s' = s.commit r t' event := by
  obtain ⟨t, ht, h⟩ := Option.bind_eq_some_iff.1 h
  obtain ⟨⟨t', event⟩, hstep, rfl⟩ := Option.map_eq_some_iff.1 h
  exact ⟨t, t', event, ht, hstep, rfl⟩

omit [Cbor F] [Sha256] [PyFloat F] [PyText F] in
theorem get_commit (s : System F) (r : Str) (t : Task F) (event : Option (Val F)) (r' : Str) :
    (s.commit r t event).tasks.get r' = if r' = r then some t else s.tasks.get r' := by
  rw [commit_tasks, Table.get_insert]

omit [Cbor F] [Sha256] [PyFloat F] [PyText F] in
theorem subset_journal_commit (s : System F) (r : Str) (t : Task F) (event : Option (Val F)) :
    s.journal.map Prod.fst ⊆ (s.commit r t event).journal.map Prod.fst := by
  have hjournal : (s.commit r t event).journal.map Prod.fst =
      s.journal.map Prod.fst ++ (event.map fun e => (r, e)).toList.map Prod.fst := List.map_append
  rw [hjournal]
  exact List.subset_append_left _ _

/-- A call of `execute` opens a run, or it leaves the runs and the journal alone. -/
theorem opened_of_call {s s' : System F} {r identityId : Str} {program : CompiledProgram F} {ns : ℕ}
    {appendError : Option (Error F)}
    (h : s.step cfg (.call r identityId program ns appendError) = some s') :
    (s'.tasks = s.tasks ∧ s'.journal = s.journal ∧ s'.active = s.active) ∨
    ∃ t locks event, t.runId = r ∧ t.Opened cfg ∧
      s.prepareRun cfg r identityId program = .ok (t.program, locks, t.participants) ∧
      s'.tasks = s.tasks.insert r t ∧ s'.journal = s.journal ++ [(r, event)] ∧
      s'.active = r :: s.active := by
  cases ho : s.openRun cfg r identityId program ns appendError with
  | mk s₁ result =>
    obtain rfl : s₁ = s' := by
      rw [step, ho] at h
      exact Option.some.inj h
    obtain ⟨rfl, -⟩ | ⟨-, _, _, _, _, -, -, -, rfl⟩ |
      ⟨-, t, _, _, event, rfl, hid, hopen, -, rfl⟩ := openRun_cases ho
    · exact .inl ⟨rfl, rfl, rfl⟩
    · exact .inl ⟨rfl, rfl, rfl⟩
    · obtain ⟨locks, hprepared⟩ := prepareRun_of_openRun ho
      exact .inr ⟨t, locks, event, hid, hopen, hprepared, rfl, rfl, rfl⟩

namespace Sequential

variable {s₀ s s' : System F} {r : Str} {t t' : Task F}

theorem task (h : s.Sequential cfg s₀) {l : Task.Label F}
    (hstep : s.step cfg (.task r l) = some s') : s'.Sequential cfg s₀ := by
  obtain ⟨t, t', event, ht, hm, rfl⟩ := step_of_task hstep
  have hm := Task.move_of_step hm
  refine ⟨h.reachable.tail hstep, ?_, fun r' u hu => ?_⟩
  · unfold commit
    simp only
    split_ifs
    · exact (List.length_erase_le).trans h.active
    · exact h.active
  · have hjournal := subset_journal_commit s r t' event
    rw [get_commit] at hu
    split_ifs at hu with hr
    · obtain rfl := Option.some.inj hu
      obtain ⟨hmem, hbody⟩ := h.opened r t ht
      rw [Task.toRun_of_move hm, hr]
      exact ⟨hjournal hmem, hbody⟩
    · obtain ⟨hmem, hbody⟩ := h.opened r' u hu
      exact ⟨hjournal hmem, hbody⟩

theorem call [PlainCbor F] (h : s.Sequential cfg s₀) (hidle : s.active = []) {identityId : Str}
    {program : CompiledProgram F} {ns : ℕ} {appendError : Option (Error F)}
    (hstep : s.step cfg (.call r identityId program ns appendError) = some s') :
    s'.Sequential cfg s₀ := by
  obtain ⟨htasks, hjournal, hactive⟩ | ⟨t, locks, event, -, -, hprepared, htasks, hjournal, hactive⟩ :=
    opened_of_call hstep
  · refine ⟨h.reachable.tail hstep, hactive ▸ h.active, fun r' u hu => ?_⟩
    rw [hjournal]
    exact h.opened r' u (htasks ▸ hu)
  · refine ⟨h.reachable.tail hstep, ?_, fun r' u hu => ?_⟩
    · rw [hactive, hidle]
      exact le_refl _
    · rw [hjournal, List.map_append]
      rw [htasks, Table.get_insert] at hu
      split_ifs at hu with hr
      · obtain rfl := Option.some.inj hu
        rw [hr]
        exact ⟨List.mem_append_right _ List.mem_cons_self,
          wellFormed_of_preflight (prepareRun_spec hprepared).2.2⟩
      · obtain ⟨hmem, hbody⟩ := h.opened r' u hu
        exact ⟨List.mem_append_left _ hmem, hbody⟩

/-- No two runs are underway. -/
theorem eq_of_not_done (h : s.Sequential cfg s₀) (h₀ : s₀.Initial) {r' : Str}
    (ht : s.tasks.get r = some t) (hdone : t.isDone = false) (ht' : s.tasks.get r' = some t')
    (hdone' : t'.isDone = false) : r' = r := by
  have hI := inv_of_reachable h₀ h.reachable
  have hr := hI.active r t ht hdone
  have hr' := hI.active r' t' ht' hdone'
  obtain ⟨a, ha⟩ | hnil : (∃ a, s.active = [a]) ∨ s.active = [] := by
    have hlen := h.active
    cases hactive : s.active with
    | nil => exact .inr rfl
    | cons a as => cases as with
      | nil => exact .inl ⟨a, rfl⟩
      | cons b bs =>
        rw [hactive, List.length_cons, List.length_cons] at hlen
        omega
  · rw [ha, List.mem_singleton] at hr hr'
    rw [hr, hr']
  · rw [hnil] at hr
    cases hr

end Sequential

end System

end Sequential

namespace Attached

section Fits

variable [PyText F] {name r : Str} {ws ws' : Worker.System F}

/-! ## What the steps keep -/

section Later

variable (h : ws.Later ws') (hsole : ws.Sole)

include h

theorem FanFits.later {fan : Fan} (hf : FanFits r ws fan) : FanFits r ws' fan := by
  cases fan with
  | disable | prepare => exact ⟨h.unmarked r hf.1, h.room hf.2⟩
  | start => exact h.room hf
  | stop failure => cases failure with
    | none => exact h.room hf
    | some f => trivial

theorem AbsentFits.later {fan : Fan} (hf : AbsentFits r ws fan) : AbsentFits r ws' fan := by
  cases fan with
  | prepare | start => exact ⟨h.unmarked r hf.1, h.room hf.2⟩
  | _ => trivial

include hsole

theorem CallFits.later {fan : Fan} {status : CallStatus F} (hf : CallFits r ws fan status) :
    CallFits r ws' fan status := by
  cases fan with
  | disable => cases status with
    | created => exact h.room hf
    | _ => trivial
  | prepare k => cases status with
    | created => exact h.room hf
    | running => trivial
    | finished reply => cases reply with
      | returned v => exact (h.idle hf).1
      | raised e => trivial
  | start k startAtUs => cases status with
    | created => exact ⟨h.room hf.1, h.unmarked r hf.2.1, (h.idle hf.2.2).1⟩
    | running => trivial
    | finished reply => cases reply with
      | returned v => exact h.marked r hsole hf
      | raised e => trivial
  | stop failure => cases failure <;> cases status with
    | created | running => exact h.room hf
    | finished reply => trivial

theorem WaitFits.later {stage : WaitStage} {status : WaitStatus F} (hf : WaitFits r ws stage status) :
    WaitFits r ws' stage status := by
  cases status with
  | waiting => cases stage <;> exact h.marked r hsole hf
  | got e => cases stage with
    | started => exact h.marked r hsole hf
    | completed =>
      obtain ⟨hdebt, hevents⟩ := h.idle hf.debt
      exact ⟨hevents.trans hf.events, hdebt⟩
  | failed => cases stage <;> trivial

theorem PcFits.later {pc : Pc F} (hf : PcFits name r ws pc) : PcFits name r ws' pc := by
  cases pc with
  | fanOut fan calls cancelled =>
    obtain ⟨hfan, hcalls, habsent⟩ := hf
    exact ⟨hfan.later h, fun c hc hw => (hcalls c hc hw).later h hsole,
      fun hne => (habsent hne).later h⟩
  | waiting k startAtUs stage waits =>
    obtain ⟨hroom, hwaits, habsent⟩ := hf
    refine ⟨h.room hroom, fun x hx hw => (hwaits x hx hw).later h hsole, fun hne => ?_⟩
    exact ⟨h.unmarked r (habsent hne).1, h.room (habsent hne).2⟩
  | draining => exact h.room hf
  | done => trivial

end Later

/-! ## What the run keeps -/

/-- Behind every `await` but that of the last stops the worker finds room to stop once. -/
theorem PcFits.room_one {t : Task F} (h : PcFits name r ws t.pc) (hpc : ¬t.InFailureStop)
    (hdone : ¬t.isDone) : ws.Room 1 := by
  unfold Task.isDone at hdone
  cases hp : t.pc with
  | fanOut fan calls cancelled =>
    rw [hp] at h
    obtain ⟨hfan, -⟩ := h
    cases fan with
    | disable => exact hfan.2.mono (by omega)
    | prepare => exact hfan.2.mono (by omega)
    | start => exact hfan
    | stop failure => cases failure with
      | none => exact hfan
      | some f => exact absurd ⟨f, calls, cancelled, hp⟩ hpc
  | waiting =>
    rw [hp] at h
    exact h.1
  | draining =>
    rw [hp] at h
    exact h
  | done => exact absurd (by rw [hp]) hdone

/-- Before a phase the worker has not completed a phase of the run that it could still report. -/
theorem PcFits.before {t : Task F} (h : PcFits name r ws t.pc) (hlimit : 5 ≤ ws.worker.eventLimit)
    {k : ℕ} (hb : t.Before k) : ws.Unmarked r ∧ ws.Room 4 := by
  cases hb with
  | first hpc =>
    rw [hpc] at h
    exact h.1
  | @next k startAtUs waits hpc hgot =>
    rw [hpc] at h
    obtain ⟨-, hwaits, habsent⟩ := h
    by_cases hmem : name ∈ waits.map Wait.worker
    · obtain ⟨x, hx, hw⟩ := List.mem_map.1 hmem
      obtain ⟨e, he⟩ := hgot x hx
      have hfits := hwaits x hx hw
      rw [he] at hfits
      exact ⟨hfits.unmarked r, hfits.room (by omega)⟩
    · exact habsent hmem

theorem PcFits.stopAll {t : Task F} {failure : Option Failure}
    (hroom : ws.Room (if failure = none then 2 else 1)) :
    PcFits name r ws (t.stopAll failure).pc := by
  refine ⟨?_, fun c hc _ => ?_, fun _ => trivial⟩
  · cases failure with
    | none => exact hroom.mono (by simp)
    | some f => trivial
  · obtain ⟨w, -, rfl⟩ := List.mem_map.1 hc
    cases failure with
    | none => exact hroom
    | some f => exact hroom

theorem PcFits.waitAll {t : Task F} {k startAtUs : ℕ} {stage : WaitStage} {workers : List Str}
    (hroom : ws.Room 1) (hmarked : name ∈ workers → ws.Marked r)
    (habsent : name ∉ workers → ws.Unmarked r ∧ ws.Room 4) :
    PcFits name r ws (t.waitAll k startAtUs stage workers).pc := by
  refine ⟨hroom, fun x hx hw => ?_, fun hne => habsent ?_⟩
  · obtain ⟨w, hmem, rfl⟩ := List.mem_map.1 hx
    cases stage <;> exact hmarked (hw ▸ hmem)
  · rw [List.map_map, show (Wait.worker ∘ fun w => _) = id from rfl, List.map_id] at hne
    exact hne

theorem PcFits.resumed {t t' : Task F} (h : PcFits name r ws t.pc)
    (hlimit : 5 ≤ ws.worker.eventLimit) (hr : t.Resumed t') : PcFits name r ws t'.pc := by
  cases hr with
  | fail hpc hdone => exact PcFits.stopAll (h.room_one hpc hdone)
  | complete hbefore =>
    have hroom : ws.Room 2 := (h.before hlimit hbefore).2.mono (by omega)
    exact PcFits.stopAll hroom
  | prepare hbefore hphase hplans =>
    obtain ⟨hunmarked, hroom⟩ := h.before hlimit hbefore
    refine ⟨⟨hunmarked, hroom.mono (by omega)⟩, fun c hc _ => ?_, fun _ => ⟨hunmarked, hroom⟩⟩
    obtain ⟨p, -, rfl⟩ := mem_prepareCalls.1 hc
    exact hroom
  | start hpc hret =>
    rw [hpc] at h
    obtain ⟨⟨hunmarked, hroom⟩, hcalls, habsent⟩ := h
    refine ⟨hroom.mono (by omega), fun c hc hw => ?_, fun hne => habsent ?_⟩
    · obtain ⟨c₀, hc₀, rfl⟩ := List.mem_map.1 hc
      obtain ⟨v, hv⟩ := hret c₀ hc₀
      have hfits := hcalls c₀ hc₀ hw
      rw [hv] at hfits
      exact ⟨hroom, hunmarked, hfits⟩
    · rw [List.map_map] at hne
      exact hne
  | awaitStarted hpc hret =>
    rw [hpc] at h
    obtain ⟨hroom, hcalls, habsent⟩ := h
    refine PcFits.waitAll hroom (fun hmem => ?_) habsent
    obtain ⟨c, hc, hw⟩ := List.mem_map.1 hmem
    obtain ⟨v, hv⟩ := hret c hc
    have hfits := hcalls c hc hw
    rw [hv] at hfits
    exact hfits
  | awaitCompleted hpc hgot =>
    rw [hpc] at h
    obtain ⟨hroom, hwaits, habsent⟩ := h
    refine PcFits.waitAll hroom (fun hmem => ?_) habsent
    obtain ⟨x, hx, hw⟩ := List.mem_map.1 hmem
    obtain ⟨e, he⟩ := hgot x hx
    have hfits := hwaits x hx hw
    rw [he] at hfits
    exact hfits
  | drain hpc =>
    rw [hpc] at h
    exact h.1
  | completed | failed => trivial

omit [PyText F] in
/-- The calls on the other workers. -/
theorem mem_of_setStatus {w : Str} {status : CallStatus F} {calls : List (Call F)} {c : Call F}
    (hc : c ∈ setStatus w status calls) (hw : c.worker ≠ w) : c ∈ calls := by
  obtain ⟨c₀, hc₀, hworker, -, ⟨-, rfl⟩ | ⟨he, -⟩⟩ := mem_setStatus hc
  · exact hc₀
  · exact absurd (hworker.symm.trans he) hw

omit [PyText F] in
theorem mem_of_setWaitStatus {w : Str} {status : WaitStatus F} {waits : List (Wait F)} {x : Wait F}
    (hx : x ∈ setWaitStatus w status waits) :
    ∃ x₀ ∈ waits, x₀.worker = x.worker ∧
      (x.worker ≠ w ∧ x = x₀ ∨ x.worker = w ∧ x.status = status) := by
  obtain ⟨x₀, hx₀, rfl⟩ := List.mem_map.1 hx
  refine ⟨x₀, hx₀, ?_⟩
  by_cases hw : x₀.worker = w
  · rw [if_pos hw]
    exact ⟨rfl, .inr ⟨hw, rfl⟩⟩
  · rw [if_neg hw]
    exact ⟨rfl, .inl ⟨hw, rfl⟩⟩

/-- A cancelled call is left alone, or it has not begun and raises. -/
theorem CallFits.cancel {fan : Fan} {c : Call F} (h : CallFits r ws fan c.status) :
    CallFits r ws fan c.cancel.status := by
  obtain ⟨w, command, status⟩ := c
  cases status with
  | created => cases fan with
    | disable | prepare | start => trivial
    | stop failure => cases failure <;> trivial
  | running => exact h
  | finished reply => exact h

theorem PcFits.move [PyFloat F] {s : Attached F} {t t' : Task F} {runId : Str} {l : Task.Label F}
    (h : PcFits name r ws t.pc) (hlimit : 5 ≤ ws.worker.eventLimit) (hm : t.Move l t')
    (hother : s.Allows name (.task runId l)) : PcFits name r ws t'.pc := by
  cases hm with
  | sent hpc hcall | finished hpc hcall =>
    rw [hpc] at h
    obtain ⟨hfan, hcalls, habsent⟩ := h
    refine ⟨hfan, fun c hc hw => hcalls c (mem_of_setStatus hc fun he => ?_) hw, ?_⟩
    · exact hother (he.symm.trans hw)
    · rw [workers_setStatus]
      exact habsent
  | cancelCalls hpc =>
    rw [hpc] at h
    obtain ⟨hfan, hcalls, habsent⟩ := h
    refine ⟨hfan, fun c hc hw => ?_, ?_⟩
    · obtain ⟨c₀, hc₀, rfl⟩ := List.mem_map.1 hc
      obtain ⟨w, command, status⟩ := c₀
      refine (hcalls _ hc₀ ?_).cancel
      cases status <;> exact hw
    · rw [workers_cancel]
      exact habsent
  | delivered hpc hwait =>
    rw [hpc] at h
    obtain ⟨hroom, hwaits, habsent⟩ := h
    refine ⟨hroom, fun x hx hw => ?_, ?_⟩
    · obtain ⟨x₀, hx₀, -, ⟨-, rfl⟩ | ⟨he, -⟩⟩ := mem_of_setWaitStatus hx
      · exact hwaits x hx₀ hw
      · exact absurd (he.symm.trans hw) hother
    · rw [workers_setWaitStatus]
      exact habsent
  | @waitFailed k startAtUs stage waits w hpc =>
    rw [hpc] at h
    obtain ⟨hroom, hwaits, habsent⟩ := h
    refine ⟨hroom, fun x hx hw => ?_, ?_⟩
    · obtain ⟨x₀, hx₀, -, ⟨-, rfl⟩ | ⟨-, he⟩⟩ := mem_of_setWaitStatus hx
      · exact hwaits x hx₀ hw
      · rw [he]
        cases stage <;> trivial
    · rw [workers_setWaitStatus]
      exact habsent
  | cancelWaits hpc =>
    rw [hpc] at h
    exact h.1
  | drained hpc =>
    rw [hpc] at h
    exact h
  | resumed hr => exact h.resumed hlimit hr

end Fits

/-! ## The invariant -/

section Invariant

variable [Cbor F] [Sha256] [PyFloat F] [PyText F] {cfg : Setup F} {name r : Str}
  {s s' : Attached F} {s₀ : System F} {t t' : Task F} {ws ws' : Worker.System F}

/-- What holds of the worker during a run. -/
structure Fits (name : Str) (ws : Worker.System F) (t : Task F) : Prop where
  room : name ∈ t.participants → 5 ≤ ws.worker.eventLimit ∧ PcFits name t.runId ws t.pc
  stopping : ws.waiting ≠ [] → Stopping name t

structure Inv (cfg : Setup F) (name : Str) (s₀ : System F) (s : Attached F) : Prop where
  sequential : s.orchestrator.Sequential cfg s₀
  sole : s.worker.Sole
  known : s.worker.Known (s.orchestrator.journal.map Prod.fst)
  room : s.worker.Room 0
  waiting : s.worker.waiting.length ≤ 1
  pending : s.worker.waiting ≠ [] →
    ∃ r t, s.orchestrator.tasks.get r = some t ∧ t.isDone = false
  fits : ∀ r t, s.orchestrator.tasks.get r = some t → t.isDone = false → Fits name s.worker t

omit [Cbor F] [Sha256] [PyFloat F] [PyText F] in
theorem Stopping.not_done (h : Stopping name t) : t.isDone = false := by
  obtain ⟨_, _, _, hpc, -⟩ := h
  unfold Task.isDone
  rw [hpc]

/-- A run that waits for the worker to stop does not go on. -/
theorem Stopping.step {l : Task.Label F} {event : Option (Val F)} (h : Stopping name t)
    (hstep : t.step cfg l = some (t', event)) (hother : s.Allows name (.task r l)) :
    Stopping name t' := by
  obtain ⟨failure, calls, cancelled, hpc, ⟨c₁, hc₁, hw₁⟩, hrunning⟩ := h
  have hmem : name ∈ calls.map Call.worker := hw₁ ▸ List.mem_map_of_mem hc₁
  cases Task.move_of_step hstep with
  | sent hpc' hcall | finished hpc' hcall =>
    rw [hpc] at hpc'
    cases hpc'
    refine ⟨failure, _, _, rfl, ?_, fun c hc hw => hrunning c (mem_of_setStatus hc fun he => ?_) hw⟩
    · rw [← workers_setStatus] at hmem
      obtain ⟨c, hc, hw⟩ := List.mem_map.1 hmem
      exact ⟨c, hc, hw⟩
    · exact hother (he.symm.trans hw)
  | cancelCalls hpc' =>
    rw [hpc] at hpc'
    cases hpc'
    refine ⟨failure, _, _, rfl, ?_, fun c hc hw => ?_⟩
    · rw [← workers_cancel] at hmem
      obtain ⟨c, hc, hw⟩ := List.mem_map.1 hmem
      exact ⟨c, hc, hw⟩
    · obtain ⟨⟨w, command, status⟩, hc₀, rfl⟩ := List.mem_map.1 hc
      cases status with
      | created => exact absurd (hrunning _ hc₀ hw) nofun
      | running => rfl
      | finished reply => exact absurd (hrunning _ hc₀ hw) nofun
  | delivered hpc' | waitFailed hpc' | cancelWaits hpc' | drained hpc' =>
    rw [hpc] at hpc'
    cases hpc'
  | resumed =>
    -- every call has finished when a fan-out is over
    simp only [Task.step, Task.resume, hpc] at hstep
    have hall : (calls.all fun c => c.reply.isSome) = true := by
      by_contra hno
      rw [if_neg hno] at hstep
      cases hstep
    have hreply := List.all_eq_true.1 hall c₁ hc₁
    have hrun := hrunning c₁ hc₁ hw₁
    obtain ⟨w, command, status⟩ := c₁
    obtain rfl : status = .running := hrun
    cases hreply

theorem Inv.of_tasks (hI : Inv cfg name s₀ s) (h₀ : s₀.Initial) {o : System F}
    (ht : s.orchestrator.tasks.get r = some t) (hdone : t.isDone = false)
    (hseq : o.Sequential cfg s₀)
    (hget : ∀ r', o.tasks.get r' = if r' = r then some t' else s.orchestrator.tasks.get r')
    (hsole : ws.Sole) (hknown : ws.Known (o.journal.map Prod.fst)) (hroom : ws.Room 0)
    (hwaiting : ws.waiting.length ≤ 1) (hfits : Fits name ws t') : Inv cfg name s₀ ⟨o, ws⟩ := by
  refine ⟨hseq, hsole, hknown, hroom, hwaiting, fun hne => ?_, fun r' u hu hundone => ?_⟩
  · refine ⟨r, t', ?_, (hfits.stopping hne).not_done⟩
    rw [hget, if_pos rfl]
  · rw [show (⟨o, ws⟩ : Attached F).orchestrator.tasks.get r' = _ from hget r'] at hu
    split_ifs at hu with hr
    · obtain rfl := Option.some.inj hu
      exact hfits
    · exact absurd (hI.sequential.eq_of_not_done h₀ ht hdone hu hundone) hr

end Invariant

end Attached

end RemoteRobot
