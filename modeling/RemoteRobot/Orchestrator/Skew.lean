import RemoteRobot.Orchestrator.Calls

/-!
# Start skew

`execute` compares the spread of all start times a phase reports with `max_start_skew_us` of the
program's root.  No other node is asked, so the limit of a composite below the root is kept exactly
when the root declares one that is no looser, or the composite has no two workers in the phase.
-/

namespace RemoteRobot

open Py Except

variable {F : Type}

/-! ## The spread of the start times -/

/-- The start time a `phase_started` event reports. -/
def Wait.actualStartUs (x : Wait F) : Option ℕ :=
  match x.event with
  | some (.dict event) => match field "actual_start_us" event with
    | .int actual => if actual < 0 then none else some actual.toNat
    | _ => none
  | _ => none

theorem Task.observedStartSkewUs_eq_some {waits : List (Wait F)} {d : ℕ} :
    observedStartSkewUs waits = some d ↔ ∃ starts hi lo, waits.mapM Wait.actualStartUs = some starts ∧
      starts.max? = some hi ∧ starts.min? = some lo ∧ d = hi - lo := by
  show ((waits.mapM Wait.actualStartUs).bind fun starts => starts.max?.bind fun hi =>
    starts.min?.bind fun lo => some (hi - lo)) = some d ↔ _
  simp only [Option.bind_eq_some_iff, Option.some.injEq]
  constructor
  · rintro ⟨starts, hs, hi, hhi, lo, hlo, rfl⟩
    exact ⟨starts, hi, lo, hs, hhi, hlo, rfl⟩
  · rintro ⟨starts, hi, lo, hs, hhi, hlo, rfl⟩
    exact ⟨starts, hs, hi, hhi, lo, hlo, rfl⟩

theorem mem_starts {waits : List (Wait F)} {starts : List ℕ}
    (h : waits.mapM Wait.actualStartUs = some starts) {x : Wait F} (hx : x ∈ waits) {a : ℕ}
    (ha : x.actualStartUs = some a) : a ∈ starts := by
  induction waits generalizing starts with
  | nil => cases hx
  | cons y waits ih =>
    rw [List.mapM_cons] at h
    obtain ⟨b, hb, h⟩ := Option.bind_eq_some_iff.1 h
    obtain ⟨bs, hbs, h⟩ := Option.bind_eq_some_iff.1 h
    cases h
    rcases List.mem_cons.1 hx with rfl | hx
    · rw [ha] at hb
      rw [Option.some.inj hb]
      exact List.mem_cons_self
    · exact List.mem_cons_of_mem _ (ih hbs hx)

/-- Two reported starts are no further apart than the spread. -/
theorem le_add_observed {waits : List (Wait F)} {d : ℕ} (h : Task.observedStartSkewUs waits = some d)
    {x y : Wait F} (hx : x ∈ waits) (hy : y ∈ waits) {a b : ℕ} (ha : x.actualStartUs = some a)
    (hb : y.actualStartUs = some b) : a ≤ b + d := by
  obtain ⟨starts, hi, lo, hs, hhi, hlo, rfl⟩ := Task.observedStartSkewUs_eq_some.1 h
  have h₁ := (List.max?_eq_some_iff.1 hhi).2 a (mem_starts hs hx ha)
  have h₂ := (List.min?_eq_some_iff.1 hlo).2 b (mem_starts hs hy hb)
  omega

/-! ## The limit of the root -/

def ControlNode.maxStartSkewUs : ControlNode F → Option ℤ
  | .physical _ => none
  | .composite c => c.maxStartSkewUs

section Limits

variable [Cbor F] [Sha256] [PyFloat F] [PyText F] {R : Registry F}

theorem node_of_check (h : R.check = .ok ()) {nodeId : Str} {n : ControlNode F}
    (hn : R.find nodeId = some n) :
    (∀ m, n.maxStartSkewUs = some m → 0 < m) ∧ ∃ fields, R.manifestFrom R.depth nodeId = .ok fields := by
  have hmem : n ∈ R.nodes := List.mem_of_find?_eq_some hn
  have hchecked := checked_of_check h
  constructor
  · intro m hm
    cases n with
    | physical p => cases hm
    | composite c =>
      have hc := hchecked.nodes _ hmem
      simp only [ControlNode.postInit, CompositeNode.postInit, bind_eq_ok, exists_unit] at hc
      obtain ⟨-, -, -, -, -, -, -, hskew⟩ := hc
      rw [show c.maxStartSkewUs = some m from hm] at hskew
      by_contra hneg
      simp [raiseIf, not_lt.1 hneg] at hskew
  · exact nodeId_of_find hn ▸ hchecked.describes n hmem

/-- `_max_start_skew_us` is the limit the root declares. -/
theorem Task.maxStartSkewUs_of_find (h : R.check = .ok ()) {rootId : Str} {n : ControlNode F}
    (hn : R.find rootId = some n) :
    maxStartSkewUs R rootId = .ok (n.maxStartSkewUs.map Int.toNat) := by
  obtain ⟨hpos, fields, hfields⟩ := node_of_check h hn
  obtain ⟨d, n', own, digest, -, hn', hown, rfl, -⟩ := manifestFrom_eq_ok hfields
  rw [hn] at hn'
  cases hn'
  have hfield : field "max_start_skew_us"
      (entries (R.commonManifest n ++ own ++ [("manifest_hash", Val.str digest)])) =
        optInt n.maxStartSkewUs := by
    cases n with
    | physical p =>
      rw [show own = Registry.physicalManifest p from hown]
      simp [field, Registry.commonManifest, Registry.physicalManifest, ControlNode.maxStartSkewUs,
        optInt]
    | composite c =>
      obtain ⟨children, physical, rfl, -⟩ := hown
      simp [field, Registry.commonManifest, Registry.compositeManifest, ControlNode.maxStartSkewUs]
  unfold maxStartSkewUs
  rw [Registry.describe, hfields]
  simp only [Except.map, bind, Except.bind, plainMapping, dictOf, hfield]
  cases hm : n.maxStartSkewUs with
  | none => rfl
  | some m =>
    have := hpos m hm
    simp only [optInt]
    rw [if_neg (by omega)]
    rfl

end Limits

/-! ## The reports of a phase -/

section Reports

variable [PyFloat F]

theorem Task.eq_of_classify {t : Task F} {stage : WaitStage} {event e : Val F}
    (h : t.classify stage event = .got e) : e = event := by
  unfold Task.classify at h
  split at h
  · dsimp only at h
    split_ifs at h
    exact (WaitStatus.got.inj h).symm
  · cases h

/-- What ended a wait is an event that ends it. -/
def Task.ReportsOk (t : Task F) : Prop :=
  ∀ k startAtUs stage waits, t.pc = .waiting k startAtUs stage waits →
    ∀ x ∈ waits, ∀ e, x.status = .got e → t.classify stage e = .got e

theorem Task.ReportsOk.setWaitStatus {t : Task F} (h : t.ReportsOk) {k startAtUs : ℕ}
    {stage : WaitStage} {waits : List (Wait F)} (hpc : t.pc = .waiting k startAtUs stage waits)
    {w : Str} {status : WaitStatus F} {history : List (Obs F)}
    (hgot : ∀ e, status = .got e → t.classify stage e = .got e) :
    Task.ReportsOk { t with
      pc := .waiting k startAtUs stage (RemoteRobot.setWaitStatus w status waits)
      history := history } := by
  intro k' startAtUs' stage' waits' hpc' x hx e he
  cases hpc'
  obtain ⟨x₀, hx₀, rfl⟩ := List.mem_map.1 hx
  show t.classify stage e = .got e
  split_ifs at he with hw
  · exact hgot e he
  · exact h k startAtUs stage waits hpc x₀ hx₀ e he

variable [PyText F]

theorem Task.ReportsOk.move {t t' : Task F} {label : Task.Label F} (h : t.ReportsOk)
    (hm : Task.Move t label t') : t'.ReportsOk := by
  cases hm with
  | @delivered k startAtUs stage waits w event hpc hwait =>
    refine h.setWaitStatus hpc fun e he => ?_
    obtain rfl := Task.eq_of_classify he
    exact he
  | waitFailed hpc => exact h.setWaitStatus hpc nofun
  | resumed hr =>
    cases hr with
    | awaitStarted | awaitCompleted =>
      intro k startAtUs stage waits hpc x hx e he
      cases hpc
      obtain ⟨w, -, rfl⟩ := List.mem_map.1 hx
      cases he
    | _ => exact fun _ _ _ _ hpc => by cases hpc
  | _ => exact fun _ _ _ _ hpc => by cases hpc

/-- The run waits for the starts of phase `k`. -/
structure Task.AwaitsStarts (t : Task F) (k : ℕ) (waits : List (Wait F)) : Prop where
  pc : ∃ startAtUs, t.pc = .waiting k startAtUs .started waits
  workers : t.PhaseWorkers k t.currentPhaseExecutionId (waits.map Wait.worker)
  reports : ∀ x ∈ waits, ∀ e, x.status = .got e → t.classify .started e = .got e

/-- The run waits for the completions of phase `k`: it passed the check of the starts. -/
def Task.AwaitsCompletions (t : Task F) (k : ℕ) : Prop :=
  ∃ startAtUs waits, t.pc = .waiting k startAtUs .completed waits

variable [Cbor F] [Sha256] {cfg : Setup F}

theorem System.awaitsStarts {s₀ s : System F} (h₀ : s₀.Initial)
    (h : Transition.Reachable (System.step cfg) s₀ s) {runId : Str} {t : Task F}
    (ht : s.tasks.get runId = some t) {k startAtUs : ℕ} {waits : List (Wait F)}
    (hpc : t.pc = .waiting k startAtUs .started waits) : t.AwaitsStarts k waits := by
  have hreports : t.ReportsOk := by
    refine System.tasks_invariant (fun t ho => ?_) (fun _ _ _ hP hm => hP.move hm) h₀ h ht
    intro k startAtUs stage waits hpc
    rw [ho.pc] at hpc
    cases hpc
  exact ⟨⟨startAtUs, hpc⟩, (System.atPhase h₀ h ht).waiting hpc, hreports _ _ _ _ hpc⟩

end Reports

/-! ## Limits of the role branches -/

/-- The phase uses the worker through the composite. -/
def HashedPhase.Reaches (R : Registry F) (rootId : Str) (ph : HashedPhase F) (c : CompositeNode)
    (w : Str) : Prop :=
  ∃ s ∈ ph.sequences, .composite c ∈ roleBranch R rootId s.rolePath ∧
    s.resolvedTarget.physicalNodeId = w

/-- The starts of the workers reached through a composite are no further apart than its limit. -/
def HashedPhase.SkewKept (R : Registry F) (rootId : Str) (ph : HashedPhase F)
    (waits : List (Wait F)) : Prop :=
  ∀ c limit, c.maxStartSkewUs = some limit → ∀ x ∈ waits, ∀ y ∈ waits,
    ph.Reaches R rootId c x.worker → ph.Reaches R rootId c y.worker →
      ∀ a b, x.actualStartUs = some a → y.actualStartUs = some b → (a : ℤ) - b ≤ limit

/-- No composite with two workers in the phase has a limit tighter than the root's. -/
def HashedPhase.RootTightest (R : Registry F) (rootId : Str) (ph : HashedPhase F) : Prop :=
  ∀ c limit w w', c.maxStartSkewUs = some limit → ph.Reaches R rootId c w →
    ph.Reaches R rootId c w' → w ≠ w' →
      ∃ n rootLimit, R.find rootId = some n ∧ n.maxStartSkewUs = some rootLimit ∧ rootLimit ≤ limit

section Check

variable [Cbor F] [Sha256] [PyFloat F] [PyText F] {cfg : Setup F}

/-- Passing the check means that the spread is within the root's limit. -/
theorem Task.within_of_passed {t t' : Task F} {k : ℕ} {waits : List (Wait F)} {nowUs : ℕ}
    {appendError : Option Str} {event : Option (Val F)} (ht : t.AwaitsStarts k waits)
    (hstep : t.step cfg (.resume nowUs appendError) = some (t', event)) (ht' : t'.AwaitsCompletions k) :
    ∃ observed limit, observedStartSkewUs waits = some observed ∧
      t.program.rootId.bind (maxStartSkewUs cfg.registry.toRegistry) = .ok limit ∧
      ∀ m, limit = some m → observed ≤ m := by
  obtain ⟨startAtUs', waits', hpc'⟩ := ht'
  obtain ⟨startAtUs, hpc⟩ := ht.pc
  have hstop : ∀ (u : Task F) failure, (u.stopAll failure).pc ≠ .waiting k startAtUs' .completed waits' :=
    fun _ _ => nofun
  simp only [step, resume, hpc] at hstep
  split_ifs at hstep with hfailed hgot
  · cases hstep
    cases hpc'
  unfold afterStarted at hstep
  split at hstep
  · cases hstep
    exact absurd hpc' (hstop _ _)
  · rename_i observed hobs
    split at hstep
    · cases hstep
      exact absurd hpc' (hstop _ _)
    · rename_i limit hlimit
      refine ⟨observed, limit, hobs, hlimit, fun m hm => ?_⟩
      by_contra hlt
      have hover : (limit.any fun m => m < observed) = true := by
        rw [hm]
        exact decide_eq_true (not_le.1 hlt)
      rw [if_pos hover] at hstep
      cases appendError with
      | none =>
        cases hstep
        exact absurd hpc' (hstop _ _)
      | some errorType =>
        cases hstep
        exact absurd hpc' (hstop _ _)

omit [Cbor F] [Sha256] [PyFloat F] [PyText F] in
/-- The nodes of a role branch are nodes of the registry. -/
theorem find_of_mem_branchNodes {R : Registry F} {nodeId : Str} {n m : ControlNode F}
    {segments : List Str} (hn : R.find nodeId = some n) (hm : m ∈ branchNodes R n segments) :
    ∃ mId, R.find mId = some m := by
  induction segments generalizing nodeId n with
  | nil =>
    cases n <;>
    · rw [branchNodes, List.mem_singleton] at hm
      exact ⟨nodeId, hm ▸ hn⟩
  | cons role segments ih =>
    cases n with
    | physical p =>
      rw [branchNodes, List.mem_singleton] at hm
      exact ⟨nodeId, hm ▸ hn⟩
    | composite c =>
      rw [branchNodes, List.mem_cons] at hm
      rcases hm with rfl | hm
      · exact ⟨nodeId, hn⟩
      · split at hm
        · rename_i next hnext
          obtain ⟨child, -, hfind⟩ := Option.bind_eq_some_iff.1 hnext
          exact ih hfind hm
        · cases hm

theorem HashedPhase.Reaches.limit_pos {R : Registry F} (hR : R.check = .ok ()) {rootId w : Str}
    {ph : HashedPhase F} {c : CompositeNode} (h : ph.Reaches R rootId c w) {limit : ℤ}
    (hc : c.maxStartSkewUs = some limit) : 0 < limit := by
  obtain ⟨s, -, hbranch, -⟩ := h
  unfold roleBranch at hbranch
  split at hbranch
  · rename_i root hroot
    obtain ⟨cId, hfind⟩ := find_of_mem_branchNodes hroot hbranch
    exact (node_of_check hR hfind).1 limit hc
  · cases hbranch

/-- The check keeps every limit that is no tighter than the root's. -/
theorem Task.skewKept_of_passed {t t' : Task F} {k : ℕ} {waits : List (Wait F)} {nowUs : ℕ}
    {appendError : Option Str} {event : Option (Val F)} {rootId : Str} {ph : HashedPhase F}
    (hroot : t.program.rootId = .ok rootId)
    (hcond : ph.RootTightest cfg.registry.toRegistry rootId) (ht : t.AwaitsStarts k waits)
    (hstep : t.step cfg (.resume nowUs appendError) = some (t', event)) (ht' : t'.AwaitsCompletions k) :
    ph.SkewKept cfg.registry.toRegistry rootId waits := by
  obtain ⟨observed, limit, hobs, hlimit, hle⟩ := Task.within_of_passed ht hstep ht'
  obtain ⟨_, plans, -, hplans, -, hworkers⟩ := ht.workers
  have hnd : (waits.map Wait.worker).Nodup := by
    rw [hworkers]
    exact workers_prepareCalls (nodup_plans hplans)
  intro c m hc x hx y hy hxc hyc a b ha hb
  have hspread := le_add_observed hobs hx hy ha hb
  by_cases hw : x.worker = y.worker
  · obtain rfl : x = y := List.inj_on_of_nodup_map hnd hx hy hw
    have := hxc.limit_pos cfg.registry.accepted hc
    rw [ha] at hb
    cases hb
    omega
  · obtain ⟨n, rootLimit, hfind, hn, hrootle⟩ := hcond c m _ _ hc hxc hyc hw
    have hpos := (node_of_check cfg.registry.accepted hfind).1 rootLimit hn
    rw [hroot] at hlimit
    have hmax := Task.maxStartSkewUs_of_find cfg.registry.accepted hfind
    rw [hn] at hmax
    rw [show limit = some rootLimit.toNat from Except.ok.inj (hlimit.symm.trans hmax)] at hle
    have := hle _ rfl
    omega

/-! ## Starts that pass the check -/

/-- What a worker reports that started at `a`. -/
def startReport (runId executionId : Str) (a : ℕ) : Val F :=
  dictOf [("type", .str (py "phase_started")), ("run_id", .str runId),
    ("phase_execution_id", .str executionId), ("actual_start_us", .int a)]

def startReports (runId executionId : Str) (start : Str → ℕ) (workers : List Str) : List (Wait F) :=
  workers.map fun w => ⟨w, .got (startReport runId executionId (start w))⟩

omit [Cbor F] [Sha256] [PyFloat F] [PyText F] in
theorem actualStartUs_startReport {runId executionId w : Str} {a : ℕ} :
    (⟨w, .got (startReport runId executionId a)⟩ : Wait F).actualStartUs = some a := by
  simp [Wait.actualStartUs, Wait.event, startReport, dictOf, field]

omit [Cbor F] [Sha256] [PyFloat F] [PyText F] in
theorem starts_startReports {runId executionId : Str} {start : Str → ℕ} {workers : List Str} :
    (startReports runId executionId start workers : List (Wait F)).mapM Wait.actualStartUs =
      some (workers.map start) := by
  induction workers with
  | nil => rfl
  | cons w workers ih =>
    rw [startReports, List.map_cons, List.mapM_cons, actualStartUs_startReport]
    show Option.bind ((startReports runId executionId start workers).mapM Wait.actualStartUs) _ = _
    rw [ih]
    rfl

/-- One worker starts `n` later than the others. -/
def lateStart (late : Str) (n : ℕ) (w : Str) : ℕ := if w = late then n else 0

omit [Cbor F] [Sha256] [PyFloat F] [PyText F] in
theorem observed_lateStart {runId executionId late other : Str} {n : ℕ} {workers : List Str}
    (hlate : late ∈ workers) (hother : other ∈ workers) (hne : late ≠ other) :
    Task.observedStartSkewUs
      (startReports runId executionId (lateStart late n) workers : List (Wait F)) = some n := by
  refine Task.observedStartSkewUs_eq_some.2 ⟨_, n, 0, starts_startReports, ?_, ?_, rfl⟩
  · rw [List.max?_eq_some_iff]
    refine ⟨List.mem_map.2 ⟨late, hlate, if_pos rfl⟩, fun a ha => ?_⟩
    obtain ⟨w, -, rfl⟩ := List.mem_map.1 ha
    unfold lateStart
    split_ifs <;> omega
  · rw [List.min?_eq_some_iff]
    exact ⟨List.mem_map.2 ⟨other, hother, if_neg hne.symm⟩, fun a _ => Nat.zero_le a⟩

/-- The run that has all reports of a phase. -/
def Run.reported (r : Run F) (k : ℕ) (executionId : Str) (start : Str → ℕ) (workers : List Str) :
    Task F :=
  { toRun := r
    currentPhaseExecutionId := some executionId
    pc := .waiting k 0 .started (startReports r.runId executionId start workers) }

omit [Cbor F] [Sha256] in
theorem Run.awaitsStarts_reported {r : Run F} {k : ℕ} {executionId : Str} {start : Str → ℕ}
    {workers : List Str} (h : r.PhaseWorkers k (some executionId) workers) :
    (r.reported k executionId start workers).AwaitsStarts k
      (startReports r.runId executionId start workers) := by
  refine ⟨⟨0, rfl⟩, ?_, fun x hx e he => ?_⟩
  · show r.PhaseWorkers k (some executionId) _
    simpa only [startReports, List.map_map, Function.comp_def, List.map_id'] using h
  · obtain ⟨w, -, rfl⟩ := List.mem_map.1 hx
    cases he
    simp [Task.classify, startReport, dictOf, field, reported, Task.optStr, Val.eq,
      WaitStage.expectedType]

/-- A spread within the root's limit passes the check. -/
theorem Run.reported_passes {r : Run F} {k : ℕ} {executionId : Str} {start : Str → ℕ}
    {workers : List Str} {observed : ℕ} {limit : Option ℕ} {phase v : Val F}
    (hobs : Task.observedStartSkewUs
      (startReports r.runId executionId start workers : List (Wait F)) = some observed)
    (hlimit : r.program.rootId.bind (Task.maxStartSkewUs cfg.registry.toRegistry) = .ok limit)
    (hle : ∀ m, limit = some m → observed ≤ m) (hphase : r.phases[k]? = some phase)
    (hduration : phase.getItem "duration_us" = .ok v) :
    ∃ t' event, (r.reported k executionId start workers).step cfg (.resume 0 none) = some (t', event) ∧
      t'.AwaitsCompletions k := by
  have hnot : ¬(limit.any fun m => m < observed) = true := by
    rw [Option.any_eq_true]
    rintro ⟨m, hm, hlt⟩
    have := hle m hm
    have := of_decide_eq_true hlt
    omega
  have hfailed : ¬(startReports r.runId executionId start workers : List (Wait F)).any
      Wait.isFailed = true := by
    simp [startReports, Wait.isFailed]
  have hgot : ((startReports r.runId executionId start workers : List (Wait F)).all
      fun w => w.event.isSome) = true := by
    simp [startReports, Wait.event]
  have hstep : (r.reported k executionId start workers).step cfg (.resume 0 none) =
      some ((r.reported k executionId start workers).afterStarted cfg k 0
        (startReports r.runId executionId start workers) none) := by
    simp only [Task.step, Task.resume, Run.reported]
    rw [if_neg hfailed, if_pos hgot]
  refine ⟨_, _, hstep, ?_⟩
  have hprogram : (r.reported k executionId start workers).program = r.program := rfl
  have hphases : (r.reported k executionId start workers).phases = r.phases := rfl
  rw [hobs, hprogram, hphases]
  simp only [hlimit, Task.append, if_neg hnot, hphase, Option.getD_some, hduration]
  exact ⟨0, _, rfl⟩

/-! ## The check keeps the limits of the composites exactly when the root's is the tightest -/

omit [Cbor F] [Sha256] in
/-- The workers of a phase are the targets of its sequences. -/
theorem Run.PhaseWorkers.mem_iff {r : Run F} {k : ℕ} {executionId : Option Str} {workers : List Str}
    (h : r.PhaseWorkers k executionId workers) {ph : HashedPhase F} {phase : Val F}
    (hphase : r.phases[k]? = some phase) (he : Equal ph.toVal phase) {w : Str} :
    w ∈ workers ↔ ∃ s ∈ ph.sequences, s.resolvedTarget.physicalNodeId = w := by
  obtain ⟨_, plans, hphase', hplans, -, rfl⟩ := h
  rw [hphase] at hphase'
  cases hphase'
  obtain ⟨d, vs, rfl, hl, hall⟩ := equal_phase he
  have hids : phaseWorkerIds (.dict d) =
      .ok (ph.sequences.map fun s => s.resolvedTarget.physicalNodeId) := by
    unfold phaseWorkerIds
    simp only [phaseRolePaths.phaseSequences, hl, Option.getD_some]
    show (liftExc (Val.list vs).iter).bind (fun sequences => sequences.mapM sequenceWorkerId) = _
    rw [Val.iter, liftExc_ok]
    show vs.mapM sequenceWorkerId = _
    rw [mapM_eq_ok, List.forall₂_map_right_iff]
    refine hall.flip.imp fun v s hv => ?_
    obtain ⟨e, t, rfl, -, ht, hp, -⟩ := equal_sequence hv
    simp only [sequenceWorkerId, bind_eq_ok, Val.get, ht, Option.getD_some, liftExc_ok,
      Except.ok.injEq, exists_eq_left', plainMapping, hp]
  have hmem : w ∈ (Task.prepareCalls k plans).map Call.worker ↔ w ∈ plans.map Prod.fst := by
    simp only [List.mem_map, mem_prepareCalls]
    constructor
    · rintro ⟨c, ⟨q, hq, rfl⟩, rfl⟩
      exact ⟨q, hq, rfl⟩
    · rintro ⟨q, hq, rfl⟩
      exact ⟨_, ⟨q, hq, rfl⟩, rfl⟩
  rw [hmem, mem_plans_iff hplans hids, List.mem_map]

/-- Whatever the workers report: the check of phase `k` keeps the limits of all composites on the
role branches of the phase if and only if the root's limit is the tightest of them. -/
theorem Run.start_skew_iff (cfg : Setup F) {r : Run F} (hr : r.Checked cfg) {b : CompiledBody F}
    (hb : Preflighted cfg.registry.toRegistry r.identityId r.program b) {k : ℕ} {ph : HashedPhase F}
    (hk : b.phases[k]? = some ph) (hplans : ∃ executionId workers, r.PhaseWorkers k executionId workers) :
    (∀ (t t' : Task F) waits nowUs appendError event, t.toRun = r → t.AwaitsStarts k waits →
      t.step cfg (.resume nowUs appendError) = some (t', event) → t'.AwaitsCompletions k →
        ph.SkewKept cfg.registry.toRegistry b.rootId waits) ↔
      ph.RootTightest cfg.registry.toRegistry b.rootId := by
  have hroot := hb.canonical.rootId
  constructor
  · intro hkept c limit w w' hc hw hw' hne
    by_contra hnot
    obtain ⟨executionId, workers, hworkers⟩ := hplans
    obtain ⟨phases, hphases, hall⟩ := hb.canonical.phases
    rw [hr.phases] at hphases
    cases hphases
    obtain ⟨phase, hphase, he⟩ := hall.exists_of_getElem? hk
    have hmem : ∀ {w}, ph.Reaches cfg.registry.toRegistry b.rootId c w → w ∈ workers := by
      rintro w ⟨s, hs, -, hsw⟩
      exact (hworkers.mem_iff hphase he).2 ⟨s, hs, hsw⟩
    obtain ⟨id, rfl⟩ : ∃ id, executionId = some id := by
      obtain ⟨_, _, -, -, ⟨q, -, rfl⟩, -⟩ := hworkers
      exact ⟨_, rfl⟩
    have hpos := hw.limit_pos cfg.registry.accepted hc
    obtain ⟨n, hn⟩ : ∃ n, cfg.registry.find b.rootId = some n := by
      obtain ⟨s, -, hbranch, -⟩ := hw
      unfold roleBranch at hbranch
      split at hbranch
      · exact ⟨_, ‹_›⟩
      · cases hbranch
    have hlimit : r.program.rootId.bind (Task.maxStartSkewUs cfg.registry.toRegistry) =
        .ok (n.maxStartSkewUs.map Int.toNat) := by
      rw [hroot]
      exact Task.maxStartSkewUs_of_find cfg.registry.accepted hn
    obtain ⟨d, rfl, hf⟩ := he.dict
    have hduration : (Val.dict d).getItem "duration_us" = .ok (field "duration_us" d) := by
      rw [Val.getItem, (hf "duration_us" (.int ph.durationUs) (by simp [CompiledPhase.fields])).1]
    have hobs : Task.observedStartSkewUs (startReports r.runId id
        (lateStart w (limit.toNat + 1)) workers : List (Wait F)) = some (limit.toNat + 1) :=
      observed_lateStart (hmem hw) (hmem hw') hne
    have hle : ∀ m, n.maxStartSkewUs.map Int.toNat = some m → limit.toNat + 1 ≤ m := by
      intro m hm
      obtain ⟨m', hm', rfl⟩ := Option.map_eq_some_iff.1 hm
      by_contra hle
      exact hnot ⟨n, m', hn, hm', by omega⟩
    obtain ⟨t', event, hstep, ht'⟩ := Run.reported_passes hobs hlimit hle hphase hduration
    have hskew := hkept _ t' _ 0 none event rfl (Run.awaitsStarts_reported hworkers) hstep ht' c limit
      hc ⟨w, .got (startReport r.runId id (lateStart w (limit.toNat + 1) w))⟩
      (List.mem_map.2 ⟨w, hmem hw, rfl⟩)
      ⟨w', .got (startReport r.runId id (lateStart w (limit.toNat + 1) w'))⟩
      (List.mem_map.2 ⟨w', hmem hw', rfl⟩) hw hw' _ _ actualStartUs_startReport
      actualStartUs_startReport
    rw [lateStart, lateStart, if_pos rfl, if_neg hne.symm] at hskew
    omega
  · intro hcond t t' waits nowUs appendError event htr ht hstep ht'
    refine Task.skewKept_of_passed ?_ hcond ht hstep ht'
    rw [htr]
    exact hroot

end Check

/-! ### A composite below the root -/

section Demo

local instance skewHash : Sha256 := lengthHash

/-- Two robots that have to start within a millisecond. -/
def pairNode : CompositeNode :=
  { nodeId := py "pair", revision := 1, exposedAsRunRoot := false
    children := [⟨py "left", py "left", false⟩, ⟨py "right", py "right", false⟩]
    maxStartSkewUs := some 1000 }

def cellRobot (nodeId : String) : ControlNode ℚ :=
  .physical { demoRobot with nodeId := py nodeId, groups := [demoGroup "arm" "base"] }

/-- The cell they stand in declares no limit. -/
def cellRegistry : Registry ℚ :=
  { serverId := py "example-server"
    nodes := [.composite { nodeId := py "cell", revision := 1, exposedAsRunRoot := true
                           children := [⟨py "pair", py "pair", false⟩] },
      .composite pairNode, cellRobot "left", cellRobot "right"]
    identities := [{ demoOperator with
      discover := [py "cell"], observe := [py "cell"], control := [py "cell.*"]
      emergencyStop := [py "cell"] }] }

def cellSequence (group : String) : Val ℚ :=
  dictOf [("group", .str (py group)), ("command_schema", .str normalizedPositionSchema),
    ("reference", .str (py "absolute")),
    ("samples", .list [dictOf [("t_us", .int 0), ("values", .list [.int 0])],
      dictOf [("t_us", .int 1000000), ("values", .list [.float (1 / 2)])]])]

/-- Both robots move at once. -/
def cellTemplate : Val ℚ :=
  dictOf [("format", .str templateFormat), ("version", .int 2), ("root_id", .str (py "cell")),
    ("phases", .list [dictOf [("phase_id", .str (py "move")),
      ("sequences", .list [cellSequence "pair.left.arm", cellSequence "pair.right.arm"])]])]

def cellProgram : CompiledProgram ℚ :=
  match compile cellRegistry cellTemplate with
  | .ok program => program
  | .error _ => ⟨[], []⟩

set_option maxRecDepth 20000 in
theorem cellRegistry_accepted : cellRegistry.check = .ok () := by
  have hok : cellRegistry.check.isOk = true := by decide +kernel
  obtain ⟨_, h⟩ := exists_of_isOk hok
  exact h

def cellSetup : Setup ℚ :=
  { registry := ⟨cellRegistry, cellRegistry_accepted⟩, workers := [py "left", py "right"] }

/-- Both robots are called and answer with the value. -/
def cellExchange (value : Val ℚ) : List (System.Label ℚ) :=
  [.task (py "run") (.begin (py "left")), .task (py "run") (.begin (py "right")),
    .task (py "run") (.reply (py "left") (.returned value)),
    .task (py "run") (.reply (py "right") (.returned value)), .task (py "run") (.resume 0 none)]

def cellExecutionId : Str := py "run:0:000000000000"

/-- The robots report that they started five milliseconds apart. -/
def cellRun : List (System.Label ℚ) :=
  .call (py "run") (py "example_operator") cellProgram 0 none ::
    cellExchange .none ++ cellExchange .none ++
    cellExchange (dictOf [("status", .str (py "scheduled")), ("run_id", .str (py "run")),
      ("phase_execution_id", .str cellExecutionId)]) ++
    [System.Label.task (py "run") (.event (py "left") (startReport (py "run") cellExecutionId 0)),
      .task (py "run") (.event (py "right") (startReport (py "run") cellExecutionId 5000))]

/-- The phase uses the worker through the pair. -/
def HashedPhase.usesPair (ph : HashedPhase ℚ) (rootId w : Str) : Bool :=
  ph.sequences.any fun s => s.resolvedTarget.physicalNodeId = w &&
    (roleBranch cellRegistry rootId s.rolePath).any fun n => match n with
      | .composite c => c = pairNode
      | .physical _ => false

/-- The first phase of the program uses both robots through the pair, below the cell. -/
def CompiledProgram.movesPair (p : CompiledProgram ℚ) : Bool :=
  match (templateFromCompiled p.body).bind (compileBody cellRegistry) with
  | .ok b => b.rootId = py "cell" && b.phases.head?.any fun ph =>
      ph.usesPair b.rootId (py "left") && ph.usesPair b.rootId (py "right")
  | .error _ => false

/-- The robot reports that it started at `a`. -/
def startedAt (waits : List (Wait ℚ)) (w : Str) (a : ℕ) : Bool :=
  waits.any fun x => x.worker = w && x.actualStartUs = some a

/-- The starts are reported, and the run goes on to wait for the completions. -/
def Task.passesLate (t : Task ℚ) : Bool :=
  match t.pc with
  | .waiting 0 _ .started waits =>
    startedAt waits (py "left") 0 && startedAt waits (py "right") 5000 &&
      (t.step cellSetup (.resume 0 none)).any fun r => match r.1.pc with
        | .waiting 0 _ .completed _ => true
        | _ => false
  | _ => false

theorem HashedPhase.reaches_of_usesPair {ph : HashedPhase ℚ} {rootId w : Str}
    (h : ph.usesPair rootId w = true) : ph.Reaches cellRegistry rootId pairNode w := by
  obtain ⟨s, hs, h⟩ := List.any_eq_true.1 h
  obtain ⟨hw, h⟩ := Bool.and_eq_true_iff.1 h
  obtain ⟨n, hn, h⟩ := List.any_eq_true.1 h
  refine ⟨s, hs, ?_, of_decide_eq_true hw⟩
  cases n with
  | physical p => cases h
  | composite c =>
    rw [← of_decide_eq_true h]
    exact hn

theorem CompiledProgram.exists_of_movesPair {p : CompiledProgram ℚ} (h : p.movesPair = true)
    {b : CompiledBody ℚ} (hb : Canonical cellRegistry p b) :
    b.rootId = py "cell" ∧ ∃ ph, b.phases[0]? = some ph ∧
      ph.Reaches cellRegistry b.rootId pairNode (py "left") ∧
      ph.Reaches cellRegistry b.rootId pairNode (py "right") := by
  obtain ⟨template, htemplate, hcompile⟩ := hb.rebuilt
  unfold CompiledProgram.movesPair at h
  rw [htemplate] at h
  simp only [Except.bind, hcompile] at h
  obtain ⟨hroot, h⟩ := Bool.and_eq_true_iff.1 h
  obtain ⟨ph, hph, h⟩ := (Option.any_eq_true _ _).1 h
  obtain ⟨hleft, hright⟩ := Bool.and_eq_true_iff.1 h
  rw [List.head?_eq_getElem?] at hph
  exact ⟨of_decide_eq_true hroot, ph, hph, HashedPhase.reaches_of_usesPair hleft,
    HashedPhase.reaches_of_usesPair hright⟩

theorem exists_of_startedAt {waits : List (Wait ℚ)} {w : Str} {a : ℕ}
    (h : startedAt waits w a = true) :
    ∃ x ∈ waits, x.worker = w ∧ x.actualStartUs = some a := by
  obtain ⟨x, hx, h⟩ := List.any_eq_true.1 h
  obtain ⟨hw, ha⟩ := Bool.and_eq_true_iff.1 h
  exact ⟨x, hx, of_decide_eq_true hw, of_decide_eq_true ha⟩

set_option maxRecDepth 20000 in
theorem cellRun_runs : (Transition.run (System.step cellSetup) {} cellRun).any (fun s =>
    (s.tasks.get (py "run")).any fun t => t.program.movesPair && t.passesLate) = true := by
  decide +kernel

/-- In the cell the check does not keep the limit of the pair. -/
theorem Run.start_skew_demo : ∃ (r : Run ℚ) (b : CompiledBody ℚ) (ph : HashedPhase ℚ),
    Preflighted cellRegistry r.identityId r.program b ∧ b.phases[0]? = some ph ∧
      ¬∀ (t t' : Task ℚ) waits nowUs appendError event, t.toRun = r → t.AwaitsStarts 0 waits →
        t.step cellSetup (.resume nowUs appendError) = some (t', event) → t'.AwaitsCompletions 0 →
          ph.SkewKept cellRegistry b.rootId waits := by
  obtain ⟨s, hs, hcheck⟩ := (Option.any_eq_true _ _).1 cellRun_runs
  obtain ⟨t, ht, hcheck⟩ := (Option.any_eq_true _ _).1 hcheck
  obtain ⟨hmoves, hlate⟩ := Bool.and_eq_true_iff.1 hcheck
  have hreach : Transition.Reachable (System.step cellSetup) {} s := ⟨cellRun, hs⟩
  have hchecked := (System.inv_of_reachable System.initial_empty hreach).checked _ t ht
  obtain ⟨b, hb⟩ := hchecked.preflight
  obtain ⟨hroot, ph, hph, hleft, hright⟩ := t.program.exists_of_movesPair hmoves hb.canonical
  have hworkers : ∃ executionId workers, t.toRun.PhaseWorkers 0 executionId workers := by
    have hat := System.atPhase System.initial_empty hreach ht
    unfold Task.passesLate at hlate
    split at hlate
    · rename_i hpc
      exact ⟨_, _, hat.waiting hpc⟩
    · cases hlate
  refine ⟨t.toRun, b, ph, hb, hph, fun hkept => ?_⟩
  have htight := (Run.start_skew_iff cellSetup hchecked hb hph hworkers).1 hkept
  obtain ⟨n, limit, hn, hlimit, -⟩ := htight pairNode 1000 _ _ rfl hleft hright (by decide)
  rw [hroot, show cellSetup.registry.find (py "cell") = some (.composite
    { nodeId := py "cell", revision := 1, exposedAsRunRoot := true
      children := [⟨py "pair", py "pair", false⟩] }) from rfl] at hn
  cases hn
  cases hlimit

/-- A run passes the check with two starts five times the limit of their pair apart. -/
theorem Run.start_skew_counterexample : ¬∀ (s : System ℚ) (t t' : Task ℚ) (b : CompiledBody ℚ)
    (k : ℕ) (ph : HashedPhase ℚ) (waits : List (Wait ℚ)) (nowUs : ℕ) (appendError : Option Str)
    (event : Option (Val ℚ)), Transition.Reachable (System.step cellSetup) {} s →
      s.tasks.get (py "run") = some t → Preflighted cellRegistry t.identityId t.program b →
        b.phases[k]? = some ph → t.AwaitsStarts k waits →
          t.step cellSetup (.resume nowUs appendError) = some (t', event) → t'.AwaitsCompletions k →
            ph.SkewKept cellRegistry b.rootId waits := by
  intro hclaim
  obtain ⟨s, hs, hcheck⟩ := (Option.any_eq_true _ _).1 cellRun_runs
  obtain ⟨t, ht, hcheck⟩ := (Option.any_eq_true _ _).1 hcheck
  obtain ⟨hmoves, hlate⟩ := Bool.and_eq_true_iff.1 hcheck
  have hreach : Transition.Reachable (System.step cellSetup) {} s := ⟨cellRun, hs⟩
  obtain ⟨b, hb⟩ := ((System.inv_of_reachable System.initial_empty hreach).checked _ t ht).preflight
  obtain ⟨-, ph, hph, hleft, hright⟩ := t.program.exists_of_movesPair hmoves hb.canonical
  unfold Task.passesLate at hlate
  split at hlate
  · rename_i startAtUs waits hpc
    obtain ⟨hstarts, hstep⟩ := Bool.and_eq_true_iff.1 hlate
    obtain ⟨h₁, h₂⟩ := Bool.and_eq_true_iff.1 hstarts
    obtain ⟨x, hx, hxw, hxa⟩ := exists_of_startedAt h₁
    obtain ⟨y, hy, hyw, hya⟩ := exists_of_startedAt h₂
    obtain ⟨⟨t', event⟩, hstep, hnext⟩ := (Option.any_eq_true _ _).1 hstep
    have ht' : t'.AwaitsCompletions 0 := by
      dsimp only at hnext
      split at hnext
      · rename_i hpc'
        exact ⟨_, _, hpc'⟩
      · cases hnext
    have hskew := hclaim s t t' b 0 ph waits 0 none event hreach ht hb hph
      (System.awaitsStarts System.initial_empty hreach ht hpc) hstep ht' pairNode 1000 rfl y hy x hx
      (by rw [hyw]; exact hright) (by rw [hxw]; exact hleft) 5000 0 hya hxa
    omega
  · cases hlate

end Demo

end RemoteRobot
