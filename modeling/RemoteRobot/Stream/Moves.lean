import Mathlib.Data.List.Chain
import RemoteRobot.Stream.ProgramRun

/-!
# What a step of a run can do

`Executed r r'` lists the steps of the thread of `_execute` with what was checked for each;
`exec_moved` reads a step back as one of them.  `append_cases` and `start_eq_ok` do the same for
the two calls of a connection that check something.  Every invariant of a run is proved from these.
-/

namespace RemoteRobot.Stream

open Py Except

variable {F : Type}

/-! ## Calls of the backend -/

/-- The call of the backend the `try` block is about to make. -/
def Pc.call? : Pc F → Option (BackendCall F)
  | .prepare => some .prepareDisabled
  | .enable measured => some (.enableAtCurrent measured)
  | .read _ => some .readQ
  | .send t _ => some (.sendQ (.interpolated t.cursorUs) t.target)
  | .sendLast q _ => some (.sendQ .last q)
  | _ => none

/-- How far the thread got. -/
inductive Stage where
  /-- not started -/
  | idle
  /-- before the backend exists -/
  | creating
  /-- the backend exists, the state is arming, torque is off -/
  | arming
  /-- torque is on, the state is still arming -/
  | energized
  /-- the state is running -/
  | running
  /-- behind the `try` block, before the final state -/
  | leaving
  /-- behind the final state -/
  | left
  deriving DecidableEq

def Pc.stage : Pc F → Stage
  | .unstarted => .idle
  | .factory => .creating
  | .prepare | .capture _ | .stopCheck _ | .enable _ => .arming
  | .setRunning => .energized
  | .announce | .begin | .tick _ | .heartbeatCheck _ _ | .locate _ _ | .read _ | .send _ _
  | .publish _ _ | .telemetry _ _ _ | .pace _ | .sendLast _ _ | .publishLast _ => .running
  | .fault _ | .hold _ | .holdSend _ _ | .close _ | .finish _ => .leaving
  | .signal _ | .report _ | .done => .left

/-- The stages of the `try` block. -/
def Stage.inTry : Stage → Bool
  | .creating | .arming | .energized | .running => true
  | _ => false

namespace ProgramRun

variable [PyFloat F] {r r' : ProgramRun F}

/-! ## The executor -/

section Executor

variable [FloatTrunc F]

/-- A step of the thread of `_execute`. -/
inductive Executed (r : ProgramRun F) : ProgramRun F → Prop where
  | create (hpc : r.pc = .factory) :
      Executed r { r.call .created with backend := true, pc := .prepare }
  | prepare {a : NdArray F} (hpc : r.pc = .prepare) :
      Executed r { r.call .prepareDisabled with pc := .capture a }
  | capture {a : NdArray F} {m : Pose F} (hpc : r.pc = .capture a) (ha : startPose a = some m)
      (hchecks : { r with originQ := some m, measuredQ := some m }.startChecks m = .ok ()) :
      Executed r { r with originQ := some m, measuredQ := some m, pc := .stopCheck m }
  | reject {a : NdArray F} {m : Pose F} {e : Raised F} (hpc : r.pc = .capture a) :
      Executed r { r with originQ := some m, measuredQ := some m, pc := .fault e }
  | pass {m : Pose F} (hpc : r.pc = .stopCheck m) (hstop : r.stopEvent = false) :
      Executed r { r with pc := .enable m }
  | enable {m : Pose F} (hpc : r.pc = .enable m) :
      Executed r { r.call (.enableAtCurrent m) with torqueEnabled := true, pc := .setRunning }
  | setRunning {message : Str} (hpc : r.pc = .setRunning) :
      Executed r { r with state := .running, message := message, pc := .announce }
  | announce (hpc : r.pc = .announce) :
      Executed r { r.emit (.runState r.snapshot) with pc := .begin }
  | begin {l : Loop F} (hpc : r.pc = .begin) (hclock : PyFloat.le r.clock l.started = true)
      (hindex : l.segmentIndex = 0) :
      Executed r { r with clock := l.started, pc := .tick l }
  | stop {l : Loop F} {now : F} (hpc : r.pc = .tick l) (hclock : PyFloat.le r.clock now = true)
      (hstop : r.stopEvent = true) :
      Executed r { r with clock := now, pc := .hold ⟨.stopped, some .cancelled⟩ }
  | tick {l : Loop F} {now : F} (hpc : r.pc = .tick l) (hclock : PyFloat.le r.clock now = true)
      (hstop : r.stopEvent = false) :
      Executed r { r with clock := now, pc := .heartbeatCheck l now }
  | alive {l : Loop F} {now : F} (hpc : r.pc = .heartbeatCheck l now)
      (halive : r.ignoreHeartbeat = true ∨ r.heartbeatExpired now = false) :
      Executed r { r with pc := .locate l now }
  | locate {l : Loop F} {now : F} {cursorUs : ℤ} {i : ℕ} {previous current : TrajectoryPoint F}
      {target : Pose F} (hpc : r.pc = .locate l now)
      (hcursor : cursorAt l.started now = .ok cursorUs)
      (hi : i = advance cursorUs (r.points.drop (l.segmentIndex + 1)) l.segmentIndex)
      (hprevious : r.points[i]? = some previous) (hcurrent : r.points[i + 1]? = some current)
      (htarget : r.interpolate previous current cursorUs = .ok target) :
      Executed r { r with pc := .read { l with segmentIndex := i, now, cursorUs, target } }
  | reachEnd {l : Loop F} {now : F} {cursorUs : ℤ} {last : TrajectoryPoint F} {q : Pose F}
      (hpc : r.pc = .locate l now) (hcursor : cursorAt l.started now = .ok cursorUs)
      (hfinal : r.finalReceived = true) (hlast : r.points.getLast? = some last)
      (hle : last.tUs ≤ cursorUs) (hq : r.resolve last.qDeg = .ok q) :
      Executed r { r with pc := .sendLast q last.tUs }
  | read {t : Tick F} {m : Pose F} {violations : ℕ} (hpc : r.pc = .read t) :
      Executed r { r.call .readQ with pc := .send { t with trackingViolations := violations } m }
  | send {t : Tick F} {m : Pose F} (hpc : r.pc = .send t m) :
      Executed r { r.call (.sendQ (.interpolated t.cursorUs) t.target) with pc := .publish t m }
  | publish {t : Tick F} {m : Pose F} (hpc : r.pc = .publish t m) : Executed r (r.publish t m)
  | telemetry {t : Tick F} {m : Pose F} {acceptedUntil : ℤ} {events : List (Event F)}
      {last : Option F} (hpc : r.pc = .telemetry t m acceptedUntil)
      (hevents : ∀ e ∈ events, ∃ s x y b, e = .telemetry s x y b) :
      Executed r { r with
        events := r.events ++ events, pc := .pace { t.toLoop with lastTelemetry := last } }
  | pace {l : Loop F} {now next : F} (hpc : r.pc = .pace l) (hclock : PyFloat.le r.clock now = true) :
      Executed r { r with clock := now, pc := .tick { l with nextTick := next } }
  | sendLast {q : Pose F} {tUs : ℤ} (hpc : r.pc = .sendLast q tUs) :
      Executed r { r.call (.sendQ .last q) with pc := .publishLast tUs }
  | publishLast {tUs : ℤ} (hpc : r.pc = .publishLast tUs) :
      Executed r { r with cursorUs := tUs, pc := .hold ⟨.completed, none⟩ }
  | fail {e : Raised F} {calls : List (BackendCall F)} {now : F} (htry : r.pc.stage.inTry = true)
      (hcalls : calls = [] ∨ ∃ c, r.pc.call? = some c ∧ calls = [c])
      (hclock : now = r.clock ∨ PyFloat.le r.clock now = true) :
      Executed r { r with calls := r.calls ++ calls, clock := now, pc := .fault e }
  | handle {e : Raised F} (hpc : r.pc = .fault e) : Executed r
      { r.emit (.fault (e.outcome.code.getD .hardwareFault) e) with pc := .hold e.outcome }
  | noBackend {o : Outcome} (hpc : r.pc = .hold o) (hbackend : r.backend = false) :
      Executed r { r with pc := .finish o }
  | release {o : Outcome} (hpc : r.pc = .hold o) (hbackend : r.backend = true)
      (htorque : r.torqueEnabled = false) :
      Executed r { r with backend := false, pc := .close o }
  | holdRead {o : Outcome} {m : Pose F} (hpc : r.pc = .hold o) (hbackend : r.backend = true)
      (htorque : r.torqueEnabled = true) :
      Executed r { r.call .readQ with backend := false, pc := .holdSend o m }
  | holdFail {o : Outcome} (hpc : r.pc = .hold o) (hbackend : r.backend = true)
      (htorque : r.torqueEnabled = true) :
      Executed r { r.call .readQ with backend := false, pc := .close o }
  | holdSend {o : Outcome} {m : Pose F} (hpc : r.pc = .holdSend o m) :
      Executed r { r.call (.sendQ .hold m) with pc := .close o }
  | close {o : Outcome} (hpc : r.pc = .close o) :
      Executed r { r.call .close with torqueEnabled := false, pc := .finish o }
  | finish {o : Outcome} (hpc : r.pc = .finish o) :
      Executed r { r with state := o.state, message := o.message, pc := .signal o }
  | signal {o : Outcome} (hpc : r.pc = .signal o) :
      Executed r { r with terminalEvent := true, pc := .report o }
  | report {o : Outcome} (hpc : r.pc = .report o) :
      Executed r { r.emit (.runFinished r.snapshot o) with pc := .done }

omit [PyFloat F] [FloatTrunc F] in
theorem fail_eq (r : ProgramRun F) (e : Raised F) :
    r.fail e = { r with calls := r.calls ++ [], clock := r.clock, pc := .fault e } := by
  rw [List.append_nil]
  rfl

omit [FloatTrunc F] in
theorem readClock_eq_some {now : F} :
    r.readClock now = some r' ↔ PyFloat.le r.clock now = true ∧ r' = { r with clock := now } := by
  unfold readClock
  split_ifs with h <;> simp [h, eq_comm]

/-- An exception in the `try` block, raised without or by the call it is about to make. -/
theorem Executed.raise (e : Raised F) (htry : r.pc.stage.inTry = true) : Executed r (r.fail e) := by
  rw [fail_eq]
  exact .fail htry (.inl rfl) (.inl rfl)

theorem Executed.raiseCall (e : Raised F) {c : BackendCall F} (htry : r.pc.stage.inTry = true)
    (hc : r.pc.call? = some c) : Executed r ((r.call c).fail e) := by
  have hclock : r.clock = r.clock ∨ PyFloat.le r.clock r.clock = true := .inl rfl
  exact Executed.fail htry (.inr ⟨c, hc, rfl⟩) hclock

theorem Executed.raiseAt (e : Raised F) {now : F} (htry : r.pc.stage.inTry = true)
    (hclock : PyFloat.le r.clock now = true) : Executed r ({ r with clock := now }.fail e) := by
  rw [fail_eq]
  exact .fail htry (.inl rfl) (.inr hclock)

theorem Executed.of_capture {a : NdArray F} (hpc : r.pc = .capture a) :
    Executed r (r.capture a) := by
  unfold ProgramRun.capture
  split
  · exact .raise _ (by rw [hpc]; rfl)
  · rename_i m ha
    simp only
    split
    · exact .reject hpc
    · rename_i hchecks
      exact .capture hpc ha hchecks

theorem Executed.of_atEnd {l : Loop F} {now : F} {cursorUs : ℤ} (hpc : r.pc = .locate l now)
    (hcursor : cursorAt l.started now = .ok cursorUs) : Executed r (r.atEnd cursorUs) := by
  have htry : r.pc.stage.inTry = true := by rw [hpc]; rfl
  unfold atEnd
  split_ifs with hfinal
  · split
    · exact .raise _ htry
    · rename_i last hlast
      split_ifs with hle
      · split
        · exact .raise _ htry
        · rename_i q hq
          exact .reachEnd hpc hcursor hfinal hlast hle hq
      · exact .raise _ htry
  · exact .raise _ htry

theorem Executed.of_locate {l : Loop F} {now : F} (hpc : r.pc = .locate l now) :
    Executed r (r.locate l now) := by
  have htry : r.pc.stage.inTry = true := by rw [hpc]; rfl
  unfold ProgramRun.locate
  split
  · exact .raise _ htry
  · rename_i cursorUs hcursor
    unfold locateAt
    simp only
    split
    · rename_i previous current hprevious hcurrent
      split
      · exact .raise _ htry
      · rename_i target htarget
        exact .locate hpc hcursor rfl hprevious hcurrent htarget
    · exact .of_atEnd hpc hcursor

theorem Executed.of_supervise {t : Tick F} {m : Pose F} (hpc : r.pc = .read t) :
    Executed r ((r.call .readQ).supervise t m) := by
  unfold supervise
  simp only
  split
  · exact .raiseCall _ (by rw [hpc]; rfl) (by rw [hpc]; rfl)
  · exact .read hpc

theorem Executed.of_emitTelemetry {t : Tick F} {m : Pose F} {acceptedUntil : ℤ}
    (hpc : r.pc = .telemetry t m acceptedUntil) :
    Executed r (r.emitTelemetry t m acceptedUntil) := by
  unfold emitTelemetry
  split_ifs
  · exact .telemetry hpc fun e he => ⟨_, _, _, _, List.mem_singleton.1 he⟩
  · have h : ∀ e ∈ ([] : List (Event F)), ∃ s x y b, e = .telemetry s x y b := by simp
    rw [← List.append_nil r.events]
    exact .telemetry hpc h

theorem Executed.of_beginLoop {now : F} (hpc : r.pc = .begin)
    (hclock : PyFloat.le r.clock now = true) :
    Executed r ({ r with clock := now }.beginLoop now) := by
  unfold beginLoop
  simp only
  split
  · exact .raiseAt _ (by rw [hpc]; rfl) hclock
  · exact .begin (l := { started := now, .. }) hpc hclock rfl

theorem Executed.of_endTick {l : Loop F} {now : F} (hpc : r.pc = .pace l)
    (hclock : PyFloat.le r.clock now = true) :
    Executed r ({ r with clock := now }.endTick l now) := by
  unfold endTick
  simp only
  split_ifs
  · exact .raiseAt _ (by rw [hpc]; rfl) hclock
  · exact .pace hpc hclock

/-- A step of the thread is one of the steps listed. -/
theorem exec_moved {act : Act F} (h : r.exec act = some r') : Executed r r' := by
  unfold exec at h
  split at h <;> rename_i hpc
  · cases h; exact .create hpc
  · cases h; exact .raise _ (by rw [hpc]; rfl)
  · cases h; exact .prepare hpc
  · cases h; exact .raiseCall _ (by rw [hpc]; rfl) (by rw [hpc]; rfl)
  · cases h; exact .of_capture hpc
  · cases h
    split_ifs with hstop
    · exact .raise _ (by rw [hpc]; rfl)
    · exact .pass hpc (Bool.eq_false_iff.2 hstop)
  · cases h; exact .enable hpc
  · cases h; exact .raiseCall _ (by rw [hpc]; rfl) (by rw [hpc]; rfl)
  · cases h; exact .setRunning hpc
  · cases h; exact .announce hpc
  · obtain ⟨_, hread, rfl⟩ := Option.map_eq_some_iff.1 h
    obtain ⟨hclock, rfl⟩ := readClock_eq_some.1 hread
    exact .of_beginLoop hpc hclock
  · obtain ⟨_, hread, rfl⟩ := Option.map_eq_some_iff.1 h
    obtain ⟨hclock, rfl⟩ := readClock_eq_some.1 hread
    unfold beginTick
    split_ifs with hstop
    · exact .stop hpc hclock hstop
    · exact .tick hpc hclock (Bool.eq_false_iff.2 hstop)
  · cases h
    unfold checkHeartbeat
    split_ifs with halive
    · exact .raise _ (by rw [hpc]; rfl)
    · refine .alive hpc ?_
      cases hi : r.ignoreHeartbeat <;> simp_all
  · cases h; exact .of_locate hpc
  · cases h; exact .of_supervise hpc
  · cases h; exact .raiseCall _ (by rw [hpc]; rfl) (by rw [hpc]; rfl)
  · cases h; exact .send hpc
  · cases h; exact .raiseCall _ (by rw [hpc]; rfl) (by rw [hpc]; rfl)
  · cases h; exact .publish hpc
  · cases h; exact .of_emitTelemetry hpc
  · obtain ⟨_, hread, rfl⟩ := Option.map_eq_some_iff.1 h
    obtain ⟨hclock, rfl⟩ := readClock_eq_some.1 hread
    exact .of_endTick hpc hclock
  · cases h; exact .sendLast hpc
  · cases h; exact .raiseCall _ (by rw [hpc]; rfl) (by rw [hpc]; rfl)
  · cases h; exact .publishLast hpc
  · cases h; exact .handle hpc
  · split_ifs at h with hbackend htorque
    · cases h; exact .noBackend hpc hbackend
    · cases h; exact .release hpc (by simpa using hbackend) htorque
  · split_ifs at h with hheld
    cases h; exact .holdRead hpc hheld.1 hheld.2
  · split_ifs at h with hheld
    cases h; exact .holdFail hpc hheld.1 hheld.2
  · cases h; exact .holdSend hpc
  · cases h; exact .holdSend hpc
  · cases h; exact .close hpc
  · cases h; exact .finish hpc
  · cases h; exact .signal hpc
  · cases h; exact .report hpc
  · cases h

/-- The thread changes nothing of what the connections give it. -/
theorem Executed.frame (h : Executed r r') : r'.toRunConfig = r.toRunConfig ∧
    r'.points = r.points ∧ r'.chunkReceipts = r.chunkReceipts ∧
    r'.expectedChunkSeq = r.expectedChunkSeq ∧ r'.finalReceived = r.finalReceived ∧
    r'.lastHeartbeat = r.lastHeartbeat ∧ r'.stopEvent = r.stopEvent := by
  cases h <;> exact ⟨rfl, rfl, rfl, rfl, rfl, rfl, rfl⟩

end Executor

/-! ## Chunks -/

/-- Two points in a row that make a segment the policy admits. -/
def SegmentOk (policy : SafetyPolicy F) (a b : TrajectoryPoint F) : Prop :=
  policy.validateSegment a b = .ok ()

/-- A point that passes both position checks. -/
def PointOk (r : ProgramRun F) (p : TrajectoryPoint F) : Prop :=
  r.policy.validatePosition p r.header.coordinateMode = .ok () ∧
    r.validateResolvedPosition p = .ok ()

theorem validatePoints_eq_ok {previous : Option (TrajectoryPoint F)}
    {points : List (TrajectoryPoint F)} :
    r.validatePoints previous points = .ok () ↔ (∀ p ∈ points, r.PointOk p) ∧
      (previous.toList ++ points).IsChain (SegmentOk r.policy) ∧
      (previous = none → ∀ p ∈ points.head?, r.validateFirst p = .ok ()) := by
  induction points generalizing previous with
  | nil => cases previous <;> simp [validatePoints]
  | cons p points ih =>
    cases previous with
    | none =>
      simp only [validatePoints, bind_eq_ok, exists_unit, ih, List.forall_mem_cons, PointOk]
      simp
      tauto
    | some q =>
      simp only [validatePoints, bind_eq_ok, exists_unit, ih, List.forall_mem_cons, PointOk]
      simp [SegmentOk]
      tauto

/-- The point lies inside the joint limits when it is an offset from the origin. -/
def Resolved (policy : SafetyPolicy F) (origin : Pose F) (p : TrajectoryPoint F) : Prop :=
  ∀ j, within (policy.jointMinDeg j) (policy.jointMaxDeg j)
    (PyFloat.add (origin j) (p.qDeg j)) = true

theorem validateResolvedPosition_eq_ok {p : TrajectoryPoint F} :
    r.validateResolvedPosition p = .ok () ↔ (r.header.coordinateMode = .relativeDeg →
      ∀ origin, r.originQ = some origin → Resolved r.policy origin p) := by
  unfold validateResolvedPosition
  split
  · rename_i origin hmode horigin
    simp only [forM_eq_ok, raiseWhen_eq_ok, Bool.not_eq_false, mem_joints, forall_const, hmode,
      horigin, Option.some.injEq, forall_eq', Resolved]
  · rename_i hnot
    exact ⟨fun _ hmode origin horigin => absurd horigin (hnot origin hmode), fun _ => rfl⟩

/-- The first point is near the measured pose. -/
def NearStart (policy : SafetyPolicy F) (measured : Pose F) (first : TrajectoryPoint F) : Prop :=
  PyFloat.lt policy.startToleranceDeg
    (maxOver (deviation first.qDeg measured) .shoulderPan joints.tail) = false

theorem startChecks_eq_ok {m : Pose F} : r.startChecks m = .ok () ↔
    (r.header.coordinateMode = .absoluteDeg →
      ∃ first ∈ r.points.head?, NearStart r.policy m first) ∧
    (r.header.coordinateMode = .relativeDeg → ∀ p ∈ r.points, Resolved r.policy m p) := by
  unfold startChecks
  cases hmode : r.header.coordinateMode with
  | absoluteDeg =>
    simp only [forall_const, reduceCtorEq, false_implies, and_true]
    cases hpoints : r.points with
    | nil => simp
    | cons first rest => simp [raiseWhen_eq_ok, NearStart]
  | relativeDeg =>
    simp only [reduceCtorEq, false_implies, true_and, forall_const, forM_eq_ok]
    refine forall_congr' fun p => forall_congr' fun _ => ?_
    rw [validateResolvedPosition_eq_ok]
    simp [hmode]

/-- A chunk that passed the checks before the first change. -/
structure ChunkOk (r : ProgramRun F) (c : Chunk F) : Prop where
  seq : c.chunkSeq = r.expectedChunkSeq
  state : r.state = .buffering ∨ r.state = .running
  not_final : r.finalReceived = false
  nonempty : c.points ≠ []
  length : c.points.length ≤ r.policy.maxChunkPoints
  points : r.validatePoints r.points.getLast? c.points = .ok ()
  count : r.points.length + c.points.length ≤ r.policy.maxPoints
  duration : (r.extend c).acceptedUntilUs ≤ r.policy.maxDurationUs
  complete : c.final = true → 2 ≤ r.points.length + c.points.length
  horizon : r.runMode = .streaming →
    (r.extend c).acceptedUntilUs - r.cursorUs ≤ r.policy.maxHorizonUs

omit [PyFloat F] in
theorem acceptedUntilUs_extend {c : Chunk F} (h : c.points ≠ []) :
    (r.extend c).acceptedUntilUs = (c.points.getLast?.map TrajectoryPoint.tUs).getD 0 := by
  unfold acceptedUntilUs extend
  simp only
  rw [List.getLast?_append_of_ne_nil _ h]
  cases hlast : c.points.getLast? with
  | none => exact absurd (List.getLast?_eq_none_iff.1 hlast) h
  | some p => rfl

theorem validateChunk_eq_ok {c : Chunk F} : r.validateChunk c = .ok () ↔ r.ChunkOk c := by
  unfold validateChunk
  simp only [bind_eq_ok, exists_unit, raiseWhen_eq_ok, not_not, not_or, not_lt, not_and,
    Bool.not_eq_true]
  constructor
  · rintro ⟨hseq, ⟨hstate, hfinal⟩, ⟨hne, hlen⟩, hpoints, ⟨hcount, hend⟩, hcomplete, hhorizon⟩
    have hlast := acceptedUntilUs_extend (r := r) hne
    exact ⟨hseq, or_iff_not_imp_left.2 hstate, hfinal, hne, hlen, hpoints, hcount, hlast ▸ hend, hcomplete,
      hlast ▸ hhorizon⟩
  · intro h
    have hlast := acceptedUntilUs_extend (r := r) h.nonempty
    exact ⟨h.seq, ⟨or_iff_not_imp_left.1 h.state, h.not_final⟩, ⟨h.nonempty, h.length⟩, h.points,
      ⟨h.count, hlast ▸ h.duration⟩, h.complete, hlast ▸ h.horizon⟩

omit [PyFloat F] in
theorem rollback_extend {c : Chunk F} (h : r.finalReceived = false) :
    (r.extend c).rollback c = r := by
  unfold rollback extend
  simp only [List.length_append, Nat.add_sub_cancel, List.take_left, add_sub_cancel_right]
  rw [← h]

section Append

variable [FloatRepr F] [Sha256]

/-- A chunk with the right digest and a sequence number that got no receipt yet. -/
def NewChunk (r : ProgramRun F) (c : Chunk F) : Prop :=
  (∃ digest, chunkDigest c.chunkSeq c.points c.final = .ok digest ∧
    compareDigest c.digest digest = .ok true) ∧ r.chunkReceipts.get c.chunkSeq = none

/-- What `append_chunk` can do: raise or repeat a receipt with the run unchanged, raise behind the
change of the points, or accept a new chunk. -/
inductive Appended (r : ProgramRun F) (c : Chunk F) :
    Except (Raised F) Receipt × ProgramRun F → Prop where
  | raised (e : Raised F) : Appended r c (.error e, r)
  | repeated {digest : Str} {receipt : Receipt}
      (hdigest : chunkDigest c.chunkSeq c.points c.final = .ok digest)
      (hold : r.chunkReceipts.get c.chunkSeq = some (digest, receipt)) :
      Appended r c (.ok receipt, r)
  | stuck {e : Exc} (hnew : r.NewChunk c) (hok : r.ChunkOk c) (hfinal : c.final = true)
      (hmatch : (r.extend c).digestMatches = .error e) :
      Appended r c (.error (.builtin e), r.extend c)
  | accepted {digest message : Str} (hnew : r.NewChunk c) (hok : r.ChunkOk c)
      (hdigest : chunkDigest c.chunkSeq c.points c.final = .ok digest)
      (hmatch : c.final = true → (r.extend c).digestMatches = .ok true) :
      Appended r c ({ r.extend c with message := message }.accept digest c)

theorem Appended.of_appendNew {c : Chunk F} {digest : Str}
    (hdigest : chunkDigest c.chunkSeq c.points c.final = .ok digest) (hnew : r.NewChunk c) :
    Appended r c (r.appendNew digest c) := by
  unfold appendNew
  split
  · exact .raised _
  · rename_i hok
    rw [validateChunk_eq_ok] at hok
    simp only
    split_ifs with hfinal
    · split
      · rename_i e hmatch
        exact .stuck hnew hok hfinal hmatch
      · rw [rollback_extend hok.not_final]
        exact .raised _
      · rename_i hmatch
        exact .accepted hnew hok hdigest fun _ => hmatch
    · have hmatch : c.final = true → (r.extend c).digestMatches = .ok true :=
        fun h => absurd h hfinal
      exact Appended.accepted hnew hok hdigest hmatch

theorem appendChunk_appended (r : ProgramRun F) (c : Chunk F) :
    Appended r c (r.appendChunk c) := by
  unfold appendChunk
  split
  · exact .raised _
  · rename_i digest hdigest
    split
    · exact .raised _
    · exact .raised _
    · rename_i hsupplied
      split
      · rename_i oldDigest receipt hold
        split
        · exact .raised _
        · exact .raised _
        · rename_i hsame
          rw [compareDigest_eq_true hsame] at hold
          exact .repeated hdigest hold
      · rename_i hnew
        exact .of_appendNew hdigest ⟨⟨digest, hdigest, hsupplied⟩, hnew⟩

/-- Whatever `append_chunk` answers, the run is unchanged or got the points of a chunk that passed
the checks. -/
theorem append_cases (r : ProgramRun F) (c : Chunk F) :
    (r.appendChunk c).2 = r ∨ r.ChunkOk c ∧ ∃ message receipts,
      (r.appendChunk c).2 = { r.extend c with message := message, chunkReceipts := receipts } := by
  have h := appendChunk_appended r c
  generalize r.appendChunk c = x at h
  cases h with
  | raised e => exact .inl rfl
  | repeated => exact .inl rfl
  | stuck hnew hok => exact .inr ⟨hok, r.message, r.chunkReceipts, rfl⟩
  | accepted hnew hok => exact .inr ⟨hok, _, _, rfl⟩

end Append

/-! ## Start -/

omit [PyFloat F] in
theorem start_eq_ok : r.start = .ok r' ↔ r.state = .buffering ∧ 2 ≤ r.points.length ∧
    (r.runMode = .sealed → r.finalReceived = true) ∧
    (r.runMode = .streaming → r.finalReceived = false →
      r.policy.startBufferUs ≤ r.acceptedUntilUs) ∧
    r' = { r with
      state := .arming
      message := py "opening the local motor bus with torque disabled"
      pc := .factory } := by
  unfold start
  simp only [bind_eq_ok, exists_unit, raiseWhen_eq_ok, not_not, not_lt, not_and,
    Bool.not_eq_false, Except.ok.injEq, eq_comm (a := r')]

/-- What a call of a connection handler or a step of the thread can do. -/
theorem step_cases [FloatTrunc F] [FloatRepr F] [Sha256] {label : Label F}
    (h : r.step label = some r') :
    (∃ c, label = .append c ∧ r' = (r.appendChunk c).2) ∨
    (label = .start ∧ (r.start = .ok r' ∨ r' = r)) ∨
    (∃ now, label = .heartbeat now ∧ PyFloat.le r.clock now = true ∧ r' = r.heartbeat now) ∨
    (∃ reason, label = .requestStop reason ∧ r' = r.requestStop reason) ∨
    (label = .connectionLost ∧ r' = r.connectionLost) ∨
    ∃ act, label = .exec act ∧ r.exec act = some r' := by
  cases label with
  | append c => exact .inl ⟨c, rfl, (Option.some.inj h).symm⟩
  | start =>
    refine .inr (.inl ⟨rfl, ?_⟩)
    have h := Option.some.inj h
    split at h
    · exact .inl (h ▸ ‹_›)
    · exact .inr h.symm
  | heartbeat now =>
    have h : (if PyFloat.le r.clock now = true then some (r.heartbeat now) else none) = some r' := h
    split_ifs at h with hclock
    exact .inr (.inr (.inl ⟨now, rfl, hclock, (Option.some.inj h).symm⟩))
  | requestStop reason =>
    exact .inr (.inr (.inr (.inl ⟨reason, rfl, (Option.some.inj h).symm⟩)))
  | connectionLost => exact .inr (.inr (.inr (.inr (.inl ⟨rfl, (Option.some.inj h).symm⟩))))
  | exec act => exact .inr (.inr (.inr (.inr (.inr ⟨act, rfl, h⟩))))

end ProgramRun

end RemoteRobot.Stream
