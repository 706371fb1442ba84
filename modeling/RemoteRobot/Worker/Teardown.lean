import RemoteRobot.Worker.Requests

/-!
# The process behind a failed transport

A timeout terminates the process before it fails any other call.  The reader and an interrupted
`close` fail the calls and leave the process as it is.  Where neither of the two happens to a running
process (`Sound`), a call fails by the transport only when the process is dead
(`SubprocessWorker.terminated_along`); where one does, the process goes on with what it was told, and
takes no `stop` any more (`SubprocessWorker.terminated_counterexample`).
-/

namespace RemoteRobot.Worker

open Py Except Transition

open Ipc (validateWireMessage)

variable {F : Type}

/-- A call that raises so failed by the transport: it was refused, timed out, or its future got an
exception that is in no response. -/
def Failure.byTransport : Failure F → Bool
  | .refused _ | .timeout _ => true
  | .response (.remote _ _) => false
  | .response _ => true
  | .encode _ | .write | .cancelled => false

/-- The call failed by the transport. -/
def Rpc.failedByTransport (r : Rpc F) : Bool := match r.stage with
  | .failed f => f.byTransport
  | _ => false

theorem Rpc.failedByTransport_iff {r : Rpc F} :
    r.failedByTransport = true ↔ ∃ f, r.stage = .failed f ∧ f.byTransport = true := by
  unfold failedByTransport
  cases r.stage with
  | failed f => simp
  | _ => simp

namespace SubprocessWorker

variable {s s' : SubprocessWorker F}

/-! ## The condition -/

section Condition

variable [PyFloat F]

/-- `_reader_loop` does not survive what it gets: the end of the output while nothing is being
closed, a frame or a message that is not valid, a second hello, a request, or an event when the queue
is full. -/
def breaksReader (s : SubprocessWorker F) : ReadFrame F → Bool
  | .eof => !s.closing
  | .raised _ => true
  | .message raw => match validateWireMessage raw with
    | .error _ => true
    | .ok (.hello _ _) => s.helloDone
    | .ok (.request _ _ _) => true
    | .ok (.response _ _) => false
    | .ok (.event _) => decide (s.eventLimit ≤ s.events.length)

/-- The `_rpc` in `close` has raised what `close` does not suppress. -/
def breaksClose (s : SubprocessWorker F) (i : ℕ) : Bool :=
  match s.closes[i]? with
  | some (.rpc k) => match s.rpcs[k]?.map Rpc.stage with
    | some (.failed f) => !f.suppressed
    | _ => false
  | _ => false

/-- The step ends the reader by an exception, or leaves `close` by one. -/
def breaks (s : SubprocessWorker F) : Label F → Bool
  | .read frame => s.breaksReader frame
  | .closeNext i => s.breaksClose i
  | .closeRaises _ => true
  | _ => false

/-- Neither happens while the process runs. -/
def Sound (s : SubprocessWorker F) (l : Label F) : Prop := s.alive = true → s.breaks l = false

instance (s : SubprocessWorker F) (l : Label F) : Decidable (Sound s l) := by
  unfold Sound
  infer_instance

end Condition

/-! ## The invariant -/

/-- The transport has not failed, and no call has failed by it. -/
structure Intact (s : SubprocessWorker F) : Prop where
  readerError : s.readerError = none
  closed : s.closed = false
  returncode : s.returncode = false
  futures : ∀ r ∈ s.rpcs, ∀ e, r.future = .exception e → ∃ code message, e = .remote code message
  aborting : ∀ r ∈ s.rpcs, ∀ e, r.stage ≠ .aborting e
  stages : ∀ r ∈ s.rpcs, ∀ f, r.stage = .failed f → f.byTransport = false

theorem Intact.congr (h : Intact s) (hrpcs : s'.rpcs = s.rpcs) (herror : s'.readerError = s.readerError)
    (hclosed : s'.closed = s.closed) (hcode : s'.returncode = s.returncode) : Intact s' := by
  refine ⟨herror.trans h.readerError, hclosed.trans h.closed, hcode.trans h.returncode, ?_, ?_, ?_⟩
  · rw [hrpcs]
    exact h.futures
  · rw [hrpcs]
    exact h.aborting
  · rw [hrpcs]
    exact h.stages

theorem mem_setRpc {k : ℕ} {f : Rpc F → Rpc F} {r : Rpc F} (h : r ∈ (s.setRpc k f).rpcs) :
    r ∈ s.rpcs ∨ ∃ r₀, s.rpcs[k]? = some r₀ ∧ r = f r₀ := by
  obtain ⟨j, hj⟩ := List.mem_iff_getElem?.1 h
  rw [getElem?_setRpc] at hj
  obtain ⟨r₀, hr₀, rfl⟩ := Option.map_eq_some_iff.1 hj
  split_ifs with hkj
  · subst hkj
    exact .inr ⟨r₀, hr₀, rfl⟩
  · exact .inl (List.mem_of_getElem? hr₀)

theorem Intact.setStage (h : Intact s) (k : ℕ) {stage : RpcStage F}
    (haborting : ∀ e, stage ≠ .aborting e)
    (hfailed : ∀ f, stage = .failed f → f.byTransport = false) : Intact (s.setStage k stage) := by
  refine ⟨h.readerError, h.closed, h.returncode, fun r hr e he => ?_, fun r hr e he => ?_,
    fun r hr f hf => ?_⟩
  · obtain hr | ⟨r₀, hr₀, rfl⟩ := mem_setRpc hr
    · exact h.futures r hr e he
    · exact h.futures r₀ (List.mem_of_getElem? hr₀) e he
  · obtain hr | ⟨r₀, hr₀, rfl⟩ := mem_setRpc hr
    · exact h.aborting r hr e he
    · exact haborting e he
  · obtain hr | ⟨r₀, hr₀, rfl⟩ := mem_setRpc hr
    · exact h.stages r hr f hf
    · exact hfailed f hf

theorem Intact.setFuture (h : Intact s) (k : ℕ) {f : Future F → Future F}
    (hf : ∀ r ∈ s.rpcs, ∀ e, f r.future = .exception e →
      r.future = .exception e ∨ ∃ code message, e = .remote code message) :
    Intact (s.setRpc k fun r => { r with future := f r.future }) := by
  refine ⟨h.readerError, h.closed, h.returncode, fun r hr e he => ?_, fun r hr e he => ?_,
    fun r hr g hg => ?_⟩
  · obtain hr | ⟨r₀, hr₀, rfl⟩ := mem_setRpc hr
    · exact h.futures r hr e he
    · have hr₀ := List.mem_of_getElem? hr₀
      obtain he | he := hf r₀ hr₀ e he
      · exact h.futures r₀ hr₀ e he
      · exact he
  · obtain hr | ⟨r₀, hr₀, rfl⟩ := mem_setRpc hr
    · exact h.aborting r hr e he
    · exact h.aborting r₀ (List.mem_of_getElem? hr₀) e he
  · obtain hr | ⟨r₀, hr₀, rfl⟩ := mem_setRpc hr
    · exact h.stages r hr g hg
    · exact h.stages r₀ (List.mem_of_getElem? hr₀) g hg

theorem Intact.addRpc (h : Intact s) {r : Rpc F} (hfuture : ∀ e, r.future ≠ .exception e)
    (haborting : ∀ e, r.stage ≠ .aborting e)
    (hfailed : ∀ f, r.stage = .failed f → f.byTransport = false) : Intact (s.addRpc r) := by
  have hmem : ∀ x ∈ (s.addRpc r).rpcs, x ∈ s.rpcs ∨ x = r := by
    intro x hx
    obtain hx | hx := List.mem_append.1 hx
    · exact .inl hx
    · exact .inr (List.mem_singleton.1 hx)
  refine ⟨h.readerError, h.closed, h.returncode, fun x hx e he => ?_, fun x hx e he => ?_,
    fun x hx f hf => ?_⟩
  · obtain hx | rfl := hmem x hx
    · exact h.futures x hx e he
    · exact absurd he (hfuture e)
  · obtain hx | rfl := hmem x hx
    · exact h.aborting x hx e he
    · exact haborting e he
  · obtain hx | rfl := hmem x hx
    · exact h.stages x hx f hf
    · exact hfailed f hf

variable [PyFloat F] [Cbor F] in
theorem Intact.rpc (h : Intact s) (method : Str) (params : Dict F) :
    Intact (s.rpc method params) := by
  unfold SubprocessWorker.rpc
  rw [if_neg (by rw [h.closed]; exact Bool.false_ne_true), h.readerError]
  simp only
  split
  · rename_i e _
    have hadd : Intact (s.addRpc ⟨some s.nextRequestId, method, .cancelled, .failed (.encode e)⟩) :=
      h.addRpc (fun _ he => nomatch he) (fun _ he => nomatch he) fun f hf => by
        obtain rfl := RpcStage.failed.inj hf
        rfl
    exact hadd.congr rfl rfl rfl rfl
  · rename_i frame _
    have hadd : Intact (s.addRpc ⟨some s.nextRequestId, method, .pending, .queued frame⟩) :=
      h.addRpc (fun _ he => nomatch he) (fun _ he => nomatch he) fun _ hf => nomatch hf
    exact hadd.congr rfl rfl rfl rfl

theorem Intact.withdraw (h : Intact s) (k : ℕ) (r : Rpc F) : Intact (s.withdraw k r) :=
  (h.setFuture k (f := Future.cancel) fun _ _ _ he => .inl (Future.cancel_eq_exception he)).congr
    rfl rfl rfl rfl

/-! ## The steps of a running process -/

theorem terminate_alive (hcode : s.returncode = false) : s.terminate.alive = false := by
  unfold SubprocessWorker.terminate
  rw [if_neg (by rw [hcode]; exact Bool.false_ne_true)]

theorem abortTransport_alive {k : ℕ} {r : Rpc F} {stage : RpcStage F} {e : WorkerError F}
    (hcode : s.returncode = false) :
    (((s.withdraw k r).setStage k stage).abortTransport e).alive = false :=
  terminate_alive hcode

/-- A sound read of an intact worker leaves it intact. -/
theorem Intact.readMessage (h : Intact s) (hpending : Pending s) {message : Ipc.WireMessage F}
    (hhello : ∀ adapter capabilities, message = .hello adapter capabilities → s.helloDone = false)
    (hrequest : ∀ id method params, message ≠ .request id method params)
    (hevent : ∀ event, message = .event event → s.events.length < s.eventLimit) :
    Intact (s.readMessage message) := by
  unfold SubprocessWorker.readMessage
  split
  · rw [if_neg (by rw [hhello _ _ rfl]; exact Bool.false_ne_true)]
    exact h.congr rfl rfl rfl rfl
  · rename_i id outcome
    obtain hsame | ⟨k, r, -, -, -, hread⟩ := readResponse_cases hpending id outcome
    · rw [hsame]
      exact h.congr rfl rfl rfl rfl
    · rw [hread]
      have hset : Intact (s.setRpc k fun r => { r with future := settle outcome }) := by
        refine h.setFuture k (f := fun _ => settle outcome) fun _ _ e he => .inr ?_
        cases outcome with
        | ok v => cases he
        | error record => exact ⟨_, _, (Future.exception.inj he).symm⟩
      exact hset.congr rfl rfl rfl rfl
  · rw [if_pos (hevent _ rfl)]
    exact h.congr rfl rfl rfl rfl
  · exact absurd rfl (hrequest _ _ _)

variable [PyFloat F] in
theorem Intact.read (h : Intact s) (hpending : Pending s) {frame : ReadFrame F}
    (hsound : s.breaksReader frame = false) : Intact (s.read frame) := by
  cases frame with
  | eof =>
    unfold SubprocessWorker.read
    simp only [breaksReader, Bool.not_eq_false'] at hsound
    rw [if_pos hsound]
    exact h.congr rfl rfl rfl rfl
  | raised e => cases hsound
  | message raw =>
    unfold SubprocessWorker.read
    unfold breaksReader at hsound
    simp only at hsound ⊢
    cases hraw : validateWireMessage raw with
    | error e =>
      rw [hraw] at hsound
      cases hsound
    | ok message =>
      rw [hraw] at hsound
      refine h.readMessage hpending ?_ ?_ ?_
      · rintro adapter capabilities rfl
        exact hsound
      · rintro id method params rfl
        cases hsound
      · rintro event rfl
        simpa using hsound

/-- What is left of `close` without an exception ends when the process has. -/
theorem Intact.closeNext (h : Intact s) {i : ℕ} {c : Closing} (hc : s.closes[i]? = some c)
    (hsound : s.breaksClose i = false) (hstep : s.closeNext i c = some s') : Intact s' := by
  have hcode : ¬s.returncode = true := by
    rw [h.returncode]
    exact Bool.false_ne_true
  unfold SubprocessWorker.closeNext at hstep
  split at hstep
  · rename_i k
    split at hstep
    · exact Option.some.inj hstep ▸ h.congr rfl rfl rfl rfl
    · rename_i f hf
      unfold breaksClose at hsound
      rw [hc] at hsound
      simp only [hf, Bool.not_eq_false'] at hsound
      rw [if_pos hsound] at hstep
      exact Option.some.inj hstep ▸ h.congr rfl rfl rfl rfl
    · cases hstep
  · rw [if_neg hcode] at hstep
    exact Option.some.inj hstep ▸ h.congr rfl rfl rfl rfl
  · rw [if_neg hcode] at hstep
    cases hstep
  · rw [if_neg hcode] at hstep
    cases hstep
  · cases hstep

/-- The steps of one call: a timeout leaves no running process behind. -/
theorem Intact.wake (h : Intact s) {k : ℕ} {r : Rpc F} (hr : s.rpcs[k]? = some r)
    (hstep : s.wake k r = some s') : Intact s' := by
  unfold SubprocessWorker.wake at hstep
  split at hstep
  · exact Option.some.inj hstep ▸ h.setStage k (fun _ he => nomatch he) fun _ hf => nomatch hf
  · rename_i e _ hfuture
    obtain ⟨code, message, rfl⟩ := h.futures r (List.mem_of_getElem? hr) e hfuture
    refine Option.some.inj hstep ▸ h.setStage k (fun _ he => nomatch he) fun f hf => ?_
    obtain rfl := RpcStage.failed.inj hf
    rfl
  · refine Option.some.inj hstep ▸ h.setStage k (fun _ he => nomatch he) fun f hf => ?_
    obtain rfl := RpcStage.failed.inj hf
    rfl
  · cases hstep

theorem Intact.writeRaises (h : Intact s) {k : ℕ} {r : Rpc F} {cancelled : Bool}
    (hstep : s.writeRaises k r cancelled = some s') : Intact s' := by
  have hfailed : Intact ((s.withdraw k r).setStage k
      (.failed (if cancelled then .cancelled else .write))) := by
    refine (h.withdraw k r).setStage k (fun _ he => nomatch he) fun f hf => ?_
    obtain rfl := RpcStage.failed.inj hf
    cases cancelled <;> rfl
  unfold SubprocessWorker.writeRaises at hstep
  simp only at hstep
  split at hstep
  · exact Option.some.inj hstep ▸ hfailed
  · exact Option.some.inj hstep ▸ hfailed.congr rfl rfl rfl rfl
  · cases hstep

theorem Intact.stage (h : Intact s) {k : ℕ} {r : Rpc F} (hr : s.rpcs[k]? = some r)
    (hstep : s.write k r = some s' ∨ s.drained k r = some s' ∨ s.cancel k r = some s' ∨
      s.aborted k r = some s') : Intact s' := by
  have hnot : ∀ e, r.stage ≠ .aborting e := h.aborting r (List.mem_of_getElem? hr)
  obtain hstep | hstep | hstep | hstep := hstep
  · unfold SubprocessWorker.write at hstep
    split at hstep
    · split at hstep
      · cases hstep
      · have hdraining : Intact (s.setStage k .draining) :=
          h.setStage k (fun _ he => nomatch he) fun _ hf => nomatch hf
        exact Option.some.inj hstep ▸ hdraining.congr rfl rfl rfl rfl
    · cases hstep
  · unfold SubprocessWorker.drained at hstep
    split at hstep
    · have hwaiting : Intact (s.setStage k .waiting) :=
        h.setStage k (fun _ he => nomatch he) fun _ hf => nomatch hf
      exact Option.some.inj hstep ▸ hwaiting.congr rfl rfl rfl rfl
    · cases hstep
  · have hcancelled : Intact (s.setStage k (.failed .cancelled)) := by
      refine h.setStage k (fun _ he => nomatch he) fun f hf => ?_
      obtain rfl := RpcStage.failed.inj hf
      rfl
    unfold SubprocessWorker.cancel at hstep
    split at hstep
    · exact Option.some.inj hstep ▸ hcancelled
    · exact Option.some.inj hstep ▸ hcancelled
    · cases hstep
  · unfold SubprocessWorker.aborted at hstep
    split at hstep
    · rename_i e he
      exact absurd he (hnot e)
    · cases hstep

variable [PyFloat F] [Cbor F]

omit [PyFloat F] [Cbor F] in
theorem terminate_dead (h : s.alive = false) :
    s.terminate.alive = false ∧ s.terminate.executed = s.executed := by
  unfold SubprocessWorker.terminate
  split_ifs
  · exact ⟨h, rfl⟩
  · exact ⟨rfl, rfl⟩

omit [PyFloat F] [Cbor F] in
theorem readMessage_process (message : Ipc.WireMessage F) :
    (s.readMessage message).alive = s.alive ∧ (s.readMessage message).executed = s.executed := by
  unfold SubprocessWorker.readMessage
  split
  · split_ifs <;> exact ⟨rfl, rfl⟩
  · unfold SubprocessWorker.readResponse
    split
    · exact ⟨rfl, rfl⟩
    · simp only
      split_ifs <;> exact ⟨rfl, rfl⟩
  · split_ifs <;> exact ⟨rfl, rfl⟩
  · exact ⟨rfl, rfl⟩

omit [Cbor F] in
theorem read_process (frame : ReadFrame F) :
    (s.read frame).alive = s.alive ∧ (s.read frame).executed = s.executed := by
  unfold SubprocessWorker.read
  split
  · split_ifs <;> exact ⟨rfl, rfl⟩
  · exact ⟨rfl, rfl⟩
  · split
    · exact ⟨rfl, rfl⟩
    · exact readMessage_process _

theorem rpc_process (method : Str) (params : Dict F) :
    (s.rpc method params).alive = s.alive ∧ (s.rpc method params).executed = s.executed := by
  unfold SubprocessWorker.rpc
  split_ifs
  · exact ⟨rfl, rfl⟩
  · split
    · exact ⟨rfl, rfl⟩
    · split <;> exact ⟨rfl, rfl⟩

/-- A dead process stays dead and executes nothing. -/
theorem dead_step {l : Label F} (h : s.alive = false) (hstep : s.step l = some s') :
    s'.alive = false ∧ s'.executed = s.executed := by
  have hsame : ∀ s₁ : SubprocessWorker F, s₁.alive = s.alive ∧ s₁.executed = s.executed →
      s₁.alive = false ∧ s₁.executed = s.executed := fun s₁ h₁ => ⟨h₁.1.trans h, h₁.2⟩
  cases l with
  | rpc method params => exact Option.some.inj hstep ▸ hsame _ (rpc_process method params)
  | write k =>
    obtain ⟨r, -, hstep⟩ := Option.bind_eq_some_iff.1 hstep
    unfold SubprocessWorker.write at hstep
    split at hstep
    · split at hstep
      · cases hstep
      · exact Option.some.inj hstep ▸ ⟨h, rfl⟩
    · cases hstep
  | drained k =>
    obtain ⟨r, -, hstep⟩ := Option.bind_eq_some_iff.1 hstep
    unfold SubprocessWorker.drained at hstep
    split at hstep
    · exact Option.some.inj hstep ▸ ⟨h, rfl⟩
    · cases hstep
  | writeRaises k cancelled =>
    obtain ⟨r, -, hstep⟩ := Option.bind_eq_some_iff.1 hstep
    unfold SubprocessWorker.writeRaises at hstep
    simp only at hstep
    split at hstep
    · exact Option.some.inj hstep ▸ ⟨h, rfl⟩
    · exact Option.some.inj hstep ▸ ⟨h, rfl⟩
    · cases hstep
  | wake k =>
    obtain ⟨r, -, hstep⟩ := Option.bind_eq_some_iff.1 hstep
    unfold SubprocessWorker.wake at hstep
    split at hstep
    · exact Option.some.inj hstep ▸ ⟨h, rfl⟩
    · exact Option.some.inj hstep ▸ ⟨h, rfl⟩
    · exact Option.some.inj hstep ▸ ⟨h, rfl⟩
    · cases hstep
  | timeout k =>
    obtain ⟨r, -, hstep⟩ := Option.bind_eq_some_iff.1 hstep
    unfold SubprocessWorker.timeout at hstep
    split at hstep
    · obtain rfl := Option.some.inj hstep
      unfold abortTransport
      exact terminate_dead h
    · cases hstep
  | cancel k =>
    obtain ⟨r, -, hstep⟩ := Option.bind_eq_some_iff.1 hstep
    unfold SubprocessWorker.cancel at hstep
    split at hstep
    · exact Option.some.inj hstep ▸ ⟨h, rfl⟩
    · exact Option.some.inj hstep ▸ ⟨h, rfl⟩
    · cases hstep
  | aborted k =>
    obtain ⟨r, -, hstep⟩ := Option.bind_eq_some_iff.1 hstep
    unfold SubprocessWorker.aborted at hstep
    split at hstep
    · split_ifs at hstep
      exact Option.some.inj hstep ▸ ⟨h, rfl⟩
    · cases hstep
  | read frame =>
    have hstep : (if s.reading then some (s.read frame) else none) = some s' := hstep
    split at hstep
    · exact Option.some.inj hstep ▸ hsame _ (read_process frame)
    · cases hstep
  | nextEvent =>
    simp only [SubprocessWorker.step] at hstep
    split at hstep
    · exact Option.some.inj hstep ▸ ⟨h, rfl⟩
    · cases hstep
    · exact Option.some.inj hstep ▸ ⟨h, rfl⟩
  | close =>
    obtain rfl := Option.some.inj hstep
    unfold SubprocessWorker.close
    split_ifs
    · exact ⟨h, rfl⟩
    · have hrpc := rpc_process (s := { s with closing := true }) (py "close") []
      exact ⟨hrpc.1.trans h, hrpc.2⟩
    · exact ⟨h, rfl⟩
  | closeNext i =>
    obtain ⟨c, -, hstep⟩ := Option.bind_eq_some_iff.1 hstep
    unfold SubprocessWorker.closeNext at hstep
    split at hstep
    · split at hstep
      · exact Option.some.inj hstep ▸ ⟨h, rfl⟩
      · split_ifs at hstep
        · exact Option.some.inj hstep ▸ ⟨h, rfl⟩
        · exact Option.some.inj hstep ▸ ⟨h, rfl⟩
      · cases hstep
    · split_ifs at hstep
      · exact Option.some.inj hstep ▸ ⟨h, rfl⟩
      · exact Option.some.inj hstep ▸ ⟨h, rfl⟩
    · split_ifs at hstep
      exact Option.some.inj hstep ▸ ⟨h, rfl⟩
    · split_ifs at hstep
      exact Option.some.inj hstep ▸ ⟨h, rfl⟩
    · cases hstep
  | closeExpires i =>
    obtain ⟨c, -, hstep⟩ := Option.bind_eq_some_iff.1 hstep
    unfold SubprocessWorker.closeExpires at hstep
    split at hstep
    · obtain rfl := Option.some.inj hstep
      exact terminate_dead (s := s.setClosing i .terminating) h
    · cases hstep
  | closeRaises i =>
    obtain ⟨c, -, hstep⟩ := Option.bind_eq_some_iff.1 hstep
    unfold SubprocessWorker.closeRaises at hstep
    split at hstep
    · exact Option.some.inj hstep ▸ ⟨h, rfl⟩
    · exact Option.some.inj hstep ▸ ⟨h, rfl⟩
    · exact Option.some.inj hstep ▸ ⟨h, rfl⟩
    · cases hstep
  | exit =>
    have hstep : (if s.alive then some { s with alive := false } else none) = some s' := hstep
    rw [h] at hstep
    cases hstep
  | reap =>
    have hstep : (if s.alive then none else some { s with returncode := true }) = some s' := hstep
    split at hstep
    · cases hstep
    · exact Option.some.inj hstep ▸ ⟨h, rfl⟩
  | act a =>
    obtain ⟨halive, -⟩ := act_eq_some hstep
    rw [h] at halive
    cases halive

/-- What a sound step leaves running is intact. -/
theorem Intact.step {l : Label F} (h : Intact s) (hpending : Pending s) (hsound : s.breaks l = false)
    (hstep : s.step l = some s') (halive : s'.alive = true) : Intact s' := by
  cases l with
  | rpc method params => exact Option.some.inj hstep ▸ h.rpc method params
  | write k =>
    obtain ⟨r, hr, hstep⟩ := Option.bind_eq_some_iff.1 hstep
    exact h.stage hr (.inl hstep)
  | drained k =>
    obtain ⟨r, hr, hstep⟩ := Option.bind_eq_some_iff.1 hstep
    exact h.stage hr (.inr (.inl hstep))
  | writeRaises k cancelled =>
    obtain ⟨r, -, hstep⟩ := Option.bind_eq_some_iff.1 hstep
    exact h.writeRaises hstep
  | wake k =>
    obtain ⟨r, hr, hstep⟩ := Option.bind_eq_some_iff.1 hstep
    exact h.wake hr hstep
  | timeout k =>
    -- the process is terminated before anybody else runs
    obtain ⟨r, -, hstep⟩ := Option.bind_eq_some_iff.1 hstep
    unfold SubprocessWorker.timeout at hstep
    split at hstep
    · obtain rfl := Option.some.inj hstep
      rw [abortTransport_alive h.returncode] at halive
      cases halive
    · cases hstep
  | cancel k =>
    obtain ⟨r, hr, hstep⟩ := Option.bind_eq_some_iff.1 hstep
    exact h.stage hr (.inr (.inr (.inl hstep)))
  | aborted k =>
    obtain ⟨r, hr, hstep⟩ := Option.bind_eq_some_iff.1 hstep
    exact h.stage hr (.inr (.inr (.inr hstep)))
  | read frame =>
    have hstep : (if s.reading then some (s.read frame) else none) = some s' := hstep
    split at hstep
    · exact Option.some.inj hstep ▸ h.read hpending hsound
    · cases hstep
  | nextEvent =>
    simp only [SubprocessWorker.step] at hstep
    split at hstep
    · exact Option.some.inj hstep ▸ h
    · cases hstep
    · exact Option.some.inj hstep ▸ h.congr rfl rfl rfl rfl
  | close =>
    obtain rfl := Option.some.inj hstep
    unfold SubprocessWorker.close
    split_ifs
    · exact h
    · have hclosing : Intact { s with closing := true } := h.congr rfl rfl rfl rfl
      exact (hclosing.rpc (py "close") []).congr rfl rfl rfl rfl
    · exact h.congr rfl rfl rfl rfl
  | closeNext i =>
    obtain ⟨c, hc, hstep⟩ := Option.bind_eq_some_iff.1 hstep
    exact h.closeNext hc hsound hstep
  | closeExpires i =>
    obtain ⟨c, -, hstep⟩ := Option.bind_eq_some_iff.1 hstep
    unfold SubprocessWorker.closeExpires at hstep
    split at hstep
    · obtain rfl := Option.some.inj hstep
      rw [terminate_alive (s := s.setClosing i .terminating) h.returncode] at halive
      cases halive
    · cases hstep
  | closeRaises i => cases hsound
  | exit =>
    have hstep : (if s.alive then some { s with alive := false } else none) = some s' := hstep
    split at hstep
    · obtain rfl := Option.some.inj hstep
      cases halive
    · cases hstep
  | reap =>
    have hstep : (if s.alive then none else some { s with returncode := true }) = some s' := hstep
    split at hstep
    · cases hstep
    · rename_i hdead
      obtain rfl := Option.some.inj hstep
      exact absurd halive hdead
  | act a =>
    obtain ⟨-, rfl⟩ := act_eq_some hstep
    exact h.congr rfl rfl rfl rfl

/-! ## Runs -/

omit [Cbor F] in
theorem intact_create {requestTimeout : F} {maxFrameBytes eventLimit : ℤ}
    (h : create requestTimeout maxFrameBytes eventLimit = .ok s) : Intact s := by
  unfold create at h
  simp only [bind_eq_ok, exists_unit] at h
  obtain ⟨-, -, -, h⟩ := h
  obtain rfl := Except.ok.inj h
  exact ⟨rfl, rfl, rfl, fun _ hr => (List.not_mem_nil hr).elim,
    fun _ hr => (List.not_mem_nil hr).elim, fun _ hr => (List.not_mem_nil hr).elim⟩

/-- In every run in which no reader breaks and no `close` is left by an exception while the process
runs, a call that fails by the transport leaves a dead process, which executes nothing more. -/
theorem terminated_along {requestTimeout : F} {maxFrameBytes eventLimit : ℤ}
    {s₀ s : SubprocessWorker F} {labels : List (Label F)}
    (hcreate : create requestTimeout maxFrameBytes eventLimit = .ok s₀)
    (hrun : run step s₀ labels = some s) (hok : Along step Sound s₀ labels) :
    ∀ r ∈ s.rpcs, ∀ f, r.stage = .failed f → f.byTransport = true →
      s.alive = false ∧ ∀ labels' s', run step s labels' = some s' →
        s'.alive = false ∧ s'.executed = s.executed := by
  have hinv : Pending s ∧ (s.alive = true → Intact s) := by
    refine run_invariant_along (I := fun s => Pending s ∧ (s.alive = true → Intact s))
      (fun s l s' h hsound hstep => ?_) hrun hok
      ⟨pending_create hcreate, fun _ => intact_create hcreate⟩
    refine ⟨h.1.step hstep, fun halive => ?_⟩
    have hold : s.alive = true := by
      by_contra hdead
      rw [(dead_step (by simpa using hdead) hstep).1] at halive
      cases halive
    exact (h.2 hold).step h.1 (hsound hold) hstep halive
  intro r hr f hf hfailed
  have hdead : s.alive = false := by
    by_contra halive
    rw [(hinv.2 (by simpa using halive)).stages r hr f hf] at hfailed
    cases hfailed
  refine ⟨hdead, fun labels' s' hrun' => ?_⟩
  exact run_invariant (I := fun s' => s'.alive = false ∧ s'.executed = s.executed)
    (fun m _ m' hm hstep => ⟨(dead_step hm.1 hstep).1, (dead_step hm.1 hstep).2.trans hm.2⟩) hrun'
    ⟨hdead, rfl⟩

/-! ### Two events too many -/

section Demo

local instance teardownCodec : Cbor ℚ := strictCodec

/-- An event of the worker process. -/
def demoEvent (type : String) : Label ℚ :=
  .read (envelope (Ipc.eventEnvelope [(.str (py "type"), .str (py type))]))

/-- The `k`th call is made, written, answered and returns. -/
def demoExchange (k : ℕ) (method : String) (params : Dict ℚ) : List (Label ℚ) :=
  [.rpc (py method) params, .write k, .drained k, demoAnswer (k + 1) method, .wake k]

/-- A phase is prepared and started; with `event_limit=2` nobody has taken an event when the phase
announces itself. -/
def demoOverflow : List (Label ℚ) :=
  [demoGreeting] ++ demoExchange 0 "prepare_disabled" [] ++ [demoEvent "worker_disabled"] ++
    demoExchange 1 "prepare_phase" [(.str (py "phase_plan"), .dict [])] ++
    [demoEvent "phase_prepared"] ++
    demoExchange 2 "start_phase" [(.str (py "monotonic_deadline_us"), .int 0)] ++
    [demoEvent "phase_started"]

/-- `stop` is refused, and the phase goes on. -/
theorem terminated_counterexample : ∃ s₀ s s' : SubprocessWorker ℚ,
    create 2 Ipc.defaultMaxFrameBytes 2 = .ok s₀ ∧
    run step s₀ (demoOverflow ++ [.rpc (py "stop") [(.str (py "fault_context"), .dict [])]]) = some s ∧
    (∃ r ∈ s.rpcs, r.method = py "stop" ∧ ∃ f, r.stage = .failed f ∧ f.byTransport = true) ∧
    s.alive = true ∧ s.step (.act .phase) = some s' ∧ s'.executed ≠ s.executed := by
  have hrun : ((create 2 Ipc.defaultMaxFrameBytes 2).toOption.bind fun s₀ =>
      run (step (F := ℚ)) s₀ (demoOverflow ++
        [.rpc (py "stop") [(.str (py "fault_context"), .dict [])]])).any (fun s =>
      s.alive && s.rpcs.any fun r => r.method = py "stop" && r.failedByTransport) = true := by
    decide +kernel
  obtain ⟨s, hs, hend⟩ := (Option.any_eq_true _ _).1 hrun
  obtain ⟨s₀, hcreate, hs⟩ := Option.bind_eq_some_iff.1 hs
  rw [Bool.and_eq_true] at hend
  obtain ⟨halive, hend⟩ := hend
  obtain ⟨r, hr, hstop⟩ := List.any_eq_true.1 hend
  rw [Bool.and_eq_true] at hstop
  refine ⟨s₀, s, { s with executed := s.executed ++ [.phase] }, toOption_eq_some.1 hcreate, hs,
    ⟨r, hr, of_decide_eq_true hstop.1, Rpc.failedByTransport_iff.1 hstop.2⟩, halive, ?_, ?_⟩
  · show s.act .phase = _
    unfold act
    rw [halive]
    rfl
  · exact fun h => List.cons_ne_nil _ _ (List.append_right_eq_self.1 h)

/-- A call that times out leaves a dead process. -/
theorem terminated_along_demo : ∃ s₀ s : SubprocessWorker ℚ,
    create 2 Ipc.defaultMaxFrameBytes 2 = .ok s₀ ∧
    run step s₀ [demoGreeting, .rpc (py "state") [], .write 0, .drained 0, .rpc (py "state") [],
      .write 1, .timeout 0, .drained 1, .wake 1] = some s ∧
    s.alive = false ∧ ∀ labels' s', run step s labels' = some s' →
      s'.alive = false ∧ s'.executed = s.executed := by
  have hrun : ((create 2 Ipc.defaultMaxFrameBytes 2).toOption.bind fun s₀ =>
      (run (step (F := ℚ)) s₀ [demoGreeting, .rpc (py "state") [], .write 0, .drained 0,
        .rpc (py "state") [], .write 1, .timeout 0, .drained 1, .wake 1]).filter fun _ =>
      decide (Along step Sound s₀ [demoGreeting, .rpc (py "state") [], .write 0, .drained 0,
        .rpc (py "state") [], .write 1, .timeout 0, .drained 1, .wake 1])).any (fun s =>
      s.rpcs.any fun r => r.failedByTransport) = true := by decide +kernel
  obtain ⟨s, hs, hend⟩ := (Option.any_eq_true _ _).1 hrun
  obtain ⟨s₀, hcreate, hs⟩ := Option.bind_eq_some_iff.1 hs
  obtain ⟨hs, hok⟩ := Option.filter_eq_some_iff.1 hs
  rw [toOption_eq_some] at hcreate
  obtain ⟨r, hr, hstage⟩ := List.any_eq_true.1 hend
  refine ⟨s₀, s, hcreate, hs, ?_⟩
  obtain ⟨f, hf, htransport⟩ := Rpc.failedByTransport_iff.1 hstage
  exact terminated_along hcreate hs (of_decide_eq_true hok) r hr f hf htransport

end Demo

end SubprocessWorker

end RemoteRobot.Worker
