import RemoteRobot.Worker.Subprocess

/-!
# The table of pending requests

A future is in the table as long as it is not done (`Pending`).  So a response settles the one call
that bears its request ID, a call that returns gives a response with its own, and once the transport
has failed every future is done (`SubprocessWorker.rpcs_settle`).
-/

namespace RemoteRobot.Worker.SubprocessWorker

open Py Except Transition

open Ipc (ErrorRecord validateWireMessage)

variable {F : Type} {s s' : SubprocessWorker F}

/-- The call has the result, or has returned it. -/
def Has (r : Rpc F) (v : Dict F) : Prop := r.future = .result v ∨ r.stage = .returned v

/-- The table holds the calls with an unfinished future, under their request IDs. -/
structure Pending (s : SubprocessWorker F) : Prop where
  fresh : ∀ (k : ℕ) (r : Rpc F) (id : ℕ), s.rpcs[k]? = some r → r.requestId = some id →
    id < s.nextRequestId
  distinct : ∀ (j k : ℕ) (r r' : Rpc F) (id : ℕ), s.rpcs[j]? = some r → s.rpcs[k]? = some r' →
    r.requestId = some id → r'.requestId = some id → j = k
  numbered : ∀ (k : ℕ) (r : Rpc F), s.rpcs[k]? = some r → r.future.isPending = true →
    ∃ id, r.requestId = some id ∧ s.pending.get id = some k
  table : ∀ id k : ℕ, s.pending.get id = some k →
    ∃ r, s.rpcs[k]? = some r ∧ r.requestId = some id ∧ r.future.isPending = true
  failed : s.readerError.isSome = true → s.pending = ∅
  answered : ∀ (k : ℕ) (r : Rpc F) (v : Dict F), s.rpcs[k]? = some r → Has r v →
    ∃ id, r.requestId = some id ∧ (id, .ok v) ∈ s.responses

/-- Steps that add no call: what `g` makes of each of them has to fit the new table. -/
theorem Pending.map (h : Pending s) {g : ℕ → Rpc F → Rpc F}
    (hrpcs : ∀ j : ℕ, s'.rpcs[j]? = s.rpcs[j]?.map (g j)) (hid : ∀ j r, (g j r).requestId = r.requestId)
    (hnext : s'.nextRequestId = s.nextRequestId)
    (hpending : ∀ (k : ℕ) (r : Rpc F), s.rpcs[k]? = some r → (g k r).future.isPending = true →
      r.future.isPending = true)
    (hkept : ∀ (k : ℕ) (r : Rpc F) (id : ℕ), s.rpcs[k]? = some r →
      (g k r).future.isPending = true → s.pending.get id = some k → s'.pending.get id = some k)
    (htable : ∀ (k : ℕ) (r : Rpc F) (id : ℕ), s.rpcs[k]? = some r → r.requestId = some id →
      s'.pending.get id = some k → (g k r).future.isPending = true)
    (hold : ∀ id k : ℕ, s'.pending.get id = some k → s.pending.get id = some k)
    (hfailed : s'.readerError.isSome = true → s'.pending = ∅) (hres : s.responses ⊆ s'.responses)
    (hanswered : ∀ (k : ℕ) (r : Rpc F) (v : Dict F), s.rpcs[k]? = some r → Has (g k r) v →
      Has r v ∨ ∃ id, r.requestId = some id ∧ (id, .ok v) ∈ s'.responses) : Pending s' := by
  have hget : ∀ (j : ℕ) (r' : Rpc F), s'.rpcs[j]? = some r' → ∃ r, s.rpcs[j]? = some r ∧ r' = g j r := by
    intro j r' hr'
    rw [hrpcs] at hr'
    obtain ⟨r, hr, rfl⟩ := Option.map_eq_some_iff.1 hr'
    exact ⟨r, hr, rfl⟩
  refine ⟨fun j r' id hr' hi => ?_, fun j k r' r₁' id hr' hr₁' hi hi₁ => ?_, fun k r' hr' hp => ?_,
    fun id k hk => ?_, hfailed, fun k r' v hr' hv => ?_⟩
  · obtain ⟨r, hr, rfl⟩ := hget j r' hr'
    rw [hid] at hi
    rw [hnext]
    exact h.fresh j r id hr hi
  · obtain ⟨r, hr, rfl⟩ := hget j r' hr'
    obtain ⟨r₁, hr₁, rfl⟩ := hget k r₁' hr₁'
    rw [hid] at hi hi₁
    exact h.distinct j k r r₁ id hr hr₁ hi hi₁
  · obtain ⟨r, hr, rfl⟩ := hget k r' hr'
    rw [hid]
    obtain ⟨id, hi, hk⟩ := h.numbered k r hr (hpending k r hr hp)
    exact ⟨id, hi, hkept k r id hr hp hk⟩
  · obtain ⟨r, hr, hi, -⟩ := h.table id k (hold id k hk)
    refine ⟨g k r, ?_, ?_, htable k r id hr hi hk⟩
    · rw [hrpcs, hr]
      rfl
    · rw [hid, hi]
  · obtain ⟨r, hr, rfl⟩ := hget k r' hr'
    rw [hid]
    obtain hv | hv := hanswered k r v hr hv
    · obtain ⟨id, hi, hmem⟩ := h.answered k r v hr hv
      exact ⟨id, hi, hres hmem⟩
    · exact hv

/-! ## The steps -/

theorem getElem?_setRpc (k j : ℕ) (f : Rpc F → Rpc F) :
    (s.setRpc k f).rpcs[j]? = s.rpcs[j]?.map fun r => if k = j then f r else r :=
  List.getElem?_modify f k s.rpcs j

theorem Pending.setStage (h : Pending s) {k : ℕ} {stage : RpcStage F}
    (hstage : ∀ (r : Rpc F) (v : Dict F), s.rpcs[k]? = some r → stage = .returned v →
      r.future = .result v) : Pending (s.setStage k stage) := by
  have hfuture : ∀ (j : ℕ) (r : Rpc F),
      (if k = j then { r with stage } else r : Rpc F).future = r.future := by
    intro j r
    split_ifs <;> rfl
  refine h.map (fun j => getElem?_setRpc k j _) (fun j r => ?_) rfl (fun j r _ hp => ?_)
    (fun _ _ _ _ _ hk => hk) (fun j r id hr hi hk => ?_) (fun _ _ hk => hk) h.failed
    (fun _ hx => hx) (fun j r v hr hv => .inl ?_)
  · split_ifs <;> rfl
  · rwa [hfuture] at hp
  · obtain ⟨r', hr', -, hp⟩ := h.table id j hk
    obtain rfl := Option.some.inj (hr.symm.trans hr')
    rwa [hfuture]
  · obtain hv | hv := hv
    · rw [hfuture] at hv
      exact .inl hv
    · split_ifs at hv with hkj
      · subst hkj
        exact .inl (hstage r v hr hv)
      · exact .inr hv

theorem Pending.advance (h : Pending s) (k : ℕ) {stage : RpcStage F}
    (hstage : ∀ v, stage ≠ .returned v) : Pending (s.setStage k stage) :=
  h.setStage fun _ v _ hv => absurd hv (hstage v)

/-- One future of the table gets done: by its own call, or by a response with its ID. -/
theorem Pending.finish (h : Pending s) {k : ℕ} {r₀ : Rpc F} {id : ℕ} (hr₀ : s.rpcs[k]? = some r₀)
    (hid₀ : r₀.requestId = some id) {f : Future F → Future F}
    (hdone : (f r₀.future).isPending = false)
    {responses : List (ℕ × Except ErrorRecord (Dict F))} (hsub : s.responses ⊆ responses)
    (hres : ∀ v, f r₀.future = .result v → r₀.future = .result v ∨ (id, .ok v) ∈ responses) :
    Pending { s.setRpc k fun r => { r with future := f r.future } with
      pending := s.pending.erase id, responses } := by
  refine h.map (fun j => getElem?_setRpc k j _) (fun j r => ?_) rfl (fun j r hr hp => ?_)
    (fun j r i hr hp hk => ?_) (fun j r i hr hi hk => ?_) (fun i j hk => ?_) (fun hf => ?_) hsub
    (fun j r v hr hv => ?_)
  · split_ifs <;> rfl
  · split_ifs at hp with hkj
    · subst hkj
      obtain rfl := Option.some.inj (hr.symm.trans hr₀)
      rw [hdone] at hp
      cases hp
    · exact hp
  · rw [Table.get_erase, if_neg ?_]
    · exact hk
    · rintro rfl
      obtain ⟨r', hr', hi', -⟩ := h.table i j hk
      obtain rfl := h.distinct k j r₀ r' i hr₀ hr' hid₀ hi'
      obtain rfl := Option.some.inj (hr.symm.trans hr₀)
      rw [if_pos rfl, hdone] at hp
      cases hp
  · rw [Table.get_erase] at hk
    split_ifs at hk with hne
    obtain ⟨r', hr', hi', hp⟩ := h.table i j hk
    obtain rfl := Option.some.inj (hr.symm.trans hr')
    rw [if_neg ?_]
    · exact hp
    · rintro rfl
      obtain rfl := Option.some.inj (hr.symm.trans hr₀)
      exact hne (Option.some.inj (hi'.symm.trans hid₀))
  · rw [Table.get_erase] at hk
    split_ifs at hk
    exact hk
  · show s.pending.erase id = ∅
    rw [h.failed hf]
    rfl
  · split_ifs at hv with hkj
    · subst hkj
      obtain rfl := Option.some.inj (hr.symm.trans hr₀)
      obtain hv | hv := hv
      · obtain hv | hmem := hres v hv
        · exact .inl (.inl hv)
        · exact .inr ⟨id, hid₀, hmem⟩
      · exact .inl (.inr hv)
    · exact .inl hv

theorem setRpc_eq_self {k : ℕ} {f : Rpc F → Rpc F} (h : ∀ r, s.rpcs[k]? = some r → f r = r) :
    s.setRpc k f = s := by
  have hrpcs : (s.setRpc k f).rpcs = s.rpcs := by
    refine List.ext_getElem? fun j => ?_
    rw [getElem?_setRpc]
    cases hr : s.rpcs[j]? with
    | none => rfl
    | some r =>
      rw [Option.map_some]
      split_ifs with hkj
      · subst hkj
        rw [h r hr]
      · rfl
  show { s with rpcs := (s.setRpc k f).rpcs } = s
  rw [hrpcs]

theorem Pending.withdraw (h : Pending s) {k : ℕ} {r : Rpc F} (hr : s.rpcs[k]? = some r) :
    Pending (s.withdraw k r) := by
  unfold SubprocessWorker.withdraw
  cases hid : r.requestId with
  | some id =>
    exact h.finish hr hid (Future.isPending_cancel _) (fun _ hx => hx)
      fun v hv => .inl (Future.cancel_eq_result hv)
  | none =>
    rw [Option.map_none, Option.getD_none, setRpc_eq_self]
    · exact h
    · intro r' hr'
      obtain rfl := Option.some.inj (hr.symm.trans hr')
      have hdone : r.future.isPending = false := by
        by_contra hp
        obtain ⟨id, hi, -⟩ := h.numbered k r hr (by simpa using hp)
        rw [hid] at hi
        cases hi
      rw [Future.cancel_eq_self hdone]

theorem Pending.failTransport (h : Pending s) (e : WorkerError F) : Pending (s.failTransport e) := by
  refine h.map (fun j => List.getElem?_mapIdx) (fun j r => ?_) rfl (fun j r hr hp => ?_)
    (fun j r i hr hp hk => ?_) (fun j r i hr hi hk => ?_) (fun i j hk => ?_) (fun _ => rfl)
    (fun _ hx => hx) (fun j r v hr hv => .inl ?_)
  · split_ifs <;> rfl
  · split_ifs at hp
    · cases hp
    · exact hp
  · split_ifs at hp with hin
    · cases hp
    · exact absurd ⟨Table.mem_values.2 ⟨i, hk⟩, hp⟩ hin
  · cases hk
  · cases hk
  · split_ifs at hv
    · obtain hv | hv := hv
      · cases hv
      · exact .inr hv
    · exact hv

theorem getElem?_addRpc {r x : Rpc F} {k : ℕ} : (s.addRpc r).rpcs[k]? = some x ↔
    s.rpcs[k]? = some x ∨ k = s.rpcs.length ∧ x = r := by
  show (s.rpcs ++ [r])[k]? = some x ↔ _
  obtain hlt | rfl | hgt := Nat.lt_trichotomy k s.rpcs.length
  · rw [List.getElem?_append_left hlt]
    exact ⟨.inl, fun h => h.resolve_right fun hk => hlt.ne hk.1⟩
  · rw [List.getElem?_concat_length, List.getElem?_eq_none le_rfl]
    simp [eq_comm]
  · rw [List.getElem?_eq_none (by simp; omega), List.getElem?_eq_none hgt.le]
    simp [hgt.ne']

/-- A new call, with or without a place in the table. -/
theorem Pending.addRpc (h : Pending s) {r : Rpc F} {next : ℕ} {table : Table ℕ ℕ}
    (hnext : s.nextRequestId ≤ next)
    (hid : ∀ id, r.requestId = some id → id = s.nextRequestId ∧ id < next)
    (hnew : ∀ v, ¬Has r v)
    (hpending : r.future.isPending = true → ∃ id, r.requestId = some id ∧
      table = s.pending.insert id s.rpcs.length)
    (hdone : r.future.isPending = false → table = s.pending)
    (hfailed : s.readerError.isSome = true → r.future.isPending = false) :
    Pending { s.addRpc r with nextRequestId := next, pending := table } := by
  have hfree : ∀ k, s.pending.get s.nextRequestId ≠ some k := by
    intro k hk
    obtain ⟨r', hr', hi', -⟩ := h.table _ k hk
    exact (h.fresh k r' _ hr' hi').ne rfl
  refine ⟨fun k x id hx hi => ?_, fun j k x y id hx hy hi hi' => ?_, fun k x hx hp => ?_,
    fun id k hk => ?_, fun hf => ?_, fun k x v hx hv => ?_⟩
  · obtain hx | ⟨-, rfl⟩ := getElem?_addRpc.1 hx
    · exact (h.fresh k x id hx hi).trans_le hnext
    · exact (hid id hi).2
  · obtain hx' | ⟨rfl, rfl⟩ := getElem?_addRpc.1 hx
    · obtain hy' | ⟨rfl, rfl⟩ := getElem?_addRpc.1 hy
      · exact h.distinct j k x y id hx' hy' hi hi'
      · exact absurd (hid id hi').1 (h.fresh j x id hx' hi).ne
    · obtain hy' | ⟨rfl, rfl⟩ := getElem?_addRpc.1 hy
      · exact absurd (hid id hi).1 (h.fresh k y id hy' hi').ne
      · rfl
  · obtain hx | ⟨rfl, rfl⟩ := getElem?_addRpc.1 hx
    · obtain ⟨id, hi, hk⟩ := h.numbered k x hx hp
      refine ⟨id, hi, ?_⟩
      show table.get id = some k
      cases hr : r.future.isPending with
      | false => rw [hdone hr, hk]
      | true =>
        obtain ⟨id', hi', ht⟩ := hpending hr
        rw [ht, Table.get_insert, if_neg ?_, hk]
        rintro rfl
        exact hfree k ((hid id hi').1 ▸ hk)
    · obtain ⟨id, hi, ht⟩ := hpending hp
      refine ⟨id, hi, ?_⟩
      show table.get id = some _
      rw [ht, Table.get_insert_self]
  · have hk : table.get id = some k := hk
    cases hr : r.future.isPending with
    | false =>
      rw [hdone hr] at hk
      obtain ⟨x, hx, hi, hp⟩ := h.table id k hk
      exact ⟨x, getElem?_addRpc.2 (.inl hx), hi, hp⟩
    | true =>
      obtain ⟨id', hi', ht⟩ := hpending hr
      rw [ht, Table.get_insert] at hk
      split_ifs at hk with hid'
      · obtain rfl := Option.some.inj hk
        exact ⟨r, getElem?_addRpc.2 (.inr ⟨rfl, rfl⟩), hid' ▸ hi', hr⟩
      · obtain ⟨x, hx, hi, hp⟩ := h.table id k hk
        exact ⟨x, getElem?_addRpc.2 (.inl hx), hi, hp⟩
  · show table = ∅
    rw [hdone (hfailed hf), h.failed hf]
  · obtain hx | ⟨-, rfl⟩ := getElem?_addRpc.1 hx
    · exact h.answered k x v hx hv
    · exact absurd hv (hnew v)

/-- Steps that touch neither the calls nor the table. -/
theorem Pending.congr (h : Pending s) (hrpcs : s'.rpcs = s.rpcs) (hpending : s'.pending = s.pending)
    (hnext : s'.nextRequestId = s.nextRequestId) (herror : s'.readerError = s.readerError)
    (hresponses : s.responses ⊆ s'.responses) : Pending s' := by
  refine h.map (g := fun _ r => r) (fun j => ?_) (fun _ _ => rfl) hnext (fun _ _ _ hp => hp)
    (fun _ _ _ _ _ hk => ?_) (fun j r id hr hi hk => ?_) (fun _ _ hk => ?_) (fun hf => ?_)
    hresponses fun _ _ _ _ hv => .inl hv
  · rw [hrpcs, Option.map_id']
  · rwa [hpending]
  · rw [hpending] at hk
    obtain ⟨r', hr', -, hp⟩ := h.table id j hk
    obtain rfl := Option.some.inj (hr.symm.trans hr')
    exact hp
  · rwa [hpending] at hk
  · rw [hpending, h.failed (herror ▸ hf)]

variable [PyFloat F] [Cbor F] in
theorem Pending.rpc (h : Pending s) (method : Str) (params : Dict F) :
    Pending (s.rpc method params) := by
  unfold SubprocessWorker.rpc
  have hrefuse : ∀ e : WorkerError F,
      Pending (s.addRpc ⟨none, method, .cancelled, .failed (.refused e)⟩) := by
    intro e
    exact h.addRpc le_rfl (fun _ hi => nomatch hi) (fun v hv => by obtain hv | hv := hv <;> cases hv)
      (fun hp => nomatch hp) (fun _ => rfl) fun _ => rfl
  split
  · exact hrefuse _
  · split
    · exact hrefuse _
    · rename_i hready
      split
      · refine h.addRpc (Nat.le_succ _) (fun id hi => ?_)
          (fun v hv => by obtain hv | hv := hv <;> cases hv) (fun hp => nomatch hp) (fun _ => rfl)
          fun _ => rfl
        obtain rfl := Option.some.inj hi
        exact ⟨rfl, Nat.lt_succ_self _⟩
      · refine h.addRpc (Nat.le_succ _) (fun id hi => ?_)
          (fun v hv => by obtain hv | hv := hv <;> cases hv) (fun _ => ⟨_, rfl, rfl⟩)
          (fun hd => nomatch hd) fun hf => ?_
        · obtain rfl := Option.some.inj hi
          exact ⟨rfl, Nat.lt_succ_self _⟩
        · rw [hready] at hf
          cases hf

theorem Pending.readerFails (h : Pending s) (e : WorkerError F) : Pending (s.readerFails e) :=
  (h.failTransport e).congr rfl rfl rfl rfl fun _ hx => hx

/-- A response finds the one call that bears its request ID, if that still waits. -/
theorem readResponse_cases (h : Pending s) (requestId : ℕ)
    (outcome : Except ErrorRecord (Dict F)) :
    s.readResponse requestId outcome = s ∨ ∃ k r, s.rpcs[k]? = some r ∧
      r.requestId = some requestId ∧ r.future.isPending = true ∧
      s.readResponse requestId outcome =
        { s.setRpc k fun r => { r with future := settle outcome } with
          pending := s.pending.erase requestId } := by
  unfold readResponse
  cases hk : s.pending.get requestId with
  | none => exact .inl rfl
  | some k =>
    obtain ⟨r, hr, hi, hp⟩ := h.table requestId k hk
    refine .inr ⟨k, r, hr, hi, hp, ?_⟩
    simp only
    rw [if_pos ?_]
    · rfl
    · rw [hr, Option.map_some, hp]

theorem isPending_settle (outcome : Except ErrorRecord (Dict F)) :
    (settle outcome).isPending = false := by
  cases outcome <;> rfl

theorem settle_eq_result {outcome : Except ErrorRecord (Dict F)} {v : Dict F}
    (h : settle outcome = .result v) : outcome = .ok v := by
  cases outcome with
  | error e => cases h
  | ok w =>
    obtain rfl := Future.result.inj h
    rfl

theorem Pending.readMessage (h : Pending s) (message : Ipc.WireMessage F) :
    Pending (s.readMessage message) := by
  unfold SubprocessWorker.readMessage
  split
  · split
    · exact h.readerFails _
    · exact h.congr rfl rfl rfl rfl fun _ hx => hx
  · rename_i requestId outcome
    obtain hsame | ⟨k, r, hr, hi, hp, hread⟩ := readResponse_cases h requestId outcome
    · rw [hsame]
      exact h.congr rfl rfl rfl rfl fun _ hx => List.mem_append_left _ hx
    · rw [hread]
      refine h.finish hr hi (f := fun _ => settle outcome) (isPending_settle outcome)
        (fun _ hx => List.mem_append_left _ hx) fun v hv => .inr ?_
      rw [settle_eq_result hv]
      exact List.mem_append_right _ (List.mem_singleton_self _)
  · split
    · exact h.congr rfl rfl rfl rfl fun _ hx => hx
    · exact h.readerFails _
  · exact h.readerFails _

variable [PyFloat F] in
theorem Pending.read (h : Pending s) (frame : ReadFrame F) : Pending (s.read frame) := by
  unfold SubprocessWorker.read
  split
  · split
    · exact h.congr rfl rfl rfl rfl fun _ hx => hx
    · exact h.readerFails _
  · exact h.readerFails _
  · split
    · exact h.readerFails _
    · exact h.readMessage _

theorem Pending.terminate (h : Pending s) : Pending s.terminate := by
  unfold SubprocessWorker.terminate
  split_ifs
  · exact h
  · exact h.congr rfl rfl rfl rfl fun _ hx => hx

theorem Pending.abortTransport (h : Pending s) (e : WorkerError F) :
    Pending (s.abortTransport e) := by
  have hclosed : Pending { s with closing := true, closed := true } :=
    h.congr rfl rfl rfl rfl fun _ hx => hx
  have hfailed : Pending { ({ s with closing := true, closed := true }).failTransport e with
      stdinOpen := false } := (hclosed.failTransport e).congr rfl rfl rfl rfl fun _ hx => hx
  exact hfailed.terminate

theorem Pending.finishClose (h : Pending s) (i : ℕ) : Pending (s.finishClose i) := by
  have hclosed : Pending ({ s with closed := true }.setClosing i .done) :=
    h.congr rfl rfl rfl rfl fun _ hx => hx
  exact hclosed.failTransport closedError

theorem Pending.closeNext (h : Pending s) {i : ℕ} {c : Closing} (hstep : s.closeNext i c = some s') :
    Pending s' := by
  have hstdin : Pending ({ s with stdinOpen := false }.setClosing i .stdin) :=
    h.congr rfl rfl rfl rfl fun _ hx => hx
  unfold SubprocessWorker.closeNext at hstep
  split at hstep
  · split at hstep
    · exact Option.some.inj hstep ▸ hstdin
    · split_ifs at hstep
      · exact Option.some.inj hstep ▸ hstdin
      · exact Option.some.inj hstep ▸ h.finishClose i
    · cases hstep
  · split_ifs at hstep
    · exact Option.some.inj hstep ▸ h.finishClose i
    · exact Option.some.inj hstep ▸ h.congr rfl rfl rfl rfl fun _ hx => hx
  · split_ifs at hstep
    exact Option.some.inj hstep ▸ h.finishClose i
  · split_ifs at hstep
    exact Option.some.inj hstep ▸ h.finishClose i
  · cases hstep

variable [PyFloat F] [Cbor F] in
theorem Pending.close (h : Pending s) : Pending s.close := by
  unfold SubprocessWorker.close
  split_ifs
  · exact h
  · have hclosing : Pending { s with closing := true } := h.congr rfl rfl rfl rfl fun _ hx => hx
    exact (hclosing.rpc (py "close") []).congr rfl rfl rfl rfl fun _ hx => hx
  · exact h.congr rfl rfl rfl rfl fun _ hx => hx

/-- The steps of one call. -/
theorem Pending.timeout (h : Pending s) {k : ℕ} {r : Rpc F} (hr : s.rpcs[k]? = some r)
    (hstep : s.timeout k r = some s') : Pending s' := by
  unfold SubprocessWorker.timeout at hstep
  split at hstep
  · obtain rfl := Option.some.inj hstep
    have haborting : Pending ((s.withdraw k r).setStage k (.aborting (s.timeoutError r.method))) :=
      (h.withdraw hr).advance k fun _ hv => nomatch hv
    exact haborting.abortTransport _
  · cases hstep

theorem Pending.wake (h : Pending s) {k : ℕ} {r : Rpc F} (hr : s.rpcs[k]? = some r)
    (hstep : s.wake k r = some s') : Pending s' := by
  unfold SubprocessWorker.wake at hstep
  split at hstep
  · rename_i value hstage hfuture
    obtain rfl := Option.some.inj hstep
    refine h.setStage fun r' v hr' hv => ?_
    obtain rfl := Option.some.inj (hr.symm.trans hr')
    obtain rfl := RpcStage.returned.inj hv
    exact hfuture
  · exact Option.some.inj hstep ▸ h.advance k fun _ hv => nomatch hv
  · exact Option.some.inj hstep ▸ h.advance k fun _ hv => nomatch hv
  · cases hstep

theorem Pending.writeRaises (h : Pending s) {k : ℕ} {r : Rpc F} (hr : s.rpcs[k]? = some r)
    {cancelled : Bool} (hstep : s.writeRaises k r cancelled = some s') : Pending s' := by
  have hfailed : ∀ f, Pending ((s.withdraw k r).setStage k (.failed f)) := fun f =>
    (h.withdraw hr).advance k fun _ hv => nomatch hv
  unfold SubprocessWorker.writeRaises at hstep
  simp only at hstep
  split at hstep
  · exact Option.some.inj hstep ▸ hfailed _
  · exact Option.some.inj hstep ▸ (hfailed _).congr rfl rfl rfl rfl fun _ hx => hx
  · cases hstep

/-- The steps that change the stage of a call and nothing of the table. -/
theorem Pending.stage (h : Pending s) {k : ℕ} {r : Rpc F}
    (hstep : s.write k r = some s' ∨ s.drained k r = some s' ∨ s.cancel k r = some s' ∨
      s.aborted k r = some s') : Pending s' := by
  obtain hstep | hstep | hstep | hstep := hstep
  · unfold SubprocessWorker.write at hstep
    split at hstep
    · split at hstep
      · cases hstep
      · have hdraining : Pending (s.setStage k .draining) := h.advance k fun _ hv => nomatch hv
        exact Option.some.inj hstep ▸ hdraining.congr rfl rfl rfl rfl fun _ hx => hx
    · cases hstep
  · unfold SubprocessWorker.drained at hstep
    split at hstep
    · have hwaiting : Pending (s.setStage k .waiting) := h.advance k fun _ hv => nomatch hv
      exact Option.some.inj hstep ▸ hwaiting.congr rfl rfl rfl rfl fun _ hx => hx
    · cases hstep
  · unfold SubprocessWorker.cancel at hstep
    split at hstep
    · exact Option.some.inj hstep ▸ h.advance k fun _ hv => nomatch hv
    · exact Option.some.inj hstep ▸ h.advance k fun _ hv => nomatch hv
    · cases hstep
  · unfold SubprocessWorker.aborted at hstep
    split at hstep
    · rename_i e hstage
      split_ifs at hstep
      have hfailed : Pending (s.setStage k (.failed (.timeout e))) :=
        h.advance k fun _ hv => nomatch hv
      exact Option.some.inj hstep ▸ hfailed.congr rfl rfl rfl rfl fun _ hx => hx
    · cases hstep

variable [PyFloat F] [Cbor F] in
theorem Pending.step {l : Label F} (h : Pending s) (hstep : s.step l = some s') : Pending s' := by
  have hquiet : ∀ s₁ : SubprocessWorker F, s₁.rpcs = s.rpcs → s₁.pending = s.pending →
      s₁.nextRequestId = s.nextRequestId → s₁.readerError = s.readerError →
      s₁.responses = s.responses → Pending s₁ := fun s₁ hr hp hn he hres =>
    h.congr hr hp hn he (hres ▸ fun _ hx => hx)
  cases l with
  | rpc method params => exact Option.some.inj hstep ▸ h.rpc method params
  | write k =>
    obtain ⟨r, -, hstep⟩ := Option.bind_eq_some_iff.1 hstep
    exact h.stage (.inl hstep)
  | drained k =>
    obtain ⟨r, -, hstep⟩ := Option.bind_eq_some_iff.1 hstep
    exact h.stage (.inr (.inl hstep))
  | writeRaises k cancelled =>
    obtain ⟨r, hr, hstep⟩ := Option.bind_eq_some_iff.1 hstep
    exact h.writeRaises hr hstep
  | wake k =>
    obtain ⟨r, hr, hstep⟩ := Option.bind_eq_some_iff.1 hstep
    exact h.wake hr hstep
  | timeout k =>
    obtain ⟨r, hr, hstep⟩ := Option.bind_eq_some_iff.1 hstep
    exact h.timeout hr hstep
  | cancel k =>
    obtain ⟨r, -, hstep⟩ := Option.bind_eq_some_iff.1 hstep
    exact h.stage (.inr (.inr (.inl hstep)))
  | aborted k =>
    obtain ⟨r, -, hstep⟩ := Option.bind_eq_some_iff.1 hstep
    exact h.stage (.inr (.inr (.inr hstep)))
  | read frame =>
    have hstep : (if s.reading then some (s.read frame) else none) = some s' := hstep
    split at hstep
    · exact Option.some.inj hstep ▸ h.read frame
    · cases hstep
  | nextEvent =>
    simp only [SubprocessWorker.step] at hstep
    split at hstep
    · exact Option.some.inj hstep ▸ h
    · cases hstep
    · exact Option.some.inj hstep ▸ hquiet _ rfl rfl rfl rfl rfl
  | close => exact Option.some.inj hstep ▸ h.close
  | closeNext i =>
    obtain ⟨c, -, hstep⟩ := Option.bind_eq_some_iff.1 hstep
    exact h.closeNext hstep
  | closeExpires i =>
    obtain ⟨c, -, hstep⟩ := Option.bind_eq_some_iff.1 hstep
    unfold SubprocessWorker.closeExpires at hstep
    split at hstep
    · exact Option.some.inj hstep ▸
        (hquiet (s.setClosing i .terminating) rfl rfl rfl rfl rfl).terminate
    · cases hstep
  | closeRaises i =>
    obtain ⟨c, -, hstep⟩ := Option.bind_eq_some_iff.1 hstep
    unfold SubprocessWorker.closeRaises at hstep
    split at hstep
    · exact Option.some.inj hstep ▸ h.finishClose i
    · exact Option.some.inj hstep ▸ h.finishClose i
    · exact Option.some.inj hstep ▸ h.finishClose i
    · cases hstep
  | exit =>
    have hstep : (if s.alive then some { s with alive := false } else none) = some s' := hstep
    split at hstep
    · exact Option.some.inj hstep ▸ hquiet _ rfl rfl rfl rfl rfl
    · cases hstep
  | reap =>
    have hstep : (if s.alive then none else some { s with returncode := true }) = some s' := hstep
    split at hstep
    · cases hstep
    · exact Option.some.inj hstep ▸ hquiet _ rfl rfl rfl rfl rfl
  | act a =>
    obtain ⟨-, rfl⟩ := act_eq_some hstep
    exact hquiet _ rfl rfl rfl rfl rfl

/-! ## Failures of the transport -/

/-- The transport fails: the reader ends by an exception, or an abort or the end of a `close` closes
the worker. -/
def Fails (s : SubprocessWorker F) (l : Label F) (s' : SubprocessWorker F) : Prop :=
  (∃ frame, l = .read frame ∧ s'.reading = false ∧ (frame = .eof → s.closing = false)) ∨
    s.closed = false ∧ s'.closed = true

/-- What a step does to the transport: it fails it, or leaves it as it was. -/
def Kept (s s' : SubprocessWorker F) : Prop :=
  s'.readerError.isSome = true ∨ s'.readerError = s.readerError ∧ s'.closed = s.closed

theorem failed_failTransport (s : SubprocessWorker F) (e : WorkerError F) :
    (s.failTransport e).readerError.isSome = true := by
  show (s.readerError.or (some e)).isSome = true
  cases s.readerError <;> rfl

theorem terminate_readerError : s.terminate.readerError = s.readerError := by
  unfold SubprocessWorker.terminate
  split_ifs <;> rfl

theorem terminate_closed : s.terminate.closed = s.closed := by
  unfold SubprocessWorker.terminate
  split_ifs <;> rfl

theorem failed_abortTransport (s : SubprocessWorker F) (e : WorkerError F) :
    (s.abortTransport e).readerError.isSome = true := by
  unfold SubprocessWorker.abortTransport
  rw [terminate_readerError]
  exact failed_failTransport _ e

theorem readResponse_kept (s : SubprocessWorker F) (requestId : ℕ)
    (outcome : Except ErrorRecord (Dict F)) :
    (s.readResponse requestId outcome).readerError.isSome = true ∨
      (s.readResponse requestId outcome).readerError = s.readerError ∧
        (s.readResponse requestId outcome).closed = s.closed ∧
        (s.readResponse requestId outcome).reading = s.reading := by
  unfold SubprocessWorker.readResponse
  split
  · exact .inr ⟨rfl, rfl, rfl⟩
  · simp only
    split_ifs
    · exact .inr ⟨rfl, rfl, rfl⟩
    · exact .inl (failed_failTransport _ _)

variable [PyFloat F] in
/-- The reader fails the transport, goes on, or ends with the output of a worker that is being
closed. -/
theorem read_kept (s : SubprocessWorker F) (frame : ReadFrame F) :
    (s.read frame).readerError.isSome = true ∨
      (s.read frame).readerError = s.readerError ∧ (s.read frame).closed = s.closed ∧
        ((s.read frame).reading = s.reading ∨ frame = .eof ∧ s.closing = true) := by
  have hfails : ∀ e, (s.readerFails e).readerError.isSome = true := failed_failTransport s
  unfold SubprocessWorker.read
  split
  · split_ifs with hclosing
    · exact .inr ⟨rfl, rfl, .inr ⟨rfl, hclosing⟩⟩
    · exact .inl (hfails _)
  · exact .inl (hfails _)
  · split
    · exact .inl (hfails _)
    · unfold SubprocessWorker.readMessage
      split
      · split_ifs
        · exact .inl (hfails _)
        · exact .inr ⟨rfl, rfl, .inl rfl⟩
      · rename_i id outcome _
        obtain h | ⟨herror, hclosed, hreading⟩ := readResponse_kept s id outcome
        · exact .inl h
        · exact .inr ⟨herror, hclosed, .inl hreading⟩
      · split_ifs
        · exact .inr ⟨rfl, rfl, .inl rfl⟩
        · exact .inl (hfails _)
      · exact .inl (hfails _)

theorem finishClose_kept (s : SubprocessWorker F) (i : ℕ) : Kept s (s.finishClose i) :=
  .inl (failed_failTransport _ _)

theorem closeNext_kept {i : ℕ} {c : Closing} (hstep : s.closeNext i c = some s') : Kept s s' := by
  have hsame : Kept s ({ s with stdinOpen := false }.setClosing i .stdin) := .inr ⟨rfl, rfl⟩
  unfold SubprocessWorker.closeNext at hstep
  split at hstep
  · split at hstep
    · exact Option.some.inj hstep ▸ hsame
    · split_ifs at hstep
      · exact Option.some.inj hstep ▸ hsame
      · exact Option.some.inj hstep ▸ finishClose_kept s i
    · cases hstep
  · split_ifs at hstep
    · exact Option.some.inj hstep ▸ finishClose_kept s i
    · exact Option.some.inj hstep ▸ .inr ⟨rfl, rfl⟩
  · split_ifs at hstep
    exact Option.some.inj hstep ▸ finishClose_kept s i
  · split_ifs at hstep
    exact Option.some.inj hstep ▸ finishClose_kept s i
  · cases hstep

variable [PyFloat F] [Cbor F] in
theorem rpc_kept (s : SubprocessWorker F) (method : Str) (params : Dict F) :
    Kept s (s.rpc method params) := by
  unfold SubprocessWorker.rpc
  split
  · exact .inr ⟨rfl, rfl⟩
  · split
    · exact .inr ⟨rfl, rfl⟩
    · split
      · exact .inr ⟨rfl, rfl⟩
      · exact .inr ⟨rfl, rfl⟩

variable [PyFloat F] [Cbor F] in
theorem close_kept (s : SubprocessWorker F) : Kept s s.close := by
  unfold SubprocessWorker.close
  split_ifs
  · exact .inr ⟨rfl, rfl⟩
  · exact rpc_kept { s with closing := true } (py "close") []
  · exact .inr ⟨rfl, rfl⟩

theorem write_kept {k : ℕ} {r : Rpc F} (hstep : s.write k r = some s') : Kept s s' := by
  unfold SubprocessWorker.write at hstep
  split at hstep
  · split at hstep
    · cases hstep
    · exact Option.some.inj hstep ▸ .inr ⟨rfl, rfl⟩
  · cases hstep

theorem drained_kept {k : ℕ} {r : Rpc F} (hstep : s.drained k r = some s') : Kept s s' := by
  unfold SubprocessWorker.drained at hstep
  split at hstep
  · exact Option.some.inj hstep ▸ .inr ⟨rfl, rfl⟩
  · cases hstep

theorem writeRaises_kept {k : ℕ} {r : Rpc F} {cancelled : Bool}
    (hstep : s.writeRaises k r cancelled = some s') : Kept s s' := by
  unfold SubprocessWorker.writeRaises at hstep
  simp only at hstep
  split at hstep
  · exact Option.some.inj hstep ▸ .inr ⟨rfl, rfl⟩
  · exact Option.some.inj hstep ▸ .inr ⟨rfl, rfl⟩
  · cases hstep

theorem wake_kept {k : ℕ} {r : Rpc F} (hstep : s.wake k r = some s') : Kept s s' := by
  unfold SubprocessWorker.wake at hstep
  split at hstep
  · exact Option.some.inj hstep ▸ .inr ⟨rfl, rfl⟩
  · exact Option.some.inj hstep ▸ .inr ⟨rfl, rfl⟩
  · exact Option.some.inj hstep ▸ .inr ⟨rfl, rfl⟩
  · cases hstep

theorem cancel_kept {k : ℕ} {r : Rpc F} (hstep : s.cancel k r = some s') : Kept s s' := by
  unfold SubprocessWorker.cancel at hstep
  split at hstep
  · exact Option.some.inj hstep ▸ .inr ⟨rfl, rfl⟩
  · exact Option.some.inj hstep ▸ .inr ⟨rfl, rfl⟩
  · cases hstep

theorem aborted_kept {k : ℕ} {r : Rpc F} (hstep : s.aborted k r = some s') : Kept s s' := by
  unfold SubprocessWorker.aborted at hstep
  split at hstep
  · split_ifs at hstep
    exact Option.some.inj hstep ▸ .inr ⟨rfl, rfl⟩
  · cases hstep

theorem timeout_kept {k : ℕ} {r : Rpc F} (hstep : s.timeout k r = some s') : Kept s s' := by
  unfold SubprocessWorker.timeout at hstep
  split at hstep
  · exact Option.some.inj hstep ▸ .inl (failed_abortTransport _ _)
  · cases hstep

variable [PyFloat F] [Cbor F] in
theorem step_kept {l : Label F} (hstep : s.step l = some s') : Kept s s' := by
  cases l with
  | rpc method params => exact Option.some.inj hstep ▸ rpc_kept s method params
  | write k =>
    obtain ⟨r, -, hstep⟩ := Option.bind_eq_some_iff.1 hstep
    exact write_kept hstep
  | drained k =>
    obtain ⟨r, -, hstep⟩ := Option.bind_eq_some_iff.1 hstep
    exact drained_kept hstep
  | writeRaises k cancelled =>
    obtain ⟨r, -, hstep⟩ := Option.bind_eq_some_iff.1 hstep
    exact writeRaises_kept hstep
  | wake k =>
    obtain ⟨r, -, hstep⟩ := Option.bind_eq_some_iff.1 hstep
    exact wake_kept hstep
  | timeout k =>
    obtain ⟨r, -, hstep⟩ := Option.bind_eq_some_iff.1 hstep
    exact timeout_kept hstep
  | cancel k =>
    obtain ⟨r, -, hstep⟩ := Option.bind_eq_some_iff.1 hstep
    exact cancel_kept hstep
  | aborted k =>
    obtain ⟨r, -, hstep⟩ := Option.bind_eq_some_iff.1 hstep
    exact aborted_kept hstep
  | read frame =>
    have hstep : (if s.reading then some (s.read frame) else none) = some s' := hstep
    split_ifs at hstep
    obtain rfl := Option.some.inj hstep
    obtain h | ⟨herror, hclosed, -⟩ := read_kept s frame
    · exact .inl h
    · exact .inr ⟨herror, hclosed⟩
  | nextEvent =>
    simp only [SubprocessWorker.step] at hstep
    split at hstep
    · exact Option.some.inj hstep ▸ .inr ⟨rfl, rfl⟩
    · cases hstep
    · exact Option.some.inj hstep ▸ .inr ⟨rfl, rfl⟩
  | close => exact Option.some.inj hstep ▸ close_kept s
  | closeNext i =>
    obtain ⟨c, -, hstep⟩ := Option.bind_eq_some_iff.1 hstep
    exact closeNext_kept hstep
  | closeExpires i =>
    obtain ⟨c, -, hstep⟩ := Option.bind_eq_some_iff.1 hstep
    unfold SubprocessWorker.closeExpires at hstep
    split at hstep
    · exact Option.some.inj hstep ▸ .inr ⟨terminate_readerError, terminate_closed⟩
    · cases hstep
  | closeRaises i =>
    obtain ⟨c, -, hstep⟩ := Option.bind_eq_some_iff.1 hstep
    unfold SubprocessWorker.closeRaises at hstep
    split at hstep
    · exact Option.some.inj hstep ▸ finishClose_kept s i
    · exact Option.some.inj hstep ▸ finishClose_kept s i
    · exact Option.some.inj hstep ▸ finishClose_kept s i
    · cases hstep
  | exit =>
    have hstep : (if s.alive then some { s with alive := false } else none) = some s' := hstep
    split_ifs at hstep
    exact Option.some.inj hstep ▸ .inr ⟨rfl, rfl⟩
  | reap =>
    have hstep : (if s.alive then none else some { s with returncode := true }) = some s' := hstep
    split_ifs at hstep
    exact Option.some.inj hstep ▸ .inr ⟨rfl, rfl⟩
  | act a =>
    obtain ⟨-, rfl⟩ := act_eq_some hstep
    exact .inr ⟨rfl, rfl⟩

variable [PyFloat F] [Cbor F] in
/-- A transport that failed is known to have failed. -/
theorem failed_of_fails {l : Label F} (hstep : s.step l = some s') (h : Fails s l s') :
    s'.readerError.isSome = true := by
  obtain ⟨frame, rfl, hended, heof⟩ | ⟨hopen, hclosed⟩ := h
  · have hstep : (if s.reading then some (s.read frame) else none) = some s' := hstep
    split_ifs at hstep with hreading
    obtain rfl := Option.some.inj hstep
    obtain hfailed | ⟨-, -, hsame | ⟨rfl, hclosing⟩⟩ := read_kept s frame
    · exact hfailed
    · rw [hsame, hreading] at hended
      cases hended
    · rw [heof rfl] at hclosing
      cases hclosing
  · obtain hfailed | ⟨-, hsame⟩ := step_kept hstep
    · exact hfailed
    · rw [hsame, hopen] at hclosed
      cases hclosed

variable [PyFloat F] [Cbor F] in
theorem failed_run {labels : List (Label F)} (hrun : run step s labels = some s')
    (h : s.readerError.isSome = true) : s'.readerError.isSome = true := by
  refine run_invariant (I := fun s => s.readerError.isSome = true) (fun s l s' h hstep => ?_) hrun h
  obtain hfailed | ⟨hsame, -⟩ := step_kept hstep
  · exact hfailed
  · rw [hsame]
    exact h

/-- Behind a failure of the transport nothing is pending. -/
theorem Pending.all_done (h : Pending s) (hfailed : s.readerError.isSome = true) :
    ∀ r ∈ s.rpcs, r.future.isPending = false := by
  intro r hr
  obtain ⟨k, hk⟩ := List.mem_iff_getElem?.1 hr
  by_contra hp
  obtain ⟨id, -, hget⟩ := h.numbered k r hk (by simpa using hp)
  rw [h.failed hfailed] at hget
  cases hget

/-! ## Runs -/

/-- The step finishes the future of this call. -/
def Settles (s s' : SubprocessWorker F) (k : ℕ) : Prop :=
  ∃ r r', s.rpcs[k]? = some r ∧ r.future.isPending = true ∧ s'.rpcs[k]? = some r' ∧
    r'.future.isPending = false

/-- A response finishes no future but that of the call with its request ID. -/
theorem settles_response (h : Pending s) {id : ℕ} {outcome : Except ErrorRecord (Dict F)} {k : ℕ}
    (hk : Settles s (s.readMessage (.response id outcome)) k) :
    (s.rpcs[k]?.bind Rpc.requestId) = some id ∧
      ∀ j, Settles s (s.readMessage (.response id outcome)) j → j = k := by
  obtain hsame | ⟨k₀, r₀, hr₀, hi₀, -, hread⟩ := readResponse_cases h id outcome
  · obtain ⟨r, r', hr, hp, hr', hd⟩ := hk
    have hr' : (s.readResponse id outcome).rpcs[k]? = some r' := hr'
    rw [hsame, hr] at hr'
    obtain rfl := Option.some.inj hr'
    rw [hp] at hd
    cases hd
  · have honly : ∀ j, Settles s (s.readMessage (.response id outcome)) j → j = k₀ := by
      rintro j ⟨r, r', hr, hp, hr', hd⟩
      have hr' : (s.readResponse id outcome).rpcs[j]? = some r' := hr'
      rw [hread] at hr'
      have hr' : (s.setRpc k₀ fun r => { r with future := settle outcome }).rpcs[j]? = some r' := hr'
      rw [getElem?_setRpc, hr, Option.map_some] at hr'
      obtain rfl := Option.some.inj hr'
      by_contra hne
      rw [if_neg (Ne.symm hne), hp] at hd
      cases hd
    obtain rfl := honly k hk
    rw [hr₀]
    exact ⟨hi₀, honly⟩

variable [PyFloat F] [Cbor F]

omit [Cbor F] in
theorem pending_create {requestTimeout : F} {maxFrameBytes eventLimit : ℤ}
    (h : create requestTimeout maxFrameBytes eventLimit = .ok s) : Pending s := by
  unfold create at h
  simp only [bind_eq_ok, exists_unit] at h
  obtain ⟨-, -, -, h⟩ := h
  obtain rfl := Except.ok.inj h
  refine ⟨fun _ _ _ hr => ?_, fun _ _ _ _ _ hr => ?_, fun _ _ hr => ?_, fun _ _ hk => ?_,
    fun _ => rfl, fun _ _ _ hr => ?_⟩
  · cases hr
  · cases hr
  · cases hr
  · cases hk
  · cases hr

/-- No request ID is used twice; what a call returns is the result of a response with its request
ID; a response finishes the future of no call but the one that bears its request ID; and behind every
step by which the transport fails no call has a pending future, whether it was made before or
after. -/
theorem rpcs_settle {requestTimeout : F} {maxFrameBytes eventLimit : ℤ} {s₀ s : SubprocessWorker F}
    {labels : List (Label F)} (hcreate : create requestTimeout maxFrameBytes eventLimit = .ok s₀)
    (hrun : run step s₀ labels = some s) :
    (∀ (j k : ℕ) (r r' : Rpc F) (id : ℕ), s.rpcs[j]? = some r → s.rpcs[k]? = some r' →
      r.requestId = some id → r'.requestId = some id → j = k) ∧
    (∀ r ∈ s.rpcs, ∀ v, r.stage = .returned v →
      ∃ id, r.requestId = some id ∧ (id, .ok v) ∈ s.responses) ∧
    (∀ raw id outcome s', validateWireMessage raw = .ok (.response id outcome) →
      s.step (.read (.message raw)) = some s' → ∀ k, Settles s s' k →
        (s.rpcs[k]?.bind Rpc.requestId) = some id ∧ ∀ j, Settles s s' j → j = k) ∧
    (∀ before l after s₁ s₂, labels = before ++ l :: after → run step s₀ before = some s₁ →
      s₁.step l = some s₂ → Fails s₁ l s₂ → ∀ r ∈ s.rpcs, r.future.isPending = false) := by
  have h : Pending s := run_invariant (fun _ _ _ h hstep => h.step hstep) hrun (pending_create hcreate)
  refine ⟨h.distinct, fun r hr v hv => ?_, fun raw id outcome s' hraw hstep => ?_, ?_⟩
  · obtain ⟨k, hk⟩ := List.mem_iff_getElem?.1 hr
    exact h.answered k r v hk (.inr hv)
  · have hstep : (if s.reading then some (s.read (.message raw)) else none) = some s' := hstep
    split at hstep
    · obtain rfl := Option.some.inj hstep
      unfold SubprocessWorker.read
      simp only [hraw]
      exact fun k hk => settles_response h hk
    · cases hstep
  · rintro before l after s₁ s₂ rfl hbefore hstep hfails
    rw [run_append, hbefore] at hrun
    obtain ⟨s₂', hstep', hrest⟩ := run_cons_eq_some.1 hrun
    obtain rfl := Option.some.inj (hstep.symm.trans hstep')
    exact h.all_done (failed_run hrest (failed_of_fails hstep hfails))

/-! ### A worker that answers late and twice -/

section Demo

local instance requestsCodec : Cbor ℚ := strictCodec

/-- The entries of an envelope. -/
def envelope (message : Val ℚ) : ReadFrame ℚ :=
  match message with
  | .dict raw => .message raw
  | _ => .eof

/-- A worker of `spawn` behind its hello. -/
def demoGreeting : Label ℚ := .read (envelope (Ipc.helloEnvelope (py "simulator") [py "state"]))

/-- A response to `state`. -/
def demoAnswer (requestId : ℕ) (status : String) : Label ℚ :=
  .read (envelope (Ipc.resultEnvelope requestId [(.str (py "status"), .str (py status))]))

/-- Three calls of `state`; the first is answered twice, behind a response with an unknown ID, and the
others are open at the end. -/
def demoRequests : List (Label ℚ) :=
  [demoGreeting, .rpc (py "state") [], .write 0, .rpc (py "state") [], .drained 0, .write 1,
    .drained 1, demoAnswer 7 "lost", demoAnswer 1 "disabled", demoAnswer 1 "again", .wake 0,
    .rpc (py "state") [], .write 2]

/-- The output of the process ends, or the second call runs into its timeout. -/
def demoFailures : List (Label ℚ) := [.read .eof, .timeout 1]

def hasReturned (r : Rpc ℚ) : Bool := match r.stage with
  | .returned _ => true
  | _ => false

theorem hasReturned_iff {r : Rpc ℚ} : hasReturned r = true ↔ ∃ v, r.stage = .returned v := by
  unfold hasReturned
  cases r.stage with
  | returned v => simp
  | _ => simp

/-- The reader ends while nothing is being closed, or the worker gets closed. -/
def failsAt (s : SubprocessWorker ℚ) (l : Label ℚ) (s' : SubprocessWorker ℚ) : Bool := match l with
  | .read _ => !s.closing && !s'.reading
  | _ => !s.closed && s'.closed

theorem fails_of_failsAt {s s' : SubprocessWorker ℚ} {l : Label ℚ} (h : failsAt s l s' = true) :
    Fails s l s' := by
  unfold failsAt at h
  split at h
  · rename_i frame
    simp only [Bool.and_eq_true, Bool.not_eq_true'] at h
    exact .inl ⟨frame, rfl, h.2, fun _ => h.1⟩
  · simp only [Bool.and_eq_true, Bool.not_eq_true'] at h
    exact .inr h

theorem rpcs_settle_demo : ∃ s₀ s : SubprocessWorker ℚ,
    create 2 Ipc.defaultMaxFrameBytes 256 = .ok s₀ ∧ run step s₀ demoRequests = some s ∧
    (∃ r ∈ s.rpcs, ∃ v id, r.stage = .returned v ∧ r.requestId = some id ∧
      (id, .ok v) ∈ s.responses) ∧
    (∀ (j k : ℕ) (r r' : Rpc ℚ) (id : ℕ), s.rpcs[j]? = some r → s.rpcs[k]? = some r' →
      r.requestId = some id → r'.requestId = some id → j = k) ∧
    s.rpcs.countP (fun r => r.future.isPending) = 2 ∧
    ∀ l ∈ demoFailures, ∃ s', s.step l = some s' ∧ Fails s l s' ∧ s'.rpcs.length = 3 ∧
      ∀ r ∈ s'.rpcs, r.future.isPending = false := by
  have hrun : ((create 2 Ipc.defaultMaxFrameBytes 256).toOption.bind fun s₀ =>
      run (step (F := ℚ)) s₀ demoRequests).any (fun s => s.rpcs.any hasReturned &&
        decide (s.rpcs.countP (fun r => r.future.isPending) = 2) &&
        demoFailures.all fun l => (s.step l).any fun s' =>
          failsAt s l s' && decide (s'.rpcs.length = 3)) = true := by decide +kernel
  obtain ⟨s, hs, hchecks⟩ := (Option.any_eq_true _ _).1 hrun
  obtain ⟨s₀, hcreate, hs⟩ := Option.bind_eq_some_iff.1 hs
  rw [toOption_eq_some] at hcreate
  simp only [Bool.and_eq_true, decide_eq_true_eq, List.all_eq_true] at hchecks
  obtain ⟨⟨hreturned, hpending⟩, hfailures⟩ := hchecks
  obtain ⟨hids, hresults, -⟩ := rpcs_settle hcreate hs
  refine ⟨s₀, s, hcreate, hs, ?_, hids, hpending, fun l hl => ?_⟩
  · obtain ⟨r, hr, hstage⟩ := List.any_eq_true.1 hreturned
    obtain ⟨v, hv⟩ := hasReturned_iff.1 hstage
    obtain ⟨id, hid, hmem⟩ := hresults r hr v hv
    exact ⟨r, hr, v, id, hv, hid, hmem⟩
  · obtain ⟨s', hs', hchecks⟩ := (Option.any_eq_true _ _).1 (hfailures l hl)
    rw [Bool.and_eq_true, decide_eq_true_eq] at hchecks
    obtain ⟨hat, hlength⟩ := hchecks
    have hfails := fails_of_failsAt hat
    have hrest : run step s₀ (demoRequests ++ [l]) = some s' := by
      rw [run_append, hs]
      exact run_cons_eq_some.2 ⟨s', hs', rfl⟩
    obtain ⟨-, -, -, hsettled⟩ := rpcs_settle hcreate hrest
    exact ⟨s', hs', hfails, hlength, hsettled demoRequests l [] s s' rfl hs hs' hfails⟩

end Demo

end RemoteRobot.Worker.SubprocessWorker
