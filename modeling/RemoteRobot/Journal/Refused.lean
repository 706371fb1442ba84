import RemoteRobot.Journal.History

/-!
# Appends that raise

`append` creates the list of a run before it frames the record.  A call that raises without writing
anything leaves what a reader sees as it was, but for one kind of call: the first of a run, accepted
by every check, whose record cannot be framed (`RunJournal.append_refused`).  `run_ids` has the run
then, as `FileRunJournal.history_counterexample` shows for a file.
-/

namespace RemoteRobot

open Py Except

variable {F : Type}

namespace RunJournal

section Readers

variable {σ : Type} {j j' : RunJournal F σ}

/-- `run_ids`, `replay` and `latest` give the same for every run ID. -/
structure SameReads (j j' : RunJournal F σ) : Prop where
  runIds : j'.runIds = j.runIds
  replay : ∀ runId afterEventSeq, j'.replay runId afterEventSeq = j.replay runId afterEventSeq
  latest : ∀ runId, j'.latest runId = j.latest runId

theorem SameReads.refl (j : RunJournal F σ) : SameReads j j :=
  ⟨rfl, fun _ _ => rfl, fun _ => rfl⟩

theorem mem_runIds {r : Str} : r ∈ j.runIds ↔ r ∈ j.eventsByRun.keys := mem_sortedSet

/-- `setdefault` for a run: its events stay, and it is known. -/
theorem sameReads_setdefault (j : RunJournal F σ) (owner : Str) :
    SameReads j { j with eventsByRun := j.eventsByRun.insert owner (j.eventsOf owner) } ↔
      owner ∈ j.eventsByRun.keys := by
  have hevents : ∀ r, eventsOf { j with
      eventsByRun := j.eventsByRun.insert owner (j.eventsOf owner) } r = j.eventsOf r := by
    intro r
    rw [eventsOf_insert]
    split_ifs with hr
    · rw [hr]
    · rfl
  constructor
  · intro h
    rw [← mem_runIds, ← h.runIds, mem_runIds, Table.mem_keys_iff]
    exact ⟨_, Table.get_insert_self ..⟩
  · intro h
    refine ⟨sortedSet_congr fun r => ?_, fun runId afterEventSeq => ?_, fun runId => ?_⟩
    · rw [Table.mem_keys_iff, Table.get_insert]
      split_ifs with hr
      · rw [hr]
        exact ⟨fun _ => h, fun _ => ⟨_, rfl⟩⟩
      · rw [Table.mem_keys_iff]
    · unfold replay
      simp only [hevents]
    · unfold latest
      simp only [hevents]

end Readers

section Refused

variable [PyFloat F] [PyText F] {σ : Type}
  {persist : σ → JournalEvent F → σ × Except (JournalError F) Unit} {j j' : RunJournal F σ}
  {runId event : Val F} {timeNs : ℕ} {e : JournalError F}

/-- A call raises in its checks, or in the store with the run known. -/
theorem append_eq_error (h : j.append persist runId event timeNs = (j', .error e)) :
    (j.newItem runId event timeNs = .error e ∧ j' = j) ∨
    ∃ item store, j.newItem runId event timeNs = .ok item ∧
      persist j.store item = (store, .error e) ∧
      j' = { j with store, eventsByRun := j.eventsByRun.insert item.runId (j.eventsOf item.runId) } := by
  unfold append at h
  cases hi : j.newItem runId event timeNs with
  | error e' =>
    simp only [hi, Prod.mk.injEq, Except.error.injEq] at h
    exact .inl ⟨by rw [h.2], h.1.symm⟩
  | ok item =>
    simp only [hi] at h
    obtain ⟨store, r, hp⟩ : ∃ store r, persist j.store item = (store, r) := ⟨_, _, rfl⟩
    cases r with
    | error e' =>
      simp only [hp, Prod.mk.injEq, Except.error.injEq] at h
      exact .inr ⟨item, store, rfl, by rw [hp, h.2], h.1.symm⟩
    | ok u =>
      simp only [hp, Prod.mk.injEq, reduceCtorEq, and_false] at h

end Refused

section Stores

variable [Cbor F] [Sha256] [PyFloat F] [PyText F]

/-- The call passes every check, for a run the journal does not know, and the record cannot be
encoded or is over the frame limit. -/
def FirstUnframed (j : FileRunJournal F) (runId event : Val F) (timeNs : ℕ) : Prop :=
  ∃ owner data, validateRunId runId = .ok owner ∧ eventData event = .ok data ∧ j.closed = false ∧
    owner ∉ j.recoveredRunIds ∧ owner ∉ j.eventsByRun.keys ∧
    (frame (dictOf (JournalEvent.record ⟨owner, 1, timeNs, data⟩))).isOk = false

omit [Cbor F] [Sha256] in
theorem newItem_eq_ok_iff {σ : Type} {j : RunJournal F σ} {runId event : Val F} {timeNs : ℕ}
    {item : JournalEvent F} : j.newItem runId event timeNs = .ok item ↔
      ∃ owner data, validateRunId runId = .ok owner ∧ eventData event = .ok data ∧
        j.closed = false ∧ owner ∉ j.recoveredRunIds ∧
        item = ⟨owner, (j.eventsOf owner).length + 1, timeNs, data⟩ := by
  simp only [newItem, bind_eq_ok, raiseWhen_eq_ok, exists_unit, Bool.not_eq_true, Except.ok.injEq]
  constructor
  · rintro ⟨owner, ho, data, hd, hc, hr, rfl⟩
    exact ⟨owner, data, ho, hd, hc, hr, rfl⟩
  · rintro ⟨owner, data, ho, hd, hc, hr, rfl⟩
    exact ⟨owner, ho, data, hd, hc, hr, rfl⟩

theorem firstUnframed_iff {j : FileRunJournal F} {runId event : Val F} {timeNs : ℕ} :
    FirstUnframed j runId event timeNs ↔ ∃ item, j.newItem runId event timeNs = .ok item ∧
      item.runId ∉ j.eventsByRun.keys ∧ (frame (dictOf item.record)).isOk = false := by
  have hnone : ∀ r, r ∉ j.eventsByRun.keys → (j.eventsOf r).length = 0 := by
    intro r hr
    unfold eventsOf
    cases hget : j.eventsByRun.get r with
    | none => rfl
    | some es => exact absurd (Table.mem_keys_iff.2 ⟨es, hget⟩) hr
  simp only [newItem_eq_ok_iff]
  constructor
  · rintro ⟨owner, data, ho, hd, hc, hr, hk, hf⟩
    refine ⟨_, ⟨owner, data, ho, hd, hc, hr, rfl⟩, hk, ?_⟩
    rw [hnone owner hk]
    exact hf
  · rintro ⟨_, ⟨owner, data, ho, hd, hc, hr, rfl⟩, hk, hf⟩
    refine ⟨owner, data, ho, hd, hc, hr, hk, ?_⟩
    rw [hnone owner hk] at hf
    exact hf

/-- After a call of `append` that raised and wrote nothing, a journal in memory reads as before; one
in a file does unless the call was the first of its run and failed in `_frame`. -/
theorem append_refused (runId event : Val F) (timeNs : ℕ) :
    (∀ (j j' : InMemoryRunJournal F) e,
      j.append persistNothing runId event timeNs = (j', .error e) → SameReads j j') ∧
    ∀ (j j' : FileRunJournal F) fsyncFails e,
      j.append (persistRecord fsyncFails) runId event timeNs = (j', .error e) →
      j'.store = j.store →
        (SameReads j j' ↔ ¬FirstUnframed j runId event timeNs) := by
  constructor
  · intro j j' e h
    obtain ⟨-, rfl⟩ | ⟨item, store, -, hp, -⟩ := append_eq_error h
    · exact .refl _
    · cases hp
  · intro j j' fsyncFails e h hstore
    rw [firstUnframed_iff]
    obtain ⟨hi, rfl⟩ | ⟨item, store, hi, hp, rfl⟩ := append_eq_error h
    · refine ⟨fun _ => ?_, fun _ => .refl _⟩
      rintro ⟨item, hi', -⟩
      rw [hi] at hi'
      cases hi'
    · obtain rfl : store = j.store := hstore
      have hf : (frame (dictOf item.record)).isOk = false := by
        unfold persistRecord at hp
        cases hf : frame (dictOf item.record) with
        | error e => rfl
        | ok bytes =>
          -- a frame that was written has bytes
          simp only [hf, Prod.mk.injEq] at hp
          have hfile := congrArg FileStore.file hp.1
          exact absurd (List.append_right_eq_self.1 hfile) (frame_ne_nil hf)
      rw [sameReads_setdefault]
      constructor
      · rintro hk ⟨item', hi', hk', -⟩
        obtain rfl := Except.ok.inj (hi.symm.trans hi')
        exact hk' hk
      · intro hno
        by_contra hk
        exact hno ⟨item, hi, hk, hf⟩

end Stores

section Demo

local instance refusedHash : Sha256 := lengthHash

theorem store_eq {a b : FileStore} (hfile : a.file = b.file) (hfsync : a.fsync = b.fsync) : a = b := by
  cases a
  cases b
  cases hfile
  cases hfsync
  rfl

/-- The journal after `append`. -/
def after (j : FileRunJournal ℚ) (event : Val ℚ) : FileRunJournal ℚ :=
  (j.append (persistRecord false) (.str (py "run-1")) event 7).1

/-- A field named like a secret, in memory, and a lone surrogate in the second event of a run. -/
theorem append_refused_demo : ∃ (m m' : InMemoryRunJournal ℚ) (e : JournalError ℚ)
    (j j' : FileRunJournal ℚ) (e' : JournalError ℚ),
    m.append persistNothing (.str (py "run-1")) (dictOf [("token", .int 1)]) 7 = (m', .error e) ∧
    SameReads m m' ∧ j.runIds = [py "run-1"] ∧
    j.append (persistRecord false) (.str (py "run-1")) (dictOf [("text", .str [0xD800])]) 7 =
      (j', .error e') ∧
    SameReads j j' := by
  have hsome : (openJournal none false : Except (JournalError ℚ) _).toOption.any (fun j =>
      let j := j.after (dictOf [("type", .str (py "run.queued"))])
      let refused := j.append (persistRecord false) (.str (py "run-1"))
        (dictOf [("text", .str [0xD800])]) 7
      decide (j.runIds = [py "run-1"] ∧ refused.2.isOk = false ∧
        refused.1.store.file = j.store.file ∧ refused.1.store.fsync = j.store.fsync)) = true := by
    decide +kernel
  obtain ⟨j, -, h⟩ := (Option.any_eq_true _ _).1 hsome
  obtain ⟨hruns, herr, hfile, hfsync⟩ := of_decide_eq_true h
  obtain ⟨e', he'⟩ := exists_of_isOk_eq_false herr
  have hmem : ((({ store := () } : InMemoryRunJournal ℚ).append persistNothing (.str (py "run-1"))
      (dictOf [("token", .int 1)]) 7).2.isOk) = false := by
    decide +kernel
  obtain ⟨e, he⟩ := exists_of_isOk_eq_false hmem
  refine ⟨_, _, e, _, _, e', Prod.ext rfl he,
    (append_refused _ _ _).1 _ _ e (Prod.ext rfl he), hruns, Prod.ext rfl he',
    ((append_refused _ _ _).2 _ _ false e' (Prod.ext rfl he') ?_).2 ?_⟩
  · exact store_eq hfile hfsync
  · rintro ⟨owner, data, ho, -, -, -, hnew, -⟩
    obtain rfl : py "run-1" = owner := Except.ok.inj ho
    exact hnew (mem_runIds.1 (hruns ▸ List.mem_singleton.2 rfl))

/-- A lone surrogate in the first event of a run. -/
theorem append_refused_counterexample : ∃ (j j' : FileRunJournal ℚ) (e : JournalError ℚ),
    openJournal none false = .ok j ∧
    j.append (persistRecord false) (.str (py "run-1")) (dictOf [("text", .str [0xD800])]) 7 =
      (j', .error e) ∧
    j'.store.file = j.store.file ∧ j.runIds = [] ∧ j'.runIds = [py "run-1"] := by
  have hsome : (openJournal none false : Except (JournalError ℚ) _).toOption.any (fun j =>
      let refused := j.append (persistRecord false) (.str (py "run-1"))
        (dictOf [("text", .str [0xD800])]) 7
      decide (refused.2.isOk = false ∧ refused.1.store.file = j.store.file ∧ j.runIds = [] ∧
        refused.1.runIds = [py "run-1"])) = true := by
    decide +kernel
  obtain ⟨j, hj, h⟩ := (Option.any_eq_true _ _).1 hsome
  obtain ⟨herr, hfile, hnone, hruns⟩ := of_decide_eq_true h
  obtain ⟨e, he⟩ := exists_of_isOk_eq_false herr
  exact ⟨j, _, e, toOption_eq_some.1 hj, Prod.ext rfl he, hfile, hnone, hruns⟩

end Demo

end RunJournal

end RemoteRobot
