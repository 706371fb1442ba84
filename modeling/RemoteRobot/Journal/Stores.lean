import RemoteRobot.Journal.Refused

/-!
# Two stores behind one interface

The calls of the `RunJournal` protocol on a journal in memory and on one in a file, both new, with
the same arguments and clock.  Without its file a file journal is a journal in memory (`forget`), and
a call keeps the two together unless `append` accepts an event whose record the file store cannot
frame: it cannot be encoded, or it is over `_MAX_FRAME_BYTES`.
-/

namespace RemoteRobot

open Py Except Transition

variable {F : Type}

/-- A call of the `RunJournal` protocol; `append` comes with what the clock shows. -/
inductive JournalCall (F : Type) where
  | append (runId event : Val F) (timeNs : ℕ)
  | replay (runId afterEventSeq : Val F)
  | latest (runId : Val F)
  | runIds
  | close

inductive JournalAnswer (F : Type) where
  | event (e : JournalEvent F)
  | events (es : List (JournalEvent F))
  | latest (e : Option (JournalEvent F))
  | runIds (ids : List Str)
  | none

namespace RunJournal

section Calls

variable [PyFloat F] [PyText F] {σ : Type}

def perform (persist : σ → JournalEvent F → σ × Except (JournalError F) Unit) (j : RunJournal F σ) :
    JournalCall F → RunJournal F σ × Except (JournalError F) (JournalAnswer F)
  | .append runId event timeNs =>
    let (j', result) := j.append persist runId event timeNs
    (j', result.map .event)
  | .replay runId afterEventSeq => (j, (j.replay runId afterEventSeq).map .events)
  | .latest runId => (j, (j.latest runId).map .latest)
  | .runIds => (j, .ok (.runIds j.runIds))
  | .close => (j.close, .ok .none)

variable {persist : σ → JournalEvent F → σ × Except (JournalError F) Unit} {j : RunJournal F σ}
  {runId event : Val F} {timeNs : ℕ} {item : JournalEvent F} {store : σ}

theorem append_of_checks {e : JournalError F} (h : j.newItem runId event timeNs = .error e) :
    j.append persist runId event timeNs = (j, .error e) := by
  unfold append
  rw [h]

theorem append_of_persisted (h : j.newItem runId event timeNs = .ok item)
    (hp : persist j.store item = (store, .ok ())) :
    j.append persist runId event timeNs = ({ j with
      store, eventsByRun := j.eventsByRun.insert item.runId (j.eventsOf item.runId ++ [item]) },
      .ok item) := by
  unfold append
  rw [h]
  simp only [hp]

theorem append_of_refused {e : JournalError F} (h : j.newItem runId event timeNs = .ok item)
    (hp : persist j.store item = (store, .error e)) :
    (j.append persist runId event timeNs).2 = .error e := by
  unfold append
  rw [h]
  simp only [hp]

end Calls

/-- The journal without its store. -/
def forget {σ : Type} (j : RunJournal F σ) : InMemoryRunJournal F :=
  { eventsByRun := j.eventsByRun, recoveredRunIds := j.recoveredRunIds, closed := j.closed
    store := () }

section Stores

variable [Cbor F] [Sha256] [PyFloat F] [PyText F]

/-- If the call appends an event, its record fits into a frame. -/
def Framed (m : InMemoryRunJournal F) : JournalCall F → Prop
  | .append runId event timeNs => ∀ item, m.newItem runId event timeNs = .ok item →
      (frame (dictOf item.record)).isOk = true
  | _ => True

/-- A call whose record fits does the same with and without the file. -/
theorem perform_forget {j : FileRunJournal F} {call : JournalCall F} (h : j.forget.Framed call) :
    (j.forget.perform persistNothing call).1 = (j.perform (persistRecord false) call).1.forget ∧
      (j.forget.perform persistNothing call).2 = (j.perform (persistRecord false) call).2 := by
  cases call with
  | append runId event timeNs =>
    cases hi : j.newItem runId event timeNs with
    | error e =>
      have hmemory : j.forget.newItem runId event timeNs = .error e := hi
      simp only [perform, append_of_checks hi, append_of_checks hmemory, and_self]
    | ok item =>
      have hmemory : j.forget.newItem runId event timeNs = .ok item := hi
      obtain ⟨bytes, hbytes⟩ := exists_of_isOk (h item hmemory)
      have hp : persistRecord false j.store item =
          ({ j.store with file := j.store.file ++ bytes }, .ok ()) := by
        simp [persistRecord, hbytes]
      have hnothing : persistNothing j.forget.store item = ((), .ok ()) := rfl
      simp only [perform, append_of_persisted hi hp, append_of_persisted hmemory hnothing]
      exact ⟨rfl, trivial⟩
  | replay runId afterEventSeq => exact ⟨rfl, rfl⟩
  | latest runId => exact ⟨rfl, rfl⟩
  | runIds => exact ⟨rfl, rfl⟩
  | close => exact ⟨rfl, rfl⟩

/-- Where the record does not fit, only the file store raises. -/
theorem perform_unframed {j : FileRunJournal F} {call : JournalCall F} (h : ¬j.forget.Framed call) :
    (j.forget.perform persistNothing call).2.isOk = true ∧
      (j.perform (persistRecord false) call).2.isOk = false := by
  cases call with
  | append runId event timeNs =>
    obtain ⟨item, hmemory, hframe⟩ : ∃ item, j.forget.newItem runId event timeNs = .ok item ∧
        (frame (dictOf item.record)).isOk = false := by
      simpa [Framed] using h
    cases hf : frame (dictOf item.record) with
    | ok bytes =>
      rw [hf] at hframe
      cases hframe
    | error e =>
      have hitem : j.newItem runId event timeNs = .ok item := hmemory
      have hp : persistRecord false j.store item = (j.store, .error e) := by
        simp [persistRecord, hf]
      have hnothing : persistNothing j.forget.store item = ((), .ok ()) := rfl
      simp only [perform, append_of_refused hitem hp, append_of_persisted hmemory hnothing]
      exact ⟨rfl, rfl⟩
  | replay runId afterEventSeq => exact absurd trivial h
  | latest runId => exact absurd trivial h
  | runIds => exact absurd trivial h
  | close => exact absurd trivial h

/-- The two stores return equal results and raise on the same calls exactly as long as the record of
every event that is appended fits into a frame. -/
theorem answers_agree_iff {fsync : Bool} {j : FileRunJournal F}
    (hopen : openJournal none fsync = .ok j) (calls : List (JournalCall F)) :
    (answers (perform persistNothing) ({ store := () } : InMemoryRunJournal F) calls).map
        Except.toOption =
      (answers (perform (persistRecord false)) j calls).map Except.toOption ↔
    Throughout (perform persistNothing) Framed { store := () } calls := by
  have hnew : ({ store := () } : InMemoryRunJournal F) = j.forget := by
    obtain ⟨bytes, -, rfl⟩ := map_eq_ok.1 hopen
    rfl
  refine answers_eq_iff (R := fun m (j : FileRunJournal F) => m = j.forget) ?_ ?_ hnew
  · rintro _ j call rfl h
    exact perform_forget h
  · rintro _ j call rfl h heq
    obtain ⟨hmemory, hfile⟩ := perform_unframed h
    obtain ⟨answer, hanswer⟩ := exists_of_isOk hmemory
    obtain ⟨e, he⟩ := exists_of_isOk_eq_false hfile
    rw [hanswer, he] at heq
    cases heq

end Stores

section Demo

local instance storesHash : Sha256 := lengthHash

/-- An event is appended and read, and the journal is closed. -/
def plainCalls : List (JournalCall ℚ) :=
  [.append (.str (py "run-1")) (dictOf [("type", .str (py "run.queued"))]) 7,
    .replay (.str (py "run-1")) (.int 0), .latest (.str (py "run-1")), .runIds, .close]

/-- An event with a lone surrogate. -/
def surrogateCalls : List (JournalCall ℚ) :=
  [.append (.str (py "run-1")) (dictOf [("text", .str [0xD800])]) 7]

theorem framed_append {m : InMemoryRunJournal ℚ} {runId event : Val ℚ} {timeNs : ℕ}
    (h : ((m.newItem runId event timeNs).bind fun item => frame (dictOf item.record)).isOk = true) :
    m.Framed (.append runId event timeNs) := by
  intro item hitem
  rw [hitem] at h
  exact h

/-- The calls of which the answers are results. -/
theorem isOk_of_toOption {as bs : List (Except (JournalError ℚ) (JournalAnswer ℚ))}
    (h : as.map Except.toOption = bs.map Except.toOption) : as.map Except.isOk = bs.map Except.isOk := by
  have hsome : ∀ xs : List (Except (JournalError ℚ) (JournalAnswer ℚ)),
      xs.map Except.isOk = (xs.map Except.toOption).map Option.isSome := by
    intro xs
    rw [List.map_map]
    exact List.map_congr_left fun x _ => by cases x <;> rfl
  rw [hsome, hsome, h]

/-- The stores agree on the first calls and every record fits; on the second they do not. -/
theorem answers_agree_iff_demo : ∃ j : FileRunJournal ℚ, openJournal none false = .ok j ∧
    ((answers (perform persistNothing) ({ store := () } : InMemoryRunJournal ℚ) plainCalls).map
        Except.toOption =
      (answers (perform (persistRecord false)) j plainCalls).map Except.toOption ∧
    Throughout (perform persistNothing) Framed { store := () } plainCalls) ∧
    (answers (perform persistNothing) ({ store := () } : InMemoryRunJournal ℚ) surrogateCalls).map
        Except.toOption ≠
      (answers (perform (persistRecord false)) j surrogateCalls).map Except.toOption ∧
    ¬Throughout (perform persistNothing) Framed { store := () } surrogateCalls := by
  have hopen : (openJournal none false : Except (JournalError ℚ) _).toOption.any (fun j =>
      decide ((answers (perform persistNothing) ({ store := () } : InMemoryRunJournal ℚ)
          surrogateCalls).map Except.isOk ≠
        (answers (perform (persistRecord false)) j surrogateCalls).map Except.isOk)) = true := by
    decide +kernel
  obtain ⟨j, hj, hdiffer⟩ := (Option.any_eq_true _ _).1 hopen
  have hj := toOption_eq_some.1 hj
  have hne := fun heq => of_decide_eq_true hdiffer (isOk_of_toOption heq)
  have hframed : Throughout (perform persistNothing) Framed { store := () } plainCalls :=
    ⟨framed_append (by decide +kernel), trivial, trivial, trivial, trivial, trivial⟩
  exact ⟨j, hj, ⟨(answers_agree_iff hj plainCalls).2 hframed, hframed⟩, hne,
    fun h => hne ((answers_agree_iff hj surrogateCalls).2 h)⟩

/-- The store in memory takes the event, the one in the file refuses it. -/
theorem answers_agree_counterexample : ∃ j : FileRunJournal ℚ, openJournal none false = .ok j ∧
    (answers (perform persistNothing) ({ store := () } : InMemoryRunJournal ℚ) surrogateCalls).map
      Except.isOk = [true] ∧
    (answers (perform (persistRecord false)) j surrogateCalls).map Except.isOk = [false] := by
  have hsome : (openJournal none false : Except (JournalError ℚ) _).toOption.any (fun j =>
      decide ((answers (perform (persistRecord false)) j surrogateCalls).map Except.isOk = [false])) =
        true := by
    decide +kernel
  obtain ⟨j, hj, h⟩ := (Option.any_eq_true _ _).1 hsome
  exact ⟨j, toOption_eq_some.1 hj, by decide +kernel, of_decide_eq_true h⟩

end Demo

end RunJournal

end RemoteRobot
