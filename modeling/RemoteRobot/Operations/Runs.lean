import RemoteRobot.Journal.Replay
import RemoteRobot.Lease
import RemoteRobot.Lib.Ranked

/-!
# The runs an operator sees

`_project_runs` makes one record of each run in the journal and of each lease without one, sorts them
by their last change and cuts the list at `recent_runs`.  A record survives the cut when fewer than
`recent_runs` runs changed after it (`mem_projectRuns_iff`), whether the run is active or not.
-/

namespace RemoteRobot

open Py Except

variable {F : Type}

/-- `JournalEvent.event_type` -/
def JournalEvent.eventType (e : JournalEvent F) : Option Str :=
  match field "type" e.event with
  | .str s => some s
  | _ => none

namespace Operations

/-! ## Records -/

/-- The `state` of a run record. -/
inductive RunState
  | completed
  | faulted
  | running
  | scheduled
  | preparing
  | interrupted
  | occupied
  | unknown
  deriving DecidableEq

/-- `_run_display_state` -/
def runDisplayState (eventType : Option Str) (active : Bool) : RunState :=
  if eventType = some (py "run.completed") then .completed
  else if eventType = some (py "run.faulted") then .faulted
  else if eventType = some (py "phase.started") then .running
  else if eventType = some (py "phase.scheduled") then .scheduled
  else if eventType ∈ ["run.opened", "workers.disabled", "phase.prepared", "phase.completed"].map
      fun s => some (py s) then
    if active then .preparing else .interrupted
  else if active then .occupied else .unknown

structure RunRecord (F : Type) where
  runId : Str
  identityId : Val F
  rootId : Val F
  programSha256 : Val F
  state : RunState
  active : Bool
  currentPhase : Val F
  latestEventType : Option Str
  latestEventSeq : ℕ
  updatedAtNs : ℤ
  eventCount : ℕ

/-- The sort key `(updated_at_ns, run_id)`. -/
def RunRecord.key (r : RunRecord F) : ℤ ×ₗ Str := toLex (r.updatedAtNs, r.runId)

structure EventRecord (F : Type) where
  runId : Str
  eventSeq : ℕ
  recordedAtNs : ℕ
  type : Option Str
  phaseId : Val F
  errorType : Val F

/-- The sort key `(recorded_at_ns, run_id, event_seq)`. -/
def EventRecord.key (e : EventRecord F) : ℕ ×ₗ Str ×ₗ ℕ :=
  toLex (e.recordedAtNs, toLex (e.runId, e.eventSeq))

def eventRecord (event : JournalEvent F) : EventRecord F where
  runId := event.runId
  eventSeq := event.eventSeq
  recordedAtNs := event.recordedAtNs
  type := event.eventType
  phaseId := field "phase_id" event.event
  errorType := field "error_type" event.event

/-- `current_phase`: the last phase an event names. -/
def currentPhase (events : List (JournalEvent F)) : Val F :=
  (events.reverse.findSome? fun event => match field "phase_id" event.event with
    | .none => none
    | phaseId => some phaseId).getD .none

/-- The record of a run with events, of which `latest` is the last. -/
def runRecord (runId : Str) (events : List (JournalEvent F)) (latest : JournalEvent F)
    (active : Bool) : RunRecord F :=
  let opened := events.find? fun event => event.eventType = some (py "run.opened")
  let openedField (k : String) : Val F := match opened with
    | none => .none
    | some event => field k event.event
  { runId := runId
    identityId := openedField "identity_id"
    rootId := openedField "root_id"
    programSha256 := openedField "program_sha256"
    state := runDisplayState latest.eventType active
    active := active
    currentPhase := currentPhase events
    latestEventType := latest.eventType
    latestEventSeq := latest.eventSeq
    updatedAtNs := latest.recordedAtNs
    eventCount := events.length }

/-- The readings of `time_ns` and `monotonic_ns` where a lease without events is recorded. -/
structure Instant where
  timeNs : ℤ
  monotonicNs : ℤ

/-- The wall-clock time of the acquisition, as far as it can be told. -/
def leasedAtNs (receipt : LeaseReceipt) (now : Instant) : ℤ :=
  now.timeNs - max 0 (now.monotonicNs - receipt.acquiredAtMonotonicNs)

/-- The record of a lease whose run has no events. -/
def leaseRecord (runId : Str) (receipt : LeaseReceipt) (now : Instant) : RunRecord F where
  runId := runId
  identityId := .none
  rootId := .none
  programSha256 := .none
  state := .occupied
  active := true
  currentPhase := .none
  latestEventType := none
  latestEventSeq := 0
  updatedAtNs := leasedAtNs receipt now
  eventCount := 0

/-! ## The projection -/

/-- `{receipt.run_id: receipt for receipt in grants}` -/
def activeByRun (grants : List LeaseReceipt) : Table Str LeaseReceipt :=
  grants.foldl (fun byRun receipt => byRun.insert receipt.runId receipt) ∅

variable {σ : Type}

/-- The body of the loop over `run_ids`: the record, none for a run without events, and the event
records. -/
def projectRun (j : RunJournal F σ) (active : Table Str LeaseReceipt) (runId : Str) :
    Except (JournalError F) (Option (RunRecord F) × List (EventRecord F)) := do
  let events ← j.replay (.str runId) (.int 0)
  match events.getLast? with
  | none => .ok (none, [])
  | some latest => .ok (some (runRecord runId events latest (active.get runId).isSome),
      events.map eventRecord)

/-- The second loop: the leases of runs without a record. -/
def leaseRecords (active : Table Str LeaseReceipt) (recorded : List (RunRecord F))
    (now : Str → Instant) : List (RunRecord F) :=
  active.entries.filterMap fun entry =>
    if recorded.any fun record => record.runId = entry.1 then none
    else some (leaseRecord entry.1 entry.2 (now entry.1))

/-- `_project_runs`; `now` gives the clock readings at each run. -/
def projectRuns (j : RunJournal F σ) (grants : List LeaseReceipt) (now : Str → Instant)
    (recentRuns recentEvents : ℕ) :
    Except (JournalError F) (List (RunRecord F) × List (EventRecord F)) := do
  let active := activeByRun grants
  let parts ← j.runIds.mapM (projectRun j active)
  let recorded := parts.filterMap Prod.fst
  let runRecords := recorded ++ leaseRecords active recorded now
  let allEvents := (parts.map Prod.snd).flatten
  .ok ((Ranked.descending RunRecord.key runRecords).take recentRuns,
    (Ranked.descending EventRecord.key allEvents).take recentEvents)

/-! ## The journals and leases of a server -/

/-- A lease manager after any calls. -/
inductive Leased : LeaseManager → Prop
  | created : Leased {}
  | acquired {m : LeaseManager} (h : Leased m) (runId : Str) (ls rs ds : List Str) (ns : ℕ) :
      Leased (m.acquire runId ls rs ds ns).1
  | released {m : LeaseManager} (h : Leased m) (runId : Str) : Leased (m.release runId).1

theorem Leased.inv {m : LeaseManager} (h : Leased m) : m.Inv := by
  induction h with
  | created => exact LeaseManager.inv_empty
  | acquired _ runId ls rs ds ns ih => exact ih.acquire runId ls rs ds ns
  | released _ runId ih => exact ih.release runId

/-- The run ids of a table of events are valid. -/
def ValidIds (events : Table Str (List (JournalEvent F))) : Prop :=
  ∀ r ∈ events.keys, validateRunId (.str r : Val F) = .ok r

theorem ValidIds.insert {events : Table Str (List (JournalEvent F))} (h : ValidIds events) {r : Str}
    (hr : validateRunId (.str r : Val F) = .ok r) (items : List (JournalEvent F)) :
    ValidIds (events.insert r items) := by
  intro r' hr'
  obtain ⟨items', hget⟩ := Table.mem_keys_iff.1 hr'
  rw [Table.get_insert] at hget
  split_ifs at hget with heq
  · rw [heq]
    exact hr
  · exact h r' (Table.mem_keys_iff.2 ⟨_, hget⟩)

section Journals

variable [Cbor F] [Sha256] [PyFloat F] [PyText F]

/-- A journal that was created in memory, created as a file or recovered from one, after any calls;
`persist` is what its store does in one call. -/
inductive Journaled : RunJournal F σ → Prop
  | created (store : σ) : Journaled { store }
  | recovered {file : Bytes} {events : Table Str (List (JournalEvent F))} (h : load file = .ok events)
      (store : σ) : Journaled { eventsByRun := events, recoveredRunIds := events.keys, store }
  | append {j : RunJournal F σ} (h : Journaled j)
      (persist : σ → JournalEvent F → σ × Except (JournalError F) Unit) (runId event : Val F)
      (timeNs : ℕ) : Journaled (j.append persist runId event timeNs).1
  | closed {j : RunJournal F σ} (h : Journaled j) : Journaled j.close

omit [Cbor F] [Sha256] in
theorem validateRunId_of_eventFromRecord {record : Dict F} {expected : Table Str ℕ}
    {item : JournalEvent F} (h : eventFromRecord record expected = .ok item) :
    validateRunId (.str item.runId : Val F) = .ok item.runId := by
  simp only [eventFromRecord, bind_eq_ok] at h
  obtain ⟨_, -, owner, howner, _, -, h⟩ := h
  have hvalid : validateRunId (field "run_id" record) = .ok owner := by
    unfold asCorruption at howner
    split at howner
    · split_ifs at howner
      cases howner
    · cases howner
      assumption
  have hstr := validateRunId_eq_ok hvalid
  split at h
  · cases h
  · obtain ⟨event, -, h⟩ := bind_eq_ok.1 h
    rw [← Except.ok.inj h, ← hstr]
    exact hvalid

theorem loadFrames_validIds {n index : ℕ} {file : Bytes} {expected : Table Str ℕ}
    {events disk : Table Str (List (JournalEvent F))}
    (h : loadFrames n index file expected events = .ok disk) (hids : ValidIds events) :
    ValidIds disk := by
  induction n generalizing index file expected events with
  | zero => cases h
  | succ n ih =>
    obtain ⟨-, rfl⟩ | ⟨record, rest, item, -, hi, h⟩ := loadFrames_eq_ok h
    · exact hids
    · exact ih h (hids.insert (validateRunId_of_eventFromRecord hi) _)

theorem load_validIds {file : Bytes} {disk : Table Str (List (JournalEvent F))}
    (h : load file = .ok disk) : ValidIds disk := by
  unfold load at h
  split_ifs at h
  · cases h
  obtain ⟨_ | ⟨value, rest⟩, -, h⟩ := bind_eq_ok.1 h
  · cases h
  · simp only at h
    split_ifs at h
    · refine loadFrames_validIds h fun r hr => ?_
      obtain ⟨_, hget⟩ := Table.mem_keys_iff.1 hr
      rw [Table.get_empty] at hget
      cases hget
    · cases h

/-- What `replay` needs of the events of a journal. -/
structure Indexed (events : Table Str (List (JournalEvent F))) : Prop where
  ids : ValidIds events
  numbered : Numbered events

omit [Cbor F] [Sha256] in
theorem indexed_append {j : RunJournal F σ} (h : Indexed j.eventsByRun)
    (persist : σ → JournalEvent F → σ × Except (JournalError F) Unit) (runId event : Val F)
    (timeNs : ℕ) : Indexed (j.append persist runId event timeNs).1.eventsByRun := by
  unfold RunJournal.append
  cases hi : j.newItem runId event timeNs with
  | error e => exact h
  | ok item =>
    obtain ⟨-, hitem, hseq⟩ := newItem_eq_ok hi
    obtain ⟨store, result, hp⟩ : ∃ store result, persist j.store item = (store, result) :=
      ⟨_, _, rfl⟩
    simp only [hp]
    cases result with
    | error e =>
      refine ⟨h.ids.insert hitem.runId _, fun r i e he => h.numbered r i e ?_⟩
      rw [Table.get_insert] at he
      split_ifs at he with heq
      · rw [heq]
        exact he
      · exact he
    | ok _ => exact ⟨h.ids.insert hitem.runId _, h.numbered.push hseq⟩

theorem Journaled.indexed {j : RunJournal F σ} (h : Journaled j) : Indexed j.eventsByRun := by
  induction h with
  | created store =>
    refine ⟨fun r hr => ?_, fun r i e he => ?_⟩
    · obtain ⟨_, hget⟩ := Table.mem_keys_iff.1 hr
      rw [Table.get_empty] at hget
      cases hget
    · rw [Table.get_empty] at he
      cases he
  | recovered h store => exact ⟨load_validIds h, load_numbered h⟩
  | append _ persist runId event timeNs ih => exact indexed_append ih persist runId event timeNs
  | closed _ ih => exact ih

end Journals

/-! ## What the records show -/

section Shown

variable (j : RunJournal F σ) (m : LeaseManager) (now : Str → Instant)

/-- The type of the last event of a run. -/
def latestType (runId : Str) : Option Str := (j.eventsOf runId).getLast?.bind JournalEvent.eventType

/-- The time of the last change of a run, none for a run with neither events nor a lease. -/
def changedAt (runId : Str) : Option ℤ :=
  match (j.eventsOf runId).getLast? with
  | some latest => some latest.recordedAtNs
  | none => (m.grantFor runId).map fun receipt => leasedAtNs receipt (now runId)

/-- The second run changed after the first; at one time the greater run id comes later. -/
def changedLater (r r' : Str) : Bool :=
  match changedAt j m now r, changedAt j m now r' with
  | some t, some t' => toLex (t, r) < toLex (t', r')
  | _, _ => false

/-- The runs that changed after a run. -/
def changedAfter (r : Str) : List Str :=
  (sortedSet (j.eventsByRun.keys ++ m.grants.keys)).filter fun r' => changedLater j m now r r'

/-- A record shows what the journal and the leases say of its run. -/
structure Shows (record : RunRecord F) : Prop where
  changed : changedAt j m now record.runId = some record.updatedAtNs
  active : record.active = (m.grantFor record.runId).isSome
  state : record.state = runDisplayState (latestType j record.runId) record.active

/-- The records before they are cut: one of each run that has events or a lease. -/
structure Records (records : List (RunRecord F)) : Prop where
  nodup : (records.map RunRecord.runId).Nodup
  covers : ∀ r, (changedAt j m now r).isSome → ∃ record ∈ records, record.runId = r
  shows : ∀ record ∈ records, Shows j m now record

end Shown

variable {j : RunJournal F σ} {m : LeaseManager} {now : Str → Instant}

theorem Records.nodup_key {records : List (RunRecord F)} (h : Records j m now records) :
    (records.map RunRecord.key).Nodup := by
  refine List.Nodup.of_map (fun k => (ofLex k).2) ?_
  rw [List.map_map]
  exact h.nodup

/-- A record of a run with events or a lease survives the cut when fewer runs changed after it than
the cut leaves. -/
theorem Records.mem_take {records : List (RunRecord F)} (h : Records j m now records)
    {record : RunRecord F} (hr : record ∈ records) (n : ℕ) :
    record ∈ (Ranked.descending RunRecord.key records).take n ↔
      (changedAfter j m now record.runId).length < n := by
  have hlater : ∀ other ∈ records, decide (record.key < other.key) =
      changedLater j m now record.runId other.runId := fun other ho => by
    unfold changedLater
    rw [(h.shows record hr).changed, (h.shows other ho).changed]
    rfl
  have hperm : ((records.map RunRecord.runId).filter fun r =>
      changedLater j m now record.runId r).Perm (changedAfter j m now record.runId) := by
    refine (List.perm_ext_iff_of_nodup (h.nodup.filter _) ((nodup_sortedSet _).filter _)).2 fun r => ?_
    simp only [List.mem_filter, and_congr_left_iff, mem_sortedSet]
    intro hlt
    have hsome : (changedAt j m now r).isSome := by
      unfold changedLater at hlt
      split at hlt
      · rename_i hr'
        rw [hr']
        rfl
      · cases hlt
    refine ⟨fun _ => ?_, fun _ => ?_⟩
    · rw [List.mem_append]
      unfold changedAt at hsome
      split at hsome
      · rename_i latest hlatest
        refine .inl (Table.mem_keys_iff.2 ?_)
        cases hget : j.eventsByRun.get r with
        | none =>
          rw [RunJournal.eventsOf, hget] at hlatest
          cases hlatest
        | some events => exact ⟨events, rfl⟩
      · rw [Option.isSome_map] at hsome
        exact .inr (Table.mem_keys_iff.2 (Option.isSome_iff_exists.1 hsome))
    · obtain ⟨other, ho, rfl⟩ := h.covers r hsome
      exact List.mem_map_of_mem ho
  rw [Ranked.mem_take_descending h.nodup_key hr, Ranked.above, ← hperm.length_eq,
    ← List.countP_eq_length_filter, List.countP_map]
  rw [List.countP_congr fun other ho => by rw [hlater other ho]]
  exact Iff.rfl

/-! ## The records the projection makes -/

theorem get_foldl_insert {grants : List LeaseReceipt} {r : Str} (receipt : LeaseReceipt)
    (h : ∀ g ∈ grants, g.runId = r → g = receipt) (byRun : Table Str LeaseReceipt) :
    (grants.foldl (fun byRun g => byRun.insert g.runId g) byRun).get r =
      if ∃ g ∈ grants, g.runId = r then some receipt else byRun.get r := by
  induction grants generalizing byRun with
  | nil => simp
  | cons g grants ih =>
    rw [List.forall_mem_cons] at h
    rw [List.foldl_cons, ih h.2]
    simp only [List.exists_mem_cons_iff]
    by_cases hex : ∃ g ∈ grants, g.runId = r
    · rw [if_pos hex, if_pos (.inr hex)]
    · rw [if_neg hex, Table.get_insert]
      simp only [hex, or_false, eq_comm (a := r)]
      split_ifs with hg
      · rw [h.1 hg]
      · rfl

theorem mem_activeGrants {g : LeaseReceipt} :
    g ∈ m.activeGrants ↔ ∃ r, m.grantFor r = some g := by
  simp only [LeaseManager.activeGrants, List.mem_filterMap, mem_sortedSet]
  constructor
  · rintro ⟨r, -, hr⟩
    exact ⟨r, hr⟩
  · rintro ⟨r, hr⟩
    exact ⟨r, Table.mem_keys_iff.2 ⟨g, hr⟩, hr⟩

theorem get_activeByRun (hm : m.Inv) (r : Str) :
    (activeByRun m.activeGrants).get r = m.grantFor r := by
  have hrun : ∀ g ∈ m.activeGrants, g.runId = r → m.grantFor r = some g := by
    intro g hg hr
    obtain ⟨r', hr'⟩ := mem_activeGrants.1 hg
    rw [← hr, hm.runId_eq r' g hr']
    exact hr'
  cases hgrant : m.grantFor r with
  | some receipt =>
    have hunique : ∀ g ∈ m.activeGrants, g.runId = r → g = receipt := fun g hg hr => by
      have := hrun g hg hr
      rw [hgrant] at this
      exact (Option.some.inj this).symm
    rw [activeByRun, get_foldl_insert _ hunique,
      if_pos ⟨receipt, mem_activeGrants.2 ⟨r, hgrant⟩, hm.runId_eq r receipt hgrant⟩]
  | none =>
    have hnone : ∀ g ∈ m.activeGrants, g.runId ≠ r := fun g hg hr => by
      rw [hrun g hg hr] at hgrant
      cases hgrant
    rw [activeByRun, get_foldl_insert ⟨r, ⟨[], [], []⟩, 0⟩
      (fun g hg hr => absurd hr (hnone g hg)), if_neg fun ⟨g, hg, hr⟩ => hnone g hg hr]
    exact Table.get_empty r

theorem replay_zero {j : RunJournal F σ} (h : Indexed j.eventsByRun) {r : Str}
    (hr : r ∈ j.runIds) : j.replay (.str r) (.int 0) = .ok (j.eventsOf r) := by
  have hpos : (j.eventsOf r).filter (fun e => 0 < e.eventSeq) = j.eventsOf r := by
    refine List.filter_eq_self.2 fun e he => ?_
    obtain ⟨i, hi⟩ := List.mem_iff_getElem?.1 he
    rw [h.numbered r i e hi]
    simp
  unfold RunJournal.replay
  rw [h.ids r (mem_sortedSet.1 hr)]
  exact congrArg Except.ok hpos

/-- The record of a run, none for a run without events. -/
def recordOf (j : RunJournal F σ) (active : Table Str LeaseReceipt) (r : Str) :
    Option (RunRecord F) :=
  (j.eventsOf r).getLast?.map fun latest =>
    runRecord r (j.eventsOf r) latest (active.get r).isSome

theorem projectRun_eq (h : Indexed j.eventsByRun) (active : Table Str LeaseReceipt) {r : Str}
    (hr : r ∈ j.runIds) :
    projectRun j active r = .ok (recordOf j active r, (j.eventsOf r).map eventRecord) := by
  unfold projectRun recordOf
  rw [replay_zero h hr]
  simp only [bind, Except.bind]
  cases hlast : (j.eventsOf r).getLast? with
  | none =>
    rw [List.getLast?_eq_none_iff.1 hlast]
    rfl
  | some latest => rfl

/-- The records before they are sorted. -/
def recordsOf (j : RunJournal F σ) (m : LeaseManager) (now : Str → Instant) : List (RunRecord F) :=
  let active := activeByRun m.activeGrants
  let recorded := j.runIds.filterMap (recordOf j active)
  recorded ++ leaseRecords active recorded now

/-- The events of the journal, the latest first. -/
def latestEvents (j : RunJournal F σ) : List (EventRecord F) :=
  Ranked.descending EventRecord.key (j.runIds.map fun r => (j.eventsOf r).map eventRecord).flatten

theorem projectRuns_eq (h : Indexed j.eventsByRun) (recentRuns recentEvents : ℕ) :
    projectRuns j m.activeGrants now recentRuns recentEvents = .ok
      ((Ranked.descending RunRecord.key (recordsOf j m now)).take recentRuns,
        (latestEvents j).take recentEvents) := by
  unfold projectRuns
  simp only [mapM_eq_ok_map fun r hr => projectRun_eq h (activeByRun m.activeGrants) hr, bind,
    Except.bind]
  simp only [recordsOf, latestEvents, List.filterMap_map, List.map_map]
  rfl

theorem mem_runIds_of_events {r : Str} {latest : JournalEvent F}
    (h : (j.eventsOf r).getLast? = some latest) : r ∈ j.runIds := by
  refine mem_sortedSet.2 (Table.mem_keys_iff.2 ?_)
  cases hget : j.eventsByRun.get r with
  | none =>
    rw [RunJournal.eventsOf, hget] at h
    cases h
  | some events => exact ⟨events, rfl⟩

theorem recordOf_eq_some {active : Table Str LeaseReceipt} {r : Str} {record : RunRecord F} :
    recordOf j active r = some record ↔ ∃ latest, (j.eventsOf r).getLast? = some latest ∧
      record = runRecord r (j.eventsOf r) latest (active.get r).isSome := by
  unfold recordOf
  rw [Option.map_eq_some_iff]
  simp only [eq_comm]

theorem map_runId_recorded (j : RunJournal F σ) (active : Table Str LeaseReceipt) (rs : List Str) :
    (rs.filterMap (recordOf j active)).map RunRecord.runId =
      rs.filter fun r => (j.eventsOf r).getLast?.isSome := by
  induction rs with
  | nil => rfl
  | cons r rs ih =>
    cases h : (j.eventsOf r).getLast? with
    | none =>
      have hr : recordOf j active r = none := by rw [recordOf, h]; rfl
      simpa [hr, h] using ih
    | some latest =>
      have hr : recordOf j active r = some _ := recordOf_eq_some.2 ⟨latest, h, rfl⟩
      rw [List.filterMap_cons_some hr, List.map_cons, ih, List.filter_cons, if_pos (by rw [h]; rfl)]
      rfl

theorem map_runId_leaseRecords (active : Table Str LeaseReceipt) (recorded : List (RunRecord F))
    (now : Str → Instant) : (leaseRecords active recorded now).map RunRecord.runId =
      active.keys.filter fun r => !recorded.any fun record => record.runId = r := by
  show ((active.entries.filterMap _).map _) = (active.entries.map Sigma.fst).filter _
  induction active.entries with
  | nil => rfl
  | cons entry rest ih =>
    rw [List.filterMap_cons, List.map_cons, List.filter_cons]
    cases h : recorded.any fun record => record.runId = entry.1 with
    | true => simpa using ih
    | false => simpa [leaseRecord] using ih

theorem nodup_recordsOf : ((recordsOf j m now).map RunRecord.runId).Nodup := by
  unfold recordsOf
  simp only [List.map_append]
  refine List.Nodup.append ?_ ?_ ?_
  · rw [map_runId_recorded]
    exact (nodup_sortedSet _).filter _
  · rw [map_runId_leaseRecords]
    exact (AList.keys_nodup _).filter _
  · intro r hr hr'
    rw [map_runId_leaseRecords, List.mem_filter] at hr'
    obtain ⟨record, hrecord, rfl⟩ := List.mem_map.1 hr
    have hany := hr'.2
    rw [Bool.not_eq_true', List.any_eq_false] at hany
    exact hany record hrecord (decide_eq_true rfl)

/-- The runs with events have a record. -/
theorem any_recorded {active : Table Str LeaseReceipt} {r : Str} :
    ((j.runIds.filterMap (recordOf j active)).any fun record => record.runId = r) = true ↔
      ∃ latest, (j.eventsOf r).getLast? = some latest := by
  rw [List.any_eq_true]
  constructor
  · rintro ⟨record, hrecord, heq⟩
    obtain ⟨r', -, hr'⟩ := List.mem_filterMap.1 hrecord
    obtain ⟨latest, hlatest, rfl⟩ := recordOf_eq_some.1 hr'
    obtain rfl : r' = r := of_decide_eq_true heq
    exact ⟨latest, hlatest⟩
  · rintro ⟨latest, hlatest⟩
    exact ⟨_, List.mem_filterMap.2 ⟨r, mem_runIds_of_events hlatest,
      recordOf_eq_some.2 ⟨latest, hlatest, rfl⟩⟩, decide_eq_true rfl⟩

/-- The records are those of the runs with events and of the leases of the others. -/
theorem mem_recordsOf (hm : m.Inv) {record : RunRecord F} : record ∈ recordsOf j m now ↔
    (∃ r latest, (j.eventsOf r).getLast? = some latest ∧
      record = runRecord r (j.eventsOf r) latest (m.grantFor r).isSome) ∨
    ∃ r receipt, m.grantFor r = some receipt ∧ (j.eventsOf r).getLast? = none ∧
      record = leaseRecord r receipt (now r) := by
  unfold recordsOf
  simp only [List.mem_append]
  refine or_congr ?_ ?_
  · rw [List.mem_filterMap]
    constructor
    · rintro ⟨r, -, hr⟩
      obtain ⟨latest, hlatest, rfl⟩ := recordOf_eq_some.1 hr
      exact ⟨r, latest, hlatest, by rw [get_activeByRun hm]⟩
    · rintro ⟨r, latest, hlatest, rfl⟩
      exact ⟨r, mem_runIds_of_events hlatest,
        recordOf_eq_some.2 ⟨latest, hlatest, by rw [get_activeByRun hm]⟩⟩
  · rw [leaseRecords, List.mem_filterMap]
    constructor
    · rintro ⟨⟨r, receipt⟩, hentry, hr⟩
      split_ifs at hr with hany
      cases hr
      refine ⟨r, receipt, ?_, ?_, rfl⟩
      · rw [← get_activeByRun hm]
        exact AList.mem_lookup_iff.2 hentry
      · by_contra hne
        exact hany (any_recorded.2 (Option.ne_none_iff_exists'.1 hne))
    · rintro ⟨r, receipt, hgrant, hnone, rfl⟩
      rw [← get_activeByRun hm] at hgrant
      refine ⟨⟨r, receipt⟩, AList.mem_lookup_iff.1 hgrant, if_neg fun hany => ?_⟩
      obtain ⟨latest, hlatest⟩ := any_recorded.1 hany
      rw [hnone] at hlatest
      cases hlatest

/-- Where every lease has events, no clock shows in the records. -/
theorem recordsOf_congr (hm : m.Inv)
    (h : ∀ r receipt, m.grantFor r = some receipt → ∃ latest, (j.eventsOf r).getLast? = some latest)
    (now now' : Str → Instant) : recordsOf j m now = recordsOf j m now' := by
  unfold recordsOf
  refine congrArg _ (List.filterMap_congr fun ⟨r, receipt⟩ hentry => ?_)
  have hgrant := AList.mem_lookup_iff.2 hentry
  rw [Option.mem_def, ← Table.get_def, get_activeByRun hm] at hgrant
  rw [if_pos (any_recorded.2 (h r receipt hgrant)), if_pos (any_recorded.2 (h r receipt hgrant))]

theorem records_recordsOf (hm : m.Inv) : Records j m now (recordsOf j m now) := by
  refine ⟨nodup_recordsOf, fun r hsome => ?_, fun record hr => ?_⟩
  · unfold changedAt at hsome
    cases hlast : (j.eventsOf r).getLast? with
    | some latest => exact ⟨_, (mem_recordsOf hm).2 (.inl ⟨r, latest, hlast, rfl⟩), rfl⟩
    | none =>
      rw [hlast] at hsome
      simp only [Option.isSome_map] at hsome
      obtain ⟨receipt, hgrant⟩ := Option.isSome_iff_exists.1 hsome
      exact ⟨_, (mem_recordsOf hm).2 (.inr ⟨r, receipt, hgrant, hlast, rfl⟩), rfl⟩
  · obtain ⟨r, latest, hlatest, rfl⟩ | ⟨r, receipt, hgrant, hlast, rfl⟩ := (mem_recordsOf hm).1 hr
    · refine ⟨?_, rfl, ?_⟩
      · show changedAt j m now r = _
        rw [changedAt, hlatest]
        rfl
      · show runDisplayState _ _ = runDisplayState (latestType j r) _
        rw [latestType, hlatest]
        rfl
    · refine ⟨?_, ?_, ?_⟩
      · show changedAt j m now r = _
        rw [changedAt, hlast, hgrant]
        rfl
      · show true = (m.grantFor r).isSome
        rw [hgrant]
        rfl
      · show _ = runDisplayState (latestType j r) true
        rw [latestType, hlast]
        rfl

/-! ## What the window shows -/

/-- The last event says that the run is about to move or moves. -/
def Moving (eventType : Option Str) : Prop :=
  eventType = some (py "phase.started") ∨ eventType = some (py "phase.scheduled")

instance (eventType : Option Str) : Decidable (Moving eventType) := by
  unfold Moving
  infer_instance

/-- Without a lease only these two events make a run look busy. -/
theorem runDisplayState_busy_iff (eventType : Option Str) :
    runDisplayState eventType false ∈ [.running, .scheduled, .preparing, .occupied] ↔
      Moving eventType := by
  unfold runDisplayState Moving
  by_cases hstarted : eventType = some (py "phase.started")
  · subst hstarted
    simp
  by_cases hscheduled : eventType = some (py "phase.scheduled")
  · subst hscheduled
    simp
  · simp only [hstarted, hscheduled, or_self, iff_false, if_false, Bool.false_eq_true]
    split_ifs <;> simp

variable {records : List (RunRecord F)} {n : ℕ}

theorem Records.exists_active_iff (h : Records j m now records) {r : Str}
    (hr : (m.grantFor r).isSome) :
    (∃ run ∈ (Ranked.descending RunRecord.key records).take n, run.runId = r ∧ run.active = true) ↔
      (changedAfter j m now r).length < n := by
  constructor
  · rintro ⟨run, hrun, rfl, -⟩
    exact (h.mem_take (Ranked.mem_of_mem_take_descending hrun) n).1 hrun
  · intro hlt
    have hsome : (changedAt j m now r).isSome := by
      unfold changedAt
      split
      · rfl
      · rw [Option.isSome_map]
        exact hr
    obtain ⟨run, hrun, rfl⟩ := h.covers r hsome
    exact ⟨run, (h.mem_take hrun n).2 hlt, rfl, (h.shows run hrun).active.trans hr⟩

/-- Where no run with a lease is cut off, the active records are those of the leases. -/
theorem Records.length_active (h : Records j m now records)
    (hheld : ∀ r, (m.grantFor r).isSome → (changedAfter j m now r).length < n) :
    (((Ranked.descending RunRecord.key records).take n).filter RunRecord.active).length =
      m.activeGrants.length := by
  have hgrants : m.activeGrants.length = (sortedSet m.grants.keys).length := by
    rw [LeaseManager.activeGrants, List.length_filterMap_eq_countP, List.countP_eq_length]
    intro r hr
    obtain ⟨g, hg⟩ := Table.mem_keys_iff.1 (mem_sortedSet.1 hr)
    rw [LeaseManager.grantFor, hg]
    rfl
  rw [hgrants, ← List.length_map (f := RunRecord.runId)]
  refine List.Perm.length_eq ((List.perm_ext_iff_of_nodup ?_ (nodup_sortedSet _)).2 fun r => ?_)
  · have hperm := (Ranked.perm_descending RunRecord.key records).map RunRecord.runId
    exact ((hperm.nodup_iff.2 h.nodup).sublist
      (((List.filter_sublist).trans (List.take_sublist _ _)).map _))
  · rw [mem_sortedSet, Table.mem_keys_iff]
    constructor
    · intro hr
      obtain ⟨run, hrun, rfl⟩ := List.mem_map.1 hr
      obtain ⟨hrun, hactive⟩ := List.mem_filter.1 hrun
      rw [(h.shows run (Ranked.mem_of_mem_take_descending hrun)).active] at hactive
      exact Option.isSome_iff_exists.1 hactive
    · rintro ⟨g, hg⟩
      have hr : (m.grantFor r).isSome := by rw [LeaseManager.grantFor, hg]; rfl
      obtain ⟨run, hrun, rfl, hactive⟩ := (h.exists_active_iff hr).2 (hheld r hr)
      exact List.mem_map_of_mem (List.mem_filter.2 ⟨hrun, hactive⟩)

theorem Records.quiet_iff (h : Records j m now records) :
    (∀ run ∈ (Ranked.descending RunRecord.key records).take n, m.grantFor run.runId = none →
      run.state ∉ [.running, .scheduled, .preparing, .occupied]) ↔
    ∀ r, m.grantFor r = none → Moving (latestType j r) → n ≤ (changedAfter j m now r).length := by
  have hstate : ∀ run ∈ records, m.grantFor run.runId = none →
      (run.state ∈ [.running, .scheduled, .preparing, .occupied] ↔
        Moving (latestType j run.runId)) := fun run hrun hnone => by
    have hshows := h.shows run hrun
    rw [hshows.state, hshows.active, hnone]
    exact runDisplayState_busy_iff _
  constructor
  · intro hquiet r hnone hmoving
    by_contra hlt
    have hsome : (changedAt j m now r).isSome := by
      cases hlast : (j.eventsOf r).getLast? with
      | none => simp [Moving, latestType, hlast] at hmoving
      | some latest => rw [changedAt, hlast]; rfl
    obtain ⟨run, hrun, rfl⟩ := h.covers r hsome
    exact hquiet run ((h.mem_take hrun n).2 (Nat.not_le.1 hlt)) hnone ((hstate run hrun hnone).2 hmoving)
  · intro hcut run hrun hnone hbusy
    have hmem := Ranked.mem_of_mem_take_descending hrun
    have hle := hcut run.runId hnone ((hstate run hmem hnone).1 hbusy)
    exact absurd ((h.mem_take hmem n).1 hrun) (Nat.not_lt.2 hle)

end Operations

end RemoteRobot
