import RemoteRobot.Lib.Parts
import RemoteRobot.Operations.Feed
import RemoteRobot.Operations.State

/-!
# Refreshing the projection

`refresh` polls the workers, builds the state and publishes it when its fingerprint is new.  The
fingerprint leaves out the times of the polls.  It keeps the time of a lease whose run has no events,
which is computed from the clocks: a server with such a lease has a new fingerprint whenever they are
read, though nothing happened on it (`settled_iff`).
-/

namespace RemoteRobot.Operations

open Py Except

variable {F : Type}

/-! ## The fingerprint of a state -/

/-- `d[k] = v` -/
def setItem (k : Str) (v : Val F) : Dict F → Dict F
  | [] => [(.str k, v)]
  | (.str k', w) :: kvs => if k' = k then (.str k', v) :: kvs else (.str k', w) :: setItem k v kvs
  | p :: kvs => p :: setItem k v kvs

/-- A dictionary display or comprehension with these items. -/
def ofItems (items : List (Str × Val F)) : Dict F := items.foldl (fun d p => setItem p.1 p.2 d) []

/-- `key in {"polled_at_ns"}` -/
def isPolledAtNs : Key F → Bool
  | .str s => s == py "polled_at_ns"
  | _ => false

section Fingerprint

variable [PyText F]

mutual

/-- `_json_safe`; `str` of a key is taken where it returns. -/
def jsonSafe : Val F → Val F
  | .bytes b => dictOf [("encoding", .str (py "hex")), ("value", .str (hexlify b))]
  | .dict kvs => .dict (ofItems (jsonSafeEntries kvs))
  | .list xs | .tuple xs => .list (jsonSafeItems xs)
  | v => v

def jsonSafeItems : List (Val F) → List (Val F)
  | [] => []
  | x :: xs => jsonSafe x :: jsonSafeItems xs

def jsonSafeEntries : Dict F → List (Str × Val F)
  | [] => []
  | (k, v) :: kvs => (k.toVal.toStr, jsonSafe v) :: jsonSafeEntries kvs

end

mutual

/-- `stable` -/
def stable : Val F → Val F
  | .dict kvs => .dict (ofItems (stableEntries kvs))
  | .list xs | .tuple xs => .list (stableItems xs)
  | v => v

def stableItems : List (Val F) → List (Val F)
  | [] => []
  | x :: xs => stable x :: stableItems xs

def stableEntries : Dict F → List (Str × Val F)
  | [] => []
  | (k, v) :: kvs =>
    if isPolledAtNs k then stableEntries kvs else (k.toVal.toStr, stable v) :: stableEntries kvs

end

/-- What is left of a value for its fingerprint. -/
def shown (v : Val F) : Val F := jsonSafe (stable v)

/-- `payload` -/
def payload [FloatRepr F] (value : Val F) : Except Exc Bytes := do
  let text ← dumps (shown value)
  encodeUtf8 text

/-- `_fingerprint` -/
def fingerprint [FloatRepr F] [Sha256] (value : Val F) : Except Exc Str := do
  let payload ← payload value
  .ok (hexdigest payload)

/-! ## The mapping that is published -/

def DisplayState.text : DisplayState → String
  | .idle => "idle"
  | .offline => "offline"
  | .occupied => "occupied"
  | .preparing => "preparing"
  | .scheduled => "scheduled"
  | .running => "running"
  | .faulted => "faulted"
  | .unknown => "unknown"

def RunState.text : RunState → String
  | .completed => "completed"
  | .faulted => "faulted"
  | .running => "running"
  | .scheduled => "scheduled"
  | .preparing => "preparing"
  | .interrupted => "interrupted"
  | .occupied => "occupied"
  | .unknown => "unknown"

def Attention.text : Attention → String
  | .crossCollisionUnchecked => "cross_collision_unchecked"
  | .supervisedOnly => "supervised_only"

/-- The mapping `poll` returns. -/
def Poll.entries : Poll F → List (String × Val F)
  | .reached polledAtNs state =>
    [("reachable", .bool true), ("polled_at_ns", .int polledAtNs), ("state", state)]
  | .failed polledAtNs errorType =>
    [("reachable", .bool false), ("polled_at_ns", .int polledAtNs), ("error_type", .str errorType)]

/-- The mapping `runtime_for` returns. -/
def Runtime.publicDict (r : Runtime F) : Val F :=
  dictOf ((match r.poll with
    | some poll => poll.entries
    | none => [("reachable", .bool r.reachable)]) ++
    [("registered", Val.bool r.registered), ("display_state", .str (py r.displayState.text)),
      ("freshness", .str (py r.freshness))])

def ChildRecord.publicDict (c : ChildRecord F) : Val F :=
  dictOf [("role", c.role), ("node_id", c.nodeId), ("alias", .bool c.alias)]

/-- `manifest.get(k, default)` -/
def fieldOr (k : String) (default : Val F) (manifest : Dict F) : Val F :=
  (lookup (py k) manifest).getD default

/-- The fields of a node's record up to its runtime. -/
def nodeFields (manifest : Dict F) (r : NodeRecord F) : List (String × Val F) := [
  ("node_id", .str r.nodeId),
  ("kind", .str r.kind),
  ("revision", r.revision),
  ("manifest_hash", r.manifestHash),
  ("exposed_as_run_root", .bool r.exposedAsRunRoot),
  ("display_state", .str (py r.displayState.text)),
  ("occupied_by", strList r.occupiedBy),
  ("canonical_leaves", strList r.canonicalLeaves),
  ("resources", strList r.resources),
  ("safety_domains", strList r.safetyDomains),
  ("safety", jsonSafe (fieldOr "safety" (.dict []) manifest)),
  ("watchdog", jsonSafe (field "watchdog" manifest)),
  ("assurances", jsonSafe (fieldOr "assurances" (.dict []) manifest)),
  ("attention", strList (r.attention.map fun a => py a.text)),
  ("groups", jsonSafe (fieldOr "groups" (.list []) manifest)),
  ("children", .list (r.children.map ChildRecord.publicDict))]

/-- The record of a node whose runtime is shown as `runtime`. -/
def nodeDict (manifest : Dict F) (r : NodeRecord F) (runtime : Val F) : Val F :=
  dictOf (nodeFields manifest r ++ [
    ("runtime", runtime),
    ("telemetry", dictOf [("available", .bool false), ("last_update_ns", .none),
      ("freshness", .str (py "unavailable"))])])

/-- `node_records[node_id]` -/
def NodeRecord.publicDict (manifests : Manifests F) (r : NodeRecord F) : Val F :=
  nodeDict ((manifests.lookup r.nodeId).getD []) r (match r.runtime with
    | some runtime => runtime.publicDict
    | none => .none)

/-- A string, or `None`. -/
def optStr : Option Str → Val F
  | some s => .str s
  | none => .none

def RunRecord.publicDict (r : RunRecord F) : Val F :=
  dictOf [
    ("run_id", .str r.runId),
    ("identity_id", r.identityId),
    ("root_id", r.rootId),
    ("program_sha256", r.programSha256),
    ("state", .str (py r.state.text)),
    ("active", .bool r.active),
    ("current_phase", r.currentPhase),
    ("latest_event_type", optStr r.latestEventType),
    ("latest_event_seq", .int r.latestEventSeq),
    ("updated_at_ns", .int r.updatedAtNs),
    ("event_count", .int r.eventCount)]

def EventRecord.publicDict (e : EventRecord F) : Val F :=
  dictOf [
    ("run_id", .str e.runId),
    ("event_seq", .int e.eventSeq),
    ("recorded_at_ns", .int e.recordedAtNs),
    ("type", optStr e.type),
    ("phase_id", e.phaseId),
    ("error_type", e.errorType)]

/-- `_lease_dict` -/
def leaseDict (receipt : LeaseReceipt) : Val F :=
  dictOf [
    ("run_id", .str receipt.runId),
    ("leaves", strList (sortedSet receipt.request.leafIds)),
    ("resources", strList (sortedSet receipt.request.resourceKeys)),
    ("safety_domains", strList (sortedSet receipt.request.safetyDomainKeys)),
    ("acquired_at_monotonic_ns", .int receipt.acquiredAtMonotonicNs)]

def Summary.publicDict (s : Summary) : Val F :=
  dictOf [
    ("root_count", .int s.rootCount),
    ("physical_count", .int s.physicalCount),
    ("active_run_count", .int s.activeRunCount),
    ("occupied_leaf_count", .int s.occupiedLeafCount),
    ("faulted_run_count", .int s.faultedRunCount),
    ("attention_count", .int s.attentionCount)]

/-- The mapping `_build_state` returns. -/
def OperationsState.publicDict (manifests : Manifests F) (s : OperationsState F) : Val F :=
  dictOf [
    ("format", .str (py "remote-robot-operations")),
    ("version", .int 1),
    ("server", dictOf [
      ("server_id", .str s.serverId),
      ("protocol", .str (py "robot-stream.v2")),
      ("execution_available", .bool s.executionAvailable),
      ("dashboard_read_only", .bool true)]),
    ("summary", s.summary.publicDict),
    ("roots", .list (s.roots.map (NodeRecord.publicDict manifests))),
    ("nodes", .list (s.nodes.map (NodeRecord.publicDict manifests))),
    ("leases", .list (s.leases.map leaseDict)),
    ("runs", .list (s.runs.map RunRecord.publicDict)),
    ("recent_events", .list (s.recentEvents.map EventRecord.publicDict))]

/-! ## A refresh -/

/-- What a worker does when it is polled: it answers with its state, or the call raises. -/
inductive Answer (F : Type)
  | answered (state : Val F)
  | raised (errorType : Str)

/-- `poll` -/
def poll (polledAtNs : ℤ) : Answer F → Poll F
  | .answered state => .reached polledAtNs (jsonSafe state)
  | .raised errorType => .failed polledAtNs errorType

/-- The readings of the clocks in one `refresh`. -/
structure Readings where
  /-- at the poll of each worker -/
  polledAtNs : Str → ℤ
  /-- at the record of each lease without events -/
  leases : Str → Instant
  clocks : Clocks

/-- `_poll_workers` -/
def pollWorkers (answers : Str → Option (Answer F)) (t : Readings) (workerId : Str) :
    Option (Poll F) :=
  (answers workerId).map (poll (t.polledAtNs workerId))

/-- What `refresh` may raise. -/
inductive RefreshError (F : Type)
  | closed
  | build (e : BuildError F)
  | fingerprint (e : Exc)

section Refresh

variable {σ : Type} [Cbor F] [Sha256] [PyFloat F] [FloatRepr F]

/-- The mapping `_build_state` returns for the polled workers. -/
def builtState (o : Observed F σ) (answers : Str → Option (Answer F)) (t : Readings) :
    Except (RefreshError F) (Val F) := do
  let state ← (buildState o (pollWorkers answers t) t.leases).mapError .build
  let manifests ← (manifestsOf o.registry).mapError fun e => .build (.registry e)
  .ok (state.publicDict manifests)

/-- `refresh`, and whether it published a snapshot. -/
def refresh (o : Observed F σ) (answers : Str → Option (Answer F))
    (p : OperationsProjection (Val F) Str) (t : Readings) :
    Except (RefreshError F) (OperationsProjection (Val F) Str × Bool) :=
  if p.closed then .error .closed
  else do
    let state ← builtState o answers t
    let fingerprint ← (fingerprint state).mapError .fingerprint
    .ok (p.publish state fingerprint t.clocks)

/-- While nothing changes on the server, a refresh after another returns `False`, publishes no event
and leaves the number of events, whatever the clocks read. -/
def Settled (o : Observed F σ) (answers : Str → Option (Answer F)) : Prop :=
  ∀ (p p₁ : OperationsProjection (Val F) Str) (t₁ t₂ : Readings) (changed : Bool),
    refresh o answers p t₁ = .ok (p₁, changed) →
      ∃ p₂, refresh o answers p₁ t₂ = .ok (p₂, false) ∧ p₂.events = p₁.events ∧
        p₂.eventSeq = p₁.eventSeq ∧ p₂.snapshot.map Snapshot.operationsEventSeq =
          p₁.snapshot.map Snapshot.operationsEventSeq

end Refresh

/-! ## What the fingerprint keeps -/

omit [PyText F] in
theorem setItem_of_not_mem {k : Str} {v : Val F} {d : Dict F} (h : Key.str k ∉ d.map Prod.fst) :
    setItem k v d = d ++ [(Key.str k, v)] := by
  induction d with
  | nil => rfl
  | cons p d ih =>
    obtain ⟨k', w⟩ := p
    rw [List.map_cons, List.mem_cons, not_or] at h
    cases k' with
    | str s =>
      rw [setItem, if_neg fun he => h.1 (by rw [he]), ih h.2]
      rfl
    | _ => exact congrArg _ (ih h.2)

omit [PyText F] in
/-- Items with distinct keys are the entries in their order. -/
theorem ofItems_eq_map {items : List (Str × Val F)} (h : (items.map Prod.fst).Nodup) :
    ofItems items = items.map fun p => (.str p.1, p.2) := by
  suffices hfold : ∀ d : Dict F, (∀ p ∈ items, Key.str p.1 ∉ d.map Prod.fst) →
      items.foldl (fun d p => setItem p.1 p.2 d) d = d ++ items.map fun p => (.str p.1, p.2) by
    exact hfold [] fun _ _ => List.not_mem_nil
  induction items with
  | nil => simp
  | cons p items ih =>
    intro d hd
    rw [List.map_cons, List.nodup_cons] at h
    rw [List.forall_mem_cons] at hd
    rw [List.foldl_cons, setItem_of_not_mem hd.1, ih h.2, List.map_cons, List.append_assoc,
      List.singleton_append]
    intro q hq hmem
    rw [List.map_append, List.mem_append] at hmem
    obtain hmem | hmem := hmem
    · exact hd.2 q hq hmem
    · have he : q.1 = p.1 := by simpa using hmem
      exact h.1 (he ▸ List.mem_map_of_mem hq)

theorem jsonSafeEntries_entries (kvs : List (String × Val F)) :
    jsonSafeEntries (entries kvs) = kvs.map fun p => (py p.1, jsonSafe p.2) := by
  induction kvs with
  | nil => rfl
  | cons p kvs ih =>
    rw [entries_cons, jsonSafeEntries, ih]
    rfl

theorem stableEntries_entries (kvs : List (String × Val F)) : stableEntries (entries kvs) =
    (kvs.filter fun p => p.1 ≠ "polled_at_ns").map fun p => (py p.1, stable p.2) := by
  induction kvs with
  | nil => rfl
  | cons p kvs ih =>
    rw [entries_cons, stableEntries, ih, List.filter_cons, isPolledAtNs]
    by_cases hp : p.1 = "polled_at_ns"
    · simp [hp]
    · have hne : py p.1 ≠ py "polled_at_ns" := fun he => hp (py_inj.1 he)
      simp [hp, hne, Key.toVal, Val.toStr]

omit [PyText F] in
theorem ofItems_map {kvs : List (String × Val F)} (h : (kvs.map Prod.fst).Nodup)
    (f : Val F → Val F) :
    ofItems (kvs.map fun p => (py p.1, f p.2)) = entries (kvs.map fun p => (p.1, f p.2)) := by
  have hnd : ((kvs.map fun p => (py p.1, f p.2)).map Prod.fst).Nodup := by
    have := h.map (f := py) fun _ _ => py_inj.1
    rwa [List.map_map] at this ⊢
  rw [ofItems_eq_map hnd, entries, List.map_map, List.map_map]
  rfl

/-- A record is shown field by field, without the time of a poll. -/
theorem shown_dictOf {kvs : List (String × Val F)} (hnd : (kvs.map Prod.fst).Nodup) :
    shown (dictOf kvs) =
      dictOf ((kvs.filter fun p => p.1 ≠ "polled_at_ns").map fun p => (p.1, shown p.2)) := by
  have hkept : ((kvs.filter fun p => p.1 ≠ "polled_at_ns").map Prod.fst).Nodup :=
    hnd.sublist (List.filter_sublist.map _)
  rw [shown, dictOf, stable, stableEntries_entries, ofItems_map hkept, jsonSafe,
    jsonSafeEntries_entries, ofItems_map (by rwa [List.map_map]), List.map_map]
  rfl

/-- Records with fields that are shown alike. -/
theorem shown_dictOf_congr {kvs kvs' : List (String × Val F)}
    (h : List.Forall₂ (fun p q => p.1 = q.1 ∧ shown p.2 = shown q.2) kvs kvs')
    (hnd : (kvs.map Prod.fst).Nodup) : shown (dictOf kvs) = shown (dictOf kvs') := by
  have hkeys : kvs.map Prod.fst = kvs'.map Prod.fst := by
    clear hnd
    induction h with
    | nil => rfl
    | cons hpq _ ih => rw [List.map_cons, List.map_cons, hpq.1, ih]
  rw [shown_dictOf hnd, shown_dictOf (hkeys ▸ hnd)]
  congr 1
  clear hnd hkeys
  induction h with
  | nil => rfl
  | cons hpq _ ih =>
    rw [List.filter_cons, List.filter_cons, hpq.1]
    split_ifs
    · rw [List.map_cons, List.map_cons, hpq.1, hpq.2, ih]
    · exact ih

theorem stableItems_eq_map (xs : List (Val F)) : stableItems xs = xs.map stable := by
  induction xs with
  | nil => rfl
  | cons x xs ih => rw [stableItems, ih, List.map_cons]

theorem jsonSafeItems_eq_map (xs : List (Val F)) : jsonSafeItems xs = xs.map jsonSafe := by
  induction xs with
  | nil => rfl
  | cons x xs ih => rw [jsonSafeItems, ih, List.map_cons]

theorem shown_list (xs : List (Val F)) : shown (.list xs) = .list (xs.map shown) := by
  rw [shown, stable, jsonSafe, jsonSafeItems_eq_map, stableItems_eq_map, List.map_map]
  rfl

@[simp] theorem shown_int (n : ℤ) : shown (.int n : Val F) = .int n := rfl

/-! ## Nodes and their polls -/

/-- The record of a node with what its worker was polled for. -/
def NodeRecord.polled (workerStates : Str → Option (Poll F)) (r : NodeRecord F) : NodeRecord F :=
  { r with runtime :=
      if r.kind = py "physical" then some (runtimeFor (workerStates r.nodeId)) else none }

section Nodes

variable [PyFloat F] {answers : Str → Option (Answer F)} {t : Readings}

omit [PyFloat F] in
/-- The times of the polls show in no state. -/
theorem displayState_pollWorkers (t t' : Readings) (nodeId : Str) :
    (runtimeFor (pollWorkers answers t nodeId)).displayState =
      (runtimeFor (pollWorkers answers t' nodeId)).displayState := by
  unfold pollWorkers
  cases answers nodeId with
  | none => rfl
  | some answer =>
    cases answer with
    | answered state => rfl
    | raised errorType => rfl

theorem displayFor_pollWorkers (t t' : Readings) (manifests : Manifests F) (depth : ℕ)
    (grants : List LeaseReceipt) (d : ℕ) (nodeId : Str) :
    displayFor manifests depth grants (pollWorkers answers t) d nodeId =
      displayFor manifests depth grants (pollWorkers answers t') d nodeId := by
  induction d generalizing nodeId with
  | zero => rfl
  | succ d ih =>
    unfold displayFor
    rw [displayState_pollWorkers t t', funext ih]

/-- Polled at another time, a node has the same record but for its runtime. -/
theorem nodeRecord_pollWorkers {manifests : Manifests F} {depth : ℕ} {grants : List LeaseReceipt}
    {nodeId : Str} {r : NodeRecord F}
    (h : nodeRecord manifests depth grants (pollWorkers answers t) nodeId = .ok r) (t' : Readings) :
    nodeRecord manifests depth grants (pollWorkers answers t') nodeId =
      .ok (r.polled (pollWorkers answers t')) := by
  unfold nodeRecord at h ⊢
  simp only [bind_eq_ok] at h
  obtain ⟨manifest, hmanifest, occupiedBy, hoccupied, display, hdisplay, leaves, hleaves, h⟩ := h
  rw [displayFor_pollWorkers t t'] at hdisplay
  cases h
  simp only [hmanifest, hoccupied, hdisplay, hleaves, bind, Except.bind]
  rfl

end Nodes

/-- Runtimes at two readings are shown alike. -/
theorem shown_runtime (answer : Option (Answer F)) (polledAtNs polledAtNs' : ℤ) :
    shown (runtimeFor (answer.map (poll polledAtNs))).publicDict =
      shown (runtimeFor (answer.map (poll polledAtNs'))).publicDict := by
  cases answer with
  | none => rfl
  | some answer =>
    cases answer with
    | answered state =>
      show shown (dictOf [_, _, _, _, _, _]) = shown (dictOf [_, _, _, _, _, _])
      rw [shown_dictOf (by simp), shown_dictOf (by simp)]
      rfl
    | raised errorType =>
      show shown (dictOf [_, _, _, _, _, _]) = shown (dictOf [_, _, _, _, _, _])
      rw [shown_dictOf (by simp), shown_dictOf (by simp)]
      rfl

theorem shown_nodeDict (manifest : Dict F) (r : NodeRecord F) {runtime runtime' : Val F}
    (h : shown runtime = shown runtime') :
    shown (nodeDict manifest r runtime) = shown (nodeDict manifest r runtime') := by
  refine shown_dictOf_congr (List.rel_append (List.forall₂_same.2 fun _ _ => ⟨rfl, rfl⟩)
    (.cons ⟨rfl, h⟩ (.cons ⟨rfl, rfl⟩ .nil))) ?_
  simp only [nodeFields, List.map_append, List.map_cons, List.map_nil]
  decide +kernel

theorem publicDict_polled (manifests : Manifests F) (workerStates : Str → Option (Poll F))
    (r : NodeRecord F) : (r.polled workerStates).publicDict manifests =
      nodeDict ((manifests.lookup r.nodeId).getD []) r
        (if r.kind = py "physical" then (runtimeFor (workerStates r.nodeId)).publicDict
        else .none) := by
  unfold NodeRecord.publicDict NodeRecord.polled
  split_ifs <;> rfl

theorem shown_polled (manifests : Manifests F) (answers : Str → Option (Answer F))
    (t t' : Readings) (r : NodeRecord F) :
    shown ((r.polled (pollWorkers answers t)).publicDict manifests) =
      shown ((r.polled (pollWorkers answers t')).publicDict manifests) := by
  rw [publicDict_polled, publicDict_polled]
  refine shown_nodeDict _ r ?_
  split_ifs
  · exact shown_runtime (answers r.nodeId) _ _
  · rfl

/-! ## The state at a reading -/

section State

variable {σ : Type} {o : Observed F σ} {answers : Str → Option (Answer F)}

/-- The state of a server whose nodes have these records. -/
def stateOf (o : Observed F σ) (leases : Str → Instant) (nodes : List (NodeRecord F)) :
    OperationsState F :=
  let runs := (Ranked.descending RunRecord.key
    (recordsOf o.journal o.leaseManager leases)).take o.recentRuns
  { serverId := o.registry.serverId
    executionAvailable := o.executionAvailable
    summary := summarize o.leaseManager.activeGrants runs nodes
    roots := nodes.filter NodeRecord.exposedAsRunRoot
    nodes := nodes
    leases := o.leaseManager.activeGrants
    runs := runs
    recentEvents := (latestEvents o.journal).take o.recentEvents }

/-- The state at a reading, over the nodes as they stand without their polls. -/
def stateAt (o : Observed F σ) (answers : Str → Option (Answer F)) (nodes : List (NodeRecord F))
    (t : Readings) : OperationsState F :=
  stateOf o t.leases (nodes.map (NodeRecord.polled (pollWorkers answers t)))

omit [PyText F] in
theorem summarize_polled (grants : List LeaseReceipt) (runs : List (RunRecord F))
    (nodes : List (NodeRecord F)) (polled : NodeRecord F → NodeRecord F)
    (hexposed : ∀ r, (polled r).exposedAsRunRoot = r.exposedAsRunRoot)
    (hkind : ∀ r, (polled r).kind = r.kind) (hattention : ∀ r, (polled r).attention = r.attention) :
    summarize grants runs (nodes.map polled) = summarize grants runs nodes := by
  unfold summarize
  simp only [List.filter_map, List.length_map, List.map_map, Function.comp_def, hexposed, hkind,
    hattention]

theorem shown_nodes (manifests : Manifests F) (answers : Str → Option (Answer F)) (t t' : Readings)
    (nodes : List (NodeRecord F)) :
    shown (.list ((nodes.map (NodeRecord.polled (pollWorkers answers t))).map
      (NodeRecord.publicDict manifests))) =
    shown (.list ((nodes.map (NodeRecord.polled (pollWorkers answers t'))).map
      (NodeRecord.publicDict manifests))) := by
  rw [shown_list, shown_list, List.map_map, List.map_map, List.map_map, List.map_map]
  exact congrArg _ (List.map_congr_left fun r _ => shown_polled manifests answers t t' r)

theorem roots_stateAt (nodes : List (NodeRecord F)) (t : Readings) :
    (stateAt o answers nodes t).roots = (nodes.filter NodeRecord.exposedAsRunRoot).map
      (NodeRecord.polled (pollWorkers answers t)) := List.filter_map

/-- States at two readings with the same runs are shown alike. -/
theorem shown_stateAt {manifests : Manifests F} {nodes : List (NodeRecord F)} {t t' : Readings}
    (hruns : recordsOf o.journal o.leaseManager t.leases =
      recordsOf o.journal o.leaseManager t'.leases) :
    shown ((stateAt o answers nodes t).publicDict manifests) =
      shown ((stateAt o answers nodes t').publicDict manifests) := by
  have hshown : (stateAt o answers nodes t).runs = (stateAt o answers nodes t').runs := by
    unfold stateAt stateOf
    rw [hruns]
  have hsummary : (stateAt o answers nodes t).summary = (stateAt o answers nodes t').summary := by
    have hpolled : ∀ t, (stateAt o answers nodes t).summary = summarize o.leaseManager.activeGrants
        (stateAt o answers nodes t).runs nodes := fun t =>
      summarize_polled _ _ nodes _ (fun _ => rfl) (fun _ => rfl) fun _ => rfl
    rw [hpolled, hpolled, hshown]
  refine shown_dictOf_congr (.cons ⟨rfl, rfl⟩ (.cons ⟨rfl, rfl⟩ (.cons ⟨rfl, rfl⟩
    (.cons ⟨rfl, by rw [hsummary]⟩ (.cons ⟨rfl, ?_⟩ (.cons ⟨rfl, ?_⟩ (.cons ⟨rfl, rfl⟩
    (.cons ⟨rfl, by rw [hshown]⟩ (.cons ⟨rfl, rfl⟩ .nil))))))))) (by simp)
  · simp only [roots_stateAt]
    exact shown_nodes manifests answers t t' _
  · exact shown_nodes manifests answers t t' nodes

section Built

variable [Cbor F] [Sha256] [PyFloat F]

/-- Where the state is built at one reading, it is built at every one. -/
theorem exists_stateAt (hj : Indexed o.journal.eventsByRun) {t : Readings} {v : Val F}
    (h : builtState o answers t = .ok v) : ∃ manifests nodes, ∀ t',
      builtState o answers t' = .ok ((stateAt o answers nodes t').publicDict manifests) := by
  unfold builtState buildState at h
  simp only [projectRuns_eq hj, bind_eq_ok, mapError_eq_ok] at h
  obtain ⟨state, ⟨_, -, nodes, ⟨manifests, hmanifests, hnodes⟩, -⟩, -⟩ := h
  refine ⟨manifests, nodes, fun t' => ?_⟩
  have hpolled : o.registry.nodeIds.mapM (nodeRecord manifests o.registry.depth
      o.leaseManager.activeGrants (pollWorkers answers t')) =
      .ok (nodes.map (NodeRecord.polled (pollWorkers answers t'))) :=
    mapM_eq_ok.2 (List.forall₂_map_right_iff.2 ((mapM_eq_ok.1 hnodes).imp
      fun _ _ hr => nodeRecord_pollWorkers hr t'))
  unfold builtState buildState
  simp only [projectRuns_eq hj, hmanifests, hpolled, bind, Except.bind, Except.mapError]
  rfl

variable [FloatRepr F]

theorem refresh_eq_ok {p p' : OperationsProjection (Val F) Str} {t : Readings} {changed : Bool} :
    refresh o answers p t = .ok (p', changed) ↔ p.closed = false ∧ ∃ state f,
      builtState o answers t = .ok state ∧ fingerprint state = .ok f ∧
        p.publish state f t.clocks = (p', changed) := by
  unfold refresh
  cases hclosed : p.closed with
  | true => simp
  | false => simp [bind_eq_ok, mapError_eq_ok]

omit [PyText F] [Cbor F] [Sha256] [PyFloat F] [FloatRepr F] in
/-- A snapshot is published when it is new, and the projection remembers its fingerprint. -/
theorem publish_eq {p p' : OperationsProjection (Val F) Str} {state : Val F} {f : Str}
    {clocks : Clocks} {changed : Bool} (h : p.publish state f clocks = (p', changed)) :
    p'.stateFingerprint = some f ∧ p'.closed = p.closed ∧
      p'.snapshot.map Snapshot.operationsEventSeq = some p'.eventSeq ∧
      (changed = false ↔ some f = p.stateFingerprint) ∧
      (changed = false → p'.events = p.events ∧ p'.eventSeq = p.eventSeq) := by
  unfold OperationsProjection.publish at h
  split_ifs at h with hsame
  · cases h
    exact ⟨hsame.symm, rfl, rfl, by simp [hsame], fun _ => ⟨rfl, rfl⟩⟩
  · cases h
    exact ⟨rfl, rfl, rfl, by simp [hsame], nofun⟩

/-- What a refresh hashes. -/
def payloadAt (o : Observed F σ) (answers : Str → Option (Answer F)) (t : Readings) :
    Except (RefreshError F) Bytes := do
  let state ← builtState o answers t
  (payload state).mapError .fingerprint

omit [Sha256] [Cbor F] [PyFloat F] in
theorem fingerprint_eq_ok [Sha256] {state : Val F} {f : Str} :
    fingerprint state = .ok f ↔ ∃ b, payload state = .ok b ∧ f = hexdigest b := by
  rw [fingerprint, bind_eq_ok]
  simp only [Except.ok.injEq, eq_comm (a := f)]

theorem payloadAt_eq_ok {t : Readings} {b : Bytes} : payloadAt o answers t = .ok b ↔
    ∃ state, builtState o answers t = .ok state ∧ payload state = .ok b := by
  rw [payloadAt, bind_eq_ok]
  simp only [mapError_eq_ok]

/-- With the same runs the same is hashed. -/
theorem payloadAt_congr (hj : Indexed o.journal.eventsByRun) {t t' : Readings}
    (hruns : recordsOf o.journal o.leaseManager t.leases =
      recordsOf o.journal o.leaseManager t'.leases) {b : Bytes}
    (hb : payloadAt o answers t = .ok b) : payloadAt o answers t' = .ok b := by
  obtain ⟨state, hstate, hpayload⟩ := payloadAt_eq_ok.1 hb
  obtain ⟨manifests, nodes, hbuilt⟩ := exists_stateAt hj hstate
  obtain rfl := Except.ok.inj ((hbuilt t).symm.trans hstate)
  refine payloadAt_eq_ok.2 ⟨_, hbuilt t', ?_⟩
  rw [← hpayload, payload, payload, shown_stateAt hruns]

theorem settled_of_recorded (hj : Indexed o.journal.eventsByRun) (hm : o.leaseManager.Inv)
    (h : ∀ r receipt, o.leaseManager.grantFor r = some receipt →
      ∃ latest, (o.journal.eventsOf r).getLast? = some latest) : Settled o answers := by
  intro p p₁ t₁ t₂ changed hfirst
  obtain ⟨hopen, state, f, hstate, hf, hpublish⟩ := refresh_eq_ok.1 hfirst
  obtain ⟨hremembered, hclosed, hseq, -⟩ := publish_eq hpublish
  obtain ⟨b, hpayload, rfl⟩ := fingerprint_eq_ok.1 hf
  obtain ⟨state', hstate', hpayload'⟩ := payloadAt_eq_ok.1 (payloadAt_congr hj
    (recordsOf_congr hm h _ t₂.leases) (payloadAt_eq_ok.2 ⟨state, hstate, hpayload⟩))
  obtain ⟨⟨p₂, changed₂⟩, hpublish₂⟩ : ∃ q, p₁.publish state' (hexdigest b) t₂.clocks = q :=
    ⟨_, rfl⟩
  obtain ⟨-, -, hseq₂, hchanged, hkept⟩ := publish_eq hpublish₂
  obtain rfl := hchanged.2 hremembered.symm
  obtain ⟨hevents, heventSeq⟩ := hkept rfl
  exact ⟨p₂, refresh_eq_ok.2 ⟨hclosed.trans hopen, state', _, hstate',
    fingerprint_eq_ok.2 ⟨b, hpayload', rfl⟩, hpublish₂⟩, hevents, heventSeq,
    by rw [hseq₂, hseq, heventSeq]⟩

end Built

/-! ## Leases without events -/

/-- At this instant every lease whose run has no events looks younger than all events. -/
def Youngest (o : Observed F σ) (now : Instant) : Prop :=
  ∀ receipt ∈ o.leaseManager.activeGrants, o.journal.eventsOf receipt.runId = [] →
    ∀ r, ∀ event ∈ o.journal.eventsOf r, (event.recordedAtNs : ℤ) < leasedAtNs receipt now

omit [PyText F] in
theorem exists_latest (hm : o.leaseManager.Inv) (h : ∀ receipt ∈ o.leaseManager.activeGrants,
    o.journal.eventsOf receipt.runId ≠ []) (r : Str) (receipt : LeaseReceipt)
    (hgrant : o.leaseManager.grantFor r = some receipt) :
    ∃ latest, (o.journal.eventsOf r).getLast? = some latest := by
  have hne := h receipt (mem_activeGrants.2 ⟨r, hgrant⟩)
  rw [hm.runId_eq r receipt hgrant] at hne
  exact ⟨_, List.getLast?_eq_some_getLast hne⟩

/-- The run has a lease and no events. -/
def Unrecorded (o : Observed F σ) (r : Str) (receipt : LeaseReceipt) : Prop :=
  o.leaseManager.grantFor r = some receipt ∧ (o.journal.eventsOf r).getLast? = none

omit [PyText F] in
/-- Such a lease is shown first. -/
theorem exists_newest (hm : o.leaseManager.Inv) (hn : 0 < o.recentRuns) {now : Instant}
    (hyoung : Youngest o now) {r₀ : Str} {receipt₀ : LeaseReceipt}
    (hunrecorded : Unrecorded o r₀ receipt₀) :
    ∃ r receipt rest, (Ranked.descending RunRecord.key
        (recordsOf o.journal o.leaseManager fun _ => now)).take o.recentRuns =
          leaseRecord r receipt now :: rest ∧ Unrecorded o r receipt ∧
      ∀ r' receipt', Unrecorded o r' receipt' →
        toLex (leasedAtNs receipt' now, r') ≤ toLex (leasedAtNs receipt now, r) := by
  have hmem : ∀ r receipt, Unrecorded o r receipt →
      leaseRecord r receipt now ∈ recordsOf o.journal o.leaseManager fun _ => now :=
    fun r receipt h => (mem_recordsOf hm).2 (.inr ⟨r, receipt, h.1, h.2, rfl⟩)
  obtain ⟨x, rest, hshown, hx, hgreatest⟩ := Ranked.exists_take_descending RunRecord.key
    (List.ne_nil_of_mem (hmem r₀ receipt₀ hunrecorded)) hn
  obtain ⟨r, latest, hlatest, rfl⟩ | ⟨r, receipt, hgrant, hlast, rfl⟩ := (mem_recordsOf hm).1 hx
  · -- an event is older than the lease
    have hle := hgreatest _ (hmem r₀ receipt₀ hunrecorded)
    have hlt := hyoung receipt₀ (mem_activeGrants.2 ⟨r₀, hunrecorded.1⟩)
      (by rw [hm.runId_eq r₀ receipt₀ hunrecorded.1]
          exact List.getLast?_eq_none_iff.1 hunrecorded.2)
      r latest (List.mem_of_getLast? hlatest)
    obtain hle | hle := Prod.Lex.toLex_le_toLex.1 hle
    · exact absurd hle (not_lt.2 hlt.le)
    · exact absurd hle.1 hlt.ne'
  · exact ⟨r, receipt, rest, hshown, ⟨hgrant, hlast⟩,
      fun r' receipt' h => hgreatest _ (hmem r' receipt' h)⟩

/-- A nanosecond later on the wall clock each of them looks a nanosecond younger. -/
theorem leasedAtNs_succ (receipt : LeaseReceipt) (timeNs monotonicNs : ℤ) :
    leasedAtNs receipt ⟨timeNs + 1, monotonicNs⟩ = leasedAtNs receipt ⟨timeNs, monotonicNs⟩ + 1 := by
  unfold leasedAtNs
  ring

omit [PyText F] in
/-- Then the same lease is shown first, with another time. -/
theorem exists_newest_succ (hm : o.leaseManager.Inv) (hn : 0 < o.recentRuns) {timeNs monotonicNs : ℤ}
    (hyoung : Youngest o ⟨timeNs, monotonicNs⟩) {r₀ : Str} {receipt₀ : LeaseReceipt}
    (hunrecorded : Unrecorded o r₀ receipt₀) :
    ∃ r receipt rest rest',
      (Ranked.descending RunRecord.key (recordsOf o.journal o.leaseManager
        fun _ => ⟨timeNs, monotonicNs⟩)).take o.recentRuns =
          leaseRecord r receipt ⟨timeNs, monotonicNs⟩ :: rest ∧
      (Ranked.descending RunRecord.key (recordsOf o.journal o.leaseManager
        fun _ => ⟨timeNs + 1, monotonicNs⟩)).take o.recentRuns =
          leaseRecord r receipt ⟨timeNs + 1, monotonicNs⟩ :: rest' := by
  have hyoung' : Youngest o ⟨timeNs + 1, monotonicNs⟩ := fun receipt hg hnone r event hevent => by
    have := hyoung receipt hg hnone r event hevent
    rw [leasedAtNs_succ]
    omega
  obtain ⟨r, receipt, rest, hshown, hfree, hgreatest⟩ := exists_newest hm hn hyoung hunrecorded
  obtain ⟨r', receipt', rest', hshown', hfree', hgreatest'⟩ :=
    exists_newest hm hn hyoung' hunrecorded
  have hle := hgreatest r' receipt' hfree'
  have hle' := hgreatest' r receipt hfree
  rw [leasedAtNs_succ, leasedAtNs_succ, Prod.Lex.toLex_le_toLex] at hle'
  rw [Prod.Lex.toLex_le_toLex] at hle
  have heq : r' = r := by
    simp only at hle hle'
    obtain hlt | ⟨he, hle⟩ := hle
    · obtain hlt' | ⟨he', -⟩ := hle' <;> omega
    · obtain hlt' | ⟨-, hle'⟩ := hle'
      · omega
      · exact le_antisymm hle hle'
  subst heq
  obtain rfl : receipt' = receipt := Option.some.inj (hfree'.1.symm.trans hfree.1)
  exact ⟨r', receipt', rest, rest', hshown, hshown'⟩

/-! ## The two texts -/

section Texts

variable [FloatRepr F]

/-- Records part in the field `k` where the fields before it are shown alike. -/
theorem parts_shown {kvs kvs' : List (String × Val F)} {k : String}
    (hnd : (kvs.map Prod.fst).Nodup) (hk : k ∈ kvs.map Prod.fst)
    (hpoll : "polled_at_ns" ∉ kvs.map Prod.fst)
    (h : List.Forall₂ (fun p q => PartAt k (p.1, shown p.2) (q.1, shown q.2)) kvs kvs') :
    (shown (dictOf kvs)).Parts (shown (dictOf kvs')) := by
  have hkeys : kvs'.map Prod.fst = kvs.map Prod.fst := by
    clear hnd hk hpoll
    induction h with
    | nil => rfl
    | cons hpq _ ih => rw [List.map_cons, List.map_cons, ih, show _ = _ from hpq.1]
  have hself : ∀ ds : List (String × Val F), "polled_at_ns" ∉ ds.map Prod.fst →
      ds.filter (fun p => p.1 ≠ "polled_at_ns") = ds := fun ds hds => by
    refine List.filter_eq_self.2 fun p hp => decide_eq_true fun he => hds ?_
    rw [← he]
    exact List.mem_map_of_mem hp
  rw [shown_dictOf hnd, shown_dictOf (hkeys ▸ hnd), hself kvs hpoll, hself kvs' (hkeys ▸ hpoll)]
  have hsame : (kvs.map fun p => (p.1, shown p.2)).map Prod.fst = kvs.map Prod.fst := by
    rw [List.map_map]
    rfl
  exact Val.Parts.dictOf (k := k) (hsame ▸ hnd) (hsame ▸ hk)
    (List.forall₂_map_left_iff.2 (List.forall₂_map_right_iff.2 h))

/-- Records of a lease at two times. -/
theorem parts_leaseRecord (r : Str) (receipt : LeaseReceipt) {now now' : Instant}
    (hne : leasedAtNs receipt now ≠ leasedAtNs receipt now') :
    (shown (leaseRecord r receipt now : RunRecord F).publicDict).Parts
      (shown (leaseRecord r receipt now' : RunRecord F).publicDict) := by
  refine parts_shown (k := "updated_at_ns") (by simp) (by simp) (by simp) ?_
  have hsame : ∀ {k : String} {v : Val F}, k ≠ "updated_at_ns" →
      PartAt "updated_at_ns" (k, shown v) (k, shown v) := fun hk => .same hk rfl
  exact .cons (hsame (by simp)) (.cons (hsame (by simp)) (.cons (hsame (by simp))
    (.cons (hsame (by simp)) (.cons (hsame (by simp)) (.cons (hsame (by simp))
    (.cons (hsame (by simp)) (.cons (hsame (by simp)) (.cons (hsame (by simp))
    (.cons (.here (parts_int hne)) (.cons (hsame (by simp)) .nil))))))))))

/-- States whose first runs part. -/
theorem parts_stateAt {manifests : Manifests F} {nodes : List (NodeRecord F)} {t t' : Readings}
    {x x' : RunRecord F} {rest rest' : List (RunRecord F)}
    (hx : (stateAt o answers nodes t).runs = x :: rest)
    (hx' : (stateAt o answers nodes t').runs = x' :: rest')
    (hparts : (shown x.publicDict).Parts (shown x'.publicDict)) :
    (shown ((stateAt o answers nodes t).publicDict manifests)).Parts
      (shown ((stateAt o answers nodes t').publicDict manifests)) := by
  have hruns : (shown (.list ((stateAt o answers nodes t).runs.map RunRecord.publicDict))).Parts
      (shown (.list ((stateAt o answers nodes t').runs.map RunRecord.publicDict))) := by
    rw [hx, hx', shown_list, shown_list]
    exact hparts.list _ _
  have hroots : shown (.list ((stateAt o answers nodes t).roots.map
      (NodeRecord.publicDict manifests))) = shown (.list ((stateAt o answers nodes t').roots.map
      (NodeRecord.publicDict manifests))) := by
    rw [roots_stateAt, roots_stateAt]
    exact shown_nodes manifests answers t t' _
  have hsame : ∀ {k : String} {v w : Val F}, k ≠ "runs" → shown v = shown w →
      PartAt "runs" (k, shown v) (k, shown w) := fun hk h => .same hk h
  have hlater : ∀ {k : String} {v w : Val F}, strLe (py k) (py "runs") = false →
      PartAt "runs" (k, shown v) (k, shown w) := fun hk => .later _ _ hk
  refine parts_shown (k := "runs") (by simp) (by simp) (by simp) ?_
  exact .cons (hsame (by simp) rfl) (.cons (hlater rfl) (.cons (hlater rfl) (.cons (hlater rfl)
    (.cons (hsame (by simp) hroots) (.cons (hsame (by simp) (shown_nodes manifests answers t t' nodes))
    (.cons (hsame (by simp) rfl) (.cons (.here hruns) (.cons (hsame (by simp) rfl) .nil))))))))

end Texts

/-! ## When a server settles -/

section Settled

variable [Cbor F] [Sha256] [PyFloat F] [FloatRepr F]

/-- All clocks are read at one instant. -/
def Readings.once (timeNs monotonicNs : ℤ) : Readings where
  polledAtNs _ := timeNs
  leases _ := ⟨timeNs, monotonicNs⟩
  clocks := ⟨timeNs, monotonicNs, timeNs⟩

/-- On a settled server every refresh has the digest of the one before. -/
theorem Settled.digest_eq (h : Settled o answers) {t : Readings} {b : Bytes}
    (hb : payloadAt o answers t = .ok b) (t' : Readings) :
    ∃ b', payloadAt o answers t' = .ok b' ∧ Sha256.digest b' = Sha256.digest b := by
  obtain ⟨state, hstate, hpayload⟩ := payloadAt_eq_ok.1 hb
  let p : OperationsProjection (Val F) Str := ⟨1, 0, [], 0, none, none, false⟩
  obtain ⟨⟨p₁, changed⟩, hpublish⟩ : ∃ q, p.publish state (hexdigest b) t.clocks = q := ⟨_, rfl⟩
  obtain ⟨p₂, hsecond, -⟩ := h p p₁ t t' changed
    (refresh_eq_ok.2 ⟨rfl, state, _, hstate, fingerprint_eq_ok.2 ⟨b, hpayload, rfl⟩, hpublish⟩)
  obtain ⟨-, state', f, hstate', hf, hpublish'⟩ := refresh_eq_ok.1 hsecond
  obtain ⟨b', hpayload', rfl⟩ := fingerprint_eq_ok.1 hf
  obtain ⟨-, -, -, hchanged, -⟩ := publish_eq hpublish'
  have hsame := hchanged.1 rfl
  rw [(publish_eq hpublish).1, Option.some.injEq] at hsame
  exact ⟨b', payloadAt_eq_ok.2 ⟨state', hstate', hpayload'⟩, hexlify_injective hsame⟩

/-- A lease without events gives two refreshes different texts. -/
theorem payloadAt_ne (hj : Indexed o.journal.eventsByRun) (hm : o.leaseManager.Inv)
    (hn : 0 < o.recentRuns) {timeNs monotonicNs : ℤ} (hyoung : Youngest o ⟨timeNs, monotonicNs⟩)
    {r₀ : Str} {receipt₀ : LeaseReceipt} (hunrecorded : Unrecorded o r₀ receipt₀) {b b' : Bytes}
    (hb : payloadAt o answers (.once timeNs monotonicNs) = .ok b)
    (hb' : payloadAt o answers (.once (timeNs + 1) monotonicNs) = .ok b') : b' ≠ b := by
  rintro rfl
  obtain ⟨state, hstate, hpayload⟩ := payloadAt_eq_ok.1 hb
  obtain ⟨state', hstate', hpayload'⟩ := payloadAt_eq_ok.1 hb'
  obtain ⟨manifests, nodes, hbuilt⟩ := exists_stateAt hj hstate
  obtain rfl := Except.ok.inj ((hbuilt _).symm.trans hstate)
  obtain rfl := Except.ok.inj ((hbuilt _).symm.trans hstate')
  obtain ⟨text, htext, hbytes⟩ := bind_eq_ok.1 hpayload
  obtain ⟨text', htext', hbytes'⟩ := bind_eq_ok.1 hpayload'
  obtain ⟨r, receipt, rest, rest', hshown, hshown'⟩ := exists_newest_succ hm hn hyoung hunrecorded
  have hruns : (stateAt o answers nodes (.once timeNs monotonicNs)).runs =
      leaseRecord r receipt ⟨timeNs, monotonicNs⟩ :: rest := hshown
  have hruns' : (stateAt o answers nodes (.once (timeNs + 1) monotonicNs)).runs =
      leaseRecord r receipt ⟨timeNs + 1, monotonicNs⟩ :: rest' := hshown'
  have htime : leasedAtNs receipt ⟨timeNs, monotonicNs⟩ ≠
      leasedAtNs receipt ⟨timeNs + 1, monotonicNs⟩ := by
    rw [leasedAtNs_succ]
    omega
  exact (parts_stateAt hruns hruns' (parts_leaseRecord r receipt htime)).ne htext htext'
    (encodeUtf8_inj hbytes hbytes')

/-- Refreshes leave a server on which nothing changes at rest exactly when every run that holds a
lease has events in the journal. -/
theorem settled_iff {o : Observed F σ} (hj : Journaled o.journal) (hm : Leased o.leaseManager)
    (hn : 0 < o.recentRuns) (answers : Str → Option (Answer F)) {timeNs monotonicNs : ℤ}
    (hyoung : Youngest o ⟨timeNs, monotonicNs⟩) {b : Bytes}
    (hb : payloadAt o answers (.once timeNs monotonicNs) = .ok b)
    (hsha : ∀ b', payloadAt o answers (.once (timeNs + 1) monotonicNs) = .ok b' →
      Sha256.digest b' = Sha256.digest b → b' = b) :
    Settled o answers ↔
      ∀ receipt ∈ o.leaseManager.activeGrants, o.journal.eventsOf receipt.runId ≠ [] := by
  constructor
  · intro h receipt hg hnone
    obtain ⟨r, hgrant⟩ := mem_activeGrants.1 hg
    have hunrecorded : Unrecorded o r receipt := by
      refine ⟨hgrant, ?_⟩
      rw [← hm.inv.runId_eq r receipt hgrant, hnone]
      rfl
    obtain ⟨b', hb', hdigest⟩ := h.digest_eq hb (.once (timeNs + 1) monotonicNs)
    exact payloadAt_ne hj.indexed hm.inv hn hyoung hunrecorded hb hb' (hsha b' hb' hdigest)
  · exact fun h => settled_of_recorded hj.indexed hm.inv (exists_latest hm.inv h)

end Settled

end State

end Fingerprint

/-! ### A lease on an idle server -/

section Demo

local instance settledHash : Sha256 := lengthHash

/-- The run that holds the lease has started, and nothing more happens. -/
theorem settled_running : Settled runningServer fun _ => none := by
  have hopened : (runningServer.leaseManager.activeGrants.all fun receipt =>
      !(runningServer.journal.eventsOf receipt.runId).isEmpty) = true := by decide +kernel
  have hrecorded : ∀ receipt ∈ runningServer.leaseManager.activeGrants,
      runningServer.journal.eventsOf receipt.runId ≠ [] := by
    intro receipt hg he
    have hevents := List.all_eq_true.1 hopened receipt hg
    rw [he] at hevents
    cases hevents
  have hj : Journaled runningServer.journal := (Journaled.created ()).append persistNothing _ _ _
  have hm : Leased runningServer.leaseManager := Leased.created.acquired _ _ _ _ _
  have hreturns : (payloadAt runningServer (fun _ => none) (.once 9 9)).isOk = true := by
    decide +kernel
  obtain ⟨b, hb⟩ := exists_of_isOk hreturns
  have hsame : payloadAt runningServer (fun _ => none) (.once (9 + 1) 9) = .ok b :=
    payloadAt_congr hj.indexed (recordsOf_congr hm.inv (exists_latest hm.inv hrecorded) _ _) hb
  have hyoung : Youngest runningServer ⟨9, 9⟩ :=
    fun receipt hg hnone => absurd hnone (hrecorded receipt hg)
  exact (settled_iff hj hm (by decide) (fun _ => none) hyoung hb
    fun b' hb' _ => Except.ok.inj (hb'.symm.trans hsame)).2 hrecorded

/-- The lease `run` is held, and nothing has happened in the run. -/
def leasedServer : Observed ℚ Unit := { runningServer with journal := { store := () } }

/-- A nanosecond on the wall clock is published as an event. -/
theorem settled_counterexample : (∃ p p₁ p₂ : OperationsProjection (Val ℚ) Str,
    OperationsProjection.init 256 24 80 0 = some p ∧
    refresh leasedServer (fun _ => none) p (.once 99 7) = .ok (p₁, true) ∧
    refresh leasedServer (fun _ => none) p₁ (.once 100 7) = .ok (p₂, true) ∧
    p₁.eventSeq = 1 ∧ p₂.eventSeq = 2) ∧ ¬Settled leasedServer fun _ => none := by
  obtain ⟨p, hp⟩ : ∃ p : OperationsProjection (Val ℚ) Str,
      OperationsProjection.init 256 24 80 0 = some p := ⟨_, rfl⟩
  have hrun : (OperationsProjection.init 256 24 80 0).bind (fun p => (do
      let r₁ ← refresh leasedServer (fun _ => none) p (.once 99 7)
      let r₂ ← refresh leasedServer (fun _ => none) r₁.1 (.once 100 7)
      .ok ((r₁.2, r₁.1.eventSeq), r₂.2, r₂.1.eventSeq) :
        Except (RefreshError ℚ) ((Bool × ℕ) × Bool × ℕ)).toOption) = some ((true, 1), true, 2) := by
    decide +kernel
  rw [hp, Option.bind_some, toOption_eq_some] at hrun
  obtain ⟨⟨p₁, changed₁⟩, hfirst, hrun⟩ := bind_eq_ok.1 hrun
  obtain ⟨⟨p₂, changed₂⟩, hsecond, hrun⟩ := bind_eq_ok.1 hrun
  simp only [Except.ok.injEq, Prod.mk.injEq] at hrun
  obtain ⟨⟨rfl, hseq₁⟩, rfl, hseq₂⟩ := hrun
  refine ⟨⟨p, p₁, p₂, hp, hfirst, hsecond, hseq₁, hseq₂⟩, fun h => ?_⟩
  obtain ⟨p₂', hsettled, -⟩ := h p p₁ _ (.once 100 7) true hfirst
  rw [hsecond] at hsettled
  cases hsettled

end Demo

end RemoteRobot.Operations
