import RemoteRobot.Operations.Runs
import RemoteRobot.Orchestrator.Branches

/-!
# The state an operator sees

`_build_state` describes every node of the registry with the runs that occupy it and the state of its
worker, and counts what it shows.  The recursions over the graph carry a depth as in the registry;
the caches of the source only save work and are left out, as are the parts of a manifest that are
copied into a record unread.
-/

namespace RemoteRobot.Operations

open Py Except

variable {F : Type}

/-! ## Workers -/

inductive DisplayState
  | idle
  | offline
  | occupied
  | preparing
  | scheduled
  | running
  | faulted
  | unknown
  deriving DecidableEq

/-- `_worker_display_state` -/
def workerDisplayState (rawStatus : Str) : DisplayState :=
  if rawStatus = py "created" then .offline
  else if rawStatus = py "disabled" then .idle
  else if rawStatus = py "stopped" then .idle
  else if rawStatus = py "completed" then .idle
  else if rawStatus = py "prepared" then .preparing
  else if rawStatus = py "scheduled" then .scheduled
  else if rawStatus = py "running" then .running
  else if rawStatus = py "closed" then .offline
  else .unknown

/-- `_STATE_PRIORITY` -/
def DisplayState.priority : DisplayState → ℕ
  | .faulted => 90
  | .running => 80
  | .scheduled => 70
  | .preparing => 60
  | .occupied => 50
  | .offline => 40
  | .unknown => 30
  | .idle => 10

/-- What `_poll_workers` returns for a worker. -/
inductive Poll (F : Type)
  | reached (polledAtNs : ℤ) (state : Val F)
  | failed (polledAtNs : ℤ) (errorType : Str)

structure Runtime (F : Type) where
  /-- the copied poll, none for a node without a worker -/
  poll : Option (Poll F)
  reachable : Bool
  registered : Bool
  displayState : DisplayState
  freshness : String

/-- `raw_status` -/
def rawStatus [PyText F] : Val F → Str
  | .dict raw => ((lookup (py "status") raw).getD (.str (py "unknown"))).toStr
  | _ => py "unknown"

/-- `runtime_for`, for the poll of the node's worker. -/
def runtimeFor [PyText F] : Option (Poll F) → Runtime F
  | none => ⟨none, false, false, .offline, "unavailable"⟩
  | some (.reached polledAtNs state) => ⟨some (.reached polledAtNs state), true, true,
      workerDisplayState (rawStatus state), "fresh"⟩
  | some (.failed polledAtNs errorType) => ⟨some (.failed polledAtNs errorType), false, true,
      .faulted, "stale"⟩

/-! ## Manifests -/

/-- The manifests by node ID. -/
abbrev Manifests (F : Type) := List (Str × Dict F)

/-- `{node_id: registry.describe(node_id) for node_id in registry.node_ids}` -/
def manifestsOf [Cbor F] [Sha256] [PyFloat F] (R : Registry F) : Except (Error F) (Manifests F) :=
  R.nodeIds.mapM fun nodeId => do
    let manifest ← plainMapping (← R.describe nodeId) "capability manifest"
    .ok (nodeId, manifest)

/-- `manifests[node_id]` -/
def manifestOf (manifests : Manifests F) (nodeId : Str) : Except (Error F) (Dict F) :=
  match manifests.lookup nodeId with
  | some manifest => .ok manifest
  | none => .error (.builtin .keyError)

/-- The mappings in the list under a key; a manifest has a list there or nothing. -/
def mappings (k : String) (manifest : Dict F) : List (Dict F) :=
  match field k manifest with
  | .list items => items.filterMap fun item => match item with
    | .dict d => some d
    | _ => none
  | _ => []

/-- The strings in the list under a key; a manifest has a list there or nothing. -/
def strings (k : String) (manifest : Dict F) : List Str :=
  match field k manifest with
  | .list items => items.filterMap fun item => match item with
    | .str s => some s
    | _ => none
  | _ => []

def isPhysical [PyFloat F] (manifest : Dict F) : Bool := Val.eq (field "kind" manifest) (.str (py "physical"))

/-- The leaves of a physical node's manifest. -/
def groupLeaves (nodeId : Str) (manifest : Dict F) : List Str :=
  (mappings "groups" manifest).filterMap fun group => match field "group_id" group with
    | .str groupId => some (nodeId ++ py "." ++ groupId)
    | _ => none

/-- The IDs of the children a manifest lists. -/
def childIds [PyText F] (manifest : Dict F) : List Str :=
  (mappings "children" manifest).map fun child => (field "node_id" child).toStr

/-! ## Occupancy -/

section Nodes

variable [PyFloat F] [PyText F]

/-- `leaves_for`; the set is the list of its elements. -/
def leavesFor (manifests : Manifests F) : ℕ → Str → Except (Error F) (List Str)
  | 0, _ => .error (.builtin .recursionError)
  | d + 1, nodeId => do
    let manifest ← manifestOf manifests nodeId
    if isPhysical manifest then .ok (groupLeaves nodeId manifest)
    else do
      let leaves ← (childIds manifest).mapM (leavesFor manifests d)
      .ok leaves.flatten

/-- The two lists have an element in common. -/
def intersects (a b : List Str) : Bool := a.any fun x => b.contains x

/-- What a grant has to share with a node to occupy it. -/
def occupies (leaves resources domains : List Str) (receipt : LeaseReceipt) : Bool :=
  intersects leaves receipt.request.leafIds || intersects resources receipt.request.resourceKeys ||
    intersects domains receipt.request.safetyDomainKeys

/-- `occupying_runs` -/
def occupyingRuns (manifests : Manifests F) (depth : ℕ) (grants : List LeaseReceipt)
    (nodeId : Str) : Except (Error F) (List Str) := do
  let manifest ← manifestOf manifests nodeId
  let leaves ← leavesFor manifests depth nodeId
  let occupying := grants.filter
    (occupies leaves (strings "resources" manifest) (strings "safety_domains" manifest))
  .ok ((occupying.map LeaseReceipt.runId).insertionSort fun a b => strLe a b = true)

/-- `max(states or ["idle"], key=…)`: the first state of the highest priority. -/
def maxState : List DisplayState → DisplayState
  | [] => .idle
  | state :: states => states.foldl (fun best s => if best.priority < s.priority then s else best) state

/-- `display_for` -/
def displayFor (manifests : Manifests F) (depth : ℕ) (grants : List LeaseReceipt)
    (workerStates : Str → Option (Poll F)) : ℕ → Str → Except (Error F) DisplayState
  | 0, _ => .error (.builtin .recursionError)
  | d + 1, nodeId => do
    let manifest ← manifestOf manifests nodeId
    let occupiedBy ← occupyingRuns manifests depth grants nodeId
    let state ← if isPhysical manifest then .ok (runtimeFor (workerStates nodeId)).displayState
      else do
        let states ← (childIds manifest).mapM (displayFor manifests depth grants workerStates d)
        .ok (maxState states)
    .ok (if occupiedBy ≠ [] ∧ (state = .idle ∨ state = .offline) then .occupied else state)

/-! ## Node records -/

inductive Attention
  | crossCollisionUnchecked
  | supervisedOnly
  deriving DecidableEq

/-- `unattended` -/
def unattended (manifest : Dict F) : Val F :=
  let stated (v : Val F) : Val F := match v with
    | .dict d => field "unattended_operation_allowed" d
    | _ => .none
  match stated ((lookup (py "assurances") manifest).getD (.dict [])) with
  | .none => stated (field "watchdog" manifest)
  | v => v

def attentionOf (manifest : Dict F) : List Attention :=
  (match field "safety" manifest with
    | .dict safety => match field "cross_collision_checked" safety with
      | .bool false => [.crossCollisionUnchecked]
      | _ => []
    | _ => []) ++
  (match unattended manifest with
    | .bool false => [.supervisedOnly]
    | _ => [])

structure ChildRecord (F : Type) where
  role : Val F
  nodeId : Val F
  «alias» : Bool

structure NodeRecord (F : Type) where
  nodeId : Str
  kind : Str
  revision : Val F
  manifestHash : Val F
  exposedAsRunRoot : Bool
  displayState : DisplayState
  occupiedBy : List Str
  canonicalLeaves : List Str
  resources : List Str
  safetyDomains : List Str
  attention : List Attention
  children : List (ChildRecord F)
  runtime : Option (Runtime F)

/-- `value is True` -/
def isTrue : Val F → Bool
  | .bool b => b
  | _ => false

/-- The body of the loop over `node_ids`. -/
def nodeRecord (manifests : Manifests F) (depth : ℕ) (grants : List LeaseReceipt)
    (workerStates : Str → Option (Poll F)) (nodeId : Str) : Except (Error F) (NodeRecord F) := do
  let manifest ← manifestOf manifests nodeId
  let kind := ((lookup (py "kind") manifest).getD (.str (py "unknown"))).toStr
  let occupiedBy ← occupyingRuns manifests depth grants nodeId
  let displayState ← displayFor manifests depth grants workerStates depth nodeId
  let leaves ← leavesFor manifests depth nodeId
  .ok {
    nodeId := nodeId
    kind := kind
    revision := field "revision" manifest
    manifestHash := field "manifest_hash" manifest
    exposedAsRunRoot := isTrue (field "exposed_as_run_root" manifest)
    displayState := displayState
    occupiedBy := occupiedBy
    canonicalLeaves := sortedSet leaves
    resources := strings "resources" manifest
    safetyDomains := strings "safety_domains" manifest
    attention := attentionOf manifest
    children := (mappings "children" manifest).map fun child =>
      ⟨field "role" child, field "node_id" child, isTrue (field "alias" child)⟩
    runtime := if kind = py "physical" then some (runtimeFor (workerStates nodeId)) else none }

end Nodes

/-! ## The state -/

structure Summary where
  rootCount : ℕ
  physicalCount : ℕ
  activeRunCount : ℕ
  occupiedLeafCount : ℕ
  faultedRunCount : ℕ
  attentionCount : ℕ
  deriving DecidableEq

structure OperationsState (F : Type) where
  serverId : Str
  executionAvailable : Bool
  summary : Summary
  roots : List (NodeRecord F)
  nodes : List (NodeRecord F)
  leases : List LeaseReceipt
  runs : List (RunRecord F)
  recentEvents : List (EventRecord F)

/-- What `_build_state` may raise. -/
inductive BuildError (F : Type)
  | journal (e : JournalError F)
  | registry (e : Error F)

/-- `OperationsProjection` without its feed. -/
structure Observed (F σ : Type) where
  registry : Registry F
  leaseManager : LeaseManager
  journal : RunJournal F σ
  executionAvailable : Bool
  recentRuns : ℕ
  recentEvents : ℕ

/-- The summary of what is shown. -/
def summarize (grants : List LeaseReceipt) (runs : List (RunRecord F))
    (nodes : List (NodeRecord F)) : Summary where
  rootCount := (nodes.filter NodeRecord.exposedAsRunRoot).length
  physicalCount := (nodes.filter fun node => node.kind = py "physical").length
  activeRunCount := (runs.filter RunRecord.active).length
  occupiedLeafCount := (grants.flatMap fun receipt => receipt.request.leafIds).dedup.length
  faultedRunCount := (runs.filter fun run => run.state = .faulted).length
  attentionCount := (nodes.map fun node => node.attention.length).sum

section State

variable {σ : Type} [Cbor F] [Sha256] [PyFloat F] [PyText F]

/-- `_build_state`; `now` gives the clock readings at each run. -/
def buildState (o : Observed F σ) (workerStates : Str → Option (Poll F)) (now : Str → Instant) :
    Except (BuildError F) (OperationsState F) := do
  let grants := o.leaseManager.activeGrants
  let (runs, recentEvents) ← (projectRuns o.journal grants now o.recentRuns
    o.recentEvents).mapError .journal
  let nodes ← (do
    let manifests ← manifestsOf o.registry
    o.registry.nodeIds.mapM (nodeRecord manifests o.registry.depth grants workerStates)).mapError
      .registry
  .ok {
    serverId := o.registry.serverId
    executionAvailable := o.executionAvailable
    summary := summarize grants runs nodes
    roots := nodes.filter NodeRecord.exposedAsRunRoot
    nodes := nodes
    leases := grants
    runs := runs
    recentEvents := recentEvents }

/-! ## What the manifests of a registry say -/

/-- The dictionary says of the node what `_build_state` reads. -/
structure Describes (n : ControlNode F) (manifest : Dict F) : Prop where
  resources : strings "resources" manifest = n.resources
  safetyDomains : strings "safety_domains" manifest = n.safetyDomains
  physical : ∀ p, n = .physical p → isPhysical manifest = true ∧
    ∀ nodeId, groupLeaves nodeId manifest = p.groups.map fun g => nodeId ++ py "." ++ g.groupId
  composite : ∀ c, n = .composite c → isPhysical manifest = false ∧
    childIds manifest = c.children.map ChildRef.nodeId

omit [Cbor F] [Sha256] [PyFloat F] [PyText F] in
theorem strings_strList {k : String} {manifest : Dict F} {xs : List Str}
    (h : lookup (py k) manifest = some (strList xs)) : strings k manifest = xs := by
  unfold strings field
  rw [h]
  show (xs.map Val.str).filterMap _ = xs
  rw [List.filterMap_map]
  exact List.filterMap_some

omit [Cbor F] [Sha256] [PyFloat F] [PyText F] in
theorem mappings_list {k : String} {manifest : Dict F} {items : List (Val F)}
    (h : lookup (py k) manifest = some (.list items)) :
    mappings k manifest = items.filterMap fun item => match item with
      | .dict d => some d
      | _ => none := by
  unfold mappings field
  rw [h]
  rfl

omit [PyFloat F] in
theorem childIds_of_forall₂ {R : Registry F} {d : ℕ} {refs : List ChildRef}
    {items : List (Val F)} (h : List.Forall₂ (fun (child : ChildRef) v => ∃ m, R.manifestFrom d child.nodeId = .ok m ∧
      Registry.childManifest child m = (.ok v : Except (Error F) (Val F))) refs items) :
    ((items.filterMap fun item => match item with
      | .dict d => some d
      | _ => none).map fun child => (field "node_id" child).toStr) = refs.map ChildRef.nodeId := by
  induction h with
  | nil => rfl
  | cons hv _ ih =>
    obtain ⟨m, -, hv⟩ := hv
    simp only [Registry.childManifest, bind_eq_ok] at hv
    obtain ⟨hash, -, hv⟩ := hv
    cases hv
    rw [List.filterMap_cons, List.map_cons, ← ih]
    simp [dictOf, field, Val.toStr]

/-- The manifest of a node describes it. -/
theorem describes_of_manifestFrom {R : Registry F} {d : ℕ} {nodeId : Str} {n : ControlNode F}
    {fields : List (String × Val F)} (hn : R.find nodeId = some n)
    (h : R.manifestFrom d nodeId = .ok fields) : Describes n (entries fields) := by
  obtain ⟨e, n', own, hash, rfl, hn', hown, rfl, -⟩ := manifestFrom_eq_ok h
  obtain rfl := Option.some.inj (hn.symm.trans hn')
  rw [List.append_assoc]
  have hkind : field "kind" (entries (R.commonManifest n ++ (own ++ [("manifest_hash", Val.str hash)]))) =
      .str n.kind := by
    unfold field
    rw [lookup_kind]
    rfl
  refine ⟨strings_strList lookup_resources, strings_strList lookup_safetyDomains, ?_, ?_⟩
  · rintro p rfl
    refine ⟨by rw [isPhysical, hkind]; simp [Val.eq, ControlNode.kind], fun nodeId => ?_⟩
    have hgroups : lookup (py "groups") (entries (R.commonManifest (.physical p) ++
        (own ++ [("manifest_hash", Val.str hash)]))) =
        some (.list (p.groups.map ActuatorGroupSpec.publicDict)) := by
      rw [show own = Registry.physicalManifest p from hown]
      simp [Registry.commonManifest, Registry.physicalManifest]
    rw [groupLeaves, mappings_list hgroups, List.filterMap_map, List.filterMap_filterMap,
      ← List.filterMap_eq_map]
    refine List.filterMap_congr fun g _ => ?_
    simp [ActuatorGroupSpec.publicDict, dictOf, field]
  · rintro c rfl
    obtain ⟨children, physical, rfl, hc⟩ := hown
    refine ⟨by rw [isPhysical, hkind]; simp [Val.eq, ControlNode.kind], ?_⟩
    rw [childIds, mappings_list lookup_children]
    exact childIds_of_forall₂ hc

/-! ## The walks over the manifests return -/

/-- The manifests of an accepted registry: every node has one, and it describes the node. -/
structure ManifestsOk (R : Registry F) (manifests : Manifests F) : Prop where
  node : ∀ nodeId n, R.find nodeId = some n →
    ∃ manifest, manifestOf manifests nodeId = .ok manifest ∧ Describes n manifest

omit [PyFloat F] [PyText F] in
theorem lookup_of_mapM {R : Registry F} {ids : List Str} {manifests : Manifests F}
    (h : ids.mapM (fun nodeId => (do
      let manifest ← plainMapping (← R.describe nodeId) "capability manifest"
      .ok (nodeId, manifest) : Except (Error F) (Str × Dict F))) = .ok manifests) {nodeId : Str}
    (hid : nodeId ∈ ids) : ∃ fields, R.manifestFrom R.depth nodeId = .ok fields ∧
      manifests.lookup nodeId = some (entries fields) := by
  have hpair := mapM_eq_ok.1 h
  clear h
  induction hpair with
  | nil => cases hid
  | cons hfirst htail ih =>
    rename_i first entry ids rest
    simp only [bind_eq_ok, Registry.describe, map_eq_ok, Except.ok.injEq] at hfirst
    obtain ⟨_, ⟨fields, hfields, rfl⟩, _, hplain, rfl⟩ := hfirst
    cases hplain
    rw [List.lookup_cons]
    by_cases hfirst : nodeId = first
    · rw [hfirst, beq_self_eq_true]
      exact ⟨fields, hfields, rfl⟩
    · rw [beq_false_of_ne hfirst]
      exact ih ((List.mem_cons.1 hid).resolve_left hfirst)

theorem manifestsOf_eq_ok {R : Registry F} (h : R.check = .ok ()) :
    ∃ manifests, manifestsOf R = .ok manifests ∧ ManifestsOk R manifests := by
  have hmanifests := (accepted_of_check h).manifests
  have hok : ∀ nodeId ∈ R.nodeIds, ∃ entry, (do
      let manifest ← plainMapping (← R.describe nodeId) "capability manifest"
      .ok (nodeId, manifest) : Except (Error F) (Str × Dict F)) = .ok entry := by
    intro nodeId hid
    obtain ⟨n, hn, rfl⟩ := List.mem_map.1 (mem_sortedSet.1 hid)
    obtain ⟨fields, hfields⟩ := hmanifests n hn
    exact ⟨(n.nodeId, entries fields), by rw [Registry.describe, hfields]; rfl⟩
  obtain ⟨manifests, hms⟩ : ∃ manifests, manifestsOf R = .ok manifests := exists_mapM hok
  refine ⟨manifests, hms, ⟨fun nodeId n hn => ?_⟩⟩
  have hid : nodeId ∈ R.nodeIds := mem_nodeIds.2 (hn ▸ rfl)
  obtain ⟨fields, hfields, hlookup⟩ := lookup_of_mapM hms hid
  exact ⟨entries fields, by rw [manifestOf, hlookup], describes_of_manifestFrom hn hfields⟩

/-- `".".join(canonical)` -/
def Leaf.name (l : Registry.Leaf) : Str := l.canonical.1 ++ py "." ++ l.canonical.2

section Walks

variable {R : Registry F} {manifests : Manifests F}

omit [Cbor F] [Sha256] in
/-- `leaves_for` walks as `_leaf_paths` does and keeps the names of the leaves. -/
theorem leavesFor_eq_ok (hms : ManifestsOk R manifests) {d : ℕ} {pathPrefix : List Str}
    {aliased : Bool} {nodeId : Str} {leaves : List Registry.Leaf}
    (h : R.leafPathsFrom d pathPrefix aliased nodeId = .ok leaves) :
    leavesFor manifests d nodeId = .ok (leaves.map Leaf.name) := by
  induction d generalizing pathPrefix aliased nodeId leaves with
  | zero => cases h
  | succ d ih =>
    unfold Registry.leafPathsFrom at h
    unfold leavesFor
    split at h
    · cases h
    · rename_i p hfind
      obtain ⟨manifest, hm, hdescribes⟩ := hms.node nodeId _ hfind
      obtain ⟨hphysical, hgroups⟩ := hdescribes.physical p rfl
      obtain rfl := Except.ok.inj h
      obtain rfl : p.nodeId = nodeId := nodeId_of_find hfind
      simp only [hm, bind, Except.bind, hphysical, if_true, hgroups, List.map_map]
      rfl
    · rename_i c hfind
      obtain ⟨manifest, hm, hdescribes⟩ := hms.node nodeId _ hfind
      obtain ⟨hphysical, hchildren⟩ := hdescribes.composite c rfl
      obtain ⟨leavess, hl, he⟩ := bind_eq_ok.1 h
      obtain rfl := Except.ok.inj he
      have hwalk : (c.children.map ChildRef.nodeId).mapM (leavesFor manifests d) =
          .ok (leavess.map (List.map Leaf.name)) := by
        refine mapM_eq_ok.2 (List.forall₂_map_left_iff.2 (List.forall₂_map_right_iff.2 ?_))
        exact (mapM_eq_ok.1 hl).imp fun child ls hls => ih hls
      simp only [hm, bind, Except.bind, hphysical, Bool.false_eq_true, if_false, hchildren, hwalk,
        List.map_flatten]

omit [Cbor F] [Sha256] in
/-- The runs that occupy a node of the registry, in the order of their IDs. -/
theorem occupyingRuns_eq_ok (hms : ManifestsOk R manifests) {d : ℕ} {pathPrefix : List Str}
    {aliased : Bool} {n : ControlNode F} {nodeId : Str} {leaves : List Registry.Leaf}
    (hn : R.find nodeId = some n)
    (h : R.leafPathsFrom d pathPrefix aliased nodeId = .ok leaves) (grants : List LeaseReceipt) :
    occupyingRuns manifests d grants nodeId =
      .ok (((grants.filter (occupies (leaves.map Leaf.name) n.resources n.safetyDomains)).map
        LeaseReceipt.runId).insertionSort fun a b => strLe a b = true) := by
  obtain ⟨manifest, hm, hdescribes⟩ := hms.node nodeId n hn
  unfold occupyingRuns
  simp only [hm, leavesFor_eq_ok hms h, bind, Except.bind, hdescribes.resources,
    hdescribes.safetyDomains]

/-- Every node of an accepted registry lists its leaves. -/
theorem exists_leafPaths (h : R.check = .ok ()) {nodeId : Str} {n : ControlNode F}
    (hn : R.find nodeId = some n) :
    ∃ leaves, R.leafPathsFrom R.depth [] false nodeId = .ok leaves := by
  have hid := nodeId_of_find hn
  cases n with
  | physical p =>
    exact ⟨_, by unfold Registry.depth Registry.leafPathsFrom; rw [hn]⟩
  | composite c =>
    obtain ⟨leaves, hleaves⟩ := (accepted_of_check h).paths c (List.mem_of_find?_eq_some hn)
    obtain rfl : c.nodeId = nodeId := hid
    exact ⟨leaves, hleaves⟩

theorem exists_displayFor (h : R.check = .ok ()) (hms : ManifestsOk R manifests) {d : ℕ}
    {pathPrefix : List Str} {aliased : Bool} {nodeId : Str} {leaves : List Registry.Leaf}
    (hl : R.leafPathsFrom d pathPrefix aliased nodeId = .ok leaves) (grants : List LeaseReceipt)
    (workerStates : Str → Option (Poll F)) :
    ∃ state, displayFor manifests R.depth grants workerStates d nodeId = .ok state := by
  induction d generalizing pathPrefix aliased nodeId leaves with
  | zero => cases hl
  | succ d ih =>
    unfold Registry.leafPathsFrom at hl
    unfold displayFor
    split at hl
    · cases hl
    · rename_i p hfind
      obtain ⟨manifest, hm, hdescribes⟩ := hms.node nodeId _ hfind
      obtain ⟨_, hpaths⟩ := exists_leafPaths h hfind
      simp only [hm, occupyingRuns_eq_ok hms hfind hpaths, bind, Except.bind,
        (hdescribes.physical p rfl).1, if_true]
      exact ⟨_, rfl⟩
    · rename_i c hfind
      obtain ⟨manifest, hm, hdescribes⟩ := hms.node nodeId _ hfind
      obtain ⟨hphysical, hchildren⟩ := hdescribes.composite c rfl
      obtain ⟨_, hpaths⟩ := exists_leafPaths h hfind
      obtain ⟨leavess, hls, -⟩ := bind_eq_ok.1 hl
      obtain ⟨states, -, hstates⟩ := exists_mapM_eq_ok (S := fun _ _ => True)
        (f := displayFor manifests R.depth grants workerStates d)
        (fun (ls : List Registry.Leaf) (childId : Str) (hchild : ∃ pathPrefix aliased,
          R.leafPathsFrom d pathPrefix aliased childId = .ok ls) => by
            obtain ⟨_, _, hchild⟩ := hchild
            obtain ⟨state, hstate⟩ := ih hchild
            exact ⟨state, trivial, hstate⟩)
        (List.forall₂_map_right_iff.2 ((mapM_eq_ok.1 hls).flip.imp fun _ _ hchild => ⟨_, _, hchild⟩))
      simp only [hm, occupyingRuns_eq_ok hms hfind hpaths, bind, Except.bind, hphysical,
        Bool.false_eq_true, if_false, hchildren, hstates]
      exact ⟨_, rfl⟩

theorem exists_nodeRecord (h : R.check = .ok ()) (hms : ManifestsOk R manifests) {nodeId : Str}
    {n : ControlNode F} (hn : R.find nodeId = some n) (grants : List LeaseReceipt)
    (workerStates : Str → Option (Poll F)) :
    ∃ record, nodeRecord manifests R.depth grants workerStates nodeId = .ok record := by
  obtain ⟨manifest, hm, -⟩ := hms.node nodeId n hn
  obtain ⟨leaves, hleaves⟩ := exists_leafPaths h hn
  obtain ⟨state, hstate⟩ := exists_displayFor h hms hleaves grants workerStates
  unfold nodeRecord
  simp only [hm, occupyingRuns_eq_ok hms hn hleaves, hstate, leavesFor_eq_ok hms hleaves, bind,
    Except.bind]
  exact ⟨_, rfl⟩

end Walks

/-! ## Active runs -/

/-- What an operator relies on: each run that holds a lease is shown as active and counted, and a run
that holds none is not shown as busy. -/
structure Truthful (m : LeaseManager) (state : OperationsState F) : Prop where
  held : ∀ r, (m.grantFor r).isSome → ∃ run ∈ state.runs, run.runId = r ∧ run.active = true
  counted : state.summary.activeRunCount = m.activeGrants.length
  quiet : ∀ run ∈ state.runs, m.grantFor run.runId = none →
    run.state ∉ [.running, .scheduled, .preparing, .occupied]

theorem exists_buildState {o : Observed F σ} (hR : o.registry.check = .ok ())
    (hj : Journaled o.journal) (workerStates : Str → Option (Poll F)) (now : Str → Instant) :
    ∃ state, buildState o workerStates now = .ok state ∧
      state.runs = (Ranked.descending RunRecord.key
        (recordsOf o.journal o.leaseManager now)).take o.recentRuns ∧
      state.summary.activeRunCount = (state.runs.filter RunRecord.active).length := by
  have hruns : projectRuns o.journal o.leaseManager.activeGrants now o.recentRuns o.recentEvents = _ :=
    projectRuns_eq hj.indexed o.recentRuns o.recentEvents
  obtain ⟨manifests, hmanifests, hms⟩ := manifestsOf_eq_ok hR
  have hnode : ∀ nodeId ∈ o.registry.nodeIds, ∃ record, nodeRecord manifests o.registry.depth
      o.leaseManager.activeGrants workerStates nodeId = .ok record := by
    intro nodeId hid
    obtain ⟨n, hn⟩ := Option.isSome_iff_exists.1 (mem_nodeIds.1 hid)
    exact exists_nodeRecord hR hms hn _ workerStates
  obtain ⟨nodes, hnodes⟩ := exists_mapM hnode
  unfold buildState
  simp only [hruns, Except.mapError, bind, Except.bind, hmanifests, hnodes]
  exact ⟨_, rfl, rfl, rfl⟩

/-- The state is built, and an operator can rely on it exactly when every run with a lease changed
later than all but `recent_runs - 1` others at most, and every run without a lease whose last event is
`phase.started` or `phase.scheduled` is cut off. -/
theorem buildState_truthful_iff {o : Observed F σ} (hR : o.registry.check = .ok ())
    (hj : Journaled o.journal) (hm : Leased o.leaseManager) (workerStates : Str → Option (Poll F))
    (now : Str → Instant) :
    ∃ state, buildState o workerStates now = .ok state ∧ (Truthful o.leaseManager state ↔
      (∀ r, (o.leaseManager.grantFor r).isSome →
        (changedAfter o.journal o.leaseManager now r).length < o.recentRuns) ∧
      ∀ r, o.leaseManager.grantFor r = none → Moving (latestType o.journal r) →
        o.recentRuns ≤ (changedAfter o.journal o.leaseManager now r).length) := by
  obtain ⟨state, hstate, hruns, hcount⟩ := exists_buildState hR hj workerStates now
  have hrecords : Records o.journal o.leaseManager now (recordsOf o.journal o.leaseManager now) :=
    records_recordsOf hm.inv
  refine ⟨state, hstate, fun h => ⟨fun r hr => ?_, ?_⟩, fun ⟨hheld, hcut⟩ => ⟨fun r hr => ?_, ?_, ?_⟩⟩
  · refine (hrecords.exists_active_iff hr).1 ?_
    rw [← hruns]
    exact h.held r hr
  · refine hrecords.quiet_iff.1 ?_
    rw [← hruns]
    exact h.quiet
  · rw [hruns]
    exact (hrecords.exists_active_iff hr).2 (hheld r hr)
  · rw [hcount, hruns]
    exact hrecords.length_active hheld
  · rw [hruns]
    exact hrecords.quiet_iff.2 hcut

end State

/-! ## Two servers an operator cannot rely on -/

section Demo

local instance shownHash : Sha256 := demoHash

/-- A server on which the lease `run` is held and its phase has started. -/
def runningServer : Observed ℚ Unit where
  registry := demoRegistry
  leaseManager := (({} : LeaseManager).acquire (py "run") [py "demo_robot.arm"] [] [] 7).1
  journal := (RunJournal.append persistNothing { store := () } (.str (py "run"))
    (dictOf [("type", .str (py "phase.started"))]) 5).1
  executionAvailable := true
  recentRuns := 24
  recentEvents := 80

/-- The same journal without the lease: the run was cut short. -/
def crashedServer : Observed ℚ Unit := { runningServer with leaseManager := {} }

/-- The lease is held by `other`, and of two runs one is shown. -/
def crowdedServer : Observed ℚ Unit := { runningServer with
  leaseManager := (({} : LeaseManager).acquire (py "other") [py "demo_robot.arm"] [] [] 7).1
  recentRuns := 1 }

theorem journaled_runningServer : Journaled runningServer.journal :=
  (Journaled.created ()).append persistNothing _ _ _

theorem eventsOf_runningServer {r : Str} (hr : r ≠ py "run") :
    runningServer.journal.eventsOf r = [] := by
  have hnew : ((RunJournal.newItem { store := () } (.str (py "run"))
      (dictOf [("type", .str (py "phase.started"))]) 5 :
      Except (JournalError ℚ) (JournalEvent ℚ)).toOption.map JournalEvent.runId) = some (py "run") := by
    decide +kernel
  obtain ⟨item, hitem, hid⟩ := Option.map_eq_some_iff.1 hnew
  have hjournal : runningServer.journal = ({ store := (), eventsByRun :=
      (∅ : Table Str (List (JournalEvent ℚ))).insert item.runId ([] ++ [item]) } : RunJournal ℚ Unit) := by
    show (RunJournal.append persistNothing _ _ _ _).1 = _
    unfold RunJournal.append
    rw [toOption_eq_some.1 hitem]
    rfl
  rw [hjournal, RunJournal.eventsOf, Table.get_insert, if_neg (by rw [hid]; exact hr), Table.get_empty]
  rfl

/-- The run that holds the lease and has started is shown as it is. -/
theorem buildState_truthful_running : ∃ state,
    buildState runningServer (fun _ => none) (fun _ => ⟨9, 9⟩) = .ok state ∧
      Truthful runningServer.leaseManager state := by
  obtain ⟨state, hstate, hiff⟩ := buildState_truthful_iff (o := runningServer) demoRegistry_accepted
    journaled_runningServer (Leased.created.acquired _ _ _ _ _) (fun _ => none) (fun _ => ⟨9, 9⟩)
  refine ⟨state, hstate, hiff.2 ⟨fun r _ => ?_, fun r hnone hmoving => ?_⟩⟩
  · refine Nat.lt_of_le_of_lt (List.length_filter_le _ _) ?_
    decide +kernel
  · obtain rfl | hr := eq_or_ne r (py "run")
    · exact absurd hnone (by decide +kernel)
    · rw [latestType, eventsOf_runningServer hr] at hmoving
      exact absurd hmoving (by decide)

/-- A run without a lease is shown as running, and a run with one is not shown. -/
theorem buildState_counterexample :
    (∃ state, buildState crashedServer (fun _ => none) (fun _ => ⟨9, 9⟩) = .ok state ∧
      ¬Truthful crashedServer.leaseManager state) ∧
    ∃ state, buildState crowdedServer (fun _ => none) (fun _ => ⟨0, 0⟩) = .ok state ∧
      ¬Truthful crowdedServer.leaseManager state := by
  constructor
  · obtain ⟨state, hstate, hruns, -⟩ := exists_buildState (o := crashedServer) demoRegistry_accepted
      journaled_runningServer (fun _ => none) (fun _ => ⟨9, 9⟩)
    refine ⟨state, hstate, fun h => ?_⟩
    have hrecords : Records crashedServer.journal crashedServer.leaseManager (fun _ => ⟨9, 9⟩)
      (recordsOf crashedServer.journal crashedServer.leaseManager fun _ => ⟨9, 9⟩) :=
      records_recordsOf LeaseManager.inv_empty
    have hquiet := h.quiet
    rw [hruns] at hquiet
    have hle := hrecords.quiet_iff.1 hquiet (py "run") rfl (by decide +kernel)
    exact absurd hle (by decide +kernel)
  · obtain ⟨state, hstate, hruns, -⟩ := exists_buildState (o := crowdedServer) demoRegistry_accepted
      journaled_runningServer (fun _ => none) (fun _ => ⟨0, 0⟩)
    refine ⟨state, hstate, fun h => ?_⟩
    have hrecords : Records crowdedServer.journal crowdedServer.leaseManager (fun _ => ⟨0, 0⟩)
      (recordsOf crowdedServer.journal crowdedServer.leaseManager fun _ => ⟨0, 0⟩) :=
      records_recordsOf (LeaseManager.inv_empty.acquire _ _ _ _ _)
    have hheld := h.held (py "other") (by decide +kernel)
    rw [hruns] at hheld
    exact absurd ((hrecords.exists_active_iff (by decide +kernel)).1 hheld) (by decide +kernel)

end Demo

end RemoteRobot.Operations
