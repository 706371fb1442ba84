import RemoteRobot.Model
import RemoteRobot.Lib.CborCodec

/-!
# The capability registry

`Registry` is what the constructor of `CapabilityRegistry` is given: a server ID, nodes keyed by
their ID and identities.  `check` is the constructor's validation, and a `CapabilityRegistry` is a
registry that passes it.  The recursive methods carry a recursion depth; the number of nodes
bounds the depth of an acyclic graph.  The memo tables of the source only save work and are left
out.
-/

namespace RemoteRobot

open Py

variable {F : Type}

structure Registry (F : Type) where
  serverId : Str
  nodes : List (ControlNode F)
  identities : List IdentitySpec

/-- `canonical_cbor_sha256` -/
def canonicalCborSha256 [Cbor F] [Sha256] (v : Val F) : Except (Error F) Str :=
  liftExc ((Cbor.dumps v).map hexdigest)

namespace Registry

/-! ## Lookup -/

def find (R : Registry F) (nodeId : Str) : Option (ControlNode F) :=
  R.nodes.find? fun n => n.nodeId = nodeId

def node (R : Registry F) (nodeId : Str) : Except (Error F) (ControlNode F) :=
  match R.find nodeId with
  | some n => .ok n
  | none => .error (.registry ⟨"unknown node: %", [.str nodeId]⟩)

def identity (R : Registry F) (identityId : Str) : Except (Error F) IdentitySpec :=
  match R.identities.find? fun i => i.identityId = identityId with
  | some i => .ok i
  | none => .error (.registry ⟨"unknown identity: %", [.str identityId]⟩)

/-- The loop of `resolve_group`: follow roles until a physical node; returns it with the segments
that are left. -/
def descend (R : Registry F) (rolePath : Str) : ControlNode F → List Str →
    Except (Error F) (PhysicalNode F × List Str)
  | .physical p, segments => .ok (p, segments)
  | .composite _, [] => .error (.registry ⟨"role path % stops at a composite node", [.str rolePath]⟩)
  | .composite c, role :: segments =>
    match c.child role with
    | none => .error (.registry ⟨"composite % has no child role %", [.str c.nodeId, .str role]⟩)
    | some child => do
      let next ← R.node child.nodeId
      R.descend rolePath next segments

def resolveGroup (R : Registry F) (rootId rolePath : Str) : Except (Error F) (ResolvedGroup F) := do
  if rolePath = [] ∨ rolePath.head? = some 46 ∨ rolePath.getLast? = some 46 then
    .error (.registry ⟨"role path must not be empty or have empty segments", []⟩)
  else if (split 46 rolePath).any List.isEmpty then
    .error (.registry ⟨"role path contains an empty segment", []⟩)
  else
    let root ← R.node rootId
    let (current, rest) ← R.descend rolePath root (split 46 rolePath)
    match rest with
    | [groupId] =>
      match current.group groupId with
      | none => .error (.registry ⟨"physical node % has no group %",
          [.str current.nodeId, .str groupId]⟩)
      | some group => .ok ⟨rootId, rolePath, current.nodeId, groupId, group⟩
    | _ => .error (.registry ⟨"role path % has extra segments after physical node %",
        [.str rolePath, .str current.nodeId]⟩)

/-! ## Graph validation -/

/-- The bound on the depth of every recursion over the graph. -/
def depth (R : Registry F) : ℕ := R.nodes.length + 1

/-- The depth-first search of `_validate_graph`; returns the visited nodes. -/
def visit (R : Registry F) : ℕ → List Str → List Str → Str → Except (Error F) (List Str)
  | 0, _, _, _ => .error (.builtin .recursionError)
  | d + 1, visiting, visited, nodeId =>
    if nodeId ∈ visiting then
      .error (.registry ⟨"control-node cycle: %",
        [strList (visiting.dropWhile (· ≠ nodeId) ++ [nodeId])]⟩)
    else if nodeId ∈ visited then .ok visited
    else match R.find nodeId with
      | none => .error (.builtin .keyError)
      | some n => do
        let visited ← n.children.foldlM (fun seen c => R.visit d (visiting ++ [nodeId]) seen c.nodeId)
          visited
        .ok (visited ++ [nodeId])

def nodeIds (R : Registry F) : List Str := sortedSet (R.nodes.map ControlNode.nodeId)

def validateGraph (R : Registry F) : Except (Error F) Unit := do
  R.nodes.forM fun n => n.children.forM fun c =>
    match R.find c.nodeId with
    | some _ => .ok ()
    | none => .error (.registry ⟨"composite % references missing node %",
        [.str n.nodeId, .str c.nodeId]⟩)
  let _ ← R.nodeIds.foldlM (fun seen nodeId => R.visit R.depth [] seen nodeId) []
  .ok ()

/-- A leaf of the graph: its physical node and group, the role path to it, and whether an aliased
reference is on that path. -/
structure Leaf where
  canonical : Str × Str
  path : Str
  aliased : Bool
  deriving DecidableEq

/-- `".".join(segments)` -/
def joinPath : List Str → Str
  | [] => []
  | [s] => s
  | s :: segments => s ++ py "." ++ joinPath segments

def leafPathsFrom (R : Registry F) : ℕ → List Str → Bool → Str → Except (Error F) (List Leaf)
  | 0, _, _, _ => .error (.builtin .recursionError)
  | d + 1, pathPrefix, aliased, nodeId =>
    match R.find nodeId with
    | none => .error (.builtin .keyError)
    | some (.physical p) => .ok (p.groups.map fun g =>
        ⟨(p.nodeId, g.groupId), joinPath (pathPrefix ++ [g.groupId]), aliased⟩)
    | some (.composite c) => do
      let leaves ← c.children.mapM fun child =>
        R.leafPathsFrom d (pathPrefix ++ [child.role]) (aliased || child.«alias») child.nodeId
      .ok leaves.flatten

def leafPaths (R : Registry F) (nodeId : Str) : Except (Error F) (List Leaf) :=
  R.leafPathsFrom R.depth [] false nodeId

def validateCompositeAliases (R : Registry F) (c : CompositeNode) : Except (Error F) Unit := do
  let leaves ← R.leafPaths c.nodeId
  (leaves.map Leaf.canonical).dedup.forM fun canonical =>
    let paths := leaves.filter fun l => l.canonical = canonical
    if paths.length = 1 ∨ (paths.filter fun l => !l.aliased).length = 1 then .ok ()
    else .error (.registry ⟨"composite % reaches leaf % through ambiguous paths: %",
      [.str c.nodeId, .str (canonical.1 ++ py "." ++ canonical.2), strList (paths.map Leaf.path)]⟩)

/-- `value.partition(".")`, without the separator when there is none. -/
def partitionDot (value : Str) : Str × Option Str :=
  match split 46 value with
  | [] => ([], none)
  | [root] => (root, none)
  | root :: rest => (root, some (joinPath rest))

def validateIdentityScopes (R : Registry F) (i : IdentitySpec) : Except (Error F) Unit := do
  (i.discover ++ i.observe ++ i.emergencyStop).forM fun value =>
    if value = py "*" ∨ (R.find value).isSome then .ok ()
    else .error (.registry ⟨"identity % has unknown scope %", [.str i.identityId, .str value]⟩)
  i.control.forM fun value =>
    if value = py "*" then .ok ()
    else
      let (rootId, rest) := partitionDot value
      if (R.find rootId).isNone then
        .error (.registry ⟨"identity % has unknown control root %", [.str i.identityId, .str rootId]⟩)
      else match rest with
        | none => .ok ()
        | some rolePath =>
          if rolePath = py "*" then .ok ()
          else do
            let _ ← R.resolveGroup rootId rolePath
            .ok ()

/-! ## Manifests -/

/-- The physical nodes below a node, in the order of the walk. -/
def collectPhysical (R : Registry F) : ℕ → Str → Except (Error F) (List (PhysicalNode F))
  | 0, _ => .error (.builtin .recursionError)
  | d + 1, nodeId =>
    match R.find nodeId with
    | none => .error (.builtin .keyError)
    | some (.physical p) => .ok [p]
    | some (.composite c) => do
      let found ← c.children.mapM fun child => R.collectPhysical d child.nodeId
      .ok found.flatten

/-- `_physical_descendants`: each node once, in the order of the IDs. -/
def physicalDescendants (R : Registry F) (nodeId : Str) : Except (Error F) (List (PhysicalNode F)) := do
  let found ← R.collectPhysical R.depth nodeId
  .ok ((sortedSet (found.map PhysicalNode.nodeId)).filterMap fun i => found.find? fun p => p.nodeId = i)

def commonManifest (R : Registry F) (n : ControlNode F) : List (String × Val F) :=
  [("protocol", .str (py "robot-stream.v2")), ("server_id", .str R.serverId),
    ("node_id", .str n.nodeId), ("kind", .str n.kind), ("revision", .int n.revision),
    ("exposed_as_run_root", .bool n.exposedAsRunRoot), ("resources", strList n.resources),
    ("safety_domains", strList n.safetyDomains),
    ("safety", dictOf [("policies", strList n.safetyPolicies),
      ("cross_collision_checked", .bool n.crossCollisionChecked)])]

def physicalManifest (p : PhysicalNode F) : List (String × Val F) :=
  [("adapter", dictOf [("name", .str p.adapter), ("revision", .int p.adapterRevision)]),
    ("configuration_revision", .int p.configurationRevision),
    ("groups", .list (p.groups.map ActuatorGroupSpec.publicDict)),
    ("watchdog", match p.watchdog with
      | none => .none
      | some w => w.publicDict)]

/-- The claim a composite makes when every physical node below it has a watchdog making it. -/
def assurance (physical : List (PhysicalNode F)) (flag : WatchdogSpec → Bool) : Bool :=
  0 < physical.length && (physical.filterMap PhysicalNode.watchdog).length == physical.length &&
    (physical.filterMap PhysicalNode.watchdog).all flag

def compositeManifest (c : CompositeNode) (children : List (Val F))
    (physical : List (PhysicalNode F)) : List (String × Val F) :=
  [("children", .list children), ("max_start_skew_us", optInt c.maxStartSkewUs),
    ("assurances", dictOf
      [("worker_crash_safe", .bool (assurance physical WatchdogSpec.workerCrashSafe)),
       ("unattended_operation_allowed",
        .bool (assurance physical WatchdogSpec.unattendedOperationAllowed))])]

section Manifest

variable [Cbor F] [Sha256]

/-- The manifest with the digest of its body, as its named fields. -/
def sealManifest (body : List (String × Val F)) : Except (Error F) (List (String × Val F)) := do
  let digest ← canonicalCborSha256 (dictOf body)
  .ok (body ++ [("manifest_hash", Val.str digest)])

def childManifest (child : ChildRef) (manifest : List (String × Val F)) :
    Except (Error F) (Val F) := do
  let hash ← liftExc ((dictOf manifest).getItem "manifest_hash")
  .ok (dictOf [("role", .str child.role), ("node_id", .str child.nodeId),
    ("alias", .bool child.«alias»), ("manifest_hash", hash), ("manifest", dictOf manifest)])

def manifestFrom (R : Registry F) : ℕ → Str → Except (Error F) (List (String × Val F))
  | 0, _ => .error (.builtin .recursionError)
  | d + 1, nodeId => do
    let n ← R.node nodeId
    match n with
    | .physical p => sealManifest (R.commonManifest n ++ physicalManifest p)
    | .composite c =>
      let children ← c.children.mapM fun child => do
        let m ← R.manifestFrom d child.nodeId
        childManifest child m
      let physical ← R.physicalDescendants n.nodeId
      sealManifest (R.commonManifest n ++ compositeManifest c children physical)

/-- `describe` without an identity -/
def describe (R : Registry F) (nodeId : Str) : Except (Error F) (Val F) :=
  (R.manifestFrom R.depth nodeId).map dictOf

/-- `describe` for an identity -/
def describeFor (R : Registry F) (nodeId identityId : Str) : Except (Error F) (Val F) := do
  let i ← R.identity identityId
  if i.canDiscover nodeId then R.describe nodeId
  else .error (.registry ⟨"identity % is not allowed to discover %",
    [.str identityId, .str nodeId]⟩)

def listRobots (R : Registry F) (identityId : Str) : Except (Error F) (List (Val F)) := do
  let i ← R.identity identityId
  let shown := R.nodeIds.filter fun nodeId =>
    (R.find nodeId).any ControlNode.exposedAsRunRoot && i.canDiscover nodeId
  shown.mapM R.describe

def manifestHash [PyText F] (R : Registry F) (nodeId : Str) : Except (Error F) Str := do
  let m ← R.describe nodeId
  let hash ← liftExc (m.getItem "manifest_hash")
  .ok hash.toStr

/-! ## The constructor -/

variable [PyFloat F] [PyText F]

/-- Everything that has to succeed for the registry to exist: the records it is built from, the
validation, and the manifest of every node. -/
def check (R : Registry F) : Except (Error F) Unit := do
  R.nodes.forM ControlNode.postInit
  R.identities.forM IdentitySpec.postInit
  requireUnique (R.nodes.map ControlNode.nodeId) "node IDs"
  requireUnique (R.identities.map IdentitySpec.identityId) "identity IDs"
  if R.serverId = [] then .error (.registry ⟨"server_id must not be empty", []⟩) else .ok ()
  R.validateGraph
  R.nodes.forM fun n => match n with
    | .physical _ => .ok ()
    | .composite c => R.validateCompositeAliases c
  R.identities.forM R.validateIdentityScopes
  R.nodeIds.forM fun nodeId => do
    let _ ← R.describe nodeId
    .ok ()

end Manifest

end Registry

/-- A registry the constructor accepts. -/
structure CapabilityRegistry (F : Type) [Cbor F] [Sha256] [PyFloat F] [PyText F] extends
    Registry F where
  accepted : toRegistry.check = .ok ()

/-! ## A small registry -/

section Demo

/-- One axis of a demo group. -/
def demoAxis (axisId : String) : AxisSpec ℚ :=
  { axisId := py axisId, kind := py "normalized", unit := py "1", minimum := 0, maximum := 1 }

def demoGroup (groupId axisId : String) : ActuatorGroupSpec ℚ :=
  { groupId := py groupId, axes := [demoAxis axisId]
    commandSchemas := [py "normalized_position_trajectory/v1"]
    telemetrySchemas := [py "axis_state/v1"], controlRateHz := 50 }

/-- One robot with two groups and neither resources nor safety domains. -/
def demoRobot : PhysicalNode ℚ :=
  { nodeId := py "demo_robot", revision := 1, exposedAsRunRoot := true
    adapter := py "remote_robot.simulator", adapterRevision := 1, configurationRevision := 1
    groups := [demoGroup "arm" "base", demoGroup "gripper" "opening"] }

def demoOperator : IdentitySpec :=
  { identityId := py "example_operator", credentialEnv := py "REMOTE_ROBOT_EXAMPLE_TOKEN"
    discover := [py "demo_robot"], observe := [py "demo_robot"], control := [py "demo_robot.*"]
    emergencyStop := [py "demo_robot"] }

def demoRegistry : Registry ℚ :=
  { serverId := py "example-server", nodes := [.physical demoRobot], identities := [demoOperator] }

end Demo

end RemoteRobot
