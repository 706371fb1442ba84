import RemoteRobot.Lib.PyValue
import RemoteRobot.Lease

/-!
# The capability model

The records of `model.py` with the checks of their `__post_init__` methods, and the exceptions the
v2 modules raise.  A record exists in the program only after its check returned, so a registry is
built from records for which `postInit` is `ok`.
-/

namespace RemoteRobot

open Py

variable {F : Type}

/-! ## Exceptions -/

/-- An error text: the format string, with `%` where the source interpolates, and the
interpolated values. -/
structure Message (F : Type) where
  text : String
  args : List (Val F) := []

structure ProgramError (F : Type) where
  code : String
  message : Message F
  path : String := ""
  details : List (String × Val F) := []

/-- What the registry, the compiler and the orchestrator raise. -/
inductive Error (F : Type) where
  | builtin (e : Exc)
  | value (m : Message F)
  | registry (m : Message F)
  | program (e : ProgramError F)
  | lease (e : LeaseError)
  | authorization (m : Message F)
  | missingWorker (ids : List Str)
  | unsupportedProgramFeature (m : Message F)
  | runAlreadyActive (runId : Str)
  | runIdReuse (runId : Str)

/-- The exceptions of Python itself, inside the modules' own. -/
def liftExc {α : Type} : Except Exc α → Except (Error F) α
  | .ok a => .ok a
  | .error e => .error (.builtin e)

@[simp] theorem liftExc_ok {α : Type} (a : α) :
    liftExc (.ok a : Except Exc α) = (.ok a : Except (Error F) α) := rfl

@[simp] theorem liftExc_error {α : Type} (e : Exc) :
    liftExc (.error e : Except Exc α) = (.error (.builtin e) : Except (Error F) α) := rfl

/-! ## Identifiers -/

def requireIdentifier [PyText F] (value : Str) (fieldName : String) : Except (Error F) Unit :=
  match value with
  | [] => .error (.value ⟨fieldName ++ " must start with a letter", []⟩)
  | c :: _ =>
    if !PyText.isAlpha F c then .error (.value ⟨fieldName ++ " must start with a letter", []⟩)
    else if value.any fun c => !(PyText.isAlnum F c || c == 95 || c == 45) then
      .error (.value ⟨fieldName ++ " may contain only letters, numbers, '_' and '-': %",
        [.str value]⟩)
    else .ok ()

def requireUnique (values : List Str) (fieldName : String) : Except (Error F) Unit :=
  if values.Nodup then .ok () else .error (.value ⟨fieldName ++ " contains duplicates", []⟩)

/-- `if condition: raise ValueError(text)` -/
def raiseIf (condition : Bool) (text : String) : Except (Error F) Unit :=
  if condition then .error (.value ⟨text, []⟩) else .ok ()

/-! ## Actuator groups -/

structure AxisSpec (F : Type) where
  axisId : Str
  kind : Str
  unit : Str
  minimum : F
  maximum : F
  maxVelocity : Option F := none

/-- `_CANONICAL_UNITS` -/
def canonicalUnit (kind : Str) : Option Str :=
  if kind = py "revolute" then some (py "rad")
  else if kind = py "prismatic" then some (py "m")
  else if kind = py "normalized" then some (py "1")
  else none

def AxisSpec.postInit [PyFloat F] [PyText F] (a : AxisSpec F) : Except (Error F) Unit := do
  requireIdentifier a.axisId "axis_id"
  match canonicalUnit a.kind with
  | none => .error (.value ⟨"unsupported axis kind: %", [.str a.kind]⟩)
  | some requiredUnit =>
    if a.unit ≠ requiredUnit then
      .error (.value ⟨"% axis % must use canonical unit %",
        [.str a.kind, .str a.axisId, .str requiredUnit]⟩)
    else .ok ()
  raiseIf (!PyFloat.isFinite a.minimum || !PyFloat.isFinite a.maximum) "axis bounds must be finite"
  raiseIf (PyFloat.le a.maximum a.minimum) "axis minimum must be less than maximum"
  match a.maxVelocity with
  | none => .ok ()
  | some v =>
    raiseIf (!PyFloat.isFinite v || PyFloat.le v (PyFloat.lit 0))
      "max_velocity must be finite and positive"
  raiseIf (a.kind == py "normalized" && (PyFloat.lt a.minimum (PyFloat.lit 0) ||
    PyFloat.lt (PyFloat.lit 1) a.maximum)) "normalized axis bounds must lie within [0, 1]"

/-- A tuple of strings as a JSON array. -/
def strList (xs : List Str) : Val F := .list (xs.map .str)

/-- The strings of a list, when it holds nothing else. -/
def allStr : List (Val F) → Option (List Str)
  | [] => some []
  | .str s :: vs => (allStr vs).map (s :: ·)
  | _ :: _ => none

def optInt : Option ℤ → Val F
  | none => .none
  | some n => .int n

def AxisSpec.publicDict (a : AxisSpec F) : Val F :=
  dictOf ([("axis_id", Val.str a.axisId), ("kind", .str a.kind), ("unit", .str a.unit),
      ("minimum", .float a.minimum), ("maximum", .float a.maximum)] ++
    match a.maxVelocity with
    | none => []
    | some v => [("max_velocity", .float v)])

structure ActuatorGroupSpec (F : Type) where
  groupId : Str
  axes : List (AxisSpec F)
  commandSchemas : List Str
  telemetrySchemas : List Str
  controlRateHz : F

def ActuatorGroupSpec.postInit [PyFloat F] [PyText F] (g : ActuatorGroupSpec F) :
    Except (Error F) Unit := do
  requireIdentifier g.groupId "group_id"
  raiseIf g.axes.isEmpty "group must contain at least one axis"
  requireUnique (g.axes.map AxisSpec.axisId) "group axis IDs"
  raiseIf g.commandSchemas.isEmpty "a group must publish at least one command schema"
  raiseIf g.telemetrySchemas.isEmpty "a group must publish at least one telemetry schema"
  requireUnique g.commandSchemas "command_schemas"
  requireUnique g.telemetrySchemas "telemetry_schemas"
  raiseIf ((g.commandSchemas ++ g.telemetrySchemas).any fun s => s.isEmpty || !s.contains 47)
    "schema must be a non-empty versioned name"
  raiseIf (!PyFloat.isFinite g.controlRateHz || PyFloat.le g.controlRateHz (PyFloat.lit 0))
    "control_rate_hz must be finite and positive"

def ActuatorGroupSpec.publicDict (g : ActuatorGroupSpec F) : Val F :=
  dictOf [("group_id", .str g.groupId), ("dimension", .int g.axes.length),
    ("axes", .list (g.axes.map AxisSpec.publicDict)),
    ("command_schemas", strList g.commandSchemas),
    ("telemetry_schemas", strList g.telemetrySchemas),
    ("control_rate_hz", .float g.controlRateHz)]

structure WatchdogSpec where
  strategy : Str
  deadlineMs : Option ℤ
  expiryAction : Str
  workerCrashSafe : Bool
  unattendedOperationAllowed : Bool
  deriving DecidableEq

def WatchdogSpec.postInit (w : WatchdogSpec) : Except (Error F) Unit := do
  raiseIf w.strategy.isEmpty "watchdog strategy must not be empty"
  raiseIf (w.deadlineMs.any (· ≤ 0)) "watchdog deadline_ms must be positive"
  raiseIf w.expiryAction.isEmpty "watchdog expiry_action must not be empty"
  raiseIf (w.unattendedOperationAllowed && !w.workerCrashSafe)
    "unattended operation requires an independent worker-crash-safe watchdog"

def WatchdogSpec.publicDict (w : WatchdogSpec) : Val F :=
  dictOf [("strategy", .str w.strategy), ("deadline_ms", optInt w.deadlineMs),
    ("expiry_action", .str w.expiryAction), ("worker_crash_safe", .bool w.workerCrashSafe),
    ("unattended_operation_allowed", .bool w.unattendedOperationAllowed)]

/-! ## Control nodes -/

structure ChildRef where
  role : Str
  nodeId : Str
  «alias» : Bool := false
  deriving DecidableEq

def ChildRef.postInit [PyText F] (c : ChildRef) : Except (Error F) Unit := do
  requireIdentifier c.role "child role"
  requireIdentifier c.nodeId "child node_id"

structure PhysicalNode (F : Type) where
  nodeId : Str
  revision : ℤ
  exposedAsRunRoot : Bool
  adapter : Str
  adapterRevision : ℤ
  configurationRevision : ℤ
  groups : List (ActuatorGroupSpec F)
  resources : List Str := []
  safetyDomains : List Str := []
  safetyPolicies : List Str := []
  crossCollisionChecked : Bool := false
  watchdog : Option WatchdogSpec := none
  connection : Dict F := []

def PhysicalNode.postInit [PyText F] (n : PhysicalNode F) : Except (Error F) Unit := do
  requireIdentifier n.nodeId "node_id"
  raiseIf (n.revision ≤ 0 || n.adapterRevision ≤ 0 || n.configurationRevision ≤ 0)
    "node, adapter, and configuration revisions must be positive"
  raiseIf n.adapter.isEmpty "adapter must not be empty"
  raiseIf n.groups.isEmpty "physical node must publish at least one group"
  requireUnique (n.groups.map ActuatorGroupSpec.groupId) "group IDs"
  requireUnique n.resources "resources"
  requireUnique n.safetyDomains "safety_domains"
  requireUnique n.safetyPolicies "safety_policies"

/-- `PhysicalNode.group`; a missing group is a `KeyError`. -/
def PhysicalNode.group (n : PhysicalNode F) (groupId : Str) : Option (ActuatorGroupSpec F) :=
  n.groups.find? fun g => g.groupId = groupId

structure CompositeNode where
  nodeId : Str
  revision : ℤ
  exposedAsRunRoot : Bool
  children : List ChildRef
  resources : List Str := []
  safetyDomains : List Str := []
  safetyPolicies : List Str := []
  crossCollisionChecked : Bool := false
  maxStartSkewUs : Option ℤ := none
  deriving DecidableEq

def CompositeNode.postInit [PyText F] (n : CompositeNode) : Except (Error F) Unit := do
  requireIdentifier n.nodeId "node_id"
  raiseIf (n.revision ≤ 0) "node revision must be positive"
  raiseIf n.children.isEmpty "composite node must contain at least one child"
  requireUnique (n.children.map ChildRef.role) "child roles"
  requireUnique n.resources "resources"
  requireUnique n.safetyDomains "safety_domains"
  requireUnique n.safetyPolicies "safety_policies"
  raiseIf (n.maxStartSkewUs.any (· ≤ 0)) "max_start_skew_us must be positive"

/-- `CompositeNode.child`; a missing role is a `KeyError`. -/
def CompositeNode.child (n : CompositeNode) (role : Str) : Option ChildRef :=
  n.children.find? fun c => c.role = role

inductive ControlNode (F : Type) where
  | physical (n : PhysicalNode F)
  | composite (n : CompositeNode)

namespace ControlNode

def nodeId : ControlNode F → Str
  | physical n => n.nodeId
  | composite n => n.nodeId

def kind : ControlNode F → Str
  | physical _ => py "physical"
  | composite _ => py "composite"

def revision : ControlNode F → ℤ
  | physical n => n.revision
  | composite n => n.revision

def exposedAsRunRoot : ControlNode F → Bool
  | physical n => n.exposedAsRunRoot
  | composite n => n.exposedAsRunRoot

def resources : ControlNode F → List Str
  | physical n => n.resources
  | composite n => n.resources

def safetyDomains : ControlNode F → List Str
  | physical n => n.safetyDomains
  | composite n => n.safetyDomains

def safetyPolicies : ControlNode F → List Str
  | physical n => n.safetyPolicies
  | composite n => n.safetyPolicies

def crossCollisionChecked : ControlNode F → Bool
  | physical n => n.crossCollisionChecked
  | composite n => n.crossCollisionChecked

/-- The references to other nodes; a physical node has none. -/
def children : ControlNode F → List ChildRef
  | physical _ => []
  | composite n => n.children

/-- The checks of the node's own record and of the records inside it. -/
def postInit [PyFloat F] [PyText F] : ControlNode F → Except (Error F) Unit
  | physical n => do
    n.groups.forM fun g => do
      g.axes.forM AxisSpec.postInit
      g.postInit
    match n.watchdog with
    | none => .ok ()
    | some w => w.postInit
    n.postInit
  | composite n => do
    n.children.forM ChildRef.postInit
    n.postInit

end ControlNode

structure ResolvedGroup (F : Type) where
  rootNodeId : Str
  rolePath : Str
  physicalNodeId : Str
  groupId : Str
  group : ActuatorGroupSpec F

/-! ## Identities -/

structure IdentitySpec where
  identityId : Str
  credentialEnv : Str
  discover : List Str
  observe : List Str
  control : List Str
  emergencyStop : List Str
  deriving DecidableEq

def IdentitySpec.postInit [PyText F] (i : IdentitySpec) : Except (Error F) Unit := do
  requireIdentifier i.identityId "identity_id"
  raiseIf i.credentialEnv.isEmpty "credential_env must not be empty"
  requireUnique i.discover "discover scopes"
  requireUnique i.observe "observe scopes"
  requireUnique i.control "control scopes"
  requireUnique i.emergencyStop "emergency_stop scopes"

def IdentitySpec.canDiscover (i : IdentitySpec) (nodeId : Str) : Bool :=
  i.discover.contains (py "*") || i.discover.contains nodeId

/-- `can_control` with a role path -/
def IdentitySpec.canControl (i : IdentitySpec) (nodeId rolePath : Str) : Bool :=
  i.control.contains (py "*") || i.control.contains nodeId ||
    i.control.contains (nodeId ++ py ".*") || i.control.contains (nodeId ++ py "." ++ rolePath)

end RemoteRobot
