import RemoteRobot.Program.Artifact

/-!
# What a run decides before it touches a worker

`preflight` decodes the artifact again, validates it against the registry and authorises its role
paths.  `lockRequirements` reads the lock set off the outline and the root's manifest,
`participantWorkerIds` reads the workers off the phase payloads, and `workerPhasePlans` splits one
phase payload into the plans of its workers.  The three walk the same artifact separately.
-/

namespace RemoteRobot

open Py Except

variable {F : Type}

/-! ## Small readers -/

/-- `_plain_mapping` -/
def plainMapping (value : Val F) (label : String) : Except (Error F) (Dict F) :=
  match value with
  | .dict kvs => .ok kvs
  | _ => .error <| programError "INVALID_ARTIFACT" (label ++ " must be a mapping")

/-- `_string_list` -/
def stringList (value : Val F) (label : String) : Except (Error F) (List Str) :=
  match value with
  | .none => .ok []
  | .list vs => match allStr vs with
    | some ss => .ok ss
    | none => .error <| programError "INVALID_MANIFEST" (label ++ " must be an array of strings")
  | _ => .error <| programError "INVALID_MANIFEST" (label ++ " must be an array of strings")

/-! ## Authorisation -/

/-- The role paths the identity may not control. -/
def deniedPaths (identity : IdentitySpec) (rootId : Str) (rolePaths : List Str) : List Str :=
  (sortedSet rolePaths).filter fun rolePath => !identity.canControl rootId rolePath

/-- `RegistryControlAuthorizer.require_control` -/
def requireControl (R : Registry F) (identityId rootId : Str) (rolePaths : List Str) :
    Except (Error F) Unit :=
  match R.identity identityId with
  | .error _ => .error (.authorization ⟨"unknown identity %", [.str identityId]⟩)
  | .ok identity =>
    raiseWhen (deniedPaths identity rootId rolePaths ≠ [])
      (.authorization ⟨"identity % cannot control % roles %",
        [.str identityId, .str rootId, strList (deniedPaths identity rootId rolePaths)]⟩)

section Preflight

variable [Cbor F] [Sha256] [PyFloat F] [PyText F]

/-- The role path of one sequence. -/
def sequenceRolePath (sequence : Val F) : Except (Error F) Str := do
  let sequenceMap ← plainMapping sequence "phase sequence"
  match field "role_path" sequenceMap with
  | .str rolePath => .ok rolePath
  | _ => .error <| programError "INVALID_ARTIFACT" "sequence role_path is invalid"

/-- The role paths of one phase, after the checks of what is implemented. -/
def phaseRolePaths (phase : Val F) : Except (Error F) (List Str) := do
  raiseWhen (Val.eq (← liftExc (phase.get "completion")) defaultCompletion = false)
    (.unsupportedProgramFeature ⟨"only all_sequences_finished/v1 completion is implemented", []⟩)
  raiseWhen ((← liftExc (phase.get "transitions")).truthy = true)
    (.unsupportedProgramFeature
      ⟨"mode transitions are retained by the format but not executable yet", []⟩)
  let sequences ← liftExc (← phaseSequences phase).iter
  sequences.mapM sequenceRolePath
where
  /-- `phase.get("sequences", ())` -/
  phaseSequences : Val F → Except (Error F) (Val F)
    | .dict kvs => .ok ((lookup (py "sequences") kvs).getD (.tuple []))
    | _ => .error (.builtin .attributeError)

def preflight (R : Registry F) (identityId : Str) (program : CompiledProgram F) :
    Except (Error F) (CompiledProgram F) := do
  let data ← program.toBytes
  let checked ← fromBytes data
  validateForCurrentRegistry R checked
  let phases ← checked.phases
  let rolePaths ← phases.mapM phaseRolePaths
  let rootId ← checked.rootId
  requireControl R identityId rootId rolePaths.flatten
  .ok checked

/-! ## The lock set -/

structure LockRequirements where
  leaves : List Str
  resources : List Str
  safetyDomains : List Str
  deriving DecidableEq

def LockRequirements.empty : LockRequirements := ⟨[], [], []⟩

def LockRequirements.union (a b : LockRequirements) : LockRequirements :=
  ⟨a.leaves ++ b.leaves, a.resources ++ b.resources, a.safetyDomains ++ b.safetyDomains⟩

/-- The locks a manifest declares itself. -/
def manifestLocks (current : Dict F) : Except (Error F) LockRequirements := do
  let resources ← stringList ((lookup (py "resources") current).getD (.list [])) "manifest resources"
  let safetyDomains ← stringList ((lookup (py "safety_domains") current).getD (.list []))
    "manifest safety_domains"
  .ok ⟨[], resources, safetyDomains⟩

/-- `isinstance(child, Mapping) and child.get("role") == role` -/
def hasRole (role : Str) : Val F → Bool
  | .dict child => Val.eq (field "role" child) (.str role)
  | _ => false

/-- The manifest below a composite, for one role. -/
def childManifestOf (role : Str) (current : Dict F) : Except (Error F) (Dict F) :=
  match field "children" current with
  | .list children =>
    match children.filter (hasRole role) with
    | [.dict child] => plainMapping (field "manifest" child) "child manifest"
    | _ => .error <| programError "INVALID_MANIFEST" "manifest has no unique child role %" "" [.str role]
  | _ => .error <| programError "INVALID_MANIFEST" "composite children are invalid"

def collectRoleBranchLocks (expectedPhysicalId : Str) :
    Dict F → List Str → Except (Error F) LockRequirements
  | current, segments => do
    let locks ← manifestLocks current
    if Val.eq (field "kind" current) (.str (py "physical")) then
      if Val.eq (field "node_id" current) (.str expectedPhysicalId) && segments.length == 1 then
        .ok locks
      else
        .error <| programError "INVALID_ARTIFACT" "role path and resolved physical target disagree"
    else if Val.eq (field "kind" current) (.str (py "composite")) then
      match segments with
      | role :: next :: segments => do
        let child ← childManifestOf role current
        let rest ← collectRoleBranchLocks expectedPhysicalId child (next :: segments)
        .ok (locks.union rest)
      | _ => .error <| programError "INVALID_MANIFEST" "role path cannot traverse manifest"
    else .error <| programError "INVALID_MANIFEST" "role path cannot traverse manifest"
  termination_by structural _ segments => segments

/-- The locks of one sequence of the outline. -/
def outlineSequenceLocks (manifest : Dict F) (sequence : Val F) :
    Except (Error F) LockRequirements := do
  let item ← plainMapping sequence "outline sequence"
  let target ← plainMapping (field "resolved_target" item) "resolved target"
  match field "physical_node_id" target, field "group_id" target, field "role_path" item with
  | .str physicalId, .str groupId, .str rolePath =>
    let branch ← collectRoleBranchLocks physicalId manifest (split 46 rolePath)
    .ok (LockRequirements.union ⟨[physicalId ++ py "." ++ groupId], [], []⟩ branch)
  | _, _, _ => .error <| programError "INVALID_ARTIFACT" "outline target is invalid"

def unionLocks (locks : List LockRequirements) : LockRequirements :=
  locks.foldr LockRequirements.union .empty

def outlinePhaseLocks (manifest : Dict F) (phase : Val F) : Except (Error F) LockRequirements := do
  let phaseMap ← plainMapping phase "outline phase"
  match field "sequences" phaseMap with
  | .list sequences => do
    let locks ← sequences.mapM (outlineSequenceLocks manifest)
    .ok (unionLocks locks)
  | _ => .error <| programError "INVALID_ARTIFACT" "outline sequences must be an array"

def lockRequirements (R : Registry F) (program : CompiledProgram F) :
    Except (Error F) LockRequirements := do
  let rootId ← program.rootId
  let manifest ← plainMapping (← R.describe rootId) "root capability manifest"
  let outline ← plainMapping (← program.outline) "program outline"
  match field "phases" outline with
  | .list phases => do
    let locks ← phases.mapM (outlinePhaseLocks manifest)
    .ok (unionLocks locks)
  | _ => .error <| programError "INVALID_ARTIFACT" "outline phases must be an array"

/-! ## Workers and plans -/

/-- The worker of one sequence. -/
def sequenceWorkerId (sequence : Val F) : Except (Error F) Str := do
  let target ← plainMapping (← liftExc (sequence.get "resolved_target")) "resolved target"
  match field "physical_node_id" target with
  | .str physicalId => .ok physicalId
  | _ => .error <| programError "INVALID_ARTIFACT" "physical node id is invalid"

def phaseWorkerIds (phase : Val F) : Except (Error F) (List Str) := do
  let sequences ← liftExc (← phaseRolePaths.phaseSequences phase).iter
  sequences.mapM sequenceWorkerId

/-- `_participant_worker_ids`, in the order of the IDs -/
def participantWorkerIds (program : CompiledProgram F) : Except (Error F) (List Str) := do
  let ids ← (← program.phases).mapM phaseWorkerIds
  .ok (sortedSet ids.flatten)

/-- The plan of one worker for one phase. -/
structure PhasePlan (F : Type) where
  runId : Str
  phaseExecutionId : Str
  rootId : Str
  manifestHash : Str
  phaseId : Val F
  durationUs : Val F
  completion : Dict F
  tracks : List (Val F)

/-- `dict(x)` of a mapping -/
def toDict : Val F → Except (Error F) (Dict F)
  | .dict kvs => .ok kvs
  | _ => .error (.builtin .typeError)

/-- A sequence with the worker it goes to. -/
def track (sequence : Val F) : Except (Error F) (Str × Val F) := do
  let target ← plainMapping (← liftExc (sequence.getItem "resolved_target")) "resolved target"
  let physicalId ← liftExc ((Val.dict target).getItem "physical_node_id")
  .ok (physicalId.toStr, .dict (← toDict sequence))

/-- The digest of a phase, long enough to name the execution. -/
def phaseDigest (value : Val F) : Except (Error F) Str :=
  match value with
  | .str sha =>
    if sha.length < 12 then .error <| programError "INVALID_ARTIFACT" "phase digest is invalid"
    else .ok sha
  | _ => .error <| programError "INVALID_ARTIFACT" "phase digest is invalid"

/-- The plan of one worker, from the tracks of the phase. -/
def workerPlan (runId phaseExecutionId : Str) (program : CompiledProgram F) (phase : Val F)
    (tracks : List (Str × Val F)) (physicalId : Str) : Except (Error F) (Str × PhasePlan F) := do
  let rootId ← program.rootId
  let manifestHash ← program.manifestHash
  let phaseId ← liftExc (phase.getItem "phase_id")
  let durationUs ← liftExc (phase.getItem "duration_us")
  let completion ← toDict (← liftExc (phase.getItem "completion"))
  .ok (physicalId,
    { runId, phaseExecutionId, rootId, manifestHash, phaseId, durationUs, completion
      tracks := (tracks.filter fun t => t.1 = physicalId).map Prod.snd })

/-- `f"{run_id}:{phase_index}:{phase_sha[:12]}"` -/
def phaseExecutionId (runId : Str) (phaseIndex : ℕ) (phaseSha : Str) : Str :=
  runId ++ py ":" ++ natStr phaseIndex ++ py ":" ++ phaseSha.take 12

/-- The plans of one phase, in the order in which its sequences name the workers. -/
def workerPhasePlans (runId : Str) (program : CompiledProgram F) (phaseIndex : ℕ) (phase : Val F) :
    Except (Error F) (List (Str × PhasePlan F)) := do
  let phaseSha ← phaseDigest (← liftExc (phase.get "sha256"))
  let sequences ← liftExc (← liftExc (phase.getItem "sequences")).iter
  let tracks ← sequences.mapM track
  (tracks.map Prod.fst).reverse.dedup.reverse.mapM
    (workerPlan runId (phaseExecutionId runId phaseIndex phaseSha) program phase tracks)

end Preflight

end RemoteRobot
