import RemoteRobot.Lib.Except
import RemoteRobot.Registry

/-!
# The program compiler

`compile` turns a template, an arbitrary plain value, into a compiled program for one root of a
registry.  The intermediate records of the source (samples, sequences, phases, the body) are
structures here; `toVal` gives the dictionary the source builds, and the digests are taken of
those dictionaries.
-/

namespace RemoteRobot

open Py Except

variable {F : Type}

/-! ## Errors and small checks -/

/-- `ProgramError(code, message, path=path, details=details)` -/
def programError (code message : String) (path : String := "") (args : List (Val F) := [])
    (details : List (String × Val F) := []) : Error F :=
  .program ⟨code, ⟨message, args⟩, path, details⟩

def shortId (value : Val F) (path : String) : Except (Error F) Str :=
  match value with
  | .str s =>
    if s = [] ∨ 128 < s.length then
      .error <| programError "SCHEMA_INVALID" "ID must contain 1..128 characters" path
    else if s.any isSpace then
      .error <| programError "SCHEMA_INVALID" "ID cannot contain whitespace" path
    else .ok s
  | _ => .error <| programError "SCHEMA_INVALID" "ID must contain 1..128 characters" path

/-- `".." in s` -/
def hasDoubleDot : Str → Bool
  | 46 :: 46 :: _ => true
  | _ :: s => hasDoubleDot s
  | [] => false

def rolePath (value : Val F) (path : String) : Except (Error F) Str := do
  let result ← shortId value path
  raiseWhen (result.head? = some 46 ∨ result.getLast? = some 46 ∨ hasDoubleDot result = true)
    (programError "SCHEMA_INVALID" "role path contains an empty segment" path)
  .ok result

section Fields

variable [PyFloat F]

def requireExactFields (value : Val F) (required optional : List String) (path : String) :
    Except (Error F) Unit := do
  let keys ← liftExc value.toSet
  let missing := required.filter fun k => !hasStr k keys
  let unexpected := keys.filter fun k => !(required ++ optional).any fun r => Key.eq (.str (py r)) k
  if missing = [] ∧ unexpected.isEmpty = true then .ok ()
  else do
    let unexpected ← liftExc (sortedKeys unexpected)
    .error <| programError "SCHEMA_INVALID" "object fields don't match the v2 schema" path []
      [("missing", strList (sortedSet (missing.map py))),
        ("unexpected", .list (unexpected.map Key.toVal))]

end Fields

/-! ## Samples -/

structure Sample (F : Type) where
  tUs : ℤ
  values : List F

/-- One axis of a resolved group, under the compiler's own names. -/
structure DenseAxis (F : Type) where
  name : Str
  kind : Str
  unit : Str
  lower : Option F
  upper : Option F
  maxVelocity : Option F
  maxAcceleration : Option F

def positionSchema : Str := py "joint_position_trajectory/v1"

def normalizedPositionSchema : Str := py "normalized_position_trajectory/v1"

section Samples

variable [PyFloat F]

/-- `limit is not None and value > limit` -/
def exceeds (value : F) : Option F → Bool
  | none => false
  | some limit => PyFloat.lt limit value

/-- `lower is not None and value < lower or upper is not None and value > upper` -/
def outsideBounds (axis : DenseAxis F) (value : F) : Bool :=
  (match axis.lower with
    | none => false
    | some lower => PyFloat.lt value lower) || exceeds value axis.upper

/-- The rates of one axis on one segment. -/
def validateAxisRates (axis : DenseAxis F) (start «end» durationS : F) (path : String) :
    Except (Error F) Unit := do
  let distance := PyFloat.abs (PyFloat.sub «end» start)
  let peakVelocity ← liftExc (PyFloat.div (PyFloat.mul (PyFloat.lit 1.875) distance) durationS)
  let peakAcceleration ← liftExc (PyFloat.div (PyFloat.mul (PyFloat.lit 5.773503) distance)
    (PyFloat.mul durationS durationS))
  raiseWhen (exceeds peakVelocity axis.maxVelocity = true)
    (programError "VELOCITY_LIMIT" "axis % would reach % %/s" path
      [.str axis.name, .float peakVelocity, .str axis.unit])
  raiseWhen (exceeds peakAcceleration axis.maxAcceleration = true)
    (programError "ACCELERATION_LIMIT" "axis % would reach % %/s²" path
      [.str axis.name, .float peakAcceleration, .str axis.unit])

def validateRatesFrom (durationS : F) (path : String) :
    List (DenseAxis F) → List F → List F → Except (Error F) Unit
  | axis :: axes, start :: before, «end» :: after => do
    validateAxisRates axis start «end» durationS path
    validateRatesFrom durationS path axes before after
  | _, _, _ => .ok ()

def validateSegmentRates (axes : List (DenseAxis F)) (before after : List F) (durationUs : ℤ)
    (path : String) : Except (Error F) Unit := do
  let durationS ← liftExc (PyFloat.truediv durationUs 1000000)
  validateRatesFrom durationS path axes before after

/-- The first axis whose absolute value leaves the manifest limits. -/
def checkLimits (path : String) : List (DenseAxis F) → List F → Except (Error F) Unit
  | axis :: axes, value :: values =>
    if outsideBounds axis value then
      .error <| programError "LIMIT_VIOLATION" "axis % value % is outside the manifest limits" path
        [.str axis.name, .float value]
    else checkLimits path axes values
  | _, _ => .ok ()

/-- The normalized range of absolute values and of offsets. -/
def outsideNormalized (reference : Str) (value : F) : Bool :=
  if reference = py "absolute" then
    PyFloat.lt value (PyFloat.lit 0) || PyFloat.lt (PyFloat.lit 1) value
  else PyFloat.lt value (PyFloat.lit (-1)) || PyFloat.lt (PyFloat.lit 1) value

def isBool : Val F → Bool
  | .bool _ => true
  | _ => false

/-- The time of a sample, checked against the one before. -/
def sampleTime (value : Val F) (previous : Option (Sample F)) (path : String) :
    Except (Error F) ℤ :=
  match value with
  | .int t => do
    raiseWhen (t < 0) (programError "INVALID_TIME" "t_us must be a non-negative integer" path)
    raiseWhen (previous.isNone ∧ t ≠ 0)
      (programError "INVALID_TIME" "first sample must start at t_us=0" path)
    raiseWhen (previous.any (fun p => decide (t ≤ p.tUs)) = true)
      (programError "INVALID_TIME" "sample times must strictly increase" path)
    .ok t
  | _ => .error <| programError "INVALID_TIME" "t_us must be a non-negative integer" path

/-- `[float(value) for value in raw_values]` -/
def floatValues (raw : List (Val F)) (path : String) : Except (Error F) (List F) :=
  match raw.mapM Val.toFloat with
  | none => .error <| programError "SCHEMA_INVALID" "axis values must be numeric" path
  | some values => .ok values

/-- The values of a sample as floats, before any limit is looked at. -/
def sampleValues (value : Val F) (axisCount : ℕ) (path : String) : Except (Error F) (List F) :=
  match value with
  | .list raw => do
    raiseWhen (raw.length ≠ axisCount)
      (programError "DENSE_AXIS_MISMATCH" "sample must provide exactly % axis values"
        (path ++ ".values") [.int axisCount])
    raiseWhen (raw.any isBool = true)
      (programError "SCHEMA_INVALID" "axis values must be numbers, not booleans"
        (path ++ ".values"))
    let values ← floatValues raw path
    raiseWhen (values.all PyFloat.isFinite = false)
      (programError "NON_FINITE_VALUE" "axis values must be finite" path)
    .ok values
  | _ =>
    .error <| programError "DENSE_AXIS_MISMATCH" "sample must provide exactly % axis values"
      (path ++ ".values") [.int axisCount]

def isDict : Val F → Bool
  | .dict _ => true
  | _ => false

/-- The limits one sample is held against, given the sample before. -/
def checkSample (axes : List (DenseAxis F)) (reference commandSchema : Str) (path : String)
    (previous : Option (Sample F)) (s : Sample F) : Except (Error F) Unit := do
  raiseWhen (reference = py "phase_start_measured" ∧ previous.isNone ∧
      (s.values.any fun v => PyFloat.lt (PyFloat.lit (1 / 10 ^ 12)) (PyFloat.abs v)) = true)
    (programError "START_STATE_MISMATCH"
      "relative sequence must begin with an all-zero dense sample" path)
  if reference = py "absolute" then checkLimits path axes s.values else .ok ()
  raiseWhen (commandSchema = normalizedPositionSchema ∧
      s.values.any (outsideNormalized reference) = true)
    (programError "LIMIT_VIOLATION" "normalized position values must be in %" path
      [.str (if reference = py "absolute" then py "[0, 1]" else py "[-1, 1] offsets")])
  match previous with
  | none => .ok ()
  | some p => validateSegmentRates axes p.values s.values (s.tUs - p.tUs) path

/-- One turn of the loop over the samples. -/
def compileSample (axes : List (DenseAxis F)) (reference commandSchema : Str) (path : String)
    (previous : Option (Sample F)) (raw : Val F) : Except (Error F) (Sample F) := do
  raiseWhen (isDict raw = false) (programError "SCHEMA_INVALID" "sample must be an object" path)
  requireExactFields raw ["t_us", "values"] [] path
  let rawTime ← liftExc (raw.getItem "t_us")
  let tUs ← sampleTime rawTime previous path
  let rawValues ← liftExc (raw.getItem "values")
  let values ← sampleValues rawValues axes.length path
  checkSample axes reference commandSchema path previous ⟨tUs, values⟩
  .ok ⟨tUs, values⟩

def compileSamplesFrom (axes : List (DenseAxis F)) (reference commandSchema : Str) (path : String) :
    ℕ → Option (Sample F) → List (Val F) → Except (Error F) (List (Sample F))
  | _, _, [] => .ok []
  | index, previous, raw :: rest => do
    let sample ← compileSample axes reference commandSchema
      (path ++ ".samples[" ++ toString index ++ "]") previous raw
    let samples ← compileSamplesFrom axes reference commandSchema path (index + 1) (some sample) rest
    .ok (sample :: samples)

def compileDenseSamples (rawSamples : Val F) (axes : List (DenseAxis F))
    (reference commandSchema : Str) (path : String) : Except (Error F) (List (Sample F)) :=
  match rawSamples with
  | .list raw =>
    if raw.length < 2 then
      .error <| programError "SCHEMA_INVALID" "sequence needs at least two samples" path
    else compileSamplesFrom axes reference commandSchema path 0 none raw
  | _ => .error <| programError "SCHEMA_INVALID" "sequence needs at least two samples" path

end Samples

/-! ## Compiled records -/

structure AxisName where
  name : Str
  kind : Str
  unit : Str
  deriving DecidableEq

structure ResolvedTarget where
  physicalNodeId : Str
  groupId : Str
  deriving DecidableEq

/-- What `_compile_sequence` returns. -/
structure CompiledSequence (F : Type) where
  rolePath : Str
  resolvedTarget : ResolvedTarget
  commandSchema : Str
  reference : Str
  axes : List AxisName
  durationUs : ℤ
  samples : List (Sample F)

/-- The sequence with its digest. -/
structure HashedSequence (F : Type) extends CompiledSequence F where
  sha256 : Str

/-- A phase payload.  Its `completion` is always the default and its `transitions` are empty,
since the compiler accepts nothing else. -/
structure CompiledPhase (F : Type) where
  phaseId : Str
  durationUs : ℤ
  sequences : List (HashedSequence F)

structure HashedPhase (F : Type) extends CompiledPhase F where
  sha256 : Str

structure CompiledBody (F : Type) where
  programId : Str
  serverId : Str
  rootId : Str
  manifestHash : Str
  outlineSha256 : Str
  phases : List (HashedPhase F)

def Sample.toVal (s : Sample F) : Val F :=
  dictOf [("t_us", .int s.tUs), ("values", .list (s.values.map .float))]

def AxisName.toVal (a : AxisName) : Val F :=
  dictOf [("name", .str a.name), ("kind", .str a.kind), ("unit", .str a.unit)]

def ResolvedTarget.toVal (t : ResolvedTarget) : Val F :=
  dictOf [("physical_node_id", .str t.physicalNodeId), ("group_id", .str t.groupId)]

def CompiledSequence.fields (s : CompiledSequence F) : List (String × Val F) :=
  [("role_path", .str s.rolePath), ("resolved_target", s.resolvedTarget.toVal),
    ("command_schema", .str s.commandSchema), ("reference", .str s.reference),
    ("axes", .list (s.axes.map AxisName.toVal)), ("duration_us", .int s.durationUs),
    ("samples", .list (s.samples.map Sample.toVal))]

def HashedSequence.toVal (s : HashedSequence F) : Val F :=
  dictOf (s.fields ++ [("sha256", Val.str s.sha256)])

/-- The entry of the sequence in the outline. -/
def HashedSequence.outline (s : HashedSequence F) : Val F :=
  dictOf [("role_path", .str s.rolePath), ("resolved_target", s.resolvedTarget.toVal),
    ("command_schema", .str s.commandSchema), ("reference", .str s.reference),
    ("duration_us", .int s.durationUs), ("sha256", .str s.sha256)]

/-- `DEFAULT_COMPLETION` -/
def defaultCompletion : Val F := dictOf [("schema", .str (py "all_sequences_finished/v1"))]

def CompiledPhase.fields (p : CompiledPhase F) : List (String × Val F) :=
  [("phase_id", .str p.phaseId), ("duration_us", .int p.durationUs),
    ("completion", defaultCompletion), ("transitions", .list []),
    ("sequences", .list (p.sequences.map HashedSequence.toVal))]

def HashedPhase.toVal (p : HashedPhase F) : Val F :=
  dictOf (p.fields ++ [("sha256", Val.str p.sha256)])

/-- The entry of the phase in the outline. -/
def HashedPhase.outline (p : HashedPhase F) : Val F :=
  dictOf [("phase_id", .str p.phaseId), ("duration_us", .int p.durationUs),
    ("participants", .list (p.sequences.map fun s => s.resolvedTarget.toVal)),
    ("sequences", .list (p.sequences.map HashedSequence.outline)), ("transitions", .list []),
    ("payload_sha256", .str p.sha256)]

def outlineOf (phases : List (HashedPhase F)) : Val F :=
  dictOf [("phase_count", .int phases.length), ("phases", .list (phases.map HashedPhase.outline))]

def compiledFormat : Str := py "robot-program"

def templateFormat : Str := py "robot-program-template"

def CompiledBody.fields (b : CompiledBody F) : List (String × Val F) :=
  [("format", .str compiledFormat), ("version", .int 2), ("program_id", .str b.programId),
    ("server_id", .str b.serverId), ("root_id", .str b.rootId),
    ("manifest_hash", .str b.manifestHash), ("outline", outlineOf b.phases),
    ("outline_sha256", .str b.outlineSha256), ("phases", .list (b.phases.map HashedPhase.toVal))]

/-- A manifest-bound artifact.  Anyone can build one with any body. -/
structure CompiledProgram (F : Type) where
  body : Dict F
  sha256 : Str

/-! ## The compiler -/

/-- The group a role path resolves to, under the compiler's own names. -/
def normalizeResolution (r : ResolvedGroup F) : ResolvedTarget × List (DenseAxis F) :=
  (⟨r.physicalNodeId, r.groupId⟩, r.group.axes.map fun a =>
    { name := a.axisId, kind := a.kind, unit := a.unit, lower := some a.minimum
      upper := some a.maximum, maxVelocity := a.maxVelocity, maxAcceleration := none })

section Compiler

variable [Cbor F] [Sha256] [PyFloat F] [PyText F]

def canonicalCbor (v : Val F) : Except (Error F) Bytes := liftExc (Cbor.dumps v)

def digestValue (v : Val F) : Except (Error F) Str := liftExc ((Cbor.dumps v).map hexdigest)

def compileSequence (R : Registry F) (rootId : Str) (raw : Val F) (path : String) :
    Except (Error F) (CompiledSequence F) := do
  raiseWhen (isDict raw = false) (programError "SCHEMA_INVALID" "sequence must be an object" path)
  requireExactFields raw ["group", "command_schema", "reference", "samples"] [] path
  let role ← rolePath (← liftExc (raw.getItem "group")) (path ++ ".group")
  let resolved ← R.resolveGroup rootId role
  let axes := (normalizeResolution resolved).2
  let commandSchema ← liftExc ((raw.getItem "command_schema").bind Val.pyStr)
  raiseWhen (commandSchema ∉ resolved.group.commandSchemas)
    (programError "CAPABILITY_MISSING" "group % doesn't support %" (path ++ ".command_schema")
      [.str role, .str commandSchema]
      [("supported", strList (sortedSet resolved.group.commandSchemas))])
  raiseWhen (commandSchema ≠ positionSchema ∧ commandSchema ≠ normalizedPositionSchema)
    (programError "CAPABILITY_MISSING" "compiler doesn't implement command schema %"
      (path ++ ".command_schema") [.str commandSchema])
  let reference ← liftExc ((raw.getItem "reference").bind Val.pyStr)
  raiseWhen (reference ≠ py "absolute" ∧ reference ≠ py "phase_start_measured")
    (programError "SCHEMA_INVALID" "unsupported reference %" path [.str reference])
  raiseWhen (axes.isEmpty = true)
    (programError "INVALID_MANIFEST" "resolved group has no axes" path)
  let samples ← compileDenseSamples (← liftExc (raw.getItem "samples")) axes reference commandSchema
    path
  .ok { rolePath := role, resolvedTarget := (normalizeResolution resolved).1
        commandSchema := commandSchema, reference := reference
        axes := axes.map fun a => ⟨a.name, a.kind, a.unit⟩
        durationUs := (samples.getLast?.map Sample.tUs).getD 0, samples := samples }

/-- The loop over the sequences of a phase. -/
def compileSequencesFrom (R : Registry F) (rootId : Str) (path : String) :
    ℕ → List ResolvedTarget → List (Val F) → Except (Error F) (List (HashedSequence F))
  | _, _, [] => .ok []
  | index, targets, raw :: rest => do
    let sequencePath := path ++ ".sequences[" ++ toString index ++ "]"
    let sequence ← compileSequence R rootId raw sequencePath
    raiseWhen (sequence.resolvedTarget ∈ targets)
      (programError "DUPLICATE_GROUP_SEQUENCE"
        "a phase may contain at most one sequence per resolved group" sequencePath []
        [("physical_node_id", .str sequence.resolvedTarget.physicalNodeId),
          ("group_id", .str sequence.resolvedTarget.groupId)])
    let sequenceSha ← digestValue (dictOf sequence.fields)
    let sequences ← compileSequencesFrom R rootId path (index + 1)
      (sequence.resolvedTarget :: targets) rest
    .ok (⟨sequence, sequenceSha⟩ :: sequences)

/-- The longest of the sequences. -/
def phaseDuration (sequences : List (HashedSequence F)) : ℤ :=
  sequences.foldl (fun d s => max d s.durationUs) 0

/-- `mapping.get("k", default)` of an object -/
def getOr (k : String) (default : Val F) : Val F → Val F
  | .dict kvs => (lookup (py k) kvs).getD default
  | _ => default

def checkTransitions (transitions : Val F) (path : String) : Except (Error F) Unit :=
  match transitions with
  | .list [] => .ok ()
  | .list _ =>
    .error <| programError "CAPABILITY_MISSING"
      "mode transitions are reserved by the v2 format but not implemented" (path ++ ".transitions")
  | _ => .error <| programError "SCHEMA_INVALID" "transitions must be an array" path

/-- A non-empty array. -/
def nonEmptyList (value : Val F) (e : Error F) : Except (Error F) (List (Val F)) :=
  match value with
  | .list (v :: vs) => .ok (v :: vs)
  | _ => .error e

def compilePhase (R : Registry F) (rootId : Str) (raw : Val F) (path : String) :
    Except (Error F) (HashedPhase F) := do
  raiseWhen (isDict raw = false) (programError "SCHEMA_INVALID" "phase must be an object" path)
  requireExactFields raw ["phase_id", "sequences"] ["completion", "transitions"] path
  let phaseId ← shortId (← liftExc (raw.getItem "phase_id")) (path ++ ".phase_id")
  raiseWhen (Val.eq (getOr "completion" defaultCompletion raw) defaultCompletion = false)
    (programError "CAPABILITY_MISSING" "v2 milestone 1 only implements all_sequences_finished/v1"
      (path ++ ".completion"))
  checkTransitions (getOr "transitions" (.list []) raw) path
  let rawSequences ← nonEmptyList (← liftExc (raw.getItem "sequences"))
    (programError "SCHEMA_INVALID" "phase sequences must be non-empty" path)
  let sequences ← compileSequencesFrom R rootId path 0 [] rawSequences
  let phase : CompiledPhase F := ⟨phaseId, phaseDuration sequences, sequences⟩
  let phaseSha ← digestValue (dictOf phase.fields)
  .ok ⟨phase, phaseSha⟩

/-- The loop over the phases. -/
def compilePhasesFrom (R : Registry F) (rootId : Str) :
    ℕ → List Str → List (Val F) → Except (Error F) (List (HashedPhase F))
  | _, _, [] => .ok []
  | index, seen, raw :: rest => do
    let phasePath := "template.phases[" ++ toString index ++ "]"
    let phase ← compilePhase R rootId raw phasePath
    raiseWhen (phase.phaseId ∈ seen)
      (programError "DUPLICATE_PHASE" "phase_id % is duplicated" (phasePath ++ ".phase_id")
        [.str phase.phaseId])
    let phases ← compilePhasesFrom R rootId (index + 1) (phase.phaseId :: seen) rest
    .ok (phase :: phases)

/-- `value is True` -/
def isTrue : Val F → Bool
  | .bool true => true
  | _ => false

def compileBody (R : Registry F) (template : Val F) : Except (Error F) (CompiledBody F) := do
  requireExactFields template ["format", "version", "root_id", "phases"] ["program_id"] "template"
  let format ← liftExc (template.getItem "format")
  let version ← liftExc (template.getItem "version")
  raiseWhen ((Val.eq format (.str templateFormat) && Val.eq version (.int 2)) = false)
    (programError "VERSION_UNSUPPORTED" "template format/version isn't supported")
  let rootId ← shortId (← liftExc (template.getItem "root_id")) "template.root_id"
  let manifest ← R.describe rootId
  raiseWhen (isTrue (← liftExc (manifest.get "exposed_as_run_root")) = false)
    (programError "ROOT_NOT_EXPOSED" "node % is not exposed as a selectable run root"
      "template.root_id" [.str rootId])
  let manifestHash ← R.manifestHash rootId
  let rawPhases ← nonEmptyList (← liftExc (template.getItem "phases"))
    (programError "SCHEMA_INVALID" "template.phases must be a non-empty array")
  let phases ← compilePhasesFrom R rootId 0 [] rawPhases
  let programId ← shortId (getOr "program_id" (.str (py "program")) template) "template.program_id"
  let outlineSha256 ← digestValue (outlineOf phases)
  .ok ⟨programId, R.serverId, rootId, manifestHash, outlineSha256, phases⟩

def compile (R : Registry F) (template : Val F) : Except (Error F) (CompiledProgram F) := do
  let body ← compileBody R template
  let sha256 ← digestValue (dictOf body.fields)
  .ok ⟨entries body.fields, sha256⟩

end Compiler

/-! ## A small template -/

/-- One phase that moves one group of the demo robot. -/
def demoTemplate (group : String) : Val ℚ :=
  dictOf [("format", .str templateFormat), ("version", .int 2), ("root_id", .str (py "demo_robot")),
    ("phases", .list [dictOf [("phase_id", .str (py "move")),
      ("sequences", .list [dictOf [("group", .str (py group)),
        ("command_schema", .str normalizedPositionSchema), ("reference", .str (py "absolute")),
        ("samples", .list [
          dictOf [("t_us", .int 0), ("values", .list [.int 0])],
          dictOf [("t_us", .int 1000000), ("values", .list [.float (1 / 2)])]])]])]])]

end RemoteRobot
