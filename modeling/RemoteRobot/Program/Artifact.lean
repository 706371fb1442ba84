import RemoteRobot.Program.Compile

/-!
# Compiled artifacts

An artifact travels as one canonical CBOR value.  `fromBytes` accepts bytes whose digests fit each
other; since a sender can recompute every digest, `validateForCurrentRegistry` projects the body
back onto a template, compiles it again and compares.
-/

namespace RemoteRobot

open Py Except

variable {F : Type}

/-! ## The envelope -/

/-- `{key: value for key, value in d.items() if key != "k"}` -/
def withoutKey [PyFloat F] (k : String) (kvs : Dict F) : Dict F :=
  kvs.filter fun p => !Key.eq (.str (py k)) p.1

section Artifact

variable [Cbor F] [Sha256] [PyFloat F] [PyText F]

namespace CompiledProgram

def serverId (p : CompiledProgram F) : Except (Error F) Str :=
  liftExc (((Val.dict p.body).getItem "server_id").bind Val.pyStr)

def rootId (p : CompiledProgram F) : Except (Error F) Str :=
  liftExc (((Val.dict p.body).getItem "root_id").bind Val.pyStr)

def manifestHash (p : CompiledProgram F) : Except (Error F) Str :=
  liftExc (((Val.dict p.body).getItem "manifest_hash").bind Val.pyStr)

def outline (p : CompiledProgram F) : Except (Error F) (Val F) :=
  liftExc ((Val.dict p.body).getItem "outline")

/-- `tuple(self.body["phases"])` -/
def phases (p : CompiledProgram F) : Except (Error F) (List (Val F)) := do
  let phases ← liftExc ((Val.dict p.body).getItem "phases")
  liftExc phases.iter

/-- `{"body": dict(self.body), "sha256": self.sha256}` -/
def envelope (p : CompiledProgram F) : Val F :=
  dictOf [("body", .dict p.body), ("sha256", .str p.sha256)]

def toBytes (p : CompiledProgram F) : Except (Error F) Bytes := canonicalCbor p.envelope

end CompiledProgram

/-! ## Internal digests -/

/-- The digest stored in a record against the digest of the rest of the record. -/
def validateSequenceHash (index : ℕ) : Val F → Except (Error F) Unit
  | .dict kvs => do
    let actual ← digestValue (.dict (withoutKey "sha256" kvs))
    raiseWhen (Val.eq (field "sha256" kvs) (.str actual) = false)
      (programError "HASH_MISMATCH" "phase % sequence digest doesn't match" "" [.int index])
  | _ => .error (.builtin .attributeError)

def validatePhaseHashes (index : ℕ) : Val F → Val F → Except (Error F) Unit
  | .dict phase, .dict phaseOutline => do
    let actual ← digestValue (.dict (withoutKey "sha256" phase))
    raiseWhen ((Val.eq (field "sha256" phase) (.str actual) &&
        Val.eq (field "payload_sha256" phaseOutline) (.str actual)) = false)
      (programError "HASH_MISMATCH" "phase % digest doesn't match" "" [.int index])
    let sequences ← liftExc ((lookup (py "sequences") phase).getD (.list [])).iter
    sequences.forM (validateSequenceHash index)
  | _, _ => .error <| programError "INVALID_ARTIFACT" "phase record is invalid"

def validatePhasesFrom : ℕ → List (Val F) → List (Val F) → Except (Error F) Unit
  | index, phase :: phases, phaseOutline :: outlines => do
    validatePhaseHashes index phase phaseOutline
    validatePhasesFrom (index + 1) phases outlines
  | _, _, _ => .ok ()

/-- A list of the same length as another. -/
def sameLengthList (value : Val F) (length : ℕ) : Except (Error F) (List (Val F)) :=
  match value with
  | .list vs =>
    if vs.length = length then .ok vs
    else .error <| programError "INVALID_ARTIFACT" "outline and phase payload counts differ"
  | _ => .error <| programError "INVALID_ARTIFACT" "outline and phase payload counts differ"

def validateCompiledInternalHashes (body : Dict F) : Except (Error F) Unit :=
  match field "outline" body with
  | .dict outline => do
    let actual ← digestValue (.dict outline)
    raiseWhen (Val.eq (field "outline_sha256" body) (.str actual) = false)
      (programError "HASH_MISMATCH" "outline digest doesn't match")
    match field "phases" body with
    | .list phases => do
      let outlinePhases ← sameLengthList (field "phases" outline) phases.length
      validatePhasesFrom 0 phases outlinePhases
    | _ => .error <| programError "INVALID_ARTIFACT" "compiled program phases are invalid"
  | _ => .error <| programError "HASH_MISMATCH" "outline digest doesn't match"

/-! ## Decoding -/

def checkEnvelope (body : Dict F) (supplied : Str) : Except (Error F) (CompiledProgram F) := do
  raiseWhen ((Val.eq (field "format" body) (.str compiledFormat) &&
      Val.eq (field "version" body) (.int 2)) = false)
    (programError "VERSION_UNSUPPORTED" "compiled program version isn't supported")
  let actual ← digestValue (.dict body)
  raiseWhen (supplied ≠ actual)
    (programError "HASH_MISMATCH" "compiled program digest doesn't match its canonical body" ""
      [] [("expected", .str supplied), ("actual", .str actual)])
  validateCompiledInternalHashes body
  .ok ⟨body, supplied⟩

/-- `set(value) == {"body", "sha256"}` -/
def isEnvelope (kvs : Dict F) : Bool :=
  hasStr "body" (kvs.map Prod.fst) && hasStr "sha256" (kvs.map Prod.fst) &&
    (kvs.map Prod.fst).all fun k => Key.eq (.str (py "body")) k || Key.eq (.str (py "sha256")) k

/-- What `from_bytes` does with the decoded value. -/
def fromValue (data : Bytes) (value : Val F) : Except (Error F) (CompiledProgram F) := do
  let canonical ← canonicalCbor value
  raiseWhen (data ≠ canonical)
    (programError "NONCANONICAL_ARTIFACT"
      "compiled program must be one canonical CBOR value with no trailing data")
  match value with
  | .dict kvs =>
    raiseWhen (isEnvelope kvs = false)
      (programError "INVALID_ARTIFACT" "compiled program envelope is invalid")
    match field "body" kvs, field "sha256" kvs with
    | .dict body, .str supplied => checkEnvelope body supplied
    | _, _ =>
      .error <| programError "INVALID_ARTIFACT" "compiled program body/digest types are invalid"
  | _ => .error <| programError "INVALID_ARTIFACT" "compiled program envelope is invalid"

def fromBytes (data : Bytes) : Except (Error F) (CompiledProgram F) :=
  match Cbor.loads data with
  | .error _ => .error <| programError "INVALID_CBOR" "cannot decode compiled program: %"
  | .ok value => fromValue data value

/-! ## Validation against a registry -/

/-- The sequence of a template that a compiled sequence comes from. -/
def templateSequence : Val F → Except Exc (Val F)
  | .dict kvs => do
    let group ← (Val.dict kvs).getItem "role_path"
    let commandSchema ← (Val.dict kvs).getItem "command_schema"
    let reference ← (Val.dict kvs).getItem "reference"
    let samples ← (Val.dict kvs).getItem "samples"
    .ok (dictOf [("group", group), ("command_schema", commandSchema), ("reference", reference),
      ("samples", samples)])
  | _ => .error .typeError

/-- The items of an array. -/
def listItems : Val F → Except Exc (List (Val F))
  | .list vs => .ok vs
  | _ => .error .typeError

def templatePhase : Val F → Except Exc (Val F)
  | .dict kvs => do
    let rawSequences ← listItems (← (Val.dict kvs).getItem "sequences")
    let sequences ← rawSequences.mapM templateSequence
    let phaseId ← (Val.dict kvs).getItem "phase_id"
    let completion ← (Val.dict kvs).getItem "completion"
    let transitions ← (Val.dict kvs).getItem "transitions"
    .ok (dictOf [("phase_id", phaseId), ("completion", completion),
      ("transitions", transitions), ("sequences", .list sequences)])
  | _ => .error .typeError

/-- The `try` block of `_template_from_compiled`. -/
def templateOf (body : Dict F) : Except Exc (Val F) := do
  let rawPhases ← listItems (← (Val.dict body).getItem "phases")
  let phases ← rawPhases.mapM templatePhase
  let programId ← (Val.dict body).getItem "program_id"
  let rootId ← (Val.dict body).getItem "root_id"
  .ok (dictOf [("format", .str templateFormat), ("version", .int 2), ("program_id", programId),
    ("root_id", rootId), ("phases", .list phases)])

def templateFromCompiled (body : Dict F) : Except (Error F) (Val F) :=
  match templateOf body with
  | .ok template => .ok template
  | .error .keyError | .error .typeError =>
    .error <| programError "INVALID_ARTIFACT" "compiled program cannot be reconstructed: %"
  | .error e => .error (.builtin e)

def validateForCurrentRegistry (R : Registry F) (program : CompiledProgram F) :
    Except (Error F) Unit := do
  let digest ← digestValue (.dict program.body)
  raiseWhen (program.sha256 ≠ digest)
    (programError "HASH_MISMATCH" "compiled program body digest doesn't match")
  validateCompiledInternalHashes program.body
  let serverId ← program.serverId
  raiseWhen (serverId ≠ R.serverId)
    (programError "SERVER_MISMATCH" "program was compiled for a different server")
  let rootId ← program.rootId
  let current ← R.manifestHash rootId
  let manifestHash ← program.manifestHash
  raiseWhen (current ≠ manifestHash)
    (programError "MANIFEST_MISMATCH" "program was compiled against a stale robot manifest" "" []
      [("compiled", .str manifestHash), ("current", .str current)])
  let template ← templateFromCompiled program.body
  let rebuilt ← compile R template
  raiseWhen (Val.eq (.dict rebuilt.body) (.dict program.body) = false ∨
      rebuilt.sha256 ≠ program.sha256)
    (programError "NONCANONICAL_ARTIFACT"
      "compiled program isn't the canonical output for its pinned registry")

end Artifact

end RemoteRobot
