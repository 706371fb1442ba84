import RemoteRobot.Program.Dense
import RemoteRobot.Program.Encodable
import RemoteRobot.Stream.Curve
import RemoteRobot.Stream.Records
import RemoteRobot.Stream.Split

/-!
# Migrating a v1 trajectory

`migrate_v1_so101_template` turns a v1 file, as `load_program` reads it, into a template for the
compiler.  Both formats check names, times, ranges and rates, each in its own way.  In exact
arithmetic the ranges, the times and the rates agree; the names and the start of a relative program
do not, and `migrate_compiles_iff` says what is asked of them.
-/

namespace RemoteRobot

open Py Except
open RemoteRobot.Stream (ProgramHeader TrajectoryPoint CoordinateMode Raised Joint Pose SafetyPolicy Admitted
  protocolError liftBuiltin bodyJoints validatePoints)

variable {F : Type}

/-! ## The v1 file -/

/-- `exc.lineno` of the `JSONDecodeError` that `json.loads` raises on a text. -/
class JsonLine where
  lineno : Str → ℤ

/-- `not line.strip() or line.lstrip().startswith("#")` -/
def skipsLine (line : Str) : Bool :=
  match line.dropWhile isSpace with
  | [] => true
  | c :: _ => c == 35

section Load

variable [PyFloat F] [PyText F] [Json F] [JsonLine]

/-- The object on one line. -/
def loadRecord (lineNumber : ℕ) (line : Str) : Except (Raised F) (Val F) :=
  match (Json.loads line : Except JsonError (Val F)) with
  | .error (.decode msg) =>
    .error (protocolError .schemaInvalid "invalid JSON on line %: %"
      [.int (JsonLine.lineno line), .str msg] [])
  | .error (.other e) => .error (.builtin e)
  | .ok value => do
    raiseWhen (isDict value = false)
      (protocolError .schemaInvalid "line % isn't an object" [.int lineNumber] [])
    .ok value

/-- The loop over the lines of the file. -/
def loadRecords : ℕ → List Str → Except (Raised F) (List (Val F))
  | _, [] => .ok []
  | lineNumber, line :: lines =>
    if skipsLine line then loadRecords (lineNumber + 1) lines
    else do
      let record ← loadRecord lineNumber line
      let records ← loadRecords (lineNumber + 1) lines
      .ok (record :: records)

/-- `load_program` on the decoded lines of the file -/
def loadProgram (policy : SafetyPolicy F) (lines : List Str) :
    Except (Raised F) (ProgramHeader × List (TrajectoryPoint F)) := do
  let records ← loadRecords 1 lines
  match records with
  | first :: second :: rest => do
    let header ← ProgramHeader.fromRecord first
    let points ← (second :: rest).mapM TrajectoryPoint.fromRecord
    validatePoints header points policy true
    .ok (header, points)
  | _ =>
    .error (protocolError .schemaInvalid "program needs one header and at least one point" [] [])

/-- A loaded program has passed the validation. -/
theorem validate_of_loadProgram {policy : SafetyPolicy F} {lines : List Str}
    {header : ProgramHeader} {points : List (TrajectoryPoint F)}
    (h : loadProgram policy lines = .ok (header, points)) :
    validatePoints header points policy true = .ok () := by
  unfold loadProgram at h
  obtain ⟨records, -, h⟩ := bind_eq_ok.1 h
  split at h
  · simp only [bind_eq_ok, exists_unit] at h
    obtain ⟨_, -, _, -, hvalid, h⟩ := h
    cases h
    exact hvalid
  · cases h

end Load

/-! ## The template -/

/-- The reference of the migrated sequences. -/
def migratedReference : CoordinateMode → Str
  | .relativeDeg => py "phase_start_measured"
  | .absoluteDeg => py "absolute"

theorem migratedReference_cases (mode : CoordinateMode) :
    (migratedReference mode = py "absolute" ↔ mode = .absoluteDeg) ∧
      (migratedReference mode = py "phase_start_measured" ↔ mode = .relativeDeg) := by
  cases mode <;> decide

section Template

variable [PyFloat F]

/-- `math.radians(x)`, with the factor the library holds -/
def radians (degToRad x : F) : F := PyFloat.mul x degToRad

def armSamples (degToRad : F) (points : List (TrajectoryPoint F)) : List (Sample F) :=
  points.map fun p => ⟨p.tUs, bodyJoints.map fun j => radians degToRad (p.qDeg j)⟩

def gripperSamples (points : List (TrajectoryPoint F)) : Except Exc (List (Sample F)) :=
  points.mapM fun p => do
    let aperture ← PyFloat.div (p.qDeg .gripper) (PyFloat.lit 100)
    .ok ⟨p.tUs, [aperture]⟩

def migratedSequence (group commandSchema reference : Str) (samples : List (Sample F)) : Val F :=
  dictOf [("group", .str group), ("command_schema", .str commandSchema),
    ("reference", .str reference), ("samples", .list (samples.map Sample.toVal))]

def migratedPhase (sequences : List (Val F)) : Val F :=
  dictOf [("phase_id", .str (py "migrated-v1-trajectory")), ("sequences", .list sequences)]

def migratedTemplate (programId rootId : Str) (phases : List (Val F)) : Val F :=
  dictOf [("format", .str templateFormat), ("version", .int 2), ("program_id", .str programId),
    ("root_id", .str rootId), ("phases", .list phases)]

variable [PyText F] [Json F] [JsonLine]

/-- `migrate_v1_so101_template` -/
def migrateV1So101Template (degToRad : F) (source : List Str)
    (rootId armRolePath gripperRolePath : Str) : Except (Raised F) (Val F) := do
  let (header, points) ← loadProgram .default source
  let reference := migratedReference header.coordinateMode
  let gripper ← liftBuiltin (gripperSamples points)
  .ok (migratedTemplate (header.programId ++ py "-v2") rootId [migratedPhase
    [migratedSequence armRolePath positionSchema reference (armSamples degToRad points),
      migratedSequence gripperRolePath normalizedPositionSchema reference gripper]])

end Template

/-! ## Names the compiler takes -/

/-- What `_short_id` takes. -/
structure ShortName (s : Str) : Prop where
  ne_nil : s ≠ []
  length : s.length ≤ 128
  unspaced : ∀ c ∈ s, isSpace c = false

theorem shortId_str_iff {s : Str} {path : String} :
    shortId (.str s : Val F) path = .ok s ↔ ShortName s := by
  unfold shortId
  simp only
  split_ifs with hlength hspace
  · refine iff_of_false nofun fun h => ?_
    exact hlength.elim h.ne_nil (not_lt.2 h.length)
  · refine iff_of_false nofun fun h => ?_
    obtain ⟨c, hc, hblank⟩ := List.any_eq_true.1 hspace
    rw [h.unspaced c hc] at hblank
    cases hblank
  · rw [not_or, not_lt] at hlength
    refine iff_of_true rfl ⟨hlength.1, hlength.2, fun c hc => ?_⟩
    by_contra hblank
    exact hspace (List.any_eq_true.2 ⟨c, hc, by simpa using hblank⟩)

/-- The name of a migrated program. -/
theorem shortName_v2 {programId : Str} : ShortName (programId ++ py "-v2") ↔
    programId.length ≤ 125 ∧ ∀ c ∈ programId, isSpace c = false := by
  have hsuffix : ∀ c ∈ py "-v2", isSpace c = false := by decide
  have hlength : (programId ++ py "-v2").length = programId.length + 3 := by
    rw [List.length_append]
    rfl
  constructor
  · intro h
    have hle := h.length
    exact ⟨by omega, fun c hc => h.unspaced c (List.mem_append_left _ hc)⟩
  · rintro ⟨hle, hunspaced⟩
    refine ⟨List.append_ne_nil_of_right_ne_nil _ (by decide), by omega, fun c hc => ?_⟩
    exact (List.mem_append.1 hc).elim (hunspaced c) (hsuffix c)

theorem hasDoubleDot_cons {c : ℕ} (h : c ≠ 46) (s : Str) :
    hasDoubleDot (c :: s) = hasDoubleDot s := by
  rw [hasDoubleDot]
  rintro _ rfl
  exact absurd rfl h

theorem hasDoubleDot_dot {s : Str} (h : s.head? ≠ some 46) :
    hasDoubleDot (46 :: s) = hasDoubleDot s := by
  rw [hasDoubleDot]
  rintro t - rfl
  exact h rfl

theorem hasDoubleDot_append {s : Str} (h : 46 ∉ s) (t : Str) :
    hasDoubleDot (s ++ t) = hasDoubleDot t := by
  induction s with
  | nil => rfl
  | cons c s ih =>
    rw [List.mem_cons, not_or] at h
    rw [List.cons_append, hasDoubleDot_cons (Ne.symm h.1), ih h.2]

/-- Joined segments have no two dots in a row. -/
theorem hasDoubleDot_joinPath {segments : List Str} (h : ∀ s ∈ segments, Segment s) :
    hasDoubleDot (Registry.joinPath segments) = false := by
  induction segments with
  | nil => rfl
  | cons s segments ih =>
    rw [List.forall_mem_cons] at h
    cases segments with
    | nil =>
      show hasDoubleDot s = false
      rw [← List.append_nil s, hasDoubleDot_append h.1.2]
      rfl
    | cons t segments =>
      have hends := joinPath_ends (List.cons_ne_nil t segments) h.2
      rw [joinPath_cons_cons, hasDoubleDot_append h.1.2, hasDoubleDot_dot hends.2.1, ih h.2]

theorem unspaced_joinPath {segments : List Str} (h : ∀ s ∈ segments, ∀ c ∈ s, isSpace c = false) :
    ∀ c ∈ Registry.joinPath segments, isSpace c = false := by
  induction segments with
  | nil => exact fun c hc => absurd hc List.not_mem_nil
  | cons s segments ih =>
    rw [List.forall_mem_cons] at h
    cases segments with
    | nil => exact h.1
    | cons t segments =>
      rw [joinPath_cons_cons]
      intro c hc
      rw [List.mem_append, List.mem_cons] at hc
      obtain hc | rfl | hc := hc
      · exact h.1 c hc
      · decide
      · exact ih h.2 c hc

section Names

variable [PyFloat F] [PyText F] [Cbor F] [Sha256] {R : Registry F} (hR : R.check = .ok ())

include hR

/-- The ID of a node is a name unless it is too long. -/
theorem shortName_nodeId {nodeId : Str} {n : ControlNode F} (hfind : R.find nodeId = some n) :
    ShortName nodeId ↔ nodeId.length ≤ 128 := by
  refine ⟨ShortName.length, fun hlength => ?_⟩
  obtain ⟨_, hid⟩ : ∃ fieldName,
      (requireIdentifier nodeId fieldName : Except (Error F) Unit) = .ok () := by
    have hnode := identified_of_check hR n (List.mem_of_find?_eq_some hfind)
    rw [← nodeId_of_find hfind]
    cases n with
    | physical p => exact ⟨_, hnode.1⟩
    | composite c => exact ⟨_, hnode.1⟩
  exact ⟨(segment_of_requireIdentifier hid).1, hlength,
    fun c hc => (chars_of_requireIdentifier hid c hc).1⟩

theorem Route.unspaced {nodeId : Str} {roles : List Str} {p : PhysicalNode F}
    (hroute : Route R nodeId roles p) : ∀ s ∈ roles, ∀ c ∈ s, isSpace c = false := by
  induction hroute with
  | here => exact fun s hs => absurd hs List.not_mem_nil
  | child hfind href _ ih =>
    rw [List.forall_mem_cons]
    refine ⟨fun c hc => ?_, ih⟩
    have hnode := identified_of_check hR _ (List.mem_of_find?_eq_some hfind)
    exact (chars_of_requireIdentifier (hnode.2 _ href) c hc).1

/-- A role path that resolves passes the compiler's check unless it is too long. -/
theorem rolePath_resolved {rootId group : Str} {r : ResolvedGroup F}
    (hr : R.resolveGroup rootId group = .ok r) (path : String) :
    rolePath (.str group : Val F) path = .ok group ↔ group.length ≤ 128 := by
  have hnamed := (accepted_of_check hR).named
  obtain ⟨roles, p, g, hroute, hg, rfl, -⟩ := (resolveGroup_eq_ok hnamed).1 hr
  obtain ⟨hroles, hp⟩ := hroute.segments hnamed
  have hidentified := identified_of_check hR _ hroute.mem
  have hsegments : ∀ s ∈ roles ++ [g.groupId], Segment s := by
    simp only [List.mem_append, List.mem_singleton, or_imp, forall_and, forall_eq]
    exact ⟨hroles, hp.2.2 g hg⟩
  have hunspaced : ∀ s ∈ roles ++ [g.groupId], ∀ c ∈ s, isSpace c = false := by
    simp only [List.mem_append, List.mem_singleton, or_imp, forall_and, forall_eq]
    exact ⟨hroute.unspaced hR, fun c hc => (chars_of_requireIdentifier (hidentified.2 g hg) c hc).1⟩
  obtain ⟨hne, hhead, hlast⟩ := joinPath_ends (by simp) hsegments
  unfold rolePath
  simp only [bind_eq_ok, raiseWhen_eq_ok, exists_unit, not_or, Bool.not_eq_true, Except.ok.injEq]
  constructor
  · rintro ⟨s, hs, -, rfl⟩
    exact (shortId_str_iff.1 hs).length
  · intro hlength
    exact ⟨_, shortId_str_iff.2 ⟨hne, hlength, unspaced_joinPath hunspaced⟩,
      ⟨hhead, hlast, hasDoubleDot_joinPath hsegments⟩, rfl⟩

end Names

/-! ## The compiler on a template of this shape -/

section Compile

variable [PyFloat F] {axes : List (DenseAxis F)} {reference commandSchema : Str} {path : String}

omit [PyFloat F] in
theorem reads_samples (ss : List (Sample F)) :
    (Val.list (ss.map Sample.toVal)).Reads (.list (ss.map Sample.toVal)) := by
  have hsample : ∀ s : Sample F, s.toVal.Reads s.toVal := by
    intro s
    have hvalues : Val.ReadsList (s.values.map .float) (s.values.map (Val.float (F := F))) := by
      rw [Val.readsList_iff_forall₂, List.forall₂_map_left_iff, List.forall₂_map_right_iff]
      exact List.forall₂_same.2 fun _ _ => rfl
    exact ⟨_, _, rfl, .refl _, _, _, rfl, rfl, _, _, rfl, ⟨_, rfl, hvalues⟩, rfl⟩
  refine ⟨_, rfl, ?_⟩
  rw [Val.readsList_iff_forall₂, List.forall₂_map_left_iff, List.forall₂_map_right_iff]
  exact List.forall₂_same.2 fun s _ => hsample s

theorem eq_of_readSample {k : ℕ} {s s' : Sample F} (h : ReadSample readValue k s.toVal s') :
    s' = s := by
  obtain ⟨d, vs, hd, -, htime, hvalues, hread⟩ := h.object
  obtain rfl := Val.dict.inj hd
  have htime : some (Val.int s.tUs : Val F) = some (.int s'.tUs) := by simpa using htime
  have hvalues : some (Val.list (s.values.map .float)) = some (.list vs) := by simpa using hvalues
  obtain rfl := Val.list.inj (Option.some.inj hvalues)
  have hsame : s'.values = s.values := by
    rw [List.forall₂_map_left_iff] at hread
    have hequal : List.Forall₂ Eq s.values s'.values :=
      hread.imp fun x y hxy => Option.some.inj (show some x = some y from hxy)
    rw [List.forall₂_eq_eq_eq] at hequal
    exact hequal.symm
  cases s
  cases s'
  cases hsame
  cases htime
  rfl

theorem compileDenseSamples_toVal {ss ss' : List (Sample F)} :
    compileDenseSamples (.list (ss.map Sample.toVal)) axes reference commandSchema path = .ok ss' ↔
      ss' = ss ∧ 2 ≤ ss.length ∧ SamplesOk axes reference commandSchema path 0 none ss := by
  constructor
  · intro h
    obtain ⟨⟨raws, hraws, hread⟩, hlength, hok⟩ := compileDenseSamples_shape.1 h
    obtain rfl := Val.list.inj hraws
    rw [List.forall₂_map_left_iff] at hread
    have hequal : List.Forall₂ Eq ss ss' := hread.imp fun _ _ hs => (eq_of_readSample hs).symm
    rw [List.forall₂_eq_eq_eq] at hequal
    subst hequal
    exact ⟨rfl, hlength, hok⟩
  · rintro ⟨rfl, hlength, hok⟩
    exact compileDenseSamples_of_ok hlength hok (reads_samples _)

/-- The compiled sequence of these samples. -/
def sequenceFor (r : ResolvedGroup F) (group commandSchema reference : Str)
    (samples : List (Sample F)) : CompiledSequence F where
  rolePath := group
  resolvedTarget := (normalizeResolution r).1
  commandSchema := commandSchema
  reference := reference
  axes := (normalizeResolution r).2.map fun a => ⟨a.name, a.kind, a.unit⟩
  durationUs := (samples.getLast?.map Sample.tUs).getD 0
  samples := samples

variable [PyText F] {R : Registry F} {rootId : Str}

theorem compileSequence_migrated {r : ResolvedGroup F} {group : Str} {ss : List (Sample F)}
    (hr : R.resolveGroup rootId group = .ok r) {s : CompiledSequence F} :
    compileSequence R rootId (migratedSequence group commandSchema reference ss) path = .ok s ↔
      s = sequenceFor r group commandSchema reference ss ∧ SequenceOk R rootId path s r := by
  constructor
  · intro h
    have hfield : ∀ k v, lookup (py k) (entries [("group", .str group),
        ("command_schema", .str commandSchema), ("reference", .str reference),
        ("samples", .list (ss.map Sample.toVal))]) = some v →
        (migratedSequence group commandSchema reference ss).getItem k = .ok v :=
      fun k v hk => getItem_of_lookup hk
    unfold compileSequence at h
    simp only [hfield "group" (.str group) (by simp),
      hfield "command_schema" (.str commandSchema) (by simp),
      hfield "reference" (.str reference) (by simp),
      hfield "samples" (.list (ss.map Sample.toVal)) (by simp), bind_eq_ok, raiseWhen_eq_ok,
      exists_unit, liftExc_ok, Except.ok.injEq, exists_eq_left', Except.bind, Val.pyStr, not_and_or,
      not_not, Bool.not_eq_true, compileDenseSamples_toVal] at h
    obtain ⟨-, -, role, hrole, r', hr', hin, hpos, href, hne, _, ⟨rfl, hlength, hok⟩, rfl⟩ := h
    obtain rfl := Val.str.inj (rolePath_eq_ok hrole)
    obtain rfl := Except.ok.inj (hr.symm.trans hr')
    exact ⟨rfl, hrole, hr, rfl, hin, hpos, href, hne, rfl, hlength, hok, rfl⟩
  · rintro ⟨rfl, hok⟩
    exact hok.compile (reads_samples ss)

variable [Cbor F] [Sha256]

theorem compileSequencesFrom_pair {raw₁ raw₂ : Val F} {ss : List (HashedSequence F)} :
    compileSequencesFrom R rootId path 0 [] [raw₁, raw₂] = .ok ss ↔ ∃ s₁ s₂ : HashedSequence F,
      ss = [s₁, s₂] ∧
      compileSequence R rootId raw₁ (path ++ ".sequences[0]") = .ok s₁.toCompiledSequence ∧
      compileSequence R rootId raw₂ (path ++ ".sequences[1]") = .ok s₂.toCompiledSequence ∧
      s₂.resolvedTarget ≠ s₁.resolvedTarget ∧
      digestValue (dictOf s₁.fields) = .ok s₁.sha256 ∧
      digestValue (dictOf s₂.fields) = .ok s₂.sha256 := by
  have hzero : path ++ ".sequences[" ++ toString 0 ++ "]" = path ++ ".sequences[0]" := by
    rw [String.append_assoc, String.append_assoc]
    rfl
  have hone : path ++ ".sequences[" ++ toString 1 ++ "]" = path ++ ".sequences[1]" := by
    rw [String.append_assoc, String.append_assoc]
    rfl
  simp only [compileSequencesFrom, zero_add, hzero, hone, bind_eq_ok, raiseWhen_eq_ok, exists_unit,
    Except.ok.injEq, exists_eq_left', List.mem_singleton, List.not_mem_nil, not_false_eq_true,
    true_and]
  constructor
  · rintro ⟨s₁, h₁, sha₁, hsha₁, _, ⟨s₂, h₂, hne, sha₂, hsha₂, rfl⟩, rfl⟩
    exact ⟨⟨s₁, sha₁⟩, ⟨s₂, sha₂⟩, rfl, h₁, h₂, hne, hsha₁, hsha₂⟩
  · rintro ⟨s₁, s₂, rfl, h₁, h₂, hne, hsha₁, hsha₂⟩
    exact ⟨_, h₁, _, hsha₁, _, ⟨_, h₂, hne, _, hsha₂, rfl⟩, rfl⟩

/-- A phase without `completion` and `transitions` has the defaults. -/
theorem compilePhase_migrated {raws : List (Val F)} (hne : raws ≠ []) {p : HashedPhase F} :
    compilePhase R rootId (migratedPhase raws) path = .ok p ↔
      compileSequencesFrom R rootId path 0 [] raws = .ok p.sequences ∧
      digestValue (dictOf p.fields) = .ok p.sha256 ∧
      p.phaseId = py "migrated-v1-trajectory" ∧ p.durationUs = phaseDuration p.sequences := by
  have hexact : requireExactFields (migratedPhase raws) ["phase_id", "sequences"]
      ["completion", "transitions"] path = .ok () := requireExactFields_dictOf (by simp) (by simp)
  have hid : (migratedPhase raws).getItem "phase_id" = .ok (.str (py "migrated-v1-trajectory")) :=
    getItem_of_lookup (by simp)
  have hsequences : (migratedPhase raws).getItem "sequences" = .ok (.list raws) :=
    getItem_of_lookup (by simp)
  have hshort : shortId (.str (py "migrated-v1-trajectory") : Val F) (path ++ ".phase_id") =
      .ok (py "migrated-v1-trajectory") := shortId_str_iff.2 ⟨by decide, by decide, by decide⟩
  have hcompletion : getOr "completion" defaultCompletion (migratedPhase raws) =
      defaultCompletion := by simp [migratedPhase, dictOf, getOr]
  have htransitions : getOr "transitions" (.list []) (migratedPhase raws) = .list [] := by
    simp [migratedPhase, dictOf, getOr]
  have heq : Val.eq (defaultCompletion : Val F) defaultCompletion = true := by
    simp [defaultCompletion, dictOf, Val.eq, Val.subDict, findKey, Key.eq]
  have hdict : isDict (migratedPhase raws) = true := rfl
  simp only [compilePhase, hdict, hexact, hid, hsequences, hcompletion, htransitions, heq, hshort,
    nonEmptyList_list hne, checkTransitions, bind_eq_ok, raiseWhen_eq_ok, exists_unit, liftExc_ok,
    Except.ok.injEq, exists_eq_left', Bool.true_eq_false, not_false_eq_true, true_and]
  constructor
  · rintro ⟨ss, hss, sha, hsha, rfl⟩
    exact ⟨hss, hsha, rfl, rfl⟩
  · rintro ⟨hss, hsha, hphaseId, hduration⟩
    refine ⟨_, hss, p.sha256, ?_, ?_⟩
    · rw [← hphaseId, ← hduration]
      exact hsha
    · rw [← hphaseId, ← hduration]

theorem compileBody_migrated {programId : Str} {phase : Val F} {b : CompiledBody F} :
    compileBody R (migratedTemplate programId rootId [phase]) = .ok b ↔
      ShortName programId ∧ ShortName rootId ∧
      (∃ manifest v, R.describe rootId = .ok manifest ∧
        manifest.get "exposed_as_run_root" = .ok v ∧ isTrue v = true) ∧
      R.manifestHash rootId = .ok b.manifestHash ∧
      (∃ p, b.phases = [p] ∧ compilePhase R rootId phase "template.phases[0]" = .ok p) ∧
      digestValue (outlineOf b.phases) = .ok b.outlineSha256 ∧
      b.programId = programId ∧ b.serverId = R.serverId ∧ b.rootId = rootId := by
  have hexact : requireExactFields (migratedTemplate programId rootId [phase])
      ["format", "version", "root_id", "phases"] ["program_id"] "template" = .ok () :=
    requireExactFields_dictOf (by simp) (by simp)
  have hformat : (migratedTemplate programId rootId [phase]).getItem "format" =
      .ok (.str templateFormat) := getItem_of_lookup (by simp)
  have hversion : (migratedTemplate programId rootId [phase]).getItem "version" = .ok (.int 2) :=
    getItem_of_lookup (by simp)
  have hroot : (migratedTemplate programId rootId [phase]).getItem "root_id" = .ok (.str rootId) :=
    getItem_of_lookup (by simp)
  have hphases : (migratedTemplate programId rootId [phase]).getItem "phases" =
      .ok (.list [phase]) := getItem_of_lookup (by simp)
  have hid : getOr "program_id" (.str (py "program")) (migratedTemplate programId rootId [phase]) =
      .str programId := by simp [migratedTemplate, dictOf, getOr]
  have hmatch : (Val.eq (.str templateFormat : Val F) (.str templateFormat) &&
      Val.eq (.int 2 : Val F) (.int 2)) = true := by simp [Val.eq]
  have hpath : "template.phases[" ++ toString 0 ++ "]" = "template.phases[0]" := by decide
  have hname : ∀ {s : Str} {path : String} {t : Str},
      shortId (.str s : Val F) path = .ok t ↔ t = s ∧ ShortName s := by
    intro s path t
    constructor
    · intro h
      obtain rfl := Val.str.inj (shortId_eq_ok h)
      exact ⟨rfl, shortId_str_iff.1 h⟩
    · rintro ⟨rfl, h⟩
      exact shortId_str_iff.2 h
  simp only [compileBody, hexact, hformat, hversion, hroot, hphases, hid, hmatch, hpath, hname,
    nonEmptyList, compilePhasesFrom, bind_eq_ok, raiseWhen_eq_ok, exists_unit, liftExc_eq_ok,
    liftExc_ok, Except.ok.injEq, exists_eq_left', not_false_eq_true, true_and, List.not_mem_nil,
    Bool.not_eq_false]
  constructor
  · rintro ⟨_, ⟨rfl, hrootId⟩, manifest, hm, v, hv, htrue, hash, hhash, _, ⟨p, hp, rfl⟩, _,
      ⟨rfl, hprogramId⟩, sha, hsha, rfl⟩
    exact ⟨hprogramId, hrootId, ⟨manifest, v, hm, hv, htrue⟩, hhash, ⟨p, rfl, hp⟩, hsha, rfl, rfl, rfl⟩
  · rintro ⟨hprogramId, hrootId, ⟨manifest, v, hm, hv, htrue⟩, hhash, ⟨p, hphase, hp⟩, hsha, rfl,
      hserver, rfl⟩
    refine ⟨_, ⟨rfl, hrootId⟩, manifest, hm, v, hv, htrue, _, hhash, [p], ⟨p, hp, rfl⟩, _,
      ⟨rfl, hprogramId⟩, b.outlineSha256, hphase ▸ hsha, ?_⟩
    rw [← hserver, ← hphase]

/-- A node of an accepted registry has a manifest that says whether it is exposed, and a hash. -/
theorem exists_manifest (hR : R.check = .ok ()) {n : ControlNode F} (hfind : R.find rootId = some n) :
    (∃ manifest, R.describe rootId = .ok manifest ∧
      manifest.get "exposed_as_run_root" = .ok (.bool n.exposedAsRunRoot)) ∧
    ∃ hash, R.manifestHash rootId = .ok hash := by
  obtain ⟨d, n', own, digest, hfind', hown, hdescribe, -⟩ | ⟨_, hdescribe⟩ := describe_cases hR rootId
  · obtain rfl := Option.some.inj (hfind.symm.trans hfind')
    refine ⟨⟨_, hdescribe, ?_⟩, digest, ?_⟩
    · simp [dictOf, Val.get, Registry.commonManifest]
    · rw [Registry.manifestHash, hdescribe]
      show (liftExc (Val.getItem _ _) >>= _) = _
      rw [getItem_manifestHash hown]
      rfl
  · obtain ⟨fields, hfields⟩ := (accepted_of_check hR).manifests n (List.mem_of_find?_eq_some hfind)
    rw [nodeId_of_find hfind] at hfields
    rw [Registry.describe, hfields] at hdescribe
    cases hdescribe

variable [PlainCbor F]

/-- Two sequences that compile for different groups make a phase. -/
theorem exists_compilePhase_pair (hR : R.check = .ok ()) {raw₁ raw₂ : Val F}
    {s₁ s₂ : CompiledSequence F}
    (h₁ : compileSequence R rootId raw₁ (path ++ ".sequences[0]") = .ok s₁)
    (h₂ : compileSequence R rootId raw₂ (path ++ ".sequences[1]") = .ok s₂)
    (hne : s₂.resolvedTarget ≠ s₁.resolvedTarget) : ∃ p sha₁ sha₂,
      compilePhase R rootId (migratedPhase [raw₁, raw₂]) path = .ok p ∧
      p.sequences = [⟨s₁, sha₁⟩, ⟨s₂, sha₂⟩] := by
  have hdigest : ∀ {raw : Val F} {path : String} {s : CompiledSequence F},
      compileSequence R rootId raw path = .ok s →
        ∃ sha, (digestValue (dictOf s.fields) : Except (Error F) Str) = .ok sha := by
    intro raw path s hs
    obtain ⟨r, hok⟩ := sequenceOk_of_compile hs
    obtain ⟨sha, hsha, -⟩ := exists_digestValue (encodable_dictOf.2 (hok.encodable hR))
    exact ⟨sha, hsha⟩
  obtain ⟨sha₁, hsha₁⟩ := hdigest h₁
  obtain ⟨sha₂, hsha₂⟩ := hdigest h₂
  have hss : compileSequencesFrom R rootId path 0 [] [raw₁, raw₂] =
      .ok [⟨s₁, sha₁⟩, ⟨s₂, sha₂⟩] :=
    compileSequencesFrom_pair.2 ⟨⟨s₁, sha₁⟩, ⟨s₂, sha₂⟩, rfl, h₁, h₂, hne, hsha₁, hsha₂⟩
  let phase : CompiledPhase F := ⟨py "migrated-v1-trajectory",
    phaseDuration [⟨s₁, sha₁⟩, ⟨s₂, sha₂⟩], [⟨s₁, sha₁⟩, ⟨s₂, sha₂⟩]⟩
  have hsequences : SequencesOk R rootId path 0 [] phase.sequences := (sequencesOk_of_compile hss).2
  obtain ⟨sha, hsha, -⟩ := exists_digestValue
    ((CompiledPhase.encodable_iff hR hsequences).2 (encodable_py _))
  exact ⟨⟨phase, sha⟩, sha₁, sha₂,
    (compilePhase_migrated (List.cons_ne_nil _ _)).2 ⟨hss, hsha, rfl, rfl⟩, rfl⟩

/-- A phase that compiles makes a program, of an exposed root under a name that can be encoded. -/
theorem exists_compile_phase (hR : R.check = .ok ()) {n : ControlNode F}
    (hfind : R.find rootId = some n) (hexposed : n.exposedAsRunRoot = true)
    (hroot : ShortName rootId) {programId : Str} (hname : ShortName programId)
    (hencodable : Py.encodable programId = true) {raw : Val F} {p : HashedPhase F}
    (hp : compilePhase R rootId raw "template.phases[0]" = .ok p) : ∃ b sha256,
      compileBody R (migratedTemplate programId rootId [raw]) = .ok b ∧
      compile R (migratedTemplate programId rootId [raw]) = .ok ⟨entries b.fields, sha256⟩ ∧
      b.phases = [p] ∧ b.programId = programId ∧ b.rootId = rootId := by
  obtain ⟨⟨manifest, hmanifest, hget⟩, hash, hhash⟩ := exists_manifest hR hfind
  have hphases : compilePhasesFrom R rootId 0 [] [raw] = .ok [p] := by
    have hpath : "template.phases[" ++ toString 0 ++ "]" = "template.phases[0]" := by decide
    simp only [compilePhasesFrom, hpath, bind_eq_ok, raiseWhen_eq_ok, exists_unit]
    exact ⟨p, hp, List.not_mem_nil, [], rfl, rfl⟩
  obtain ⟨outlineSha, houtline, -⟩ :=
    exists_digestValue (encodable_outlineOf hR (phasesOk_of_compile hphases).2)
  have hb := (compileBody_migrated (b := ⟨programId, R.serverId, rootId, hash, outlineSha, [p]⟩)).2
    ⟨hname, hroot, ⟨manifest, _, hmanifest, hget, by rw [hexposed]; rfl⟩, hhash, ⟨p, rfl, hp⟩,
      houtline, rfl, rfl, rfl⟩
  obtain ⟨sha256, hsha, -⟩ := exists_digestValue
    ((CompiledBody.encodable_iff hR (bodyOk_of_compile hb)).2 hencodable)
  refine ⟨_, sha256, hb, ?_, rfl, rfl, rfl⟩
  rw [compile, hb]
  show (digestValue _ >>= _) = _
  rw [hsha]
  rfl

/-- A compiled program is a compiled body, which can be encoded. -/
theorem encodable_of_compile (hR : R.check = .ok ()) {template : Val F} {program : CompiledProgram F}
    (h : compile R template = .ok program) : ∃ b, compileBody R template = .ok b ∧
      program.body = entries b.fields ∧ Py.encodable b.programId = true := by
  unfold compile at h
  obtain ⟨b, hb, h⟩ := bind_eq_ok.1 h
  obtain ⟨sha, hsha, h⟩ := bind_eq_ok.1 h
  obtain rfl := Except.ok.inj h
  simp only [digestValue, liftExc_eq_ok, map_eq_ok] at hsha
  obtain ⟨_, hdumps, -⟩ := hsha
  exact ⟨b, hb, rfl, (CompiledBody.encodable_iff hR (bodyOk_of_compile hb)).1
    (PlainCbor.encodable_of_dumps hdumps)⟩

end Compile

/-! ## Exact arithmetic -/

/-- Exact arithmetic, whatever strings `float` reads. -/
def ExactFloats (fl : PyFloat ℚ) : Prop := ∃ n : Numerals, fl = n.exact

/-- The values of these joints, scaled. -/
def scaledSample (scale : ℚ) (js : List Joint) (p : TrajectoryPoint ℚ) : Sample ℚ :=
  ⟨p.tUs, js.map fun j => p.qDeg j * scale⟩

section Exact

variable [fl : PyFloat ℚ] (hexact : ExactFloats fl)

include hexact

/-- What the v1 policy says of a position. -/
theorem position_exact {p : TrajectoryPoint ℚ} {mode : CoordinateMode}
    (h : SafetyPolicy.default.validatePosition p mode = .ok ()) (j : Joint) :
    (mode = .absoluteDeg → -100 ≤ p.qDeg j ∧ p.qDeg j ≤ 100) ∧
      (mode = .relativeDeg → |p.qDeg j| ≤ 45) := by
  obtain ⟨n, rfl⟩ := hexact
  refine ⟨?_, ?_⟩
  · rintro rfl
    exact Stream.within_eq_true.1 (@Stream.SafetyPolicy.within_of_validate ℚ n.exact _ _ h j)
  · rintro rfl
    have hj := forM_eq_ok.1 h j (Stream.mem_joints j)
    simp only [raiseWhen_eq_ok] at hj
    exact not_lt.1 fun hlt => hj (decide_eq_true hlt)

/-- What it says of a segment. -/
theorem segment_exact {p q : TrajectoryPoint ℚ}
    (h : SafetyPolicy.default.validateSegment p q = .ok ()) : p.tUs < q.tUs ∧ ∀ j,
      1.875 * |q.qDeg j - p.qDeg j| / (((q.tUs - p.tUs : ℤ) : ℚ) / 1000000) ≤ 30 := by
  obtain ⟨n, rfl⟩ := hexact
  have hsegment : @SafetyPolicy.validateSegment ℚ instPyFloatRat
    (@SafetyPolicy.default ℚ instPyFloatRat) p q = .ok () := h
  obtain ⟨htime, hpeaks⟩ := Stream.SafetyPolicy.peaks_of_validate hsegment
  exact ⟨htime, fun j => (hpeaks j).1⟩

variable {scale : ℚ} {js : List Joint} {axes : List (DenseAxis ℚ)}

omit fl hexact in
/-- Scaling keeps the rates where the axes allow the scaled velocity of the v1 policy. -/
theorem segmentOk_scaled (hscale : 0 < scale)
    (haxes : ∀ a ∈ axes, a.maxAcceleration = none ∧ ∀ v ∈ a.maxVelocity, 30 * scale ≤ v)
    {p q : TrajectoryPoint ℚ} (htime : p.tUs < q.tUs)
    (hrate : ∀ j, 1.875 * |q.qDeg j - p.qDeg j| / (((q.tUs - p.tUs : ℤ) : ℚ) / 1000000) ≤ 30) :
    SegmentOk axes (scaledSample scale js p) (scaledSample scale js q) := by
  have hzip : (scaledSample scale js p).values.zip (scaledSample scale js q).values =
      js.map fun j => (p.qDeg j * scale, q.qDeg j * scale) := List.zip_map' ..
  refine ⟨htime, ?_, ?_⟩
  · rw [hzip]
    rintro ⟨a, x, y⟩ hmem v hv
    obtain ⟨ha, hxy⟩ := List.of_mem_zip hmem
    obtain ⟨j, -, he⟩ := List.mem_map.1 hxy
    obtain ⟨rfl, rfl⟩ := Prod.mk.inj he
    refine le_trans ?_ ((haxes a ha).2 v hv)
    have hdistance : |q.qDeg j * scale - p.qDeg j * scale| = |q.qDeg j - p.qDeg j| * scale := by
      rw [← sub_mul, abs_mul, abs_of_pos hscale]
    calc 1.875 * |q.qDeg j * scale - p.qDeg j * scale| /
          segmentS (scaledSample scale js p) (scaledSample scale js q)
        = 1.875 * |q.qDeg j - p.qDeg j| / (((q.tUs - p.tUs : ℤ) : ℚ) / 1000000) * scale := by
          rw [hdistance]
          show 1.875 * (_ * scale) / (((q.tUs - p.tUs : ℤ) : ℚ) / 1000000) = _
          ring
      _ ≤ 30 * scale := mul_le_mul_of_nonneg_right (hrate j) hscale.le
  · rintro ⟨a, x, y⟩ hmem v hv
    have hnone := (haxes a (List.of_mem_zip hmem).1).1
    simp only [hnone] at hv
    cases hv

variable {header : ProgramHeader} {points : List (TrajectoryPoint ℚ)}

/-- The samples of a loaded program pass the checks of the compiler when its start does. -/
theorem samplesOk_scaled {reference commandSchema : Str} (path : String) (hscale : 0 < scale)
    (hlength : axes.length = js.length)
    (haxes : ∀ a ∈ axes, a.maxAcceleration = none ∧ ∀ v ∈ a.maxVelocity, 30 * scale ≤ v)
    (hadmitted : Admitted header .default points)
    (hlimits : ∀ p ∈ points, LimitsOk axes reference commandSchema (scaledSample scale js p)) :
    SamplesOk axes reference commandSchema path 0 none (points.map (scaledSample scale js)) ↔
      (reference = py "phase_start_measured" → ∀ p ∈ points.head?, ∀ j ∈ js,
        |p.qDeg j * scale| ≤ 1 / 10 ^ 12) := by
  obtain ⟨hfirst, -, hsegments, -, -⟩ := hadmitted
  have hchain : List.IsChain (SegmentOk axes) (points.map (scaledSample scale js)) := by
    rw [List.isChain_map]
    refine hsegments.imp fun p q hsegment => ?_
    obtain ⟨htime, hrate⟩ := segment_exact hexact hsegment
    exact segmentOk_scaled hscale haxes htime hrate
  obtain ⟨n, rfl⟩ := hexact
  rw [samplesOk_none n]
  simp only [List.forall_mem_map, List.head?_map, Option.mem_map, forall_exists_index, and_imp,
    forall_apply_eq_imp_iff₂]
  constructor
  · rintro ⟨-, hstart, -, -⟩ hreference p hp j hj
    exact (hstart p hp).zero hreference _ (List.mem_map.2 ⟨j, hj, rfl⟩)
  · intro hstart
    refine ⟨fun p _ => ?_, fun p hp => ⟨(hfirst p hp).1, fun hreference => ?_⟩, hlimits,
      hchain⟩
    · rw [hlength]
      exact List.length_map ..
    · rw [scaledSample, List.forall_mem_map]
      exact hstart hreference p hp

/-- The arm's samples are the body joints in radians. -/
theorem armSamples_exact (degToRad : ℚ) (points : List (TrajectoryPoint ℚ)) :
    armSamples degToRad points = points.map (scaledSample degToRad bodyJoints) := by
  obtain ⟨n, rfl⟩ := hexact
  rfl

/-- The gripper's samples are the aperture as a share. -/
theorem gripperSamples_exact (points : List (TrajectoryPoint ℚ)) :
    gripperSamples points = .ok (points.map (scaledSample (1 / 100) [.gripper])) := by
  obtain ⟨n, rfl⟩ := hexact
  refine mapM_eq_ok_map fun p _ => ?_
  have hdiv : @PyFloat.div ℚ n.exact (p.qDeg .gripper) (@PyFloat.lit ℚ n.exact 100) =
      .ok (p.qDeg .gripper / 100) := if_neg (by norm_num : (100 : ℚ) ≠ 0)
  rw [hdiv]
  show Except.ok (⟨p.tUs, [p.qDeg .gripper / 100]⟩ : Sample ℚ) = .ok ⟨p.tUs, [p.qDeg .gripper * (1 / 100)]⟩
  rw [div_eq_mul_one_div]

section Sequences

variable [PyText ℚ] [Cbor ℚ] [Sha256] {R : Registry ℚ} {rootId : Str} (hR : R.check = .ok ())

include hR

/-- The compiler's checks of a migrated sequence come to the length of its name and its start. -/
theorem sequenceOk_scaled {r : ResolvedGroup ℚ} {group commandSchema : Str} (path : String)
    (hr : R.resolveGroup rootId group = .ok r) (hschema : commandSchema ∈ r.group.commandSchemas)
    (hposition : commandSchema = positionSchema ∨ commandSchema = normalizedPositionSchema)
    (hscale : 0 < scale) (hlength : r.group.axes.length = js.length) (hjs : js ≠ [])
    (hvelocity : ∀ a ∈ r.group.axes, ∀ v ∈ a.maxVelocity, 30 * scale ≤ v)
    (hadmitted : Admitted header .default points) (htwo : 2 ≤ points.length)
    (hlimits : ∀ p ∈ points, LimitsOk (normalizeResolution r).2
      (migratedReference header.coordinateMode) commandSchema (scaledSample scale js p)) :
    SequenceOk R rootId path (sequenceFor r group commandSchema
        (migratedReference header.coordinateMode) (points.map (scaledSample scale js))) r ↔
      group.length ≤ 128 ∧ (header.coordinateMode = .relativeDeg → ∀ p ∈ points.head?, ∀ j ∈ js,
        |p.qDeg j * scale| ≤ 1 / 10 ^ 12) := by
  have hcount : (normalizeResolution r).2.length = js.length := by
    rw [← hlength]
    exact List.length_map ..
  have haxes : ∀ a ∈ (normalizeResolution r).2, a.maxAcceleration = none ∧
      ∀ v ∈ a.maxVelocity, 30 * scale ≤ v := by
    intro a ha
    obtain ⟨axis, haxis, rfl⟩ := List.mem_map.1 ha
    exact ⟨rfl, hvelocity axis haxis⟩
  have hsamples := samplesOk_scaled hexact path hscale hcount haxes hadmitted hlimits
  rw [← rolePath_resolved hR hr (path ++ ".group"), ← (migratedReference_cases _).2]
  refine ⟨fun h => ⟨h.role, hsamples.1 h.samples⟩, fun ⟨hrole, hstart⟩ => ?_⟩
  have hreference : migratedReference header.coordinateMode = py "absolute" ∨
      migratedReference header.coordinateMode = py "phase_start_measured" := by
    cases header.coordinateMode
    · exact .inl rfl
    · exact .inr rfl
  have hne : (normalizeResolution r).2.isEmpty = false := by
    rw [List.isEmpty_eq_false_iff, ← List.length_pos_iff, hcount]
    exact List.length_pos_iff.2 hjs
  exact ⟨hrole, hr, rfl, hschema, hposition, hreference, hne, rfl,
    by rw [sequenceFor, List.length_map]; exact htwo, hsamples.2 hstart, rfl⟩

end Sequences

/-! ## The root -/

/-- The root is exposed and has an arm and a gripper for the two position schemas, with limits no
tighter than those of the v1 policy in the new units. -/
structure FitsPolicy (R : Registry ℚ) (degToRad : ℚ) (rootId armRolePath gripperRolePath : Str)
    (arm gripper : ResolvedGroup ℚ) : Prop where
  exposed : ∃ n, R.find rootId = some n ∧ n.exposedAsRunRoot = true
  arm_resolves : R.resolveGroup rootId armRolePath = .ok arm
  gripper_resolves : R.resolveGroup rootId gripperRolePath = .ok gripper
  arm_schema : positionSchema ∈ arm.group.commandSchemas
  gripper_schema : normalizedPositionSchema ∈ gripper.group.commandSchemas
  arm_axes : arm.group.axes.length = 5
  gripper_axes : gripper.group.axes.length = 1
  arm_limits : ∀ a ∈ arm.group.axes, a.minimum ≤ -100 * degToRad ∧ 100 * degToRad ≤ a.maximum ∧
    ∀ v ∈ a.maxVelocity, 30 * degToRad ≤ v
  gripper_limits : ∀ a ∈ gripper.group.axes, a.minimum ≤ 0 ∧ 1 ≤ a.maximum ∧
    ∀ v ∈ a.maxVelocity, 30 / 100 ≤ v

variable {degToRad : ℚ} {R : Registry ℚ} {rootId armRolePath gripperRolePath : Str}
  {arm gripper : ResolvedGroup ℚ}

theorem armLimits (hscale : 0 < degToRad)
    (hroot : FitsPolicy R degToRad rootId armRolePath gripperRolePath arm gripper)
    (hadmitted : Admitted header .default points) : ∀ p ∈ points,
    LimitsOk (normalizeResolution arm).2 (migratedReference header.coordinateMode) positionSchema
      (scaledSample degToRad bodyJoints p) := by
  intro p hp
  refine ⟨fun hreference => ?_, fun hschema => absurd hschema (by decide)⟩
  have hmode := (migratedReference_cases _).1.1 hreference
  rintro ⟨a, x⟩ hmem
  obtain ⟨ha, hx⟩ := List.of_mem_zip hmem
  obtain ⟨axis, haxis, rfl⟩ := List.mem_map.1 ha
  obtain ⟨j, -, rfl⟩ := List.mem_map.1 hx
  obtain ⟨hlower, hupper, -⟩ := hroot.arm_limits axis haxis
  obtain ⟨hmin, hmax⟩ := (position_exact hexact (hadmitted.positions p hp) j).1 hmode
  simp only [Option.mem_def, Option.some.injEq, forall_eq']
  exact ⟨hlower.trans (mul_le_mul_of_nonneg_right hmin hscale.le),
    (mul_le_mul_of_nonneg_right hmax hscale.le).trans hupper⟩

theorem gripperLimits
    (hroot : FitsPolicy R degToRad rootId armRolePath gripperRolePath arm gripper)
    (hadmitted : Admitted header .default points)
    (haperture : header.coordinateMode = .absoluteDeg → ∀ p ∈ points,
      0 ≤ p.qDeg .gripper ∧ p.qDeg .gripper ≤ 100) : ∀ p ∈ points,
    LimitsOk (normalizeResolution gripper).2 (migratedReference header.coordinateMode)
      normalizedPositionSchema (scaledSample (1 / 100) [.gripper] p) := by
  intro p hp
  refine ⟨fun hreference => ?_, fun _ => ?_⟩
  · obtain ⟨hmin, hmax⟩ := haperture ((migratedReference_cases _).1.1 hreference) p hp
    rintro ⟨a, x⟩ hmem
    obtain ⟨ha, hx⟩ := List.of_mem_zip hmem
    obtain ⟨axis, haxis, rfl⟩ := List.mem_map.1 ha
    obtain ⟨j, hj, rfl⟩ := List.mem_map.1 hx
    obtain rfl := List.mem_singleton.1 hj
    obtain ⟨hlower, hupper, -⟩ := hroot.gripper_limits axis haxis
    simp only [Option.mem_def, Option.some.injEq, forall_eq']
    exact ⟨by linarith, by linarith⟩
  · rw [scaledSample, List.forall_mem_map, List.forall_mem_singleton]
    split_ifs with hreference
    · obtain ⟨hmin, hmax⟩ := haperture ((migratedReference_cases _).1.1 hreference) p hp
      exact ⟨by linarith, by linarith⟩
    · have hrelative : header.coordinateMode = .relativeDeg := by
        cases hmode : header.coordinateMode with
        | absoluteDeg => exact absurd ((migratedReference_cases _).1.2 hmode) hreference
        | relativeDeg => rfl
      have hoffset := (position_exact hexact (hadmitted.positions p hp) .gripper).2 hrelative
      obtain ⟨hmin, hmax⟩ := abs_le.1 hoffset
      exact ⟨by linarith, by linarith⟩

/-! ## What migration comes to -/

/-- The compiled program is the v1 program in the new units: one phase that moves the arm and the
gripper at the times of the points. -/
def Carries (degToRad : ℚ) (header : ProgramHeader) (points : List (TrajectoryPoint ℚ))
    (arm gripper : ResolvedGroup ℚ) (b : CompiledBody ℚ) : Prop :=
  ∃ p : HashedPhase ℚ, ∃ armSequence gripperSequence : HashedSequence ℚ,
    b.phases = [p] ∧ p.sequences = [armSequence, gripperSequence] ∧
    b.programId = header.programId ++ py "-v2" ∧ b.rootId = arm.rootNodeId ∧
    armSequence.resolvedTarget = ⟨arm.physicalNodeId, arm.groupId⟩ ∧
    gripperSequence.resolvedTarget = ⟨gripper.physicalNodeId, gripper.groupId⟩ ∧
    (∀ s ∈ p.sequences, s.reference = migratedReference header.coordinateMode) ∧
    armSequence.samples = points.map (fun p => ⟨p.tUs, bodyJoints.map fun j => p.qDeg j * degToRad⟩) ∧
    gripperSequence.samples = points.map (fun p => ⟨p.tUs, [p.qDeg .gripper / 100]⟩)

/-- What the compiler asks of a v1 program and its new names besides the v1 validation. -/
structure Migratable (degToRad : ℚ) (header : ProgramHeader) (points : List (TrajectoryPoint ℚ))
    (rootId armRolePath gripperRolePath : Str) : Prop where
  short : header.programId.length ≤ 125
  unspaced : ∀ c ∈ header.programId, isSpace c = false
  encodable : Py.encodable header.programId = true
  names : ∀ name ∈ [rootId, armRolePath, gripperRolePath], name.length ≤ 128
  start : header.coordinateMode = .relativeDeg → ∀ p ∈ points.head?,
    (∀ j ∈ bodyJoints, |p.qDeg j * degToRad| ≤ 1 / 10 ^ 12) ∧ |p.qDeg .gripper / 100| ≤ 1 / 10 ^ 12

section Migration

variable [PyText ℚ]

section Template

variable [Json ℚ] [JsonLine]

/-- The template of a loaded program. -/
theorem migrate_eq_ok {source : List Str}
    (hload : loadProgram .default source = .ok (header, points)) (degToRad : ℚ)
    (rootId armRolePath gripperRolePath : Str) :
    migrateV1So101Template degToRad source rootId armRolePath gripperRolePath =
      .ok (migratedTemplate (header.programId ++ py "-v2") rootId [migratedPhase
        [migratedSequence armRolePath positionSchema (migratedReference header.coordinateMode)
            (points.map (scaledSample degToRad bodyJoints)),
          migratedSequence gripperRolePath normalizedPositionSchema
            (migratedReference header.coordinateMode)
            (points.map (scaledSample (1 / 100) [.gripper]))]]) := by
  rw [← armSamples_exact hexact]
  simp only [migrateV1So101Template, hload, gripperSamples_exact hexact, liftBuiltin, bind, Except.bind]

end Template

variable [Cbor ℚ] [Sha256] (hR : R.check = .ok ()) (hscale : 0 < degToRad)

omit hexact in
include hR in
/-- Groups with different numbers of axes are different targets. -/
theorem targets_ne {group₁ group₂ : Str} {r₁ r₂ : ResolvedGroup ℚ}
    (h₁ : R.resolveGroup rootId group₁ = .ok r₁) (h₂ : R.resolveGroup rootId group₂ = .ok r₂)
    (hne : r₁.group.axes.length ≠ r₂.group.axes.length) :
    (normalizeResolution r₁).1 ≠ (normalizeResolution r₂).1 := by
  have hnamed := (accepted_of_check hR).named
  obtain ⟨_, p₁, g₁, hroute₁, hg₁, -, rfl⟩ := (resolveGroup_eq_ok hnamed).1 h₁
  obtain ⟨_, p₂, g₂, hroute₂, hg₂, -, rfl⟩ := (resolveGroup_eq_ok hnamed).1 h₂
  intro he
  obtain ⟨hnode, hgroup⟩ : p₁.nodeId = p₂.nodeId ∧ g₁.groupId = g₂.groupId :=
    ResolvedTarget.mk.inj he
  have hfind := hroute₁.find
  rw [hnode, hroute₂.find] at hfind
  cases hfind
  have hnd := (hroute₁.segments hnamed).2.2.1
  have hsame := find?_of_nodup hnd hg₁
  rw [hgroup, find?_of_nodup hnd hg₂] at hsame
  cases hsame
  exact hne rfl

variable
  (hroot : FitsPolicy R degToRad rootId armRolePath gripperRolePath arm gripper)
  (hadmitted : Admitted header .default points) (htwo : 2 ≤ points.length)

include hR hroot hadmitted htwo

include hscale in
/-- The arm's sequence passes. -/
theorem armSequence_ok (path : String) :
    SequenceOk R rootId path (sequenceFor arm armRolePath positionSchema
        (migratedReference header.coordinateMode) (points.map (scaledSample degToRad bodyJoints)))
        arm ↔
      armRolePath.length ≤ 128 ∧ (header.coordinateMode = .relativeDeg → ∀ p ∈ points.head?,
        ∀ j ∈ bodyJoints, |p.qDeg j * degToRad| ≤ 1 / 10 ^ 12) :=
  sequenceOk_scaled hexact hR path hroot.arm_resolves hroot.arm_schema (.inl rfl) hscale
    (by rw [hroot.arm_axes]; rfl) (by decide) (fun a ha => (hroot.arm_limits a ha).2.2) hadmitted htwo
    (armLimits hexact hscale hroot hadmitted)

/-- The gripper's sequence passes. -/
theorem gripperSequence_ok (haperture : header.coordinateMode = .absoluteDeg → ∀ p ∈ points,
      0 ≤ p.qDeg .gripper ∧ p.qDeg .gripper ≤ 100) (path : String) :
    SequenceOk R rootId path (sequenceFor gripper gripperRolePath normalizedPositionSchema
        (migratedReference header.coordinateMode) (points.map (scaledSample (1 / 100) [.gripper])))
        gripper ↔
      gripperRolePath.length ≤ 128 ∧ (header.coordinateMode = .relativeDeg → ∀ p ∈ points.head?,
        |p.qDeg .gripper / 100| ≤ 1 / 10 ^ 12) := by
  have hvelocity : ∀ a ∈ gripper.group.axes, ∀ v ∈ a.maxVelocity, 30 * (1 / 100) ≤ v := by
    intro a ha v hv
    rw [mul_one_div]
    exact (hroot.gripper_limits a ha).2.2 v hv
  have hok := sequenceOk_scaled hexact hR path hroot.gripper_resolves hroot.gripper_schema
    (.inr rfl) (by norm_num) (by rw [hroot.gripper_axes]; rfl) (List.cons_ne_nil Joint.gripper [])
    hvelocity hadmitted htwo (gripperLimits hexact hroot hadmitted haperture)
  rw [hok]
  simp only [List.forall_mem_singleton, mul_one_div]

end Migration

section Migration

variable [PyText ℚ] [Json ℚ] [JsonLine] [Cbor ℚ] [Sha256] [PlainCbor ℚ]

/-- In exact arithmetic the compiler accepts the template of a v1 program that `load_program` accepts
and carries the program over, exactly where the names and the start also meet the rules of v2. -/
theorem migrate_compiles_iff (hR : R.check = .ok ()) (hscale : 0 < degToRad)
    (hroot : FitsPolicy R degToRad rootId armRolePath gripperRolePath arm gripper)
    {source : List Str} (hload : loadProgram .default source = .ok (header, points))
    (haperture : header.coordinateMode = .absoluteDeg → ∀ p ∈ points,
      0 ≤ p.qDeg .gripper ∧ p.qDeg .gripper ≤ 100) :
    (∃ template b sha256,
      migrateV1So101Template degToRad source rootId armRolePath gripperRolePath = .ok template ∧
      compileBody R template = .ok b ∧ compile R template = .ok ⟨entries b.fields, sha256⟩ ∧
      Carries degToRad header points arm gripper b) ↔
    Migratable degToRad header points rootId armRolePath gripperRolePath := by
  obtain ⟨n, hfind, hexposed⟩ := hroot.exposed
  obtain ⟨hadmitted, htwo⟩ := Stream.validatePoints_iff_admitted.1 (validate_of_loadProgram hload)
  have harm := armSequence_ok hexact hR hscale hroot hadmitted htwo
  have hgripper := gripperSequence_ok hexact hR hroot hadmitted htwo haperture
  rw [migrate_eq_ok hexact hload]
  constructor
  · rintro ⟨_, b, sha256, htemplate, hb, hcompile, -⟩
    obtain rfl := Except.ok.inj htemplate
    obtain ⟨hname, hrootName, -, -, ⟨p, -, hp⟩, -, hid, -, -⟩ := compileBody_migrated.1 hb
    obtain ⟨b', hb', -, hencodable⟩ := encodable_of_compile hR hcompile
    obtain rfl := Except.ok.inj (hb.symm.trans hb')
    obtain ⟨hsequences, -⟩ := (compilePhase_migrated (List.cons_ne_nil _ _)).1 hp
    obtain ⟨_, _, -, h₁, h₂, -⟩ := compileSequencesFrom_pair.1 hsequences
    obtain ⟨he₁, hok₁⟩ := (compileSequence_migrated hroot.arm_resolves).1 h₁
    obtain ⟨he₂, hok₂⟩ := (compileSequence_migrated hroot.gripper_resolves).1 h₂
    obtain ⟨harmName, harmStart⟩ := (harm _).1 (he₁ ▸ hok₁)
    obtain ⟨hgripperName, hgripperStart⟩ := (hgripper _).1 (he₂ ▸ hok₂)
    obtain ⟨hshort, hunspaced⟩ := shortName_v2.1 hname
    rw [hid, encodable_append] at hencodable
    refine ⟨hshort, hunspaced, hencodable.1, ?_, fun hmode p hp =>
      ⟨harmStart hmode p hp, hgripperStart hmode p hp⟩⟩
    simp only [List.forall_mem_cons, List.not_mem_nil, false_imp_iff, implies_true, and_true]
    exact ⟨hrootName.length, harmName, hgripperName⟩
  · intro h
    have hnames := h.names
    simp only [List.forall_mem_cons, List.not_mem_nil, false_imp_iff, implies_true, and_true] at hnames
    obtain ⟨hrootLength, harmLength, hgripperLength⟩ := hnames
    have h₁ := (harm ("template.phases[0]" ++ ".sequences[0]")).2
      ⟨harmLength, fun hmode p hp => (h.start hmode p hp).1⟩
    have h₂ := (hgripper ("template.phases[0]" ++ ".sequences[1]")).2
      ⟨hgripperLength, fun hmode p hp => (h.start hmode p hp).2⟩
    obtain ⟨p, sha₁, sha₂, hp, hsequences⟩ := exists_compilePhase_pair hR
      ((compileSequence_migrated hroot.arm_resolves).2 ⟨rfl, h₁⟩)
      ((compileSequence_migrated hroot.gripper_resolves).2 ⟨rfl, h₂⟩)
      (targets_ne hR hroot.gripper_resolves hroot.arm_resolves
        (by rw [hroot.gripper_axes, hroot.arm_axes]; decide))
    obtain ⟨b, sha256, hb, hcompile, hphases, hid, hrootId⟩ := exists_compile_phase hR hfind hexposed
      ((shortName_nodeId hR hfind).2 hrootLength) (shortName_v2.2 ⟨h.short, h.unspaced⟩)
      (encodable_append.2 ⟨h.encodable, encodable_py _⟩) hp
    refine ⟨_, b, sha256, rfl, hb, hcompile, p, _, _, hphases, hsequences, hid, ?_, rfl, rfl, ?_,
      rfl, ?_⟩
    · obtain ⟨_, _, _, _, _, _, rfl⟩ :=
        (resolveGroup_eq_ok (accepted_of_check hR).named).1 hroot.arm_resolves
      exact hrootId
    · rw [hsequences]
      simp [sequenceFor]
    · refine List.map_congr_left fun p _ => ?_
      rw [scaledSample, List.map_singleton, mul_one_div]

end Migration

end Exact

/-! ### A name with a blank, and a start off zero -/

section Demo

local instance migrateHash : Sha256 := lengthHash

local instance migrateCodec : Cbor ℚ := strictCodec

local instance migratePlain : PlainCbor ℚ := plainCbor_strictCodec

def demoArm : ActuatorGroupSpec ℚ :=
  { groupId := py "arm"
    axes := bodyJoints.map fun j =>
      { axisId := py j.name, kind := py "revolute", unit := py "rad", minimum := -2, maximum := 2 }
    commandSchemas := [positionSchema], telemetrySchemas := [py "axis_state/v1"]
    controlRateHz := 50 }

/-- A robot with five joints and a gripper. -/
def demoFollower : Registry ℚ :=
  { serverId := py "example-server", identities := []
    nodes := [.physical
      { demoRobot with
        groups := [demoArm, demoGroup "gripper" "opening"] }] }

/-- A v1 file with two points: its name, its mode and the first value. -/
structure DemoFile where
  programId : String
  mode : String
  start : String
  value : ℚ

def DemoFile.lines (f : DemoFile) : List Str :=
  [py "\x7b\"type\":\"header\",\"format\":\"so101-joint-trajectory\",\"version\":1,\"program_id\":\"" ++
      py f.programId ++ py "\",\"model\":\"so101-follower\",\"joints\":[\"shoulder_pan\"," ++
      py "\"shoulder_lift\",\"elbow_flex\",\"wrist_flex\",\"wrist_roll\",\"gripper\"]," ++
      py "\"coordinate_mode\":\"" ++ py f.mode ++ py "\",\"interpolation\":\"quintic_stop\"\x7d\n",
    py "\x7b\"type\":\"point\",\"t_us\":0,\"q_deg\":[" ++ py f.start ++ py ",0,0,0,0,0]\x7d\n",
    py "\x7b\"type\":\"point\",\"t_us\":4000000,\"q_deg\":[10,0,0,0,0,40]\x7d\n"]

def DemoFile.records (f : DemoFile) : List (Val ℚ) :=
  [dictOf [("type", .str (py "header")), ("format", .str (py "so101-joint-trajectory")),
      ("version", .int 1), ("program_id", .str (py f.programId)), ("model", .str (py "so101-follower")),
      ("joints", .list (Stream.joints.map fun j => .str (py j.name))),
      ("coordinate_mode", .str (py f.mode)), ("interpolation", .str (py "quintic_stop"))],
    dictOf [("type", .str (py "point")), ("t_us", .int 0),
      ("q_deg", .list [.float f.value, .int 0, .int 0, .int 0, .int 0, .int 0])],
    dictOf [("type", .str (py "point")), ("t_us", .int 4000000),
      ("q_deg", .list [.int 10, .int 0, .int 0, .int 0, .int 0, .int 40])]]

def plainFile : DemoFile := ⟨"pick", "absolute_deg", "0.0", 0⟩

def spacedFile : DemoFile := ⟨"pick up", "absolute_deg", "0.0", 0⟩

/-- A relative program that starts a billionth of a degree off. -/
def shiftedFile : DemoFile := ⟨"pick", "relative_deg", "1e-9", 1 / 10 ^ 9⟩

/-- `json.loads` on the lines of the three files. -/
local instance migrateJson : Json ℚ where
  decodeUtf8 _ := none
  loads s :=
    match ([plainFile, spacedFile, shiftedFile].flatMap fun f => f.lines.zip f.records).lookup s with
    | some record => .ok record
    | none => .error (.decode (py "Expecting value"))

local instance migrateLine : JsonLine where
  lineno _ := 1

/-- `math.pi / 180`, to six digits -/
def demoDegToRad : ℚ := 3.141593 / 180

theorem exactFloats_default : ExactFloats instPyFloatRat := ⟨plainNumerals, rfl⟩

/-- The demo robot allows what the v1 policy allows. -/
theorem fitsPolicy_demo : FitsPolicy demoFollower demoDegToRad (py "demo_robot") (py "arm")
    (py "gripper") ⟨py "demo_robot", py "arm", py "demo_robot", py "arm", demoArm⟩
    ⟨py "demo_robot", py "gripper", py "demo_robot", py "gripper", demoGroup "gripper" "opening"⟩ where
  exposed := ⟨_, rfl, rfl⟩
  arm_resolves := rfl
  gripper_resolves := rfl
  arm_schema := List.mem_singleton_self _
  gripper_schema := List.mem_singleton_self _
  arm_axes := rfl
  gripper_axes := rfl
  arm_limits a ha := by
    obtain ⟨j, -, rfl⟩ := List.mem_map.1 ha
    refine ⟨?_, ?_, nofun⟩
    · norm_num [demoDegToRad]
    · norm_num [demoDegToRad]
  gripper_limits a ha := by
    obtain rfl := List.mem_singleton.1 ha
    exact ⟨le_rfl, le_rfl, nofun⟩

/-- What the theorems below use of a loaded file. -/
def DemoFile.loaded (f : DemoFile) : Option (Str × CoordinateMode × List ℚ) :=
  (loadProgram .default f.lines : Except (Raised ℚ) _).toOption.map fun r =>
    (r.1.programId, r.1.coordinateMode, r.2.map fun p => p.qDeg .gripper)

/-- Whether the compiler takes the migrated file. -/
def DemoFile.compiles (f : DemoFile) : Option Bool :=
  (migrateV1So101Template demoDegToRad f.lines (py "demo_robot") (py "arm")
    (py "gripper")).toOption.map fun template => (compile demoFollower template).isOk

theorem DemoFile.loads {f : DemoFile} {r : Str × CoordinateMode × List ℚ} (h : f.loaded = some r) :
    ∃ header points, loadProgram .default f.lines = .ok (header, points) ∧
      header.programId = r.1 ∧ header.coordinateMode = r.2.1 ∧
      ∀ p ∈ points, p.qDeg .gripper ∈ r.2.2 := by
  obtain ⟨⟨header, points⟩, hload, rfl⟩ := Option.map_eq_some_iff.1 h
  exact ⟨header, points, toOption_eq_some.1 hload, rfl, rfl, fun p hp => List.mem_map_of_mem hp⟩

theorem DemoFile.refused {f : DemoFile} (h : f.compiles = some false) :
    ¬∃ template program, migrateV1So101Template demoDegToRad f.lines (py "demo_robot") (py "arm")
      (py "gripper") = .ok template ∧ compile demoFollower template = .ok program := by
  rintro ⟨template, program, htemplate, hprogram⟩
  unfold compiles at h
  rw [htemplate] at h
  change some (compile demoFollower template).isOk = some false at h
  rw [hprogram] at h
  cases h

theorem aperture_of_mem {x : ℚ} (h : x ∈ [(0 : ℚ), 40]) : 0 ≤ x ∧ x ≤ 100 := by
  simp only [List.mem_cons, List.not_mem_nil, or_false] at h
  obtain rfl | rfl := h
  · norm_num
  · norm_num

set_option maxRecDepth 20000 in
/-- The migrated file compiles under a name without blanks. -/
theorem migrate_compiles_demo : ∃ template b sha256 header points,
    loadProgram .default plainFile.lines = .ok (header, points) ∧
    migrateV1So101Template demoDegToRad plainFile.lines (py "demo_robot") (py "arm") (py "gripper") =
      .ok template ∧
    compileBody demoFollower template = .ok b ∧
    compile demoFollower template = .ok ⟨entries b.fields, sha256⟩ ∧
    Carries demoDegToRad header points
      ⟨py "demo_robot", py "arm", py "demo_robot", py "arm", demoArm⟩
      ⟨py "demo_robot", py "gripper", py "demo_robot", py "gripper", demoGroup "gripper" "opening"⟩
      b := by
  have hok : demoFollower.check.isOk = true := by decide +kernel
  obtain ⟨_, hR⟩ := exists_of_isOk hok
  have hloaded : plainFile.loaded = some (py "pick", .absoluteDeg, [0, 40]) := by decide +kernel
  obtain ⟨header, points, hload, hid, hmode, haperture⟩ := DemoFile.loads hloaded
  have hmigratable : Migratable demoDegToRad header points (py "demo_robot") (py "arm")
      (py "gripper") := by
    refine ⟨?_, ?_, ?_, by decide, fun hrelative => ?_⟩
    · rw [hid]
      decide
    · rw [hid]
      decide
    · rw [hid]
      decide
    · rw [hmode] at hrelative
      cases hrelative
  obtain ⟨template, b, sha256, htemplate, hb, hcompile, hcarries⟩ :=
    (migrate_compiles_iff exactFloats_default hR (by norm_num [demoDegToRad]) fitsPolicy_demo hload
      fun _ p hp => aperture_of_mem (haperture p hp)).2 hmigratable
  exact ⟨template, b, sha256, header, points, hload, htemplate, hb, hcompile, hcarries⟩

set_option maxRecDepth 20000 in
/-- `load_program` accepts both files, and the compiler takes neither template. -/
theorem migrate_compiles_counterexample : demoFollower.check.isOk = true ∧
    FitsPolicy demoFollower demoDegToRad (py "demo_robot") (py "arm") (py "gripper")
      ⟨py "demo_robot", py "arm", py "demo_robot", py "arm", demoArm⟩
      ⟨py "demo_robot", py "gripper", py "demo_robot", py "gripper", demoGroup "gripper" "opening"⟩ ∧
    ∀ f ∈ [spacedFile, shiftedFile],
      (∃ header, ∃ points : List (TrajectoryPoint ℚ), loadProgram .default f.lines = .ok (header, points) ∧
        ∀ p ∈ points, 0 ≤ p.qDeg .gripper ∧ p.qDeg .gripper ≤ 100) ∧
      ¬∃ template program, migrateV1So101Template demoDegToRad f.lines (py "demo_robot") (py "arm")
        (py "gripper") = .ok template ∧ compile demoFollower template = .ok program := by
  refine ⟨by decide +kernel, fitsPolicy_demo, ?_⟩
  have hspaced : spacedFile.loaded = some (py "pick up", .absoluteDeg, [0, 40]) := by decide +kernel
  have hshifted : shiftedFile.loaded = some (py "pick", .relativeDeg, [0, 40]) := by decide +kernel
  have hrefused : ∀ f ∈ [spacedFile, shiftedFile], f.compiles = some false := by
    simp only [List.forall_mem_cons, List.not_mem_nil, false_imp_iff, implies_true, and_true]
    exact ⟨by decide +kernel, by decide +kernel⟩
  have hloaded : ∀ f ∈ [spacedFile, shiftedFile], ∃ id mode, f.loaded = some (id, mode, [0, 40]) := by
    simp only [List.forall_mem_cons, List.not_mem_nil, false_imp_iff, implies_true, and_true]
    exact ⟨⟨_, _, hspaced⟩, _, _, hshifted⟩
  intro f hf
  obtain ⟨_, _, h⟩ := hloaded f hf
  obtain ⟨header, points, hload, -, -, haperture⟩ := DemoFile.loads h
  exact ⟨⟨header, points, hload, fun p hp => aperture_of_mem (haperture p hp)⟩,
    DemoFile.refused (hrefused f hf)⟩

end Demo

end RemoteRobot
