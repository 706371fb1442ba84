import Mathlib.Order.Bounds.Basic
import RemoteRobot.Program.Dense
import RemoteRobot.Program.RoundTrip

/-!
# The outline of a compiled program

The locks of a program are taken from its outline and the workers run its phase payloads.  `compile`
builds both in one pass, and the digests are put into the records after they are taken.  The two are
compared as the dictionaries that are read later (`OutlineAgrees`); what the payloads themselves keep
is said of the records of the compiler (`Consistent`), and these are the template's one by one
(`BodyOf`).
-/

namespace RemoteRobot

open Py Except

variable {F : Type}

/-! ## Two records compared -/

section Agreement

variable [Cbor F] [Sha256] [PyFloat F]

/-- Both records have these fields, with the same values. -/
def SameFields (names : List String) (a b : Dict F) : Prop :=
  ∀ k ∈ names, ∃ v, lookup (py k) a = some v ∧ lookup (py k) b = some v

/-- The record holds the digest of its other fields. -/
def SelfDigest (record : Dict F) : Prop :=
  ∃ sha, lookup (py "sha256") record = some (.str sha) ∧
    (digestValue (.dict (withoutKey "sha256" record)) : Except (Error F) Str) = .ok sha

/-- A sequence and its entry in the outline. -/
def SequenceAgrees (payload outline : Val F) : Prop :=
  ∃ a b, payload = .dict a ∧ outline = .dict b ∧ SelfDigest a ∧
    SameFields ["role_path", "resolved_target", "command_schema", "reference", "duration_us", "sha256"]
      a b

/-- A phase and its entry in the outline. -/
def PhaseAgrees (payload outline : Val F) : Prop :=
  ∃ a b sequences outlines, payload = .dict a ∧ outline = .dict b ∧ SelfDigest a ∧
    SameFields ["phase_id", "duration_us", "transitions"] a b ∧
    lookup (py "payload_sha256") b = lookup (py "sha256") a ∧
    lookup (py "sequences") a = some (.list sequences) ∧
    lookup (py "sequences") b = some (.list outlines) ∧
    List.Forall₂ SequenceAgrees sequences outlines ∧
    lookup (py "participants") b = some (.list (outlines.map (getOr "resolved_target" .none)))

/-- The outline of the body lists its phases in their order. -/
def OutlineAgrees (body : Dict F) : Prop :=
  ∃ outline phases outlines sha, lookup (py "outline") body = some (.dict outline) ∧
    lookup (py "phases") body = some (.list phases) ∧
    lookup (py "phases") outline = some (.list outlines) ∧
    lookup (py "phase_count") outline = some (.int phases.length) ∧
    List.Forall₂ PhaseAgrees phases outlines ∧
    lookup (py "outline_sha256") body = some (.str sha) ∧
    (digestValue (.dict outline) : Except (Error F) Str) = .ok sha

omit [Cbor F] [Sha256] in
/-- The digest is put behind the fields it is taken of. -/
theorem withoutKey_entries {kvs : List (String × Val F)} {k : String} {v : Val F}
    (hk : k ∉ kvs.map Prod.fst) : withoutKey k (entries (kvs ++ [(k, v)])) = entries kvs := by
  have hkeep : (entries kvs).filter (fun p => !Key.eq (.str (py k)) p.1) = entries kvs := by
    rw [List.filter_eq_self]
    intro p hp
    simp only [entries, List.mem_map] at hp
    obtain ⟨q, hq, rfl⟩ := hp
    rw [Bool.not_eq_true', Bool.eq_false_iff]
    intro he
    rw [Key.eq_str_iff, Key.str.injEq, py_inj] at he
    exact hk (he ▸ List.mem_map_of_mem hq)
  have hlast : entries (kvs ++ [(k, v)]) = entries kvs ++ [(Key.str (py k), v)] := by simp [entries]
  rw [withoutKey, hlast, List.filter_append, hkeep]
  simp [Key.eq_str_iff.2]

theorem selfDigest_entries {kvs : List (String × Val F)} {sha : Str}
    (hnd : ((kvs ++ [("sha256", Val.str sha)]).map Prod.fst).Nodup)
    (hsha : (digestValue (dictOf kvs) : Except (Error F) Str) = .ok sha) :
    SelfDigest (entries (kvs ++ [("sha256", Val.str sha)])) := by
  have hk : "sha256" ∉ kvs.map Prod.fst := by
    rw [List.map_append, List.nodup_append] at hnd
    exact fun hmem => hnd.2.2 _ hmem "sha256" (by simp) rfl
  refine ⟨sha, ?_, by rw [withoutKey_entries hk]; exact hsha⟩
  rw [lookup_eq_some_iff (nodup_entries hnd)]
  simp [entries]

theorem sequenceAgrees {s : HashedSequence F}
    (hsha : (digestValue (dictOf s.fields) : Except (Error F) Str) = .ok s.sha256) :
    SequenceAgrees s.toVal s.outline := by
  refine ⟨_, _, rfl, rfl, selfDigest_entries (by simp [CompiledSequence.fields]) hsha, ?_⟩
  simp [SameFields, CompiledSequence.fields]

theorem phaseAgrees {p : HashedPhase F}
    (hsha : (digestValue (dictOf p.fields) : Except (Error F) Str) = .ok p.sha256)
    (hsequences : ∀ s ∈ p.sequences,
      (digestValue (dictOf s.fields) : Except (Error F) Str) = .ok s.sha256) :
    PhaseAgrees p.toVal p.outline := by
  refine ⟨_, _, p.sequences.map HashedSequence.toVal, p.sequences.map HashedSequence.outline, rfl,
    rfl, selfDigest_entries (by simp [CompiledPhase.fields]) hsha, ?_, ?_, ?_, ?_, ?_, ?_⟩
  · simp [SameFields, CompiledPhase.fields]
  · simp [CompiledPhase.fields]
  · simp [CompiledPhase.fields]
  · simp
  · rw [List.forall₂_map_left_iff, List.forall₂_map_right_iff, List.forall₂_same]
    exact fun s hs => sequenceAgrees (hsequences s hs)
  · rw [List.map_map]
    have htargets : (getOr "resolved_target" .none ∘ HashedSequence.outline) =
        fun s : HashedSequence F => s.resolvedTarget.toVal := by
      funext s
      simp [HashedSequence.outline, dictOf, getOr]
    rw [htargets]
    simp

end Agreement

/-! ## What the payloads keep -/

section Payloads

variable [Cbor F] [Sha256] [PyFloat F] {R : Registry F} {rootId : Str}

/-- The time of the last sample. -/
def CompiledSequence.lastTime (s : CompiledSequence F) : Option ℤ := s.samples.getLast?.map Sample.tUs

/-- The sequences of a phase have distinct targets, each the one its role path resolves to, and the
phase lasts as long as the longest of them. -/
structure PhaseConsistent (R : Registry F) (rootId : Str) (p : HashedPhase F) : Prop where
  distinct : (p.sequences.map fun s => s.resolvedTarget).Nodup
  resolved : ∀ s ∈ p.sequences, ∃ r, R.resolveGroup rootId s.rolePath = .ok r ∧
    s.resolvedTarget = ⟨r.physicalNodeId, r.groupId⟩
  durations : ∀ s ∈ p.sequences, s.lastTime = some s.durationUs
  longest : IsGreatest {t | ∃ s ∈ p.sequences, s.lastTime = some t} p.durationUs

omit [Cbor F] [Sha256] in
theorem SamplesOk.times {axes : List (DenseAxis F)} {reference commandSchema : Str} {path : String}
    {index : ℕ} {previous : Option (Sample F)} {ss : List (Sample F)}
    (h : SamplesOk axes reference commandSchema path index previous ss) : ∀ s ∈ ss, 0 ≤ s.tUs := by
  induction ss generalizing index previous with
  | nil => exact fun s hs => absurd hs List.not_mem_nil
  | cons s ss ih =>
    rw [List.forall_mem_cons]
    refine ⟨?_, ih h.2⟩
    have htime := h.1.time
    simp only [sampleTime, bind_eq_ok, raiseWhen_eq_ok] at htime
    obtain ⟨-, ht, -⟩ := htime
    omega

omit [Cbor F] [Sha256] in
theorem SequenceOk.lastTime {path : String} {s : CompiledSequence F} {r : ResolvedGroup F}
    (h : SequenceOk R rootId path s r) : s.lastTime = some s.durationUs ∧ 0 ≤ s.durationUs := by
  have hlen := h.samples_length
  have hne : s.samples ≠ [] := by
    rintro he
    rw [he] at hlen
    simp at hlen
  rw [CompiledSequence.lastTime, h.duration, List.getLast?_eq_some_getLast hne]
  exact ⟨rfl, h.samples.times _ (List.getLast_mem hne)⟩

theorem SequencesOk.distinct {path : String} {index : ℕ} {targets : List ResolvedTarget}
    {ss : List (HashedSequence F)} (h : SequencesOk R rootId path index targets ss) :
    (ss.map fun s => s.resolvedTarget).Nodup ∧ ∀ s ∈ ss, s.resolvedTarget ∉ targets := by
  induction ss generalizing index targets with
  | nil => simp
  | cons s ss ih =>
    obtain ⟨hnd, hnew⟩ := ih h.2.2.2
    rw [List.map_cons, List.nodup_cons, List.forall_mem_cons]
    refine ⟨⟨fun hmem => ?_, hnd⟩, h.2.1, fun t ht hmem => hnew t ht (List.mem_cons_of_mem _ hmem)⟩
    obtain ⟨t, ht, he⟩ := List.mem_map.1 hmem
    exact hnew t ht (he ▸ List.mem_cons_self)

theorem PhasesOk.distinct {index : ℕ} {seen : List Str} {ps : List (HashedPhase F)}
    (h : PhasesOk R rootId index seen ps) :
    (ps.map fun p => p.phaseId).Nodup ∧ ∀ p ∈ ps, p.phaseId ∉ seen := by
  induction ps generalizing index seen with
  | nil => simp
  | cons p ps ih =>
    obtain ⟨hnd, hnew⟩ := ih h.2.2
    rw [List.map_cons, List.nodup_cons, List.forall_mem_cons]
    refine ⟨⟨fun hmem => ?_, hnd⟩, h.2.1, fun t ht hmem => hnew t ht (List.mem_cons_of_mem _ hmem)⟩
    obtain ⟨t, ht, he⟩ := List.mem_map.1 hmem
    exact hnew t ht (he ▸ List.mem_cons_self)

omit [Cbor F] [Sha256] [PyFloat F] in
/-- The running maximum of the durations. -/
theorem foldl_max (ss : List (HashedSequence F)) (d : ℤ) :
    let m := ss.foldl (fun d s => max d s.durationUs) d
    d ≤ m ∧ (∀ s ∈ ss, s.durationUs ≤ m) ∧ (m = d ∨ ∃ s ∈ ss, s.durationUs = m) := by
  induction ss generalizing d with
  | nil => simp
  | cons s ss ih =>
    obtain ⟨hd, hall, hmem⟩ := ih (max d s.durationUs)
    rw [List.foldl_cons]
    refine ⟨(le_max_left _ _).trans hd, ?_, ?_⟩
    · rw [List.forall_mem_cons]
      exact ⟨(le_max_right _ _).trans hd, hall⟩
    · obtain he | ⟨t, ht, he⟩ := hmem
      · obtain hmax | hmax := max_choice d s.durationUs
        · exact .inl (he.trans hmax)
        · exact .inr ⟨s, List.mem_cons_self, (he.trans hmax).symm⟩
      · exact .inr ⟨t, List.mem_cons_of_mem _ ht, he⟩

theorem PhaseOk.consistent {path : String} {p : HashedPhase F} (h : PhaseOk R rootId path p) :
    PhaseConsistent R rootId p := by
  have hsequence : ∀ s ∈ p.sequences, ∃ path r, SequenceOk R rootId path s.toCompiledSequence r :=
    sequenceOk_of_mem h.sequences
  have hlast : ∀ s ∈ p.sequences, s.lastTime = some s.durationUs ∧ 0 ≤ s.durationUs := fun s hs => by
    obtain ⟨_, _, hs⟩ := hsequence s hs
    exact hs.lastTime
  refine ⟨h.sequences.distinct.1, fun s hs => ?_, fun s hs => (hlast s hs).1, ?_⟩
  · obtain ⟨_, r, hr⟩ := hsequence s hs
    exact ⟨r, hr.resolve, hr.target⟩
  · obtain ⟨hzero, hall, hmem⟩ := foldl_max p.sequences 0
    rw [h.duration]
    refine ⟨?_, ?_⟩
    · obtain he | ⟨s, hs, he⟩ := hmem
      · -- all durations are zero, also that of the first
        obtain ⟨s, ss, hss⟩ := List.exists_cons_of_ne_nil h.sequences_ne
        have hs : s ∈ p.sequences := hss ▸ List.mem_cons_self
        refine ⟨s, hs, (hlast s hs).1.trans (congrArg some ?_)⟩
        exact le_antisymm (hall s hs) (he.le.trans (hlast s hs).2)
      · exact ⟨s, hs, (hlast s hs).1.trans (congrArg some he)⟩
    · rintro t ⟨s, hs, ht⟩
      rw [(hlast s hs).1] at ht
      rw [← Option.some.inj ht]
      exact hall s hs

variable [PyText F]

/-- What locking and execution rely on in a compiled program. -/
structure Consistent (R : Registry F) (program : CompiledProgram F) (b : CompiledBody F) : Prop where
  body : program.body = entries b.fields
  digest : (digestValue (.dict program.body) : Except (Error F) Str) = .ok program.sha256
  phaseIds : (b.phases.map fun p => p.phaseId).Nodup
  phases : ∀ p ∈ b.phases, PhaseConsistent R b.rootId p
  outline : OutlineAgrees program.body

end Payloads

/-! ## The payloads against the template -/

section Template

variable [Cbor F] [Sha256] [PyFloat F] [PyText F] {R : Registry F} {rootId : Str}

/-- A sequence of the template and its payload, sample for sample. -/
structure SequenceOf (raw : Val F) (s : CompiledSequence F) : Prop where
  group : raw.getItem "group" = .ok (.str s.rolePath)
  schema : (raw.getItem "command_schema").bind Val.pyStr = .ok s.commandSchema
  reference : (raw.getItem "reference").bind Val.pyStr = .ok s.reference
  samples : ∃ raws, raw.getItem "samples" = .ok (.list raws) ∧
    List.Forall₂ (ReadSample readValue s.axes.length) raws s.samples

/-- A phase of the template and its payload, sequence for sequence. -/
structure PhaseOf (raw : Val F) (p : CompiledPhase F) : Prop where
  phaseId : raw.getItem "phase_id" = .ok (.str p.phaseId)
  sequences : ∃ raws, raw.getItem "sequences" = .ok (.list raws) ∧
    List.Forall₂ (fun raw (s : HashedSequence F) => SequenceOf raw s.toCompiledSequence) raws p.sequences

/-- A template and what it compiles to, phase for phase. -/
structure BodyOf (template : Val F) (b : CompiledBody F) : Prop where
  rootId : template.getItem "root_id" = .ok (.str b.rootId)
  phases : ∃ raws, template.getItem "phases" = .ok (.list raws) ∧
    List.Forall₂ (fun raw (p : HashedPhase F) => PhaseOf raw p.toCompiledPhase) raws b.phases

omit [Cbor F] [Sha256] [PyFloat F] [PyText F] in
theorem eq_list_of_nonEmptyList {v : Val F} {e : Error F} {vs : List (Val F)}
    (h : nonEmptyList v e = .ok vs) : v = .list vs := by
  unfold nonEmptyList at h
  split at h
  · rw [← Except.ok.inj h]
  · cases h

omit [Cbor F] [Sha256] in
theorem sequenceOf_of_compile {raw : Val F} {path : String} {s : CompiledSequence F}
    (h : compileSequence R rootId raw path = .ok s) : SequenceOf raw s := by
  unfold compileSequence at h
  simp only [bind_eq_ok, raiseWhen_eq_ok, exists_unit, liftExc_eq_ok] at h
  obtain ⟨-, -, group, hgroup, role, hrole, r, -, schema, hschema, -, -, reference, hreference, -, -,
    samples, hsamples, ss, hss, h⟩ := h
  cases h
  obtain ⟨⟨raws, rfl, hraws⟩, -⟩ := compileDenseSamples_shape.1 hss
  refine ⟨rolePath_eq_ok hrole ▸ hgroup, hschema, hreference, raws, hsamples, ?_⟩
  rw [List.length_map]
  exact hraws

theorem sequencesOf_of_compile {path : String} {index : ℕ} {targets : List ResolvedTarget}
    {raws : List (Val F)} {ss : List (HashedSequence F)}
    (h : compileSequencesFrom R rootId path index targets raws = .ok ss) :
    List.Forall₂ (fun raw (s : HashedSequence F) => SequenceOf raw s.toCompiledSequence) raws ss := by
  induction raws generalizing index targets ss with
  | nil =>
    cases h
    exact .nil
  | cons raw raws ih =>
    unfold compileSequencesFrom at h
    simp only [bind_eq_ok, raiseWhen_eq_ok, exists_unit] at h
    obtain ⟨s, hs, -, sha, -, ss', hss, h⟩ := h
    cases h
    exact .cons (sequenceOf_of_compile hs) (ih hss)

theorem phaseOf_of_compile {raw : Val F} {path : String} {p : HashedPhase F}
    (h : compilePhase R rootId raw path = .ok p) : PhaseOf raw p.toCompiledPhase := by
  unfold compilePhase at h
  simp only [bind_eq_ok, raiseWhen_eq_ok, exists_unit, liftExc_eq_ok] at h
  obtain ⟨-, -, v, hv, phaseId, hid, -, -, w, hw, raws, hraws, ss, hss, sha, -, h⟩ := h
  cases h
  exact ⟨shortId_eq_ok hid ▸ hv, raws, eq_list_of_nonEmptyList hraws ▸ hw, sequencesOf_of_compile hss⟩

theorem phasesOf_of_compile {index : ℕ} {seen : List Str} {raws : List (Val F)}
    {ps : List (HashedPhase F)} (h : compilePhasesFrom R rootId index seen raws = .ok ps) :
    List.Forall₂ (fun raw (p : HashedPhase F) => PhaseOf raw p.toCompiledPhase) raws ps := by
  induction raws generalizing index seen ps with
  | nil =>
    cases h
    exact .nil
  | cons raw raws ih =>
    unfold compilePhasesFrom at h
    simp only [bind_eq_ok, raiseWhen_eq_ok, exists_unit] at h
    obtain ⟨p, hp, -, ps', hps, h⟩ := h
    cases h
    exact .cons (phaseOf_of_compile hp) (ih hps)

theorem bodyOf_of_compile {template : Val F} {b : CompiledBody F}
    (h : compileBody R template = .ok b) : BodyOf template b := by
  unfold compileBody at h
  simp only [bind_eq_ok, raiseWhen_eq_ok, exists_unit, liftExc_eq_ok] at h
  obtain ⟨-, _, -, _, -, -, v, hv, rootId, hroot, manifest, -, u, -, -, hash, -, w, hw, raws, hraws, ps,
    hps, programId, -, sha, -, h⟩ := h
  cases h
  exact ⟨shortId_eq_ok hroot ▸ hv, raws, eq_list_of_nonEmptyList hraws ▸ hw, phasesOf_of_compile hps⟩

/-- A compiled program has the phases and the sequences of its template, the phases of distinct IDs
with distinct resolved targets, and its outline lists the same phases and sequences as its payloads. -/
theorem compile_consistent {template : Val F} {program : CompiledProgram F}
    (h : compile R template = .ok program) : ∃ b, Consistent R program b ∧ BodyOf template b := by
  obtain ⟨b, hb, hsha, hbody⟩ := compile_eq_ok.1 h
  have hok := bodyOk_of_compile hb
  refine ⟨b, ⟨hbody, by rw [hbody]; exact hsha, hok.phases.distinct.1, fun p hp => ?_, ?_⟩,
    bodyOf_of_compile hb⟩
  · obtain ⟨path, hphase⟩ := phaseOk_of_mem hok.phases p hp
    exact hphase.consistent
  · rw [hbody]
    refine ⟨_, b.phases.map HashedPhase.toVal, b.phases.map HashedPhase.outline, b.outlineSha256, ?_, ?_,
      ?_, ?_, ?_, ?_, hok.outline⟩
    · simp only [CompiledBody.fields, outlineOf, dictOf]
      simp
    · simp [CompiledBody.fields]
    · simp
    · simp
    · rw [List.forall₂_map_left_iff, List.forall₂_map_right_iff, List.forall₂_same]
      intro p hp
      obtain ⟨path, hphase⟩ := phaseOk_of_mem hok.phases p hp
      exact phaseAgrees hphase.digest (sequences_digest hphase.sequences)
    · simp [CompiledBody.fields]

end Template

section Demo

local instance outlineHash : Sha256 := lengthHash

/-- A sequence of the demo robot that ends at the given time. -/
def outlineSequence (group : String) (tUs : ℤ) : Val ℚ :=
  dictOf [("group", .str (py group)), ("command_schema", .str normalizedPositionSchema),
    ("reference", .str (py "absolute")), ("samples", .list [
      dictOf [("t_us", .int 0), ("values", .list [.int 0])],
      dictOf [("t_us", .int tUs), ("values", .list [.float (1 / 2)])]])]

/-- A phase with one sequence for each of the groups. -/
def outlinePhase (phaseId : String) (groups : List (String × ℤ)) : Val ℚ :=
  dictOf [("phase_id", .str (py phaseId)),
    ("sequences", .list (groups.map fun g => outlineSequence g.1 g.2))]

/-- Both groups move, and then the gripper alone. -/
def outlineTemplate : Val ℚ :=
  dictOf [("format", .str templateFormat), ("version", .int 2), ("root_id", .str (py "demo_robot")),
    ("phases", .list [outlinePhase "move" [("arm", 1000000), ("gripper", 2000000)],
      outlinePhase "rest" [("gripper", 500000)]])]

theorem outlinePhase_groups {phaseId : String} {groups : List (String × ℤ)} {p : HashedPhase ℚ}
    (h : PhaseOf (outlinePhase phaseId groups) p.toCompiledPhase) :
    p.sequences.map (fun s => s.rolePath) = groups.map fun g => py g.1 := by
  obtain ⟨raws, hraws, hall⟩ := h.sequences
  obtain rfl := Val.list.inj (Except.ok.inj hraws)
  rw [List.forall₂_map_left_iff] at hall
  rw [← List.forall₂_eq_eq_eq, List.forall₂_map_left_iff, List.forall₂_map_right_iff]
  exact hall.flip.imp fun s g hs => (Val.str.inj (Except.ok.inj hs.group)).symm

set_option maxRecDepth 20000 in
theorem compile_consistent_demo : ∃ program b, compile demoRegistry outlineTemplate = .ok program ∧
    Consistent demoRegistry program b ∧ BodyOf outlineTemplate b ∧
    (b.phases.map fun p => p.sequences.map fun s => s.rolePath) =
      [[py "arm", py "gripper"], [py "gripper"]] := by
  have hok : (compile demoRegistry outlineTemplate).isOk = true := by decide +kernel
  obtain ⟨program, hprogram⟩ := exists_of_isOk hok
  obtain ⟨b, hb, hof⟩ := compile_consistent hprogram
  refine ⟨program, b, hprogram, hb, hof, ?_⟩
  obtain ⟨raws, hraws, hall⟩ := hof.phases
  obtain rfl := Val.list.inj (Except.ok.inj hraws)
  obtain ⟨move, _, hmove, hall, hphases⟩ := List.forall₂_cons_left_iff.1 hall
  obtain ⟨rest, _, hrest, hnil, rfl⟩ := List.forall₂_cons_left_iff.1 hall
  obtain rfl := List.forall₂_nil_left_iff.1 hnil
  rw [hphases, List.map_cons, List.map_cons, outlinePhase_groups hmove, outlinePhase_groups hrest]
  rfl

end Demo

end RemoteRobot
