import RemoteRobot.Orchestrator.Plans
import RemoteRobot.Assurance

/-!
# Every sequence to its worker

`_worker_phase_plans` groups the sequences of a phase by the physical node of their resolved target.
For a validated program the grouping exists, and nothing is lost, doubled or sent elsewhere
(`Splits`); the IDs of two phases of a run differ, since they hold the index of the phase.
-/

namespace RemoteRobot

open Py Except

variable {F : Type}

/-! ## Grouping by a key -/

/-- The groups of distinct keys hold the entries that have one of the keys. -/
theorem perm_flatMap_filter {α κ : Type*} [DecidableEq κ] (key : α → κ) (xs : List α) {ks : List κ}
    (hnd : ks.Nodup) :
    (ks.flatMap fun k => xs.filter fun x => key x = k).Perm (xs.filter fun x => key x ∈ ks) := by
  induction ks with
  | nil => simp
  | cons k ks ih =>
    rw [List.nodup_cons] at hnd
    rw [List.flatMap_cons]
    -- the entries of the first key, and those of the others
    have hsplit := List.filter_append_perm (fun x => decide (key x = k))
      (xs.filter fun x => key x ∈ k :: ks)
    rw [List.filter_filter, List.filter_filter] at hsplit
    refine List.Perm.trans (List.Perm.append (.of_eq ?_) ((ih hnd.2).trans (.of_eq ?_))) hsplit
    · refine List.filter_congr fun x _ => ?_
      simp +contextual
    · refine List.filter_congr fun x _ => ?_
      by_cases hx : key x = k
      · simp [hx, hnd.1]
      · simp [hx]

/-- Pairs with their keys in front, grouped. -/
theorem perm_groups {α κ : Type*} [DecidableEq κ] (pairs : List (κ × α)) {ks : List κ}
    (hnd : ks.Nodup) (hks : ∀ x ∈ pairs, x.1 ∈ ks) :
    (ks.flatMap fun k => (pairs.filter fun x => x.1 = k).map Prod.snd).Perm (pairs.map Prod.snd) := by
  have hperm := (perm_flatMap_filter Prod.fst pairs hnd).map Prod.snd
  rw [List.map_flatMap] at hperm
  rwa [List.filter_eq_self.2 fun x hx => decide_eq_true (hks x hx)] at hperm

/-! ## The plans of a phase -/

/-- The sequence is recorded for the node, and its role path leads there. -/
def ResolvesTo (R : Registry F) (rootId : Str) (sequence : Val F) (nodeId : Str) : Prop :=
  sequenceWorkerId sequence = .ok nodeId ∧
    ∃ rolePath r, sequence.getItem "role_path" = .ok (.str rolePath) ∧
      R.resolveGroup rootId rolePath = .ok r ∧ r.physicalNodeId = nodeId

/-- The plans hold the sequences, each with its node. -/
structure Splits (sequences : List (Val F)) (nodes : List Str) (plans : List (Str × PhasePlan F)) :
    Prop where
  nodup : (plans.map Prod.fst).Nodup
  keys : ∀ w, w ∈ plans.map Prod.fst ↔ w ∈ nodes
  /-- a plan has the sequences of its node in the order of the phase -/
  tracks : ∀ q ∈ plans, q.2.tracks =
    ((nodes.zip sequences).filter fun x => x.1 = q.1).map Prod.snd
  /-- all plans together have the sequences of the phase -/
  all : (plans.flatMap fun q => q.2.tracks).Perm sequences

theorem lookup_of_field {k : String} {d : Dict F} {s : Str} (h : field k d = .str s) :
    lookup (py k) d = some (.str s) := by
  unfold field at h
  cases hl : lookup (py k) d with
  | none =>
    rw [hl] at h
    cases h
  | some v =>
    rw [hl] at h
    rw [show v = .str s from h]

section Read

variable [PyFloat F]

/-- What the orchestrator reads of a phase. -/
theorem equal_phaseFields {p : HashedPhase F} {v : Val F} (h : Equal p.toVal v) :
    ∃ vs phaseId durationUs completion, v.get "sha256" = .ok (.str p.sha256) ∧
      v.getItem "sequences" = .ok (.list vs) ∧
      List.Forall₂ (fun (s : HashedSequence F) v => Equal s.toVal v) p.sequences vs ∧
      v.getItem "phase_id" = .ok phaseId ∧ v.getItem "duration_us" = .ok durationUs ∧
      v.getItem "completion" = .ok (.dict completion) := by
  obtain ⟨d, vs, rfl, hvs, hall⟩ := equal_phase h
  obtain ⟨_, hd, hf⟩ := h.dict
  cases hd
  have hsha := (hf "sha256" (.str p.sha256) (by simp [CompiledPhase.fields])).2.str
  obtain ⟨hid, -⟩ := hf "phase_id" (.str p.phaseId) (by simp [CompiledPhase.fields])
  obtain ⟨hdur, -⟩ := hf "duration_us" (.int p.durationUs) (by simp [CompiledPhase.fields])
  obtain ⟨hcomp, he⟩ := hf "completion" defaultCompletion (by simp [CompiledPhase.fields])
  obtain ⟨completion, hc, -⟩ := Equal.dict he
  rw [hc] at hcomp
  refine ⟨vs, _, _, completion, ?_, getItem_of_lookup hvs, hall, getItem_of_lookup hid,
    getItem_of_lookup hdur, getItem_of_lookup hcomp⟩
  rw [← hsha]
  rfl

variable [PyText F]

theorem track_of_equal {s : HashedSequence F} {v : Val F} (h : Equal s.toVal v) :
    track v = .ok (s.resolvedTarget.physicalNodeId, v) := by
  obtain ⟨d, t, rfl, -, ht, hp, -⟩ := equal_sequence h
  unfold track
  simp only [bind_eq_ok, liftExc_eq_ok]
  exact ⟨_, getItem_of_lookup ht, t, rfl, _, getItem_of_lookup (lookup_of_field hp), d, rfl, rfl⟩

theorem mapM_track {ss : List (HashedSequence F)} {vs : List (Val F)}
    (h : List.Forall₂ (fun (s : HashedSequence F) v => Equal s.toVal v) ss vs) :
    vs.mapM track = (.ok ((ss.map fun s => s.resolvedTarget.physicalNodeId).zip vs) :
      Except (Error F) _) := by
  rw [mapM_eq_ok]
  induction h with
  | nil => exact .nil
  | cons hs _ ih => exact .cons (track_of_equal hs) ih

/-- The plans of a phase of a validated program. -/
theorem exists_splits [Cbor F] [Sha256] {R : Registry F} {p : CompiledProgram F} {b : CompiledBody F}
    (hb : Canonical R p b) {ph : HashedPhase F} {phase : Val F} (h : Equal ph.toVal phase)
    (hsha : 12 ≤ ph.sha256.length) (runId : Str) (k : ℕ) :
    ∃ vs plans, phase.getItem "sequences" = .ok (.list vs) ∧
      List.Forall₂ (fun (s : HashedSequence F) v => Equal s.toVal v) ph.sequences vs ∧
      workerPhasePlans runId p k phase = .ok plans ∧
      Splits vs (ph.sequences.map fun s => s.resolvedTarget.physicalNodeId) plans := by
  obtain ⟨vs, phaseId, durationUs, completion, hdigest, hvs, hall, hid, hdur, hcomp⟩ :=
    equal_phaseFields h
  generalize hnodes : (ph.sequences.map fun s => s.resolvedTarget.physicalNodeId) = nodes
  have hlength : nodes.length = vs.length := by
    rw [← hnodes, List.length_map, hall.length_eq]
  have htracks : vs.mapM track = (.ok (nodes.zip vs) : Except (Error F) _) := hnodes ▸ mapM_track hall
  have hfst : (nodes.zip vs).map Prod.fst = nodes := List.map_fst_zip hlength.le
  -- the plan of a worker, and the workers in the order of the phase
  let planOf : Str → Str × PhasePlan F := fun w =>
    (w, ⟨runId, phaseExecutionId runId k ph.sha256, b.rootId, b.manifestHash, phaseId, durationUs,
      completion, ((nodes.zip vs).filter fun x => x.1 = w).map Prod.snd⟩)
  let workers := nodes.reverse.dedup.reverse
  have hnd : workers.Nodup := List.nodup_reverse.2 (List.nodup_dedup _)
  have hmem : ∀ w, w ∈ workers ↔ w ∈ nodes := by simp [workers]
  have hplan : ∀ w ∈ workers, workerPlan runId (phaseExecutionId runId k ph.sha256) p phase
      (nodes.zip vs) w = .ok (planOf w) := by
    intro w _
    unfold workerPlan
    simp only [bind_eq_ok, liftExc_eq_ok]
    exact ⟨_, hb.rootId, _, hb.manifestHash, _, hid, _, hdur, _, hcomp, _, rfl, rfl⟩
  refine ⟨vs, workers.map planOf, hvs, hall, ?_, ?_, ?_, ?_, ?_⟩
  · unfold workerPhasePlans
    simp only [bind_eq_ok, liftExc_eq_ok]
    refine ⟨_, hdigest, ph.sha256, ?_, _, hvs, vs, rfl, _, htracks, ?_⟩
    · rw [phaseDigest, if_neg (by omega)]
    · rw [hfst]
      exact mapM_eq_ok_map hplan
  · rwa [List.map_map, show Prod.fst ∘ planOf = id from rfl, List.map_id]
  · intro w
    rw [List.map_map, show Prod.fst ∘ planOf = id from rfl, List.map_id, hmem]
  · rintro q hq
    obtain ⟨w, -, rfl⟩ := List.mem_map.1 hq
    rfl
  · rw [List.flatMap_map]
    have hperm := perm_groups (nodes.zip vs) hnd fun x hx =>
      (hmem _).2 (hfst ▸ List.mem_map_of_mem hx)
    rwa [List.map_snd_zip hlength.ge] at hperm

end Read

/-! ## A validated program -/

theorem length_hexlify (bytes : Bytes) : (hexlify bytes).length = 2 * bytes.length := by
  induction bytes with
  | nil => rfl
  | cons c bytes ih =>
    rw [hexlify, List.length_cons, List.length_cons, ih, List.length_cons]
    omega

section Validated

variable [Cbor F] [Sha256] [PyFloat F] [PyText F] {R : Registry F} {p : CompiledProgram F}
  {b : CompiledBody F}

/-- The digest of a phase is long enough to name its executions. -/
theorem Canonical.length_sha256 (hlen : ∀ bytes, (Sha256.digest bytes).length = 32)
    (hb : Canonical R p b) {ph : HashedPhase F} (hph : ph ∈ b.phases) : ph.sha256.length = 64 := by
  obtain ⟨path, hphase⟩ := phaseOk_of_mem hb.bodyOk.phases ph hph
  obtain ⟨bytes, -, hsha⟩ := map_eq_ok.1 (liftExc_eq_ok.1 hphase.digest)
  rw [← hsha, hexdigest, length_hexlify, hlen]

theorem Canonical.resolvesTo (hb : Canonical R p b) {ph : HashedPhase F} (hph : ph ∈ b.phases)
    {s : HashedSequence F} (hs : s ∈ ph.sequences) {v : Val F} (h : Equal s.toVal v) :
    ResolvesTo R b.rootId v s.resolvedTarget.physicalNodeId := by
  obtain ⟨r, hr, htarget⟩ := hb.resolve hph hs
  obtain ⟨d, t, rfl, hpath, -⟩ := equal_sequence h
  refine ⟨sequenceWorkerId_of_equal h, s.rolePath, r, ?_, hr, ?_⟩
  · exact getItem_of_lookup (lookup_of_field hpath)
  · rw [htarget]

theorem Canonical.participantWorkerIds (hb : Canonical R p b) :
    ∃ ids, RemoteRobot.participantWorkerIds p = .ok ids ∧ ∀ ph ∈ b.phases, ∀ s ∈ ph.sequences,
      s.resolvedTarget.physicalNodeId ∈ ids := by
  obtain ⟨phases, hphases, hall⟩ := hb.phases
  have hids : phases.mapM phaseWorkerIds = (.ok (b.phases.map fun ph =>
      ph.sequences.map fun s => s.resolvedTarget.physicalNodeId) : Except (Error F) _) := by
    rw [mapM_eq_ok, List.forall₂_map_right_iff]
    exact hall.flip.imp fun v ph h => phaseWorkerIds_of_equal h
  refine ⟨_, bind_eq_ok.2 ⟨phases, hphases, bind_eq_ok.2 ⟨_, hids, rfl⟩⟩, fun ph hph s hs => ?_⟩
  rw [mem_sortedSet]
  exact List.mem_flatten_of_mem (List.mem_map_of_mem hph) (List.mem_map_of_mem hs)

/-- The plans of each phase of a validated program split its sequences by the node their role paths
resolve to, all of them participants, and no two phases of a run have an execution ID in common. -/
theorem workerPhasePlans_splits (hlen : ∀ bytes, (Sha256.digest bytes).length = 32)
    (hvalid : validateForCurrentRegistry R p = .ok ()) (runId : Str) :
    ∃ rootId phases ids, p.rootId = .ok rootId ∧ p.phases = .ok phases ∧
      participantWorkerIds p = .ok ids ∧
      (∀ (k : ℕ) (phase : Val F), phases[k]? = some phase → ∃ sequences nodes plans,
        phase.getItem "sequences" = .ok (.list sequences) ∧
        List.Forall₂ (ResolvesTo R rootId) sequences nodes ∧
        workerPhasePlans runId p k phase = .ok plans ∧ Splits sequences nodes plans ∧
        ∀ w ∈ plans.map Prod.fst, w ∈ ids) ∧
      ∀ (k k' : ℕ) (phase phase' : Val F) (plans plans' : List (Str × PhasePlan F)), k ≠ k' →
        workerPhasePlans runId p k phase = .ok plans →
        workerPhasePlans runId p k' phase' = .ok plans' →
        ∀ q ∈ plans, ∀ q' ∈ plans', q.2.phaseExecutionId ≠ q'.2.phaseExecutionId := by
  obtain ⟨b, hb⟩ := canonical_of_validate hvalid
  obtain ⟨phases, hphases, hall⟩ := hb.phases
  obtain ⟨ids, hids, hparticipant⟩ := hb.participantWorkerIds
  refine ⟨b.rootId, phases, ids, hb.rootId, hphases, hids, fun k phase hk => ?_, ?_⟩
  · obtain ⟨ph, hph, hequal⟩ := hall.exists_of_mem_right (List.mem_of_getElem? hk)
    have hlength := hb.length_sha256 hlen hph
    obtain ⟨vs, plans, hvs, hsequences, hplans, hsplits⟩ :=
      exists_splits hb hequal (by omega) runId k
    refine ⟨vs, _, plans, hvs, ?_, hplans, hsplits, fun w hw => ?_⟩
    · rw [List.forall₂_map_right_iff]
      have hmem := (List.forall₂_and_left _ _).2 ⟨fun s (hs : s ∈ ph.sequences) => hs, hsequences⟩
      exact hmem.flip.imp fun v s h => hb.resolvesTo hph h.1 h.2
    · obtain ⟨s, hs, rfl⟩ := List.mem_map.1 ((hsplits.keys w).1 hw)
      exact hparticipant ph hph s hs
  · intro k k' phase phase' plans plans' hk h h' q hq q' hq'
    obtain ⟨sha, -, hsha⟩ := plans_executionId h
    obtain ⟨sha', -, hsha'⟩ := plans_executionId h'
    rw [hsha q hq, hsha' q' hq']
    exact phaseExecutionId_ne hk

end Validated

section Demo

local instance groupingHash : Sha256 := lengthHash

def armSequence (group : String) : Val ℚ :=
  dictOf [("group", .str (py group)), ("command_schema", .str normalizedPositionSchema),
    ("reference", .str (py "absolute")),
    ("samples", .list [dictOf [("t_us", .int 0), ("values", .list [.int 0])],
      dictOf [("t_us", .int 1000000), ("values", .list [.float (1 / 2)])]])]

/-- Both robots of the guarded cell move. -/
def guardedTemplate : Val ℚ :=
  dictOf [("format", .str templateFormat), ("version", .int 2), ("root_id", .str (py "cell")),
    ("phases", .list [dictOf [("phase_id", .str (py "both")),
      ("sequences", .list [armSequence "pair.right.arm", armSequence "pair.left.arm"])]])]

set_option maxRecDepth 20000 in
theorem workerPhasePlans_splits_demo : ∃ p : CompiledProgram ℚ, ∃ phases ids,
    compile guardedRegistry guardedTemplate = .ok p ∧ p.phases = .ok phases ∧
    participantWorkerIds p = .ok ids ∧ ∀ (k : ℕ) (phase : Val ℚ), phases[k]? = some phase →
      ∃ sequences nodes plans, workerPhasePlans (py "run") p k phase = .ok plans ∧
        Splits sequences nodes plans ∧ ∀ w ∈ plans.map Prod.fst, w ∈ ids := by
  have hsome : (compile guardedRegistry guardedTemplate).toOption.any (fun p =>
      (validateForCurrentRegistry guardedRegistry p).isOk) = true := by
    decide +kernel
  obtain ⟨p, hp, hvalid⟩ := (Option.any_eq_true _ _).1 hsome
  obtain ⟨_, hvalid⟩ := exists_of_isOk hvalid
  obtain ⟨_, phases, ids, -, hphases, hids, hplans, -⟩ :=
    workerPhasePlans_splits length_lengthHash hvalid (py "run")
  refine ⟨p, phases, ids, toOption_eq_some.1 hp, hphases, hids, fun k phase hk => ?_⟩
  obtain ⟨sequences, nodes, plans, -, -, h, hsplits, hmem⟩ := hplans k phase hk
  exact ⟨sequences, nodes, plans, h, hsplits, hmem⟩

end Demo

end RemoteRobot
