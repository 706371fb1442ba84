import RemoteRobot.Orchestrator.Locks

/-!
# Participants and plans

Which workers a program names, and what the plans of one of its phases hold.
-/

namespace RemoteRobot

open Py Except

variable {F : Type}

/-! ## Where a role path ends -/

theorem mem_branchNodes_of_descend {R : Registry F} {rolePath : Str} {n : ControlNode F}
    {segments rest : List Str} {p : PhysicalNode F}
    (h : R.descend rolePath n segments = .ok (p, rest)) :
    ControlNode.physical p ∈ branchNodes R n segments := by
  induction segments generalizing n with
  | nil =>
    cases n with
    | physical q =>
      cases h
      exact List.mem_singleton_self _
    | composite c => cases h
  | cons role segments ih =>
    cases n with
    | physical q =>
      cases h
      exact List.mem_singleton_self _
    | composite c =>
      unfold Registry.descend at h
      unfold branchNodes
      cases hc : c.child role with
      | none => rw [hc] at h; cases h
      | some child =>
        rw [hc] at h
        obtain ⟨next, hnext, h⟩ := bind_eq_ok.1 h
        rw [Option.bind_some, node_eq_ok.1 hnext]
        exact List.mem_cons_of_mem _ (ih h)

theorem physical_of_descend {R : Registry F} {rolePath : Str} {n : ControlNode F}
    {segments rest : List Str} {p : PhysicalNode F} {nodeId : Str}
    (hn : R.find nodeId = some n) (h : R.descend rolePath n segments = .ok (p, rest)) :
    R.find p.nodeId = some (.physical p) := by
  induction segments generalizing n nodeId with
  | nil =>
    cases n with
    | physical q =>
      cases h
      rw [show p.nodeId = nodeId from nodeId_of_find hn, hn]
    | composite c => cases h
  | cons role segments ih =>
    cases n with
    | physical q =>
      cases h
      rw [show p.nodeId = nodeId from nodeId_of_find hn, hn]
    | composite c =>
      unfold Registry.descend at h
      cases hc : c.child role with
      | none => rw [hc] at h; cases h
      | some child =>
        rw [hc] at h
        obtain ⟨next, hnext, h⟩ := bind_eq_ok.1 h
        exact ih (node_eq_ok.1 hnext) h

/-- The physical node of a resolved group is the last node on the role branch. -/
theorem mem_roleBranch_of_resolve {R : Registry F} {rootId rolePath : Str} {r : ResolvedGroup F}
    (h : R.resolveGroup rootId rolePath = .ok r) :
    ∃ p, R.find r.physicalNodeId = some (.physical p) ∧
      .physical p ∈ roleBranch R rootId rolePath ∧ ∃ g, p.group r.groupId = some g := by
  unfold Registry.resolveGroup at h
  split_ifs at h
  obtain ⟨root, hroot, h⟩ := bind_eq_ok.1 h
  obtain ⟨⟨p, rest⟩, hd, h⟩ := bind_eq_ok.1 h
  rw [node_eq_ok] at hroot
  have hp := physical_of_descend hroot hd
  have hmem := mem_branchNodes_of_descend hd
  rcases rest with _ | ⟨groupId, _ | ⟨_, _⟩⟩
  · cases h
  · simp only at h
    cases hg : p.group groupId with
    | none => rw [hg] at h; cases h
    | some g =>
      rw [hg] at h
      cases h
      refine ⟨p, hp, ?_, g, hg⟩
      unfold roleBranch
      rw [hroot]
      exact hmem
  · cases h

section Plans

variable [PyText F]

/-! ## Tracks -/

theorem track_eq_ok {v : Val F} {x : Str × Val F} (h : track v = .ok x) :
    ∃ d t p, v = .dict d ∧ lookup (py "resolved_target") d = some (.dict t) ∧
      lookup (py "physical_node_id") t = some p ∧ x = (p.toStr, v) := by
  unfold track at h
  simp only [bind_eq_ok, liftExc_eq_ok] at h
  obtain ⟨rt, hrt, t, ht, p, hp, d, hd, h⟩ := h
  cases v with
  | dict d' =>
    cases hd
    cases rt with
    | dict t' =>
      cases ht
      exact ⟨d, t, p, rfl, lookup_of_getItem hrt, lookup_of_getItem hp, (Except.ok.inj h).symm⟩
    | _ => cases ht
  | _ => cases hd

/-- A track goes to the worker that `_participant_worker_ids` counts for its sequence. -/
theorem track_worker {v : Val F} {x : Str × Val F} {w : Str} (h : track v = .ok x)
    (hw : sequenceWorkerId v = .ok w) : x.1 = w := by
  obtain ⟨d, t, p, rfl, ht, hp, rfl⟩ := track_eq_ok h
  unfold sequenceWorkerId at hw
  simp only [bind_eq_ok, Val.get, ht, Option.getD_some, liftExc_ok, Except.ok.injEq,
    exists_eq_left', plainMapping, field, hp] at hw
  cases p with
  | str s => exact Except.ok.inj hw
  | _ => cases hw

/-! ## The plans of a phase -/

/-- The plans of a phase have one ID, made from the digest of the phase, and hold its sequences
grouped by worker. -/
theorem workerPhasePlans_eq_ok {runId : Str} {program : CompiledProgram F} {k : ℕ} {phase : Val F}
    {plans : List (Str × PhasePlan F)} (h : workerPhasePlans runId program k phase = .ok plans) :
    ∃ sha v sequences tracks, phase.get "sha256" = .ok (.str sha) ∧
      phase.getItem "sequences" = .ok v ∧ v.iter = .ok sequences ∧
      List.Forall₂ (fun v x => track v = .ok x) sequences tracks ∧
      List.Forall₂ (fun w p => p.1 = w ∧ p.2.phaseExecutionId = phaseExecutionId runId k sha ∧
          p.2.tracks = (tracks.filter fun x => x.1 = w).map Prod.snd)
        (tracks.map Prod.fst).reverse.dedup.reverse plans := by
  unfold workerPhasePlans at h
  simp only [bind_eq_ok, liftExc_eq_ok] at h
  obtain ⟨d, hd, sha, hsha, v, hv, sequences, hs, tracks, htracks, hplans⟩ := h
  have hdigest : d = .str sha := by
    cases d with
    | str s =>
      simp only [phaseDigest] at hsha
      split_ifs at hsha
      rw [Except.ok.inj hsha]
    | _ => cases hsha
  rw [hdigest] at hd
  refine ⟨sha, v, sequences, tracks, hd, hv, hs, mapM_eq_ok.1 htracks, ?_⟩
  have hall := mapM_eq_ok.1 hplans
  refine hall.imp fun w p hp => ?_
  unfold workerPlan at hp
  simp only [bind_eq_ok] at hp
  obtain ⟨_, -, _, -, _, -, _, -, _, -, _, -, hp⟩ := hp
  cases hp
  exact ⟨rfl, rfl, rfl⟩

variable {runId : Str} {program : CompiledProgram F} {k : ℕ} {phase : Val F}
  {plans : List (Str × PhasePlan F)}

omit [PyText F] in
theorem map_fst_of_forall₂ {P : Str → Str × PhasePlan F → Prop} {ws : List Str}
    (h : List.Forall₂ P ws plans) (hP : ∀ w p, P w p → p.1 = w) : plans.map Prod.fst = ws := by
  induction h with
  | nil => rfl
  | cons hp _ ih => rw [List.map_cons, ih, hP _ _ hp]

theorem plans_executionId (h : workerPhasePlans runId program k phase = .ok plans) :
    ∃ sha, phase.get "sha256" = .ok (.str sha) ∧
      ∀ p ∈ plans, p.2.phaseExecutionId = phaseExecutionId runId k sha := by
  obtain ⟨sha, v, sequences, tracks, hsha, -, -, -, hall⟩ := workerPhasePlans_eq_ok h
  refine ⟨sha, hsha, fun p hp => ?_⟩
  obtain ⟨w, -, -, hid, -⟩ := hall.exists_of_mem_right hp
  exact hid

theorem nodup_plans (h : workerPhasePlans runId program k phase = .ok plans) :
    (plans.map Prod.fst).Nodup := by
  obtain ⟨sha, v, sequences, tracks, -, -, -, -, hall⟩ := workerPhasePlans_eq_ok h
  rw [map_fst_of_forall₂ hall fun _ _ hp => hp.1]
  exact List.nodup_reverse.2 (List.nodup_dedup _)

/-- Each worker of the phase has a plan, and nobody else. -/
theorem mem_plans_iff (h : workerPhasePlans runId program k phase = .ok plans) {ids : List Str}
    (hids : phaseWorkerIds phase = .ok ids) {w : Str} : w ∈ plans.map Prod.fst ↔ w ∈ ids := by
  obtain ⟨sha, v, sequences, tracks, -, hv, hs, htracks, hall⟩ := workerPhasePlans_eq_ok h
  rw [map_fst_of_forall₂ hall fun _ _ hp => hp.1, List.mem_reverse, List.mem_dedup, List.mem_reverse]
  cases phase with
  | dict d =>
    have hl := lookup_of_getItem hv
    unfold phaseWorkerIds at hids
    simp only [bind_eq_ok, phaseRolePaths.phaseSequences, hl, Option.getD_some, Except.ok.injEq,
      exists_eq_left', hs, liftExc_ok] at hids
    have hfst : tracks.map Prod.fst = ids := by
      have hworkers := mapM_eq_ok.1 hids
      clear hids hall hs
      induction htracks generalizing ids with
      | nil =>
        cases hworkers
        rfl
      | cons hx _ ih =>
        cases hworkers with
        | cons hw hws => rw [List.map_cons, track_worker hx hw, ih hws]
    rw [hfst]
  | _ => cases hv

/-- A track of a plan is a sequence of the phase, for the worker that has the plan. -/
theorem mem_tracks (h : workerPhasePlans runId program k phase = .ok plans) {p : Str × PhasePlan F}
    (hp : p ∈ plans) {v : Val F} (hv : v ∈ p.2.tracks) :
    track v = .ok (p.1, v) ∧ ∃ u vs, phase.getItem "sequences" = .ok u ∧ u.iter = .ok vs ∧ v ∈ vs := by
  obtain ⟨sha, u, sequences, tracks, -, hu, hs, htracks, hall⟩ := workerPhasePlans_eq_ok h
  obtain ⟨w, -, hw, -, htr⟩ := hall.exists_of_mem_right hp
  rw [htr] at hv
  obtain ⟨x, hx, rfl⟩ := List.mem_map.1 hv
  obtain ⟨hx, hfst⟩ := List.mem_filter.1 hx
  obtain ⟨y, hy, ht⟩ := htracks.exists_of_mem_right hx
  have hxy : x = (w, y) := by
    obtain ⟨_, _, _, -, -, -, rfl⟩ := track_eq_ok ht
    rw [← of_decide_eq_true hfst]
  rw [hxy] at ht
  rw [hxy, hw]
  exact ⟨ht, u, sequences, hu, hs, hy⟩

end Plans

/-! ## Phase execution IDs -/

theorem colon_not_mem_natStr (n : ℕ) : 58 ∉ natStr n := fun h =>
  absurd (digit_of_mem_natStr h).2 (by decide)

/-- Up to its first separator a string is determined by what follows. -/
theorem append_separator_inj {sep : ℕ} {a a' b b' : Str} (ha : sep ∉ a) (ha' : sep ∉ a')
    (h : a ++ sep :: b = a' ++ sep :: b') : a = a' := by
  induction a generalizing a' with
  | nil =>
    cases a' with
    | nil => rfl
    | cons c a' => exact absurd (List.cons.inj h).1 fun hc => ha' (hc ▸ List.mem_cons_self)
  | cons c a ih =>
    cases a' with
    | nil => exact absurd (List.cons.inj h).1 fun hc => ha (hc ▸ List.mem_cons_self)
    | cons c' a' =>
      obtain ⟨rfl, htail⟩ : c = c' ∧ a ++ sep :: b = a' ++ sep :: b' := List.cons.inj h
      rw [ih (fun hm => ha (List.mem_cons_of_mem _ hm)) (fun hm => ha' (List.mem_cons_of_mem _ hm))
        htail]

/-- Phases of one run have different IDs, whatever their digests. -/
theorem phaseExecutionId_ne {runId sha sha' : Str} {k k' : ℕ} (h : k ≠ k') :
    phaseExecutionId runId k sha ≠ phaseExecutionId runId k' sha' := by
  intro he
  unfold phaseExecutionId at he
  have hcolon : (py ":" : Str) = [58] := by decide
  simp only [hcolon, List.append_assoc, List.append_cancel_left_eq] at he
  exact h (natStr_injective
    (append_separator_inj (colon_not_mem_natStr k) (colon_not_mem_natStr k') he))

/-! ## In a validated program -/

section Equal

variable [PyFloat F]

theorem sequenceWorkerId_of_equal {s : HashedSequence F} {v : Val F} (h : Equal s.toVal v) :
    sequenceWorkerId v = .ok s.resolvedTarget.physicalNodeId := by
  obtain ⟨d, t, rfl, -, ht, hp, -⟩ := equal_sequence h
  simp [sequenceWorkerId, bind_eq_ok, Val.get, ht, plainMapping, hp]

theorem phaseWorkerIds_of_equal {p : HashedPhase F} {v : Val F} (h : Equal p.toVal v) :
    phaseWorkerIds v = .ok (p.sequences.map fun s => s.resolvedTarget.physicalNodeId) := by
  obtain ⟨d, vs, rfl, hvs, hall⟩ := equal_phase h
  unfold phaseWorkerIds
  simp only [bind_eq_ok, phaseRolePaths.phaseSequences, hvs, Option.getD_some, Except.ok.injEq,
    exists_eq_left', Val.iter, liftExc_ok]
  rw [mapM_eq_ok, List.forall₂_map_right_iff]
  exact hall.flip.imp fun v s hs => sequenceWorkerId_of_equal hs

end Equal

section Canonical

variable [Cbor F] [Sha256] [PyFloat F] [PyText F]

variable {R : Registry F} {p : CompiledProgram F} {b : CompiledBody F}

/-- A participant is the target of some sequence. -/
theorem target_of_participant (hb : Canonical R p b) {ids : List Str}
    (h : participantWorkerIds p = .ok ids) {w : Str} (hw : w ∈ ids) :
    ∃ ph ∈ b.phases, ∃ s ∈ ph.sequences, s.resolvedTarget.physicalNodeId = w := by
  obtain ⟨vs, hvs, hall⟩ := hb.phases
  unfold participantWorkerIds at h
  simp only [bind_eq_ok, hvs, Except.ok.injEq, exists_eq_left'] at h
  obtain ⟨idss, hidss, rfl⟩ := h
  obtain ⟨ws, hws, hw⟩ := List.mem_flatten.1 (mem_sortedSet.1 hw)
  obtain ⟨v, hv, hphase⟩ := (mapM_eq_ok.1 hidss).exists_of_mem_right hws
  obtain ⟨ph, hph, he⟩ := hall.exists_of_mem_right hv
  obtain rfl := Except.ok.inj ((phaseWorkerIds_of_equal he).symm.trans hphase)
  obtain ⟨s, hs, hid⟩ := List.mem_map.1 hw
  exact ⟨ph, hph, s, hs, hid⟩

/-- A track of a plan is a sequence of the program, and its target is the worker of the plan. -/
theorem sequence_of_track (hb : Canonical R p b) {phases : List (Val F)}
    (hphases : p.phases = .ok phases) {runId : Str} {k : ℕ} {phase : Val F}
    (hk : phases[k]? = some phase) {plans : List (Str × PhasePlan F)}
    (h : workerPhasePlans runId p k phase = .ok plans) {q : Str × PhasePlan F} (hq : q ∈ plans)
    {v : Val F} (hv : v ∈ q.2.tracks) :
    ∃ ph ∈ b.phases, ∃ s ∈ ph.sequences, Equal s.toVal v ∧
      s.resolvedTarget.physicalNodeId = q.1 := by
  obtain ⟨vs, hvs, hall⟩ := hb.phases
  rw [hphases] at hvs
  cases hvs
  obtain ⟨ph, hph, he⟩ := hall.exists_of_mem_right (List.mem_of_getElem? hk)
  obtain ⟨d, us, rfl, hl, hseq⟩ := equal_phase he
  obtain ⟨htrack, u, ws, hu, hws, hv⟩ := mem_tracks h hq hv
  rw [lookup_of_getItem hu] at hl
  cases hl
  cases hws
  obtain ⟨s, hs, he⟩ := hseq.exists_of_mem_right hv
  exact ⟨ph, hph, s, hs, he, (track_worker htrack (sequenceWorkerId_of_equal he)).symm⟩

end Canonical

end RemoteRobot
