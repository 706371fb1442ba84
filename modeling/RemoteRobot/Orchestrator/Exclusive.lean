import RemoteRobot.Orchestrator.Calls

/-!
# What a lease protects

Every track a run plans is on a leased group whose role branch is leased, and on a role path its
identity may control.  Leases are over groups, resources and safety domains, not over workers: two
runs may drive different groups of one worker at once when its node declares nothing else.
-/

namespace RemoteRobot

open Py Except

variable {F : Type}

/-- The group a track drives. -/
def trackGroup : Val F → Option (Val F)
  | .dict d => match field "resolved_target" d with
    | .dict target => some (field "group_id" target)
    | _ => none
  | _ => none

/-- The run made this plan for the worker: it sent it, or it is about to. -/
def Task.HasPlan (t : Task F) (w : Str) (k : ℕ) (plan : PhasePlan F) : Prop :=
  .sent w (.preparePhase k plan) ∈ t.history ∨
    ∃ fan calls cancelled, t.pc = .fanOut fan calls cancelled ∧
      ∃ call ∈ calls, call.worker = w ∧ call.command = .preparePhase k plan

/-- The lease holds every resource and safety domain of the node. -/
def LeaseRequest.Holds (request : LeaseRequest) (n : ControlNode F) : Prop :=
  n.resources ⊆ request.resourceKeys ∧ n.safetyDomains ⊆ request.safetyDomainKeys

section Runs

variable [Cbor F] [Sha256] [PyFloat F] [PyText F] {cfg : Setup F}

/-- A track the run may put in a plan for the worker. -/
structure Run.Allows (cfg : Setup F) (r : Run F) (w : Str) (track : Val F) (rootId rolePath : Str)
    (groupId : Str) : Prop where
  root : r.program.rootId = .ok rootId
  path : ∃ d, track = .dict d ∧ field "role_path" d = .str rolePath
  group : trackGroup track = some (.str groupId)
  resolves : ∃ g, cfg.registry.resolveGroup rootId rolePath = .ok g ∧ g.physicalNodeId = w ∧
    g.groupId = groupId
  leaf : w ++ py "." ++ groupId ∈ r.receipt.request.leafIds
  branch : ∀ n ∈ roleBranch cfg.registry.toRegistry rootId rolePath, r.receipt.request.Holds n
  authorised : ∃ identity, cfg.registry.identity r.identityId = .ok identity ∧
    identity.canControl rootId rolePath = true

/-! ## Sequences of a checked run -/

/-- What the lease holds for a sequence of the program. -/
theorem Run.Checked.locked {r : Run F} (h : r.Checked cfg) {b : CompiledBody F}
    (hb : Canonical cfg.registry.toRegistry r.program b) {ph : HashedPhase F} (hph : ph ∈ b.phases)
    {s : HashedSequence F} (hs : s ∈ ph.sequences) :
    s.resolvedTarget.physicalNodeId ++ py "." ++ s.resolvedTarget.groupId ∈
        r.receipt.request.leafIds ∧
      ∀ n ∈ roleBranch cfg.registry.toRegistry b.rootId s.rolePath, r.receipt.request.Holds n := by
  obtain ⟨locks, hlocks, hreq⟩ := h.locks
  have hl := lockRequirements_eq_ok hb hlocks ph hph s hs
  rw [hreq]
  refine ⟨mem_sortedSet.2 hl.leaf, fun n hn => ⟨fun x hx => ?_, fun x hx => ?_⟩⟩
  · exact mem_sortedSet.2 ((hl.branch n hn).resources hx)
  · exact mem_sortedSet.2 ((hl.branch n hn).safetyDomains hx)

theorem Run.Checked.allows {r : Run F} (h : r.Checked cfg) {w : Str} {k : ℕ} {plan : PhasePlan F}
    (hi : r.Issues w (.preparePhase k plan)) {track : Val F} (ht : track ∈ plan.tracks) :
    ∃ rootId rolePath groupId, r.Allows cfg w track rootId rolePath groupId := by
  obtain ⟨-, phase, plans, hphase, hplans, hmem⟩ := hi
  obtain ⟨b, hb, identity, hid, hcan⟩ := h.preflight
  obtain ⟨ph, hph, s, hs, he, hw⟩ := sequence_of_track hb h.phases hphase hplans hmem ht
  obtain ⟨hleaf, hbranch⟩ := h.locked hb hph hs
  obtain ⟨g, hg, htarget⟩ := hb.resolve hph hs
  obtain ⟨d, t, rfl, hrole, hlookup, -, hgroup⟩ := equal_sequence he
  subst hw
  refine ⟨b.rootId, s.rolePath, s.resolvedTarget.groupId, hb.rootId, ⟨d, rfl, hrole⟩, ?_,
    ⟨g, hg, ?_, ?_⟩, hleaf, hbranch, identity, hid, hcan ph hph s hs⟩
  · simp only [trackGroup, field, hlookup, Option.getD_some]
    exact congrArg some hgroup
  · rw [htarget]
  · rw [htarget]

/-- The node of a participant, with all it declares in the lease. -/
theorem Run.Checked.participant {r : Run F} (h : r.Checked cfg) {w : Str}
    (hw : w ∈ r.participants) :
    ∃ p, cfg.registry.find w = some (.physical p) ∧ r.receipt.request.Holds (.physical p) := by
  obtain ⟨b, hb, -⟩ := h.preflight
  obtain ⟨ph, hph, s, hs, rfl⟩ := target_of_participant hb h.participants hw
  obtain ⟨g, hg, htarget⟩ := hb.resolve hph hs
  obtain ⟨p, hp, hbranch, -⟩ := mem_roleBranch_of_resolve hg
  rw [htarget]
  exact ⟨p, hp, (h.locked hb hph hs).2 _ hbranch⟩

omit [Cbor F] [Sha256] [PyFloat F] in
theorem Task.CallsOk.issues {t : Task F} (h : t.CallsOk) {w : Str} {k : ℕ} {plan : PhasePlan F}
    (hp : t.HasPlan w k plan) : t.toRun.Issues w (.preparePhase k plan) := by
  rcases hp with hsent | ⟨fan, calls, cancelled, hpc, c, hc, rfl, hcommand⟩
  · exact h.sent w _ hsent
  · rw [← hcommand]
    exact ((h.calls _ _ _ hpc).2 c hc).1

namespace System

/-! ## Tracks are leased and authorised, and a refused call changes nothing -/

/-- Every track a run plans is allowed, and as long as the run lasts it holds the lease that covers
it; a call of `execute` whose checks or lease request fail raises and changes nothing. -/
theorem track_leased (cfg : Setup F) :
    (∀ s₀ s : System F, s₀.Initial → Transition.Reachable (step cfg) s₀ s →
      ∀ runId t, s.tasks.get runId = some t →
        (t.isDone = false → s.leases.grantFor runId = some t.receipt) ∧
        ∀ w k plan, t.HasPlan w k plan → ∀ track ∈ plan.tracks,
          ∃ rootId rolePath groupId, t.toRun.Allows cfg w track rootId rolePath groupId) ∧
    (∀ (s : System F) runId identityId program ns appendError,
      ((∃ e, s.prepareRun cfg runId identityId program = .error e) ∨
        ∃ checked locks workerIds e, s.prepareRun cfg runId identityId program =
            .ok (checked, locks, workerIds) ∧
          (s.leases.acquire runId locks.leaves locks.resources locks.safetyDomains ns).2 =
            .error e) →
      ∃ e, s.openRun cfg runId identityId program ns appendError = (s, .error e)) := by
  constructor
  · intro s₀ s h₀ h runId t ht
    have hI := inv_of_reachable h₀ h
    refine ⟨fun hdone => ?_, fun w k plan hp track htrack => ?_⟩
    · rw [hI.holds runId t ht, hdone, if_neg Bool.false_ne_true]
    · exact (hI.checked runId t ht).allows ((callsOk h₀ h ht).issues hp) htrack
  · intro s runId identityId program ns appendError hfail
    unfold openRun
    split_ifs with hactive
    · exact ⟨_, rfl⟩
    rcases hfail with ⟨e, he⟩ | ⟨checked, locks, workerIds, e, hok, he⟩
    · rw [he]
      exact ⟨_, rfl⟩
    · rw [hok]
      simp only
      cases ha : s.leases.acquire runId locks.leaves locks.resources locks.safetyDomains ns with
      | mk leases result =>
        rw [ha] at he
        simp only at he
        rw [he]
        rcases LeaseManager.acquire_cases ha with ⟨rfl, -⟩ | ⟨-, g, hg, -⟩ | ⟨g, hg, -⟩
        · exact ⟨_, rfl⟩
        · rw [he] at hg
          cases hg
        · rw [he] at hg
          cases hg

/-! ## Runs that hold leases at once -/

/-- A command is sent by a run that holds its lease, to one of its participants. -/
theorem holds_of_sent {s₀ s s' : System F} (h₀ : s₀.Initial)
    (h : Transition.Reachable (step cfg) s₀ s) {runId : Str} {t t' : Task F}
    (ht : s.tasks.get runId = some t) {l : Label F} (hs : s.step cfg l = some s')
    (ht' : s'.tasks.get runId = some t') {w : Str} {command : Command F}
    (hsent : t'.history = t.history ++ [Obs.sent w command]) :
    s.leases.grantFor runId = some t.receipt ∧ w ∈ t.participants := by
  have hne : t'.history ≠ t.history := by
    intro heq
    have := congrArg List.length (hsent.symm.trans heq)
    simp at this
  rcases step_cases hs with heq | ⟨r, t₁, -, ho, heq⟩ | ⟨r, label, t₁, t₂, -, h₁, hm, heq⟩
  · rw [heq, ht] at ht'
    cases ht'
    exact absurd rfl hne
  · rw [heq, Table.get_insert] at ht'
    split_ifs at ht' with hr
    · cases ht'
      rw [ho.history] at hsent
      exact absurd hsent.symm (by simp)
    · rw [ht] at ht'
      cases ht'
      exact absurd rfl hne
  · rw [heq, Table.get_insert] at ht'
    split_ifs at ht' with hr
    · cases ht'
      rw [hr, h₁] at ht
      cases ht
      refine ⟨?_, ?_⟩
      · rw [hr, (inv_of_reachable h₀ h).holds r t h₁, Task.not_done_of_move hm,
          if_neg Bool.false_ne_true]
      · have hmem : .sent w command ∈ t'.history := by
          rw [hsent]
          exact List.mem_append_right _ (List.mem_singleton_self _)
        have hok := ((callsOk h₀ h h₁).move hm).sent w command hmem
        rw [Task.toRun_of_move hm] at hok
        exact hok.participant
    · rw [ht] at ht'
      cases ht'
      exact absurd rfl hne

/-- Two runs that hold leases have no target in common.  A worker of both is a node without
resources and safety domains, and their plans for it drive different groups. -/
theorem shared_worker {s₀ s : System F} (h₀ : s₀.Initial)
    (h : Transition.Reachable (step cfg) s₀ s) {r r' : Str} {t t' : Task F}
    (ht : s.tasks.get r = some t) (ht' : s.tasks.get r' = some t') (hne : r ≠ r')
    (hg : s.leases.grantFor r = some t.receipt) (hg' : s.leases.grantFor r' = some t'.receipt)
    {w : Str} (hw : w ∈ t.participants) (hw' : w ∈ t'.participants) :
    (∃ p, cfg.registry.find w = some (.physical p) ∧ p.resources = [] ∧ p.safetyDomains = []) ∧
      ∀ k plan k' plan', t.HasPlan w k plan → t'.HasPlan w k' plan' →
        ∀ track ∈ plan.tracks, ∀ track' ∈ plan'.tracks, trackGroup track ≠ trackGroup track' := by
  have hI := inv_of_reachable h₀ h
  have hdisjoint {x : LeaseTarget} (hx : x ∈ t.receipt.request.targets) :
      x ∉ t'.receipt.request.targets := hI.leases.disjoint hg hg' hne hx
  constructor
  · obtain ⟨p, hp, hres, hdom⟩ := (hI.checked r t ht).participant hw
    obtain ⟨p', hp', hres', hdom'⟩ := (hI.checked r' t' ht').participant hw'
    rw [hp] at hp'
    cases hp'
    refine ⟨p, hp, List.eq_nil_iff_forall_not_mem.2 fun x hx => ?_,
      List.eq_nil_iff_forall_not_mem.2 fun x hx => ?_⟩
    · exact hdisjoint (mem_targets_resource.2 (hres hx)) (mem_targets_resource.2 (hres' hx))
    · exact hdisjoint (mem_targets_safetyDomain.2 (hdom hx))
        (mem_targets_safetyDomain.2 (hdom' hx))
  · intro k plan k' plan' hplan hplan' track htrack track' htrack' heq
    obtain ⟨_, _, g, ha⟩ := (hI.checked r t ht).allows ((callsOk h₀ h ht).issues hplan) htrack
    obtain ⟨_, _, g', ha'⟩ := (hI.checked r' t' ht').allows ((callsOk h₀ h ht').issues hplan') htrack'
    have hgroup : g = g' := by
      rw [ha.group, ha'.group] at heq
      exact Val.str.inj (Option.some.inj heq)
    rw [hgroup] at ha
    exact hdisjoint (mem_targets_leaf.2 ha.leaf) (mem_targets_leaf.2 ha'.leaf)

/-- A command is sent under the run's lease to one of its participants, and a worker shared with
another run that holds a lease declares nothing of its own and is driven in different groups. -/
theorem exclusive_groups (cfg : Setup F) (s₀ s : System F) (h₀ : s₀.Initial)
    (h : Transition.Reachable (step cfg) s₀ s) :
    (∀ l s' runId t t' w command, s.step cfg l = some s' → s.tasks.get runId = some t →
      s'.tasks.get runId = some t' → t'.history = t.history ++ [.sent w command] →
        s.leases.grantFor runId = some t.receipt ∧ w ∈ t.participants) ∧
    ∀ r r' t t', s.tasks.get r = some t → s.tasks.get r' = some t' → r ≠ r' →
      s.leases.grantFor r = some t.receipt → s.leases.grantFor r' = some t'.receipt →
        ∀ w ∈ t.participants, w ∈ t'.participants →
          (∃ p, cfg.registry.find w = some (.physical p) ∧ p.resources = [] ∧
            p.safetyDomains = []) ∧
          ∀ k plan k' plan', t.HasPlan w k plan → t'.HasPlan w k' plan' →
            ∀ track ∈ plan.tracks, ∀ track' ∈ plan'.tracks, trackGroup track ≠ trackGroup track' :=
  ⟨fun _ _ _ _ _ _ _ hs ht ht' hsent => holds_of_sent h₀ h ht hs ht' hsent,
    fun _ _ _ _ ht ht' hne hg hg' _ hw hw' => shared_worker h₀ h ht ht' hne hg hg' hw hw'⟩

end System

end Runs

/-! ### One track of the demo robot -/

section Demo

local instance exclusiveHash : Sha256 := demoHash

/-- The run has a plan with a track. -/
def Task.plansTrack (t : Task ℚ) : Bool :=
  match t.pc with
  | .fanOut _ calls _ => calls.any fun c => match c.command with
    | .preparePhase _ plan => !plan.tracks.isEmpty
    | _ => false
  | _ => false

theorem Task.exists_plan_of_plansTrack {t : Task ℚ} (h : t.plansTrack = true) :
    ∃ w k plan track, t.HasPlan w k plan ∧ track ∈ plan.tracks := by
  unfold Task.plansTrack at h
  split at h
  · rename_i fan calls cancelled hpc
    obtain ⟨c, hc, hplan⟩ := List.any_eq_true.1 h
    split at hplan
    · rename_i k plan hcommand
      cases htracks : plan.tracks with
      | nil => rw [htracks] at hplan; cases hplan
      | cons track tracks =>
        refine ⟨c.worker, k, plan, track, .inr ⟨fan, calls, cancelled, hpc, c, hc, rfl, hcommand⟩, ?_⟩
        rw [htracks]
        exact List.mem_cons_self
    · cases hplan
  · cases h

/-- The demo run up to the plan of its phase. -/
def demoPlanned : List (System.Label ℚ) :=
  [demoCall "run" "arm", .task (py "run") (.begin (py "demo_robot")),
    .task (py "run") (.reply (py "demo_robot") (.returned .none)), .task (py "run") (.resume 0 none)]

/-- Two demo runs on the two groups of the one robot; the first has sent its first command. -/
def demoShared : List (System.Label ℚ) :=
  [demoCall "run-a" "arm", demoCall "run-b" "gripper",
    .task (py "run-a") (.begin (py "demo_robot"))]

/-- The run holds its lease and the worker takes part in it. -/
def System.leasedWith (s : System ℚ) (runId w : Str) : Bool :=
  (s.tasks.get runId).any fun t =>
    s.leases.grantFor runId = some t.receipt && t.participants.contains w

/-- The step sends the worker the first command of the run. -/
def System.firstCommand (s s' : System ℚ) (runId w : Str) : Bool :=
  (s.tasks.get runId).any fun t => t.history.isEmpty && (s'.tasks.get runId).any fun t' =>
    match t'.history with
    | [.sent w' .prepareDisabled] => w' = w
    | _ => false

theorem System.exists_of_leasedWith {s : System ℚ} {runId w : Str}
    (h : s.leasedWith runId w = true) : ∃ t, s.tasks.get runId = some t ∧
      s.leases.grantFor runId = some t.receipt ∧ w ∈ t.participants := by
  obtain ⟨t, ht, h⟩ := (Option.any_eq_true _ _).1 h
  obtain ⟨hgrant, hmem⟩ := Bool.and_eq_true_iff.1 h
  exact ⟨t, ht, of_decide_eq_true hgrant, List.contains_iff_mem.1 hmem⟩

set_option maxRecDepth 20000 in
theorem demoExclusive_runs :
    (Transition.run (System.step demoSetup) {} demoPlanned).any (fun s =>
      (s.tasks.get (py "run")).any Task.plansTrack) = true ∧
    (Transition.run (System.step demoSetup) {} demoShared).any (fun s =>
      s.leasedWith (py "run-a") (py "demo_robot") && s.leasedWith (py "run-b") (py "demo_robot") &&
        (s.step demoSetup (.task (py "run-b") (.begin (py "demo_robot")))).any fun s' =>
          s.firstCommand s' (py "run-b") (py "demo_robot")) = true := by decide +kernel

theorem System.track_leased_demo :
    (∃ t : Task ℚ, ∃ w track rootId rolePath groupId,
      t.toRun.Allows demoSetup w track rootId rolePath groupId) ∧
    ∃ e, System.openRun demoSetup { journal := [(py "run", .none)] } (py "run")
      (py "example_operator") (demoProgram "arm") 0 none =
        ({ journal := [(py "run", .none)] }, .error e) := by
  obtain ⟨s, hs, hcheck⟩ := (Option.any_eq_true _ _).1 demoExclusive_runs.1
  obtain ⟨t, ht, hplan⟩ := (Option.any_eq_true _ _).1 hcheck
  obtain ⟨w, k, plan, track, hhas, htrack⟩ := t.exists_plan_of_plansTrack hplan
  obtain ⟨-, hallows⟩ :=
    (track_leased demoSetup).1 {} s initial_empty ⟨demoPlanned, hs⟩ (py "run") t ht
  refine ⟨⟨t, w, track, hallows w k plan hhas track htrack⟩, ?_⟩
  exact (track_leased demoSetup).2 _ (py "run") _ _ _ _ (.inl ⟨.runIdReuse (py "run"), rfl⟩)

theorem System.exclusive_groups_demo : ∃ s, Transition.Reachable (System.step demoSetup) {} s ∧
    s.leasedWith (py "run-a") (py "demo_robot") = true ∧
    s.leasedWith (py "run-b") (py "demo_robot") = true ∧
    ∃ p, demoSetup.registry.find (py "demo_robot") = some (.physical p) ∧ p.resources = [] ∧
      p.safetyDomains = [] := by
  obtain ⟨s, hs, hcheck⟩ := (Option.any_eq_true _ _).1 demoExclusive_runs.2
  obtain ⟨hleased, -⟩ := Bool.and_eq_true_iff.1 hcheck
  obtain ⟨ha, hb⟩ := Bool.and_eq_true_iff.1 hleased
  obtain ⟨t, ht, hg, hw⟩ := exists_of_leasedWith ha
  obtain ⟨t', ht', hg', hw'⟩ := exists_of_leasedWith hb
  refine ⟨s, ⟨demoShared, hs⟩, ha, hb, ?_⟩
  exact ((exclusive_groups demoSetup {} s initial_empty ⟨demoShared, hs⟩).2 (py "run-a")
    (py "run-b") t t' ht ht' (by decide) hg hg' _ hw hw').1

/-- A worker is sent commands by two runs that hold leases at once. -/
theorem System.exclusive_counterexample : ¬∀ (s s' : System ℚ) (l : System.Label ℚ) (r : Str)
    (t t' : Task ℚ) (w : Str) (command : Command ℚ),
    Transition.Reachable (System.step demoSetup) {} s → s.step demoSetup l = some s' →
    s.tasks.get r = some t → s'.tasks.get r = some t' →
    t'.history = t.history ++ [.sent w command] →
      s.leases.grantFor r = some t.receipt ∧
      ∀ r' t'', r' ≠ r → s.tasks.get r' = some t'' → s.leases.grantFor r' = some t''.receipt →
        w ∉ t''.participants := by
  intro hclaim
  obtain ⟨s, hs, hcheck⟩ := (Option.any_eq_true _ _).1 demoExclusive_runs.2
  obtain ⟨hleased, hstep⟩ := Bool.and_eq_true_iff.1 hcheck
  obtain ⟨t₁, ht₁, hgrant, hmem⟩ := exists_of_leasedWith (Bool.and_eq_true_iff.1 hleased).1
  obtain ⟨s', hs', hfirst⟩ := (Option.any_eq_true _ _).1 hstep
  obtain ⟨t, ht, hfirst⟩ := (Option.any_eq_true _ _).1 hfirst
  obtain ⟨hempty, hfirst⟩ := Bool.and_eq_true_iff.1 hfirst
  obtain ⟨t', ht', hfirst⟩ := (Option.any_eq_true _ _).1 hfirst
  have hsent : t'.history = t.history ++ [.sent (py "demo_robot") .prepareDisabled] := by
    rw [List.isEmpty_iff.1 hempty, List.nil_append]
    split at hfirst
    · rename_i w' h'
      rw [h', of_decide_eq_true hfirst]
    · cases hfirst
  obtain ⟨-, hno⟩ := hclaim s s' _ (py "run-b") t t' _ _ ⟨demoShared, hs⟩ hs' ht ht' hsent
  exact hno (py "run-a") t₁ (by decide) ht₁ hgrant hmem

end Demo

end RemoteRobot
