import RemoteRobot.Orchestrator.Locks

/-!
# What a manifest hash pins

Two registries that give a root the same manifest hash agree on everything below the root that the
compiler and the orchestrator read: the nodes with all their public fields, the groups role paths
resolve to, the lock sets and the compiled programs.  The proof goes down the manifests, which
contain the manifests of the children; `connection` is the one field of a node they leave out.
-/

namespace RemoteRobot

open Py Except

variable {F : Type}

/-! ## Public records -/

theorem strList_same {xs ys : List Str} (h : Val.Same (strList xs : Val F) (strList ys)) :
    xs = ys := by
  apply Val.Same.list_map _ h
  intro a b hab
  exact hab.str

theorem optInt_same {m n : Option ℤ} (h : Val.Same (optInt m : Val F) (optInt n)) : m = n := by
  cases m with
  | none =>
    have hn := Val.Same.none_left h
    cases n with
    | none => rfl
    | some n => cases hn
  | some m =>
    cases n with
    | none => cases Val.Same.none_left h.symm
    | some n => rw [Val.Same.int h]

/-- The entries of the public record of an axis. -/
theorem axis_fields (a : AxisSpec F) : ∃ kvs, a.publicDict = dictOf kvs ∧
    (kvs.map Prod.fst).Nodup ∧ lookup (py "axis_id") (entries kvs) = some (.str a.axisId) ∧
    lookup (py "kind") (entries kvs) = some (.str a.kind) ∧
    lookup (py "unit") (entries kvs) = some (.str a.unit) ∧
    lookup (py "minimum") (entries kvs) = some (.float a.minimum) ∧
    lookup (py "maximum") (entries kvs) = some (.float a.maximum) ∧
    lookup (py "max_velocity") (entries kvs) = a.maxVelocity.map .float := by
  refine ⟨_, rfl, ?_⟩
  cases a.maxVelocity <;> simp

theorem axis_same {a b : AxisSpec F} (h : Val.Same a.publicDict b.publicDict) : a = b := by
  obtain ⟨kvs, ha, hnd, hid, hkind, hunit, hmin, hmax, hvel⟩ := axis_fields a
  obtain ⟨kvs', hb, hnd', hid', hkind', hunit', hmin', hmax', hvel'⟩ := axis_fields b
  rw [ha, hb] at h
  have hvelocity : a.maxVelocity = b.maxVelocity := by
    cases hva : a.maxVelocity with
    | some v =>
      rw [hva] at hvel
      obtain ⟨v', hv', hsame⟩ := h.lookup hnd hnd' hvel
      rw [hvel'] at hv'
      obtain ⟨y, hy, rfl⟩ := Option.map_eq_some_iff.1 hv'
      rw [hy, hsame.float]
    | none =>
      cases hvb : b.maxVelocity with
      | none => rfl
      | some v =>
        rw [hvb] at hvel'
        obtain ⟨v', hv', -⟩ := h.symm.lookup hnd' hnd hvel'
        rw [hvel, hva] at hv'
        cases hv'
  have h₁ := (h.field hnd hnd' hid hid').str
  have h₂ := (h.field hnd hnd' hkind hkind').str
  have h₃ := (h.field hnd hnd' hunit hunit').str
  have h₄ := (h.field hnd hnd' hmin hmin').float
  have h₅ := (h.field hnd hnd' hmax hmax').float
  cases a
  cases b
  simp_all

theorem group_same {a b : ActuatorGroupSpec F} (h : Val.Same a.publicDict b.publicDict) :
    a = b := by
  have hnd : ∀ g : ActuatorGroupSpec F, ([("group_id", Val.str g.groupId),
      ("dimension", .int g.axes.length), ("axes", .list (g.axes.map AxisSpec.publicDict)),
      ("command_schemas", strList g.commandSchemas),
      ("telemetry_schemas", strList g.telemetrySchemas),
      ("control_rate_hz", .float g.controlRateHz)].map Prod.fst).Nodup := by
    intro g
    simp
  have h₁ := (h.field (hnd a) (hnd b) (k := "group_id") (v := .str a.groupId)
    (w := .str b.groupId) (by simp) (by simp)).str
  have h₂ := h.field (hnd a) (hnd b) (k := "axes") (v := .list (a.axes.map AxisSpec.publicDict))
    (w := .list (b.axes.map AxisSpec.publicDict)) (by simp) (by simp)
  have h₃ := strList_same (h.field (hnd a) (hnd b) (k := "command_schemas")
    (v := strList a.commandSchemas) (w := strList b.commandSchemas) (by simp) (by simp))
  have h₄ := strList_same (h.field (hnd a) (hnd b) (k := "telemetry_schemas")
    (v := strList a.telemetrySchemas) (w := strList b.telemetrySchemas) (by simp) (by simp))
  have h₅ := (h.field (hnd a) (hnd b) (k := "control_rate_hz") (v := .float a.controlRateHz)
    (w := .float b.controlRateHz) (by simp) (by simp)).float
  have h₆ : a.axes = b.axes := h₂.list_map fun x y hxy => axis_same hxy
  cases a
  cases b
  simp_all

theorem watchdog_same {a b : WatchdogSpec}
    (h : Val.Same (a.publicDict : Val F) b.publicDict) : a = b := by
  have hnd : ∀ w : WatchdogSpec, ([("strategy", (Val.str w.strategy : Val F)),
      ("deadline_ms", optInt w.deadlineMs), ("expiry_action", .str w.expiryAction),
      ("worker_crash_safe", .bool w.workerCrashSafe),
      ("unattended_operation_allowed", .bool w.unattendedOperationAllowed)].map
        Prod.fst).Nodup := by
    intro w
    simp
  have h₁ := (h.field (hnd a) (hnd b) (k := "strategy") (v := .str a.strategy)
    (w := .str b.strategy) (by simp) (by simp)).str
  have h₂ := optInt_same (h.field (hnd a) (hnd b) (k := "deadline_ms") (v := optInt a.deadlineMs)
    (w := optInt b.deadlineMs) (by simp) (by simp))
  have h₃ := (h.field (hnd a) (hnd b) (k := "expiry_action") (v := .str a.expiryAction)
    (w := .str b.expiryAction) (by simp) (by simp)).str
  have h₄ := (h.field (hnd a) (hnd b) (k := "worker_crash_safe") (v := .bool a.workerCrashSafe)
    (w := .bool b.workerCrashSafe) (by simp) (by simp)).bool
  have h₅ := (h.field (hnd a) (hnd b) (k := "unattended_operation_allowed")
    (v := .bool a.unattendedOperationAllowed) (w := .bool b.unattendedOperationAllowed)
    (by simp) (by simp)).bool
  cases a
  cases b
  simp_all

/-! ## Manifests -/

/-- The public nodes of two registries are the same from a node down. -/
inductive Alike (R R' : Registry F) : Str → Prop
  | physical {nodeId : Str} {p p' : PhysicalNode F} (h : R.find nodeId = some (.physical p))
      (h' : R'.find nodeId = some (.physical p'))
      (same : p' = { p with connection := p'.connection }) : Alike R R' nodeId
  | composite {nodeId : Str} {c : CompositeNode} (h : R.find nodeId = some (.composite c))
      (h' : R'.find nodeId = some (.composite c))
      (children : ∀ child ∈ c.children, Alike R R' child.nodeId) : Alike R R' nodeId

/-- The public fields every node has. -/
structure CommonAlike (n n' : ControlNode F) : Prop where
  nodeId : n.nodeId = n'.nodeId
  kind : n.kind = n'.kind
  revision : n.revision = n'.revision
  exposedAsRunRoot : n.exposedAsRunRoot = n'.exposedAsRunRoot
  resources : n.resources = n'.resources
  safetyDomains : n.safetyDomains = n'.safetyDomains
  safetyPolicies : n.safetyPolicies = n'.safetyPolicies
  crossCollisionChecked : n.crossCollisionChecked = n'.crossCollisionChecked

section Bodies

variable {R R' : Registry F} {rest rest' : List (String × Val F)}

theorem common_same {n n' : ControlNode F}
    (h : Val.Same (dictOf (R.commonManifest n ++ rest)) (dictOf (R'.commonManifest n' ++ rest')))
    (hnd : ((R.commonManifest n ++ rest).map Prod.fst).Nodup)
    (hnd' : ((R'.commonManifest n' ++ rest').map Prod.fst).Nodup) :
    R.serverId = R'.serverId ∧ CommonAlike n n' := by
  have hserver := (h.field hnd hnd' (k := "server_id") (v := .str R.serverId)
    (w := .str R'.serverId) (by simp [Registry.commonManifest])
    (by simp [Registry.commonManifest])).str
  have hsafety := h.field hnd hnd' (k := "safety")
    (v := dictOf [("policies", strList n.safetyPolicies),
      ("cross_collision_checked", .bool n.crossCollisionChecked)])
    (w := dictOf [("policies", strList n'.safetyPolicies),
      ("cross_collision_checked", .bool n'.crossCollisionChecked)])
    (by simp [Registry.commonManifest]) (by simp [Registry.commonManifest])
  refine ⟨hserver, ?_, ?_, ?_, ?_, ?_, ?_, ?_, ?_⟩
  · exact (h.field hnd hnd' lookup_nodeId lookup_nodeId).str
  · exact (h.field hnd hnd' lookup_kind lookup_kind).str
  · exact (h.field hnd hnd' (k := "revision") (v := .int n.revision) (w := .int n'.revision)
      (by simp [Registry.commonManifest]) (by simp [Registry.commonManifest])).int
  · exact (h.field hnd hnd' (k := "exposed_as_run_root") (v := .bool n.exposedAsRunRoot)
      (w := .bool n'.exposedAsRunRoot) (by simp [Registry.commonManifest])
      (by simp [Registry.commonManifest])).bool
  · exact strList_same (h.field hnd hnd' lookup_resources lookup_resources)
  · exact strList_same (h.field hnd hnd' lookup_safetyDomains lookup_safetyDomains)
  · exact strList_same (hsafety.field (by simp) (by simp) (k := "policies")
      (v := strList n.safetyPolicies) (w := strList n'.safetyPolicies) (by simp) (by simp))
  · exact (hsafety.field (by simp) (by simp) (k := "cross_collision_checked")
      (v := .bool n.crossCollisionChecked) (w := .bool n'.crossCollisionChecked)
      (by simp) (by simp)).bool

theorem nodup_physical {p : PhysicalNode F} {hash : Val F} :
    ((R.commonManifest (.physical p) ++ (Registry.physicalManifest p ++
      [("manifest_hash", hash)])).map Prod.fst).Nodup := by
  simp [Registry.commonManifest, Registry.physicalManifest]

theorem nodup_composite {c : CompositeNode} {children : List (Val F)}
    {physical : List (PhysicalNode F)} {hash : Val F} :
    ((R.commonManifest (.composite c) ++ (Registry.compositeManifest c children physical ++
      [("manifest_hash", hash)])).map Prod.fst).Nodup := by
  simp [Registry.commonManifest, Registry.compositeManifest]

/-- Equal manifests of physical nodes: equal nodes, but for the connection. -/
theorem physical_same {p p' : PhysicalNode F} {hash hash' : Val F}
    (h : Val.Same
      (dictOf (R.commonManifest (.physical p) ++ (Registry.physicalManifest p ++
        [("manifest_hash", hash)])))
      (dictOf (R'.commonManifest (.physical p') ++ (Registry.physicalManifest p' ++
        [("manifest_hash", hash')])))) :
    R.serverId = R'.serverId ∧ p' = { p with connection := p'.connection } := by
  obtain ⟨hserver, hcommon⟩ := common_same h nodup_physical nodup_physical
  have hadapter := h.field nodup_physical nodup_physical (k := "adapter")
    (v := dictOf [("name", .str p.adapter), ("revision", .int p.adapterRevision)])
    (w := dictOf [("name", .str p'.adapter), ("revision", .int p'.adapterRevision)])
    (by simp [Registry.commonManifest, Registry.physicalManifest])
    (by simp [Registry.commonManifest, Registry.physicalManifest])
  have h₁ := (hadapter.field (by simp) (by simp) (k := "name") (v := .str p.adapter)
    (w := .str p'.adapter) (by simp) (by simp)).str
  have h₂ := (hadapter.field (by simp) (by simp) (k := "revision") (v := .int p.adapterRevision)
    (w := .int p'.adapterRevision) (by simp) (by simp)).int
  have h₃ := (h.field nodup_physical nodup_physical (k := "configuration_revision")
    (v := .int p.configurationRevision) (w := .int p'.configurationRevision)
    (by simp [Registry.commonManifest, Registry.physicalManifest])
    (by simp [Registry.commonManifest, Registry.physicalManifest])).int
  have h₄ := (h.field nodup_physical nodup_physical (k := "groups")
    (v := .list (p.groups.map ActuatorGroupSpec.publicDict))
    (w := .list (p'.groups.map ActuatorGroupSpec.publicDict))
    (by simp [Registry.commonManifest, Registry.physicalManifest])
    (by simp [Registry.commonManifest, Registry.physicalManifest])).list_map
      fun x y hxy => group_same hxy
  have hwatchdog : ∀ {v u : Val F},
      lookup (py "watchdog") (entries (R.commonManifest (.physical p) ++
        (Registry.physicalManifest p ++ [("manifest_hash", hash)]))) = some v →
      lookup (py "watchdog") (entries (R'.commonManifest (.physical p') ++
        (Registry.physicalManifest p' ++ [("manifest_hash", hash')]))) = some u → Val.Same v u :=
    h.field nodup_physical nodup_physical
  have h₅ : p.watchdog = p'.watchdog := by
    cases hw : p.watchdog with
    | none =>
      cases hw' : p'.watchdog with
      | none => rfl
      | some w' =>
        have hsame := hwatchdog (v := .none) (u := w'.publicDict)
          (by simp [Registry.commonManifest, Registry.physicalManifest, hw])
          (by simp [Registry.commonManifest, Registry.physicalManifest, hw'])
        cases hsame.none_left
    | some w =>
      cases hw' : p'.watchdog with
      | none =>
        have hsame := hwatchdog (v := w.publicDict) (u := .none)
          (by simp [Registry.commonManifest, Registry.physicalManifest, hw])
          (by simp [Registry.commonManifest, Registry.physicalManifest, hw'])
        cases hsame.symm.none_left
      | some w' =>
        have hsame := hwatchdog (v := w.publicDict) (u := w'.publicDict)
          (by simp [Registry.commonManifest, Registry.physicalManifest, hw])
          (by simp [Registry.commonManifest, Registry.physicalManifest, hw'])
        rw [watchdog_same hsame]
  obtain ⟨hid, -, hrev, hexp, hres, hdom, hpol, hcross⟩ := hcommon
  refine ⟨hserver, ?_⟩
  cases p
  cases p'
  simp_all [ControlNode.nodeId, ControlNode.revision, ControlNode.exposedAsRunRoot,
    ControlNode.resources, ControlNode.safetyDomains, ControlNode.safetyPolicies,
    ControlNode.crossCollisionChecked]

/-- Equal manifests of composites: equal nodes, but for the children, whose entries are alike. -/
theorem composite_same {c c' : CompositeNode} {children children' : List (Val F)}
    {physical physical' : List (PhysicalNode F)} {hash hash' : Val F}
    (h : Val.Same
      (dictOf (R.commonManifest (.composite c) ++
        (Registry.compositeManifest c children physical ++ [("manifest_hash", hash)])))
      (dictOf (R'.commonManifest (.composite c') ++
        (Registry.compositeManifest c' children' physical' ++ [("manifest_hash", hash')])))) :
    R.serverId = R'.serverId ∧ c' = { c with children := c'.children } ∧
      List.Forall₂ Val.Same children children' ∧
      ∀ flag ∈ [WatchdogSpec.workerCrashSafe, WatchdogSpec.unattendedOperationAllowed],
        Registry.assurance physical flag = Registry.assurance physical' flag := by
  obtain ⟨hserver, hcommon⟩ := common_same h nodup_composite nodup_composite
  have hskew := optInt_same (h.field nodup_composite nodup_composite (k := "max_start_skew_us")
    (v := optInt c.maxStartSkewUs) (w := optInt c'.maxStartSkewUs)
    (by simp [Registry.commonManifest, Registry.compositeManifest])
    (by simp [Registry.commonManifest, Registry.compositeManifest]))
  have hchildren := h.field nodup_composite nodup_composite (k := "children")
    (v := .list children) (w := .list children')
    (by simp [Registry.commonManifest, Registry.compositeManifest])
    (by simp [Registry.commonManifest, Registry.compositeManifest])
  have hassure := h.field nodup_composite nodup_composite (k := "assurances")
    (v := dictOf
      [("worker_crash_safe", .bool (Registry.assurance physical WatchdogSpec.workerCrashSafe)),
        ("unattended_operation_allowed",
          .bool (Registry.assurance physical WatchdogSpec.unattendedOperationAllowed))])
    (w := dictOf
      [("worker_crash_safe", .bool (Registry.assurance physical' WatchdogSpec.workerCrashSafe)),
        ("unattended_operation_allowed",
          .bool (Registry.assurance physical' WatchdogSpec.unattendedOperationAllowed))])
    (by simp [Registry.commonManifest, Registry.compositeManifest])
    (by simp [Registry.commonManifest, Registry.compositeManifest])
  have h₁ := (hassure.field (by simp) (by simp) (k := "worker_crash_safe") (v := .bool _)
    (w := .bool _) (by simp; rfl) (by simp; rfl)).bool
  have h₂ := (hassure.field (by simp) (by simp) (k := "unattended_operation_allowed")
    (v := .bool _) (w := .bool _) (by simp; rfl) (by simp; rfl)).bool
  obtain ⟨hid, -, hrev, hexp, hres, hdom, hpol, hcross⟩ := hcommon
  refine ⟨hserver, ?_, hchildren.list, ?_⟩
  · cases c
    cases c'
    simp_all [ControlNode.nodeId, ControlNode.revision, ControlNode.exposedAsRunRoot,
      ControlNode.resources, ControlNode.safetyDomains, ControlNode.safetyPolicies,
      ControlNode.crossCollisionChecked]
  · intro flag hflag
    simp only [List.mem_cons, List.not_mem_nil, or_false] at hflag
    obtain rfl | rfl := hflag
    · exact h₁
    · exact h₂

end Bodies

/-- Two child entries that are alike: the same reference, and manifests that are alike. -/
theorem child_same {child child' : ChildRef} {m m' : List (String × Val F)} {v v' : Val F}
    (hv : Registry.childManifest child m = (.ok v : Except (Error F) (Val F)))
    (hv' : Registry.childManifest child' m' = (.ok v' : Except (Error F) (Val F)))
    (h : Val.Same v v') : child = child' ∧ Val.Same (dictOf m) (dictOf m') := by
  simp only [Registry.childManifest, bind_eq_ok] at hv hv'
  obtain ⟨hash, -, hv⟩ := hv
  obtain ⟨hash', -, hv'⟩ := hv'
  obtain rfl := Except.ok.inj hv
  obtain rfl := Except.ok.inj hv'
  have h₁ := (h.field (by simp) (by simp) (k := "role") (v := .str child.role)
    (w := .str child'.role) (by simp) (by simp)).str
  have h₂ := (h.field (by simp) (by simp) (k := "node_id") (v := .str child.nodeId)
    (w := .str child'.nodeId) (by simp) (by simp)).str
  have h₃ := (h.field (by simp) (by simp) (k := "alias") (v := .bool child.«alias»)
    (w := .bool child'.«alias») (by simp) (by simp)).bool
  have h₄ := h.field (by simp) (by simp) (k := "manifest") (v := dictOf m) (w := dictOf m')
    (by simp) (by simp)
  refine ⟨?_, h₄⟩
  cases child
  cases child'
  simp_all

section Tree

variable [Cbor F] [Sha256] {R R' : Registry F}

/-- The children of two composites with manifests that are alike, given that the manifests of the
children tell their trees apart. -/
theorem children_same {d e : ℕ} {refs refs' : List ChildRef} {children children' : List (Val F)}
    (ih : ∀ nodeId nodeId' m m', R.manifestFrom d nodeId = .ok m →
      R'.manifestFrom e nodeId' = .ok m' → Val.Same (dictOf m) (dictOf m') →
      m = m' ∧ Alike R R' nodeId)
    (hc : List.Forall₂ (fun (child : ChildRef) v => ∃ m, R.manifestFrom d child.nodeId = .ok m ∧
      Registry.childManifest child m = (.ok v : Except (Error F) (Val F))) refs children)
    (hc' : List.Forall₂ (fun (child : ChildRef) v => ∃ m, R'.manifestFrom e child.nodeId = .ok m ∧
      Registry.childManifest child m = (.ok v : Except (Error F) (Val F))) refs' children')
    (h : List.Forall₂ Val.Same children children') :
    refs = refs' ∧ children = children' ∧ ∀ child ∈ refs, Alike R R' child.nodeId := by
  induction h generalizing refs refs' with
  | nil =>
    cases hc
    cases hc'
    exact ⟨rfl, rfl, fun _ hin => nomatch hin⟩
  | cons hv _ hrest =>
    cases hc with
    | cons hchild hc =>
      cases hc' with
      | cons hchild' hc' =>
        obtain ⟨m, hm, hentry⟩ := hchild
        obtain ⟨m', hm', hentry'⟩ := hchild'
        obtain ⟨rfl, hsame⟩ := child_same hentry hentry' hv
        obtain ⟨rfl, halike⟩ := ih _ _ _ _ hm hm' hsame
        obtain ⟨rfl, rfl, hall⟩ := hrest hc hc'
        refine ⟨rfl, ?_, List.forall_mem_cons.2 ⟨halike, hall⟩⟩
        rw [Except.ok.inj (hentry.symm.trans hentry')]

/-- Manifests that are alike are equal, and come from the same tree of nodes. -/
theorem manifest_same {d d' : ℕ} {nodeId nodeId' : Str} {m m' : List (String × Val F)}
    (hm : R.manifestFrom d nodeId = .ok m) (hm' : R'.manifestFrom d' nodeId' = .ok m')
    (h : Val.Same (dictOf m) (dictOf m')) :
    nodeId = nodeId' ∧ m = m' ∧ R.serverId = R'.serverId ∧ Alike R R' nodeId := by
  induction d generalizing d' nodeId nodeId' m m' with
  | zero => cases hm
  | succ d ih =>
    obtain ⟨_, n, own, digest, hd, hfind, hown, rfl, hdigest⟩ := manifestFrom_eq_ok hm
    obtain rfl := Nat.succ.inj hd
    obtain ⟨e, n', own', digest', rfl, hfind', hown', rfl, hdigest'⟩ := manifestFrom_eq_ok hm'
    rw [List.append_assoc, List.append_assoc] at h
    -- equal bodies have equal digests
    have hfinish : R.serverId = R'.serverId → R.commonManifest n ++ own =
        R'.commonManifest n' ++ own' → (nodeId = nodeId' → Alike R R' nodeId) →
        nodeId = nodeId' ∧ R.commonManifest n ++ own ++ [("manifest_hash", Val.str digest)] =
          R'.commonManifest n' ++ own' ++ [("manifest_hash", Val.str digest')] ∧
          R.serverId = R'.serverId ∧ Alike R R' nodeId := by
      intro hserver hbody halike
      have hnode : n.nodeId = n'.nodeId := by
        have := congrArg (fun kvs => lookup (py "node_id") (entries kvs)) hbody
        simp only [lookup_nodeId] at this
        exact Val.str.inj (Option.some.inj this)
      rw [hbody] at hdigest
      obtain rfl := Except.ok.inj (hdigest.symm.trans hdigest')
      have hid : nodeId = nodeId' := by
        rw [← nodeId_of_find hfind, ← nodeId_of_find hfind', hnode]
      exact ⟨hid, by rw [hbody], hserver, halike hid⟩
    cases n with
    | physical p =>
      obtain rfl := hown
      cases n' with
      | physical p' =>
        obtain rfl := hown'
        obtain ⟨hserver, hsame⟩ := physical_same h
        apply hfinish hserver
        · rw [hsame]
          simp only [Registry.commonManifest, Registry.physicalManifest, hserver,
            ControlNode.nodeId, ControlNode.kind, ControlNode.revision,
            ControlNode.exposedAsRunRoot, ControlNode.resources, ControlNode.safetyDomains,
            ControlNode.safetyPolicies, ControlNode.crossCollisionChecked]
        · intro hid
          exact .physical hfind (hid ▸ hfind') hsame
      | composite c' =>
        obtain ⟨children, physical, rfl, -⟩ := hown'
        have hkind := (common_same h nodup_physical nodup_composite).2.kind
        exact absurd (py_inj.1 hkind) (by decide)
    | composite c =>
      obtain ⟨children, physical, rfl, hc⟩ := hown
      cases n' with
      | physical p' =>
        obtain rfl := hown'
        have hkind := (common_same h nodup_composite nodup_physical).2.kind
        exact absurd (py_inj.1 hkind) (by decide)
      | composite c' =>
        obtain ⟨children', physical', rfl, hc'⟩ := hown'
        obtain ⟨hserver, hsame, hchildren, hassure⟩ := composite_same h
        have ih' : ∀ nodeId nodeId' m m', R.manifestFrom d nodeId = .ok m →
            R'.manifestFrom e nodeId' = .ok m' → Val.Same (dictOf m) (dictOf m') →
            m = m' ∧ Alike R R' nodeId := by
          intro _ _ _ _ hm hm' hs
          obtain ⟨-, heq, -, halike⟩ := ih hm hm' hs
          exact ⟨heq, halike⟩
        obtain ⟨hrefs, rfl, halike⟩ := children_same ih' hc hc' hchildren
        obtain rfl : c' = c := by rw [hsame, ← hrefs]
        apply hfinish hserver
        · simp only [Registry.commonManifest, Registry.compositeManifest, hserver,
            hassure _ List.mem_cons_self, hassure _ (List.mem_cons_of_mem _ List.mem_cons_self)]
        · intro hid
          exact .composite hfind (hid ▸ hfind') halike

/-- Equal hashes are hashes of values that read back alike. -/
theorem same_of_digest [LawfulCbor F] (hinj : Function.Injective Sha256.digest) {v v' : Val F}
    {h : Str} (hv : (canonicalCborSha256 v : Except (Error F) Str) = .ok h)
    (hv' : (canonicalCborSha256 v' : Except (Error F) Str) = .ok h) : Val.Same v v' := by
  simp only [canonicalCborSha256, liftExc_eq_ok, map_eq_ok] at hv hv'
  obtain ⟨b, hb, rfl⟩ := hv
  obtain ⟨b', hb', he⟩ := hv'
  obtain rfl := hinj (hexlify_injective he)
  exact exists_reads_of_dumps_eq hb hb'

theorem pinned_of_manifestHash [LawfulCbor F] [PyText F]
    (hinj : Function.Injective Sha256.digest) {root h : Str}
    (hash : R.manifestHash root = .ok h) (hash' : R'.manifestHash root = .ok h) :
    R.describe root = R'.describe root ∧ R.serverId = R'.serverId ∧ Alike R R' root := by
  obtain ⟨body, hm, hdigest⟩ := manifestHash_eq_ok hash
  obtain ⟨body', hm', hdigest'⟩ := manifestHash_eq_ok hash'
  have hsame := (same_of_digest hinj hdigest hdigest').append_str "manifest_hash" h
  obtain ⟨-, heq, hserver, halike⟩ := manifest_same hm hm' hsame
  refine ⟨?_, hserver, halike⟩
  rw [Registry.describe, Registry.describe, hm, hm', heq]

end Tree

/-! ## What follows for roles, locks and programs -/

/-- Two descents end alike: with the same error, or at public nodes that are the same. -/
def DescendAlike (x y : Except (Error F) (PhysicalNode F × List Str)) : Prop :=
  (∃ e, x = .error e ∧ y = .error e) ∨
    ∃ p p' rest, x = .ok (p, rest) ∧ y = .ok (p', rest) ∧
      p' = { p with connection := p'.connection }

theorem Alike.descend {R R' : Registry F} {rolePath nodeId : Str} (h : Alike R R' nodeId)
    {n n' : ControlNode F} (hn : R.find nodeId = some n) (hn' : R'.find nodeId = some n')
    (segments : List Str) :
    DescendAlike (R.descend rolePath n segments) (R'.descend rolePath n' segments) := by
  induction segments generalizing nodeId n n' with
  | nil =>
    cases h with
    | physical h h' same =>
      obtain rfl := Option.some.inj (hn.symm.trans h)
      obtain rfl := Option.some.inj (hn'.symm.trans h')
      exact .inr ⟨_, _, _, rfl, rfl, same⟩
    | composite h h' children =>
      obtain rfl := Option.some.inj (hn.symm.trans h)
      obtain rfl := Option.some.inj (hn'.symm.trans h')
      exact .inl ⟨_, rfl, rfl⟩
  | cons role segments ih =>
    cases h with
    | physical h h' same =>
      obtain rfl := Option.some.inj (hn.symm.trans h)
      obtain rfl := Option.some.inj (hn'.symm.trans h')
      exact .inr ⟨_, _, _, rfl, rfl, same⟩
    | @composite _ c h h' children =>
      obtain rfl := Option.some.inj (hn.symm.trans h)
      obtain rfl := Option.some.inj (hn'.symm.trans h')
      unfold Registry.descend
      cases hrole : c.child role with
      | none => exact .inl ⟨_, rfl, rfl⟩
      | some child =>
        have halike := children child (List.mem_of_find?_eq_some hrole)
        obtain ⟨m, hm⟩ : ∃ m, R.find child.nodeId = some m := by
          cases halike with
          | physical h => exact ⟨_, h⟩
          | composite h => exact ⟨_, h⟩
        obtain ⟨m', hm'⟩ : ∃ m', R'.find child.nodeId = some m' := by
          cases halike with
          | physical h h' => exact ⟨_, h'⟩
          | composite h h' => exact ⟨_, h'⟩
        simp only [node_eq_ok.2 hm, node_eq_ok.2 hm', bind, Except.bind]
        exact ih halike hm hm'

theorem Alike.resolveGroup {R R' : Registry F} {root : Str} (h : Alike R R' root) (path : Str) :
    R.resolveGroup root path = R'.resolveGroup root path := by
  obtain ⟨n, n', hn, hn'⟩ : ∃ n n', R.find root = some n ∧ R'.find root = some n' := by
    cases h with
    | physical h h' => exact ⟨_, _, h, h'⟩
    | composite h h' => exact ⟨_, _, h, h'⟩
  unfold Registry.resolveGroup
  rw [node_eq_ok.2 hn, node_eq_ok.2 hn']
  simp only [bind, Except.bind]
  obtain ⟨e, he, he'⟩ | ⟨p, p', rest, he, he', same⟩ := h.descend hn hn' (split 46 path)
  · rw [he, he']
  · have hid : p'.nodeId = p.nodeId := by rw [same]
    have hgroup : p'.group = p.group := by
      rw [same]
      rfl
    rw [he, he']
    simp only [hid, hgroup]

section Compile

variable [PyFloat F] [PyText F] {R R' : Registry F} {root : Str}
  (hresolve : ∀ path, R.resolveGroup root path = R'.resolveGroup root path)

include hresolve

theorem compileSequence_congr (raw : Val F) (path : String) :
    compileSequence R root raw path = compileSequence R' root raw path := by
  unfold compileSequence
  simp only [hresolve]

variable [Cbor F] [Sha256]

theorem compileSequencesFrom_congr (path : String) (raws : List (Val F)) (index : ℕ)
    (targets : List ResolvedTarget) :
    compileSequencesFrom R root path index targets raws =
      compileSequencesFrom R' root path index targets raws := by
  induction raws generalizing index targets with
  | nil => rfl
  | cons raw raws ih =>
    unfold compileSequencesFrom
    simp only [compileSequence_congr hresolve, ih]

theorem compilePhase_congr (raw : Val F) (path : String) :
    compilePhase R root raw path = compilePhase R' root raw path := by
  unfold compilePhase
  simp only [compileSequencesFrom_congr hresolve]

theorem compilePhasesFrom_congr (raws : List (Val F)) (index : ℕ) (seen : List Str) :
    compilePhasesFrom R root index seen raws = compilePhasesFrom R' root index seen raws := by
  induction raws generalizing index seen with
  | nil => rfl
  | cons raw raws ih =>
    unfold compilePhasesFrom
    simp only [compilePhase_congr hresolve, ih]

/-- The compiler reads the manifest of the root, its groups and the server id. -/
theorem compile_congr (hdescribe : R.describe root = R'.describe root)
    (hserver : R.serverId = R'.serverId) {template : Val F}
    (hroot : template.getItem "root_id" = .ok (.str root)) :
    compile R template = compile R' template := by
  have hhash : R.manifestHash root = R'.manifestHash root := by
    unfold Registry.manifestHash
    rw [hdescribe]
  have hbody : compileBody R template = compileBody R' template := by
    unfold compileBody
    rw [hroot, hserver]
    rcases hid : shortId (.str root : Val F) "template.root_id" with e | r
    · simp only [liftExc_ok, hid, bind, Except.bind]
    · obtain rfl : root = r := Val.str.inj (shortId_eq_ok hid)
      simp only [liftExc_ok, hid, hdescribe, hhash, compilePhasesFrom_congr hresolve, bind,
        Except.bind]
  unfold compile
  rw [hbody]

omit hresolve in
theorem rootId_of_compileBody {template : Val F} {b : CompiledBody F}
    (h : compileBody R template = .ok b) (hroot : template.getItem "root_id" = .ok (.str root)) :
    b.rootId = root := by
  unfold compileBody at h
  simp only [bind_eq_ok, raiseWhen_eq_ok, exists_unit, liftExc_eq_ok] at h
  obtain ⟨-, _, -, _, -, -, v, hv, rootId, hid, _, -, _, -, -, _, -, _, -, _, -, _, -, _, -, _, -,
    h⟩ := h
  obtain rfl := Except.ok.inj (hroot.symm.trans hv)
  rw [← Except.ok.inj h, ← Val.str.inj (shortId_eq_ok hid)]

omit hresolve in
/-- A program goes on validating only where the manifest hash of its root is still the same. -/
theorem manifestHash_of_validate {template : Val F} {p : CompiledProgram F}
    (hroot : template.getItem "root_id" = .ok (.str root)) (hp : compile R template = .ok p)
    (hv : validateForCurrentRegistry R' p = .ok ()) :
    ∃ h, R.manifestHash root = .ok h ∧ R'.manifestHash root = .ok h := by
  obtain ⟨b, hb, -, hbody⟩ := compile_eq_ok.1 hp
  have hid := rootId_of_compileBody hb hroot
  have hrootId : p.rootId = .ok root := by
    refine liftExc_eq_ok.2 (pyStr_of_lookup ?_)
    simp [hbody, CompiledBody.fields, hid]
  have hhash : p.manifestHash = .ok b.manifestHash := by
    refine liftExc_eq_ok.2 (pyStr_of_lookup ?_)
    simp [hbody, CompiledBody.fields]
  unfold validateForCurrentRegistry at hv
  simp only [bind_eq_ok, raiseWhen_eq_ok, exists_unit, hrootId, hhash, Except.ok.injEq,
    exists_eq_left', not_not] at hv
  obtain ⟨_, -, -, -, _, -, -, current, hcurrent, hsame, -⟩ := hv
  refine ⟨b.manifestHash, hid ▸ (bodyOk_of_compile hb).manifestHash, ?_⟩
  rw [hcurrent, hsame]

end Compile

section Pins

variable [Cbor F] [Sha256] [PyFloat F]

/-- The locks of the nodes along a role path, from the manifest of its root. -/
def Registry.roleBranchLocks (R : Registry F) (root physicalId rolePath : Str) :
    Except (Error F) LockRequirements := do
  let manifest ← plainMapping (← R.describe root) "root capability manifest"
  collectRoleBranchLocks physicalId manifest (split 46 rolePath)

variable [LawfulCbor F] [PyText F]

/-- Two registries with one manifest hash for a root agree on its tree of nodes, on every role path
with its group and its locks, and on what every template compiles to.  Where the trees differ, no
program compiled for the one validates for the other. -/
theorem manifest_hash_pins (hinj : Function.Injective Sha256.digest)
    (R R' : CapabilityRegistry F) (root : Str) :
    (∀ h, R.manifestHash root = .ok h → R'.manifestHash root = .ok h →
      Alike R.toRegistry R'.toRegistry root ∧
      (∀ path, R.resolveGroup root path = R'.resolveGroup root path) ∧
      (∀ physicalId path, R.roleBranchLocks root physicalId path =
        R'.roleBranchLocks root physicalId path) ∧
      ∀ template : Val F, template.getItem "root_id" = .ok (.str root) →
        compile R.toRegistry template = compile R'.toRegistry template) ∧
    ∀ (template : Val F) (p : CompiledProgram F), template.getItem "root_id" = .ok (.str root) →
      compile R.toRegistry template = .ok p → ¬Alike R.toRegistry R'.toRegistry root →
      validateForCurrentRegistry R'.toRegistry p ≠ .ok () := by
  constructor
  · intro h hash hash'
    obtain ⟨hdescribe, hserver, halike⟩ := pinned_of_manifestHash hinj hash hash'
    refine ⟨halike, halike.resolveGroup, ?_, ?_⟩
    · intro physicalId path
      unfold Registry.roleBranchLocks
      rw [hdescribe]
    · intro template hroot
      exact compile_congr halike.resolveGroup hdescribe hserver hroot
  · intro template p hroot hp hne hv
    obtain ⟨h, hash, hash'⟩ := manifestHash_of_validate hroot hp hv
    exact hne (pinned_of_manifestHash hinj hash hash').2.2

end Pins

section Demo

/-- An injective stand-in for the hash. -/
local instance pinnedDigest : Sha256 := ⟨id⟩

/-- The demo registry without its identity. -/
def demoUnmanned : Registry ℚ := { demoRegistry with identities := [] }

set_option maxRecDepth 20000 in
/-- A registry that differs in its identities only compiles the demo template the same way. -/
theorem manifest_hash_pins_demo : (compile demoRegistry (demoTemplate "arm")).isOk = true ∧
    compile demoRegistry (demoTemplate "arm") = compile demoUnmanned (demoTemplate "arm") := by
  have hok : demoRegistry.check.isOk = true := by decide +kernel
  obtain ⟨_, haccepted⟩ := exists_of_isOk hok
  have hok' : demoUnmanned.check.isOk = true := by decide +kernel
  obtain ⟨_, haccepted'⟩ := exists_of_isOk hok'
  have hhash : (demoRegistry.manifestHash (py "demo_robot")).isOk = true := by decide +kernel
  obtain ⟨h, hash⟩ := exists_of_isOk hhash
  have hash' : demoUnmanned.manifestHash (py "demo_robot") = .ok h := hash
  have hpins := ((manifest_hash_pins Function.injective_id ⟨demoRegistry, haccepted⟩
    ⟨demoUnmanned, haccepted'⟩ (py "demo_robot")).1 h hash hash').2.2.2
  exact ⟨by decide +kernel, hpins (demoTemplate "arm") rfl⟩

end Demo

end RemoteRobot
