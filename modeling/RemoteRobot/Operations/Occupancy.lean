import RemoteRobot.Operations.State
import RemoteRobot.Orchestrator.Leasing

/-!
# Occupied nodes and refused leases

A run occupies a node when its grant has a leaf below the node or a resource or a safety domain of the
node itself.  A program at the node is refused because of the run when the grant has something of a
whole role branch, the nodes between the root and the group included.  The two agree on a node and a
run exactly when the grant holds nothing of the nodes below that it does not also hold of the node
(`occupied_iff`).
-/

namespace RemoteRobot.Operations

open Py Except Registry

variable {F : Type}

/-! ## The graph below a node -/

/-- The node can be reached from the ID. -/
inductive Below (R : Registry F) : Str → ControlNode F → Prop
  | here {nodeId : Str} {n : ControlNode F} (h : R.find nodeId = some n) : Below R nodeId n
  | child {nodeId : Str} {c : CompositeNode} {ref : ChildRef} {n : ControlNode F}
      (h : R.find nodeId = some (.composite c)) (href : ref ∈ c.children)
      (hbelow : Below R ref.nodeId n) : Below R nodeId n

/-- The nodes of a route, whatever stands in the place of the group. -/
theorem below_of_mem_branchNodes {R : Registry F} {nodeId : Str} {n b : ControlNode F}
    {segments : List Str} (hn : R.find nodeId = some n) (h : b ∈ branchNodes R n segments) :
    Below R nodeId b := by
  induction segments generalizing nodeId n with
  | nil =>
    cases n with
    | physical p =>
      obtain rfl := List.mem_singleton.1 h
      exact .here hn
    | composite c =>
      obtain rfl := List.mem_singleton.1 h
      exact .here hn
  | cons role segments ih =>
    cases n with
    | physical p =>
      obtain rfl := List.mem_singleton.1 h
      exact .here hn
    | composite c =>
      rw [branchNodes] at h
      obtain rfl | h := List.mem_cons.1 h
      · exact .here hn
      · split at h
        · rename_i next hnext
          obtain ⟨ref, href, hfind⟩ := Option.bind_eq_some_iff.1 hnext
          exact .child hn (child_eq_some href).2 (ih hfind h)
        · cases h

theorem mem_branchNodes_self (R : Registry F) (n : ControlNode F) (segments : List Str) :
    n ∈ branchNodes R n segments := by
  cases n with
  | physical p => simp [branchNodes]
  | composite c =>
    cases segments with
    | nil => exact List.mem_singleton.2 rfl
    | cons role segments => exact List.mem_cons_self

section Accepted

variable [Cbor F] [Sha256] [PyFloat F] [PyText F] {R : Registry F}

theorem children_ne_nil_of_check (h : R.check = .ok ()) {c : CompositeNode}
    (hc : ControlNode.composite c ∈ R.nodes) : c.children ≠ [] := by
  unfold Registry.check at h
  simp only [bind_eq_ok, exists_unit, forM_eq_ok] at h
  have hnode := h.1 _ hc
  simp only [ControlNode.postInit, CompositeNode.postInit, bind_eq_ok, exists_unit, raiseIf_eq_ok] at hnode
  obtain ⟨-, -, -, hne, -⟩ := hnode
  intro hnil
  rw [hnil] at hne
  cases hne

/-- From every node a route leads to a robot. -/
theorem exists_route (h : R.check = .ok ()) {d : ℕ} {pathPrefix : List Str} {aliased : Bool}
    {nodeId : Str} {leaves : List Leaf}
    (hl : R.leafPathsFrom d pathPrefix aliased nodeId = .ok leaves) :
    ∃ roles p, Route R nodeId roles p := by
  induction d generalizing pathPrefix aliased nodeId leaves with
  | zero => cases hl
  | succ d ih =>
    unfold Registry.leafPathsFrom at hl
    split at hl
    · cases hl
    · rename_i p hfind
      exact ⟨[], p, .here hfind⟩
    · rename_i c hfind
      obtain ⟨leavess, hls, -⟩ := bind_eq_ok.1 hl
      obtain ⟨ref, href⟩ := List.exists_mem_of_ne_nil _
        (children_ne_nil_of_check h (List.mem_of_find?_eq_some hfind))
      obtain ⟨ls, -, hchild⟩ := (mapM_eq_ok.1 hls).exists_of_mem_left href
      obtain ⟨roles, p, hroute⟩ := ih hchild
      exact ⟨ref.role :: roles, p, .child hfind href hroute⟩

/-- Every node below lies on a route. -/
theorem exists_route_through (h : R.check = .ok ()) {nodeId : Str} {b n : ControlNode F}
    (hbelow : Below R nodeId b) (hn : R.find nodeId = some n) :
    ∃ roles p, Route R nodeId roles p ∧ ∀ last, b ∈ branchNodes R n (roles ++ [last]) := by
  have hnamed : AllNamed R := (accepted_of_check h).named
  induction hbelow generalizing n with
  | here hb =>
    obtain rfl := Option.some.inj (hn.symm.trans hb)
    obtain ⟨leaves, hleaves⟩ := exists_leafPaths h hn
    obtain ⟨roles, p, hroute⟩ := exists_route h hleaves
    exact ⟨roles, p, hroute, fun last => mem_branchNodes_self R n _⟩
  | child hfind href hbelow ih =>
    rename_i nodeId c ref b
    obtain rfl := Option.some.inj (hn.symm.trans hfind)
    obtain ⟨m, hm⟩ : ∃ m, R.find ref.nodeId = some m := by
      cases hbelow with
      | here hb => exact ⟨_, hb⟩
      | child hb => exact ⟨_, hb⟩
    obtain ⟨roles, p, hroute, hmem⟩ := ih hm
    refine ⟨ref.role :: roles, p, .child hfind href hroute, fun last => ?_⟩
    have hchild : c.child ref.role = some ref :=
      find?_of_nodup (hnamed.find hfind).1 href
    rw [List.cons_append, branchNodes, hchild, Option.bind_some, hm]
    exact List.mem_cons_of_mem _ (hmem last)

end Accepted

/-! ## Lock sets of a role path -/

/-- The grant has a leaf, a resource or a safety domain of the lock set. -/
def SharesTarget (g : LeaseReceipt) (locks : LockRequirements) : Prop :=
  (∃ x ∈ locks.leaves, x ∈ g.request.leafIds) ∨ (∃ x ∈ locks.resources, x ∈ g.request.resourceKeys) ∨
    ∃ x ∈ locks.safetyDomains, x ∈ g.request.safetyDomainKeys

/-- The grant has a resource or a safety domain of the node. -/
def HoldsOf (g : LeaseReceipt) (n : ControlNode F) : Prop :=
  (∃ x ∈ n.resources, x ∈ g.request.resourceKeys) ∨
    ∃ x ∈ n.safetyDomains, x ∈ g.request.safetyDomainKeys

/-- The grant has a leaf below the node. -/
def HoldsLeaf (R : Registry F) (g : LeaseReceipt) (nodeId : Str) : Prop :=
  ∃ roles p group, Route R nodeId roles p ∧ group ∈ p.groups ∧
    p.nodeId ++ py "." ++ group.groupId ∈ g.request.leafIds

/-- The grant has the leaf of a group or something of a node on its role path. -/
def HoldsOn (R : Registry F) (g : LeaseReceipt) (n : ControlNode F) (roles : List Str)
    (p : PhysicalNode F) (group : ActuatorGroupSpec F) : Prop :=
  p.nodeId ++ py "." ++ group.groupId ∈ g.request.leafIds ∨
    ∃ b ∈ branchNodes R n (roles ++ [group.groupId]), HoldsOf g b

/-- The lease manager takes every key of the group and of the nodes on its role path. -/
def LeasableOn (R : Registry F) (n : ControlNode F) (roles : List Str) (p : PhysicalNode F)
    (group : ActuatorGroupSpec F) : Prop :=
  canonicalKey (p.nodeId ++ py "." ++ group.groupId) = true ∧
    ∀ b ∈ branchNodes R n (roles ++ [group.groupId]), ∀ key ∈ b.resources ++ b.safetyDomains,
      canonicalKey key = true

/-- Every key of the lock set is one the lease manager takes. -/
def AllCanonical (locks : LockRequirements) : Prop :=
  ∀ key ∈ locks.leaves ++ locks.resources ++ locks.safetyDomains, canonicalKey key = true

section Locks

variable [Cbor F] [Sha256] [PyFloat F] [PyText F]

/-- What `lock_requirements` collects for a program with one group, at this role path. -/
def groupLocks (R : Registry F) (rootId rolePath : Str) : Except (Error F) LockRequirements := do
  let target ← R.resolveGroup rootId rolePath
  let manifest ← plainMapping (← R.describe rootId) "root capability manifest"
  let branch ← collectRoleBranchLocks target.physicalNodeId manifest (split 46 rolePath)
  .ok (LockRequirements.union ⟨[target.physicalNodeId ++ py "." ++ target.groupId], [], []⟩ branch)

variable {R : Registry F} {nodeId : Str} {n : ControlNode F}

/-- The lock set of a group is its leaf and what the nodes of its role branch declare. -/
structure IsGroupLocks (R : Registry F) (n : ControlNode F) (roles : List Str) (p : PhysicalNode F)
    (group : ActuatorGroupSpec F) (locks : LockRequirements) : Prop where
  leaves : locks.leaves = [p.nodeId ++ py "." ++ group.groupId]
  resources : ∀ x, x ∈ locks.resources ↔
    ∃ b ∈ branchNodes R n (roles ++ [group.groupId]), x ∈ b.resources
  safetyDomains : ∀ x, x ∈ locks.safetyDomains ↔
    ∃ b ∈ branchNodes R n (roles ++ [group.groupId]), x ∈ b.safetyDomains

omit [Cbor F] [Sha256] [PyFloat F] [PyText F] in
theorem IsGroupLocks.shares_iff {roles : List Str} {p : PhysicalNode F}
    {group : ActuatorGroupSpec F} {locks : LockRequirements}
    (h : IsGroupLocks R n roles p group locks) (g : LeaseReceipt) :
    SharesTarget g locks ↔ HoldsOn R g n roles p group := by
  unfold SharesTarget HoldsOn HoldsOf
  simp only [h.leaves, h.resources, h.safetyDomains, List.mem_singleton, exists_eq_left]
  refine or_congr_right ⟨?_, ?_⟩
  · rintro (⟨x, ⟨b, hb, hx⟩, hg⟩ | ⟨x, ⟨b, hb, hx⟩, hg⟩)
    · exact ⟨b, hb, .inl ⟨x, hx, hg⟩⟩
    · exact ⟨b, hb, .inr ⟨x, hx, hg⟩⟩
  · rintro ⟨b, hb, ⟨x, hx, hg⟩ | ⟨x, hx, hg⟩⟩
    · exact .inl ⟨x, ⟨b, hb, hx⟩, hg⟩
    · exact .inr ⟨x, ⟨b, hb, hx⟩, hg⟩

omit [Cbor F] [Sha256] [PyFloat F] [PyText F] in
theorem IsGroupLocks.allCanonical_iff {roles : List Str} {p : PhysicalNode F}
    {group : ActuatorGroupSpec F} {locks : LockRequirements}
    (h : IsGroupLocks R n roles p group locks) :
    AllCanonical locks ↔ LeasableOn R n roles p group := by
  unfold AllCanonical LeasableOn
  simp only [List.forall_mem_append, h.leaves, List.forall_mem_singleton, h.resources,
    h.safetyDomains, and_assoc]
  refine and_congr_right fun _ => ⟨fun ⟨hr, hd⟩ b hb => ?_, fun h => ⟨?_, ?_⟩⟩
  · exact ⟨fun key hkey => hr key ⟨b, hb, hkey⟩, fun key hkey => hd key ⟨b, hb, hkey⟩⟩
  · rintro key ⟨b, hb, hkey⟩
    exact (h b hb).1 key hkey
  · rintro key ⟨b, hb, hkey⟩
    exact (h b hb).2 key hkey

omit [PyText F] in
theorem isGroupLocks_of_collect {d : ℕ} {fields : List (String × Val F)} (hnamed : AllNamed R)
    (hm : R.manifestFrom d nodeId = .ok fields) (hn : R.find nodeId = some n) {roles : List Str}
    {p : PhysicalNode F} (hroute : Route R nodeId roles p) {group : ActuatorGroupSpec F}
    (hg : group ∈ p.groups) {branch : LockRequirements}
    (hb : collectRoleBranchLocks p.nodeId (entries fields)
      (split 46 (joinPath (roles ++ [group.groupId]))) = .ok branch) :
    IsGroupLocks R n roles p group
      (LockRequirements.union ⟨[p.nodeId ++ py "." ++ group.groupId], [], []⟩ branch) := by
  rw [hroute.split_path hnamed hg] at hb
  have hunion := (route_of_collect hm hn hb).2
  refine ⟨?_, hunion.resources, hunion.safetyDomains⟩
  show [_] ++ branch.leaves = _
  rw [hunion.leaves]
  rfl

/-- Every group below a node has a lock set. -/
theorem exists_groupLocks (h : R.check = .ok ()) (hn : R.find nodeId = some n) {roles : List Str}
    {p : PhysicalNode F} (hroute : Route R nodeId roles p) {group : ActuatorGroupSpec F}
    (hg : group ∈ p.groups) :
    ∃ locks, groupLocks R nodeId (joinPath (roles ++ [group.groupId])) = .ok locks ∧
      IsGroupLocks R n roles p group locks := by
  have hnamed : AllNamed R := (accepted_of_check h).named
  obtain ⟨fields, hfields⟩ := (accepted_of_check h).manifests n (List.mem_of_find?_eq_some hn)
  rw [nodeId_of_find hn] at hfields
  obtain ⟨branch, hbranch⟩ := collect_of_route hnamed hroute group.groupId hfields
  rw [← hroute.split_path hnamed hg] at hbranch
  refine ⟨_, ?_, isGroupLocks_of_collect hnamed hfields hn hroute hg hbranch⟩
  have htarget := (resolveGroup_eq_ok hnamed).2 ⟨roles, p, group, hroute, hg, rfl, rfl⟩
  simp only [groupLocks, htarget, Registry.describe, hfields, Except.map, bind, Except.bind, dictOf,
    plainMapping, hbranch]

/-- Only the role paths of groups have a lock set. -/
theorem groupLocks_eq_ok (h : R.check = .ok ()) (hn : R.find nodeId = some n) {path : Str}
    {locks : LockRequirements} (hl : groupLocks R nodeId path = .ok locks) :
    ∃ roles p group, Route R nodeId roles p ∧ group ∈ p.groups ∧
      IsGroupLocks R n roles p group locks := by
  have hnamed : AllNamed R := (accepted_of_check h).named
  simp only [groupLocks, bind_eq_ok, Registry.describe, map_eq_ok, Except.ok.injEq] at hl
  obtain ⟨target, htarget, _, ⟨fields, hfields, rfl⟩, _, hplain, branch, hbranch, rfl⟩ := hl
  cases hplain
  obtain ⟨roles, p, group, hroute, hg, rfl, rfl⟩ := (resolveGroup_eq_ok hnamed).1 htarget
  exact ⟨roles, p, group, hroute, hg, isGroupLocks_of_collect hnamed hfields hn hroute hg hbranch⟩

/-- A program that moves one group only has the lock set of the group's role path. -/
theorem lockRequirements_eq_groupLocks (h : R.check = .ok ()) {p : CompiledProgram F}
    {b : CompiledBody F} {locks : LockRequirements} {path : Str} (hb : Canonical R p b)
    (hlocks : lockRequirements R p = .ok locks)
    (hone : ∀ ph ∈ b.phases, ∀ s ∈ ph.sequences, s.rolePath = path)
    (hsome : ∃ ph ∈ b.phases, ∃ s ∈ ph.sequences, s.rolePath = path) :
    ∃ locks', groupLocks R b.rootId path = .ok locks' ∧
      (∀ x, x ∈ locks.leaves ↔ x ∈ locks'.leaves) ∧
      (∀ x, x ∈ locks.resources ↔ x ∈ locks'.resources) ∧
      ∀ x, x ∈ locks.safetyDomains ↔ x ∈ locks'.safetyDomains := by
  have hnamed : AllNamed R := (accepted_of_check h).named
  obtain ⟨ph₀, hph₀, s₀, hs₀, hpath₀⟩ := hsome
  obtain ⟨r, hr, -⟩ := hb.resolve hph₀ hs₀
  rw [hpath₀] at hr
  obtain ⟨roles, p', group, hroute, hgroup, rfl, rfl⟩ := (resolveGroup_eq_ok hnamed).1 hr
  obtain ⟨n, hn⟩ : ∃ n, R.find b.rootId = some n := by
    cases hroute with
    | here hn => exact ⟨_, hn⟩
    | child hn => exact ⟨_, hn⟩
  obtain ⟨locks', hlocks', his⟩ := exists_groupLocks h hn hroute hgroup
  have hunion := lockRequirements_isLockUnion hb hlocks
  have hmem : s₀ ∈ b.phases.flatMap fun ph => ph.sequences := List.mem_flatMap.2 ⟨ph₀, hph₀, hs₀⟩
  have hbranch : ∀ s ∈ b.phases.flatMap fun ph => ph.sequences,
      roleBranch R b.rootId s.rolePath = branchNodes R n (roles ++ [group.groupId]) ∧
        s.resolvedTarget = ⟨p'.nodeId, group.groupId⟩ := by
    intro s hs
    obtain ⟨ph, hph, hs⟩ := List.mem_flatMap.1 hs
    obtain ⟨r', hr', htarget⟩ := hb.resolve hph hs
    rw [hone ph hph s hs, hr] at hr'
    obtain rfl := Except.ok.inj hr'
    rw [roleBranch, hn, hone ph hph s hs, hroute.split_path hnamed hgroup]
    exact ⟨rfl, htarget⟩
  refine ⟨locks', hlocks', fun x => ?_, fun x => ?_, fun x => ?_⟩
  · rw [hunion.leaves, his.leaves, List.mem_singleton]
    constructor
    · rintro ⟨s, hs, rfl⟩
      rw [(hbranch s hs).2]
    · rintro rfl
      exact ⟨s₀, hmem, by rw [(hbranch s₀ hmem).2]⟩
  · rw [hunion.resources, his.resources]
    constructor
    · rintro ⟨s, hs, hx⟩
      rwa [(hbranch s hs).1] at hx
    · intro hx
      exact ⟨s₀, hmem, by rwa [(hbranch s₀ hmem).1]⟩
  · rw [hunion.safetyDomains, his.safetyDomains]
    constructor
    · rintro ⟨s, hs, hx⟩
      rwa [(hbranch s hs).1] at hx
    · intro hx
      exact ⟨s₀, hmem, by rwa [(hbranch s₀ hmem).1]⟩

end Locks

/-! ## The runs listed at a node -/

theorem intersects_iff {a b : List Str} : intersects a b = true ↔ ∃ x ∈ a, x ∈ b := by
  simp only [intersects, List.any_eq_true, List.contains_iff_mem]

section Listed

variable [Cbor F] [Sha256] [PyFloat F] [PyText F] {R : Registry F} {nodeId : Str}
  {n : ControlNode F}

omit [Cbor F] [Sha256] [PyFloat F] [PyText F] in
/-- The names of the leaves are those at the ends of the routes. -/
theorem mem_names_of_enumerates {pathPrefix : List Str} {leaves : List Leaf}
    (h : Enumerates R nodeId pathPrefix leaves) (hnamed : AllNamed R) {x : Str} :
    x ∈ leaves.map Leaf.name ↔ ∃ roles p group, Route R nodeId roles p ∧ group ∈ p.groups ∧
      p.nodeId ++ py "." ++ group.groupId = x := by
  obtain ⟨segmentss, -, hleaf, hcomplete⟩ := h
  constructor
  · intro hx
    obtain ⟨l, hl, rfl⟩ := List.mem_map.1 hx
    obtain ⟨_, -, roles, p, group, hroute, hg, -, -, hcanonical⟩ := hleaf.exists_of_mem_left hl
    exact ⟨roles, p, group, hroute, hg, by rw [Leaf.name, hcanonical]⟩
  · rintro ⟨roles, p, group, hroute, hg, rfl⟩
    obtain ⟨l, hl, roles', p', group', hroute', hg', hseg, -, hcanonical⟩ :=
      hleaf.exists_of_mem_right (hcomplete roles p group hroute hg)
    obtain ⟨rfl, hid⟩ := List.append_inj' hseg rfl
    obtain rfl := hroute.unique hnamed hroute'
    refine List.mem_map.2 ⟨l, hl, ?_⟩
    rw [Leaf.name, hcanonical, ← (List.singleton_inj.1 hid)]

/-- A run is listed at a node when its grant has a leaf below the node or something of the node. -/
theorem mem_occupyingRuns {m : LeaseManager} {manifests : Manifests F} {runs : List Str}
    (h : R.check = .ok ()) (hms : ManifestsOk R manifests) (hm : m.Inv)
    (hn : R.find nodeId = some n)
    (hruns : occupyingRuns manifests R.depth m.activeGrants nodeId = .ok runs) {r : Str} :
    r ∈ runs ↔ ∃ g, m.grantFor r = some g ∧ (HoldsLeaf R g nodeId ∨ HoldsOf g n) := by
  have hnamed : AllNamed R := (accepted_of_check h).named
  obtain ⟨leaves, hleaves⟩ := exists_leafPaths h hn
  rw [occupyingRuns_eq_ok hms hn hleaves] at hruns
  obtain rfl := Except.ok.inj hruns
  have henum := enumerates_leafPathsFrom hnamed hleaves
  have hoccupies : ∀ g : LeaseReceipt,
      occupies (leaves.map Leaf.name) n.resources n.safetyDomains g = true ↔
        HoldsLeaf R g nodeId ∨ HoldsOf g n := by
    intro g
    simp only [occupies, Bool.or_eq_true, intersects_iff, mem_names_of_enumerates henum hnamed, or_assoc]
    refine or_congr_left ⟨?_, ?_⟩
    · rintro ⟨_, ⟨roles, p, group, hroute, hg, rfl⟩, hx⟩
      exact ⟨roles, p, group, hroute, hg, hx⟩
    · rintro ⟨roles, p, group, hroute, hg, hx⟩
      exact ⟨_, ⟨roles, p, group, hroute, hg, rfl⟩, hx⟩
  rw [List.mem_insertionSort, List.mem_map]
  constructor
  · rintro ⟨g, hg, rfl⟩
    obtain ⟨hactive, hg⟩ := List.mem_filter.1 hg
    obtain ⟨r, hr⟩ := mem_activeGrants.1 hactive
    rw [hm.runId_eq r g hr]
    exact ⟨g, hr, (hoccupies g).1 hg⟩
  · rintro ⟨g, hr, hg⟩
    exact ⟨g, List.mem_filter.2 ⟨mem_activeGrants.2 ⟨r, hr⟩, (hoccupies g).2 hg⟩, hm.runId_eq r g hr⟩

end Listed

/-! ## The runs a new run can be refused for -/

section NewRuns

variable {m : LeaseManager} {runId r : Str}

/-- The conflicts of a new run are the requested targets in the grants of the others. -/
theorem exists_conflict_iff (hfresh : m.grantFor runId = none) (hm : m.Inv)
    {request : LeaseRequest} : (∃ t, (t, r) ∈ m.conflicts runId request) ↔
      ∃ g, m.grantFor r = some g ∧ ∃ t ∈ request.targets, t ∈ g.request.targets := by
  have hmem : ∀ t, (t, r) ∈ m.conflicts runId request ↔ t ∈ request.targets ∧ m.ownerOf t = some r := by
    intro t
    simp only [LeaseManager.conflicts, List.mem_filterMap]
    constructor
    · rintro ⟨t', ht', heq⟩
      split at heq
      · rename_i heldBy howner
        split_ifs at heq
        cases heq
        exact ⟨ht', howner⟩
      · cases heq
    · rintro ⟨ht, howner⟩
      refine ⟨t, ht, ?_⟩
      have hne : r ≠ runId := by
        rintro rfl
        obtain ⟨g, hg, -⟩ := (hm.owner_iff t r).1 howner
        rw [hfresh] at hg
        cases hg
      simp only [howner, if_neg hne]
  simp only [hmem, hm.owner_iff]
  exact ⟨fun ⟨t, ht, g, hg, hgt⟩ => ⟨g, hg, t, ht, hgt⟩, fun ⟨g, hg, t, ht, hgt⟩ => ⟨t, ht, g, hg, hgt⟩⟩

theorem exists_target_iff {g : LeaseReceipt} {locks : LockRequirements} {request : LeaseRequest}
    (h : LeaseRequest.make locks.leaves locks.resources locks.safetyDomains = .ok request) :
    (∃ t ∈ request.targets, t ∈ g.request.targets) ↔ SharesTarget g locks := by
  obtain rfl := LeaseRequest.make_eq_ok h
  constructor
  · rintro ⟨⟨kind, key⟩, ht, hg⟩
    cases kind with
    | leaf => exact .inl ⟨key, mem_sortedSet.1 (mem_targets_leaf.1 ht), mem_targets_leaf.1 hg⟩
    | resource =>
      exact .inr (.inl ⟨key, mem_sortedSet.1 (mem_targets_resource.1 ht), mem_targets_resource.1 hg⟩)
    | safetyDomain =>
      exact .inr (.inr
        ⟨key, mem_sortedSet.1 (mem_targets_safetyDomain.1 ht), mem_targets_safetyDomain.1 hg⟩)
  · rintro (⟨key, hkey, hg⟩ | ⟨key, hkey, hg⟩ | ⟨key, hkey, hg⟩)
    · exact ⟨_, mem_targets_leaf.2 (mem_sortedSet.2 hkey), mem_targets_leaf.2 hg⟩
    · exact ⟨_, mem_targets_resource.2 (mem_sortedSet.2 hkey), mem_targets_resource.2 hg⟩
    · exact ⟨_, mem_targets_safetyDomain.2 (mem_sortedSet.2 hkey), mem_targets_safetyDomain.2 hg⟩

/-- A new run is refused because of another when the lease manager takes all the keys and the other
run has one of them. -/
theorem refused_iff (hkey : canonicalKey runId = true) (hfresh : m.grantFor runId = none)
    (hm : m.Inv) (locks : LockRequirements) (ns : ℕ) :
    (∃ conflicts, (m.acquire runId locks.leaves locks.resources locks.safetyDomains ns).2 =
      .error (.conflict runId conflicts) ∧ ∃ c ∈ conflicts, c.2 = r) ↔
    AllCanonical locks ∧ ∃ g, m.grantFor r = some g ∧ SharesTarget g locks := by
  have howner : leaseRunId runId = .ok runId := if_pos hkey
  unfold LeaseManager.acquire
  rw [howner]
  obtain ⟨hall, request, hmake⟩ | ⟨label, key, hmem, hfalse, hmake⟩ :=
    LeaseRequest.make_cases locks.leaves locks.resources locks.safetyDomains
  · have hconflict : (∃ t, (t, r) ∈ m.conflicts runId request) ↔ _ := exists_conflict_iff hfresh hm
    simp only [exists_target_iff hmake] at hconflict
    simp only [hmake, hfresh, and_iff_right (show AllCanonical locks from hall), ← hconflict]
    constructor
    · rintro ⟨conflicts, hraised, c, hc, rfl⟩
      split_ifs at hraised
      cases hraised
      obtain ⟨⟨t, owner⟩, ht, rfl⟩ := List.mem_map.1 hc
      exact ⟨t, ht⟩
    · rintro ⟨t, ht⟩
      rw [if_pos (List.ne_nil_of_mem ht)]
      exact ⟨_, rfl, _, List.mem_map_of_mem ht, rfl⟩
  · rw [hmake]
    refine iff_of_false (fun ⟨_, hraised, _⟩ => by cases hraised) fun ⟨hall, _⟩ => ?_
    rw [hall key hmem] at hfalse
    cases hfalse

end NewRuns

/-! ## Listed, shared and refused -/

section Refused

variable [Cbor F] [Sha256] [PyFloat F] [PyText F] {R : Registry F} {nodeId : Str}
  {n : ControlNode F} {m : LeaseManager} {runId r : Str}

/-- The grant of the run has something of the lock set of some role path below the node. -/
def Shares (m : LeaseManager) (R : Registry F) (nodeId r : Str) : Prop :=
  ∃ g path locks, m.grantFor r = some g ∧ groupLocks R nodeId path = .ok locks ∧ SharesTarget g locks

/-- Some program with one group, rooted at the node, is refused because of the run. -/
def Refusable (m : LeaseManager) (R : Registry F) (runId nodeId r : Str) : Prop :=
  ∃ path locks ns conflicts, groupLocks R nodeId path = .ok locks ∧
    (m.acquire runId locks.leaves locks.resources locks.safetyDomains ns).2 =
      .error (.conflict runId conflicts) ∧ ∃ c ∈ conflicts, c.2 = r

/-- A lock set is shared through its leaf or through any node below. -/
theorem shares_iff (h : R.check = .ok ()) (hn : R.find nodeId = some n) :
    Shares m R nodeId r ↔ ∃ g roles p group, m.grantFor r = some g ∧ Route R nodeId roles p ∧
      group ∈ p.groups ∧ HoldsOn R g n roles p group := by
  constructor
  · rintro ⟨g, path, locks, hg, hlocks, hshare⟩
    obtain ⟨roles, p, group, hroute, hgroup, his⟩ := groupLocks_eq_ok h hn hlocks
    exact ⟨g, roles, p, group, hg, hroute, hgroup, (his.shares_iff g).1 hshare⟩
  · rintro ⟨g, roles, p, group, hg, hroute, hgroup, hholds⟩
    obtain ⟨locks, hlocks, his⟩ := exists_groupLocks h hn hroute hgroup
    exact ⟨g, _, locks, hg, hlocks, (his.shares_iff g).2 hholds⟩

/-- Along the role paths below a node lie its leaves and all nodes below. -/
theorem exists_holdsOn (h : R.check = .ok ()) (hn : R.find nodeId = some n) {g : LeaseReceipt} :
    (∃ roles p group, Route R nodeId roles p ∧ group ∈ p.groups ∧ HoldsOn R g n roles p group) ↔
      HoldsLeaf R g nodeId ∨ ∃ b, Below R nodeId b ∧ HoldsOf g b := by
  have hnamed : AllNamed R := (accepted_of_check h).named
  constructor
  · rintro ⟨roles, p, group, hroute, hgroup, hleaf | ⟨b, hb, hholds⟩⟩
    · exact .inl ⟨roles, p, group, hroute, hgroup, hleaf⟩
    · exact .inr ⟨b, below_of_mem_branchNodes hn hb, hholds⟩
  · rintro (⟨roles, p, group, hroute, hgroup, hleaf⟩ | ⟨b, hbelow, hholds⟩)
    · exact ⟨roles, p, group, hroute, hgroup, .inl hleaf⟩
    · obtain ⟨roles, p, hroute, hmem⟩ := exists_route_through h hbelow hn
      obtain ⟨group, hgroup⟩ := List.exists_mem_of_ne_nil _ (hroute.segments hnamed).2.1
      exact ⟨roles, p, group, hroute, hgroup, .inr ⟨b, hmem _, hholds⟩⟩

theorem refusable_iff (h : R.check = .ok ()) (hn : R.find nodeId = some n) (hm : m.Inv)
    (hkey : canonicalKey runId = true) (hfresh : m.grantFor runId = none) :
    Refusable m R runId nodeId r ↔ ∃ g roles p group, m.grantFor r = some g ∧
      Route R nodeId roles p ∧ group ∈ p.groups ∧ HoldsOn R g n roles p group ∧
        LeasableOn R n roles p group := by
  constructor
  · rintro ⟨path, locks, ns, conflicts, hlocks, hrefused⟩
    obtain ⟨roles, p, group, hroute, hgroup, his⟩ := groupLocks_eq_ok h hn hlocks
    obtain ⟨hall, g, hg, hshare⟩ := (refused_iff hkey hfresh hm locks ns).1 ⟨conflicts, hrefused⟩
    exact ⟨g, roles, p, group, hg, hroute, hgroup, (his.shares_iff g).1 hshare,
      his.allCanonical_iff.1 hall⟩
  · rintro ⟨g, roles, p, group, hg, hroute, hgroup, hholds, hleasable⟩
    obtain ⟨locks, hlocks, his⟩ := exists_groupLocks h hn hroute hgroup
    obtain ⟨conflicts, hrefused⟩ := (refused_iff hkey hfresh hm locks 0).2
      ⟨his.allCanonical_iff.2 hleasable, g, hg, (his.shares_iff g).2 hholds⟩
    exact ⟨_, locks, 0, conflicts, hlocks, hrefused⟩

/-- What the grant has of the nodes below the node does not stay unseen: it also has something of the
node itself or a leaf below it. -/
def HeldVisibly (R : Registry F) (g : LeaseReceipt) (nodeId : Str) (n : ControlNode F) : Prop :=
  ∀ b, Below R nodeId b → HoldsOf g b → HoldsLeaf R g nodeId ∨ HoldsOf g n

/-- A grant with something on a role path below the node has something on one for which a lease can be
asked. -/
def HeldLeasably (R : Registry F) (g : LeaseReceipt) (nodeId : Str) (n : ControlNode F) : Prop :=
  ∀ roles p group, Route R nodeId roles p → group ∈ p.groups → HoldsOn R g n roles p group →
    ∃ roles' p' group', Route R nodeId roles' p' ∧ group' ∈ p'.groups ∧
      HoldsOn R g n roles' p' group' ∧ LeasableOn R n roles' p' group'

end Refused

section Built

variable {σ : Type} [Cbor F] [Sha256] [PyFloat F] [PyText F]

/-- The runs a node record lists are those that occupy the node. -/
theorem exists_occupyingRuns {o : Observed F σ} {workerStates : Str → Option (Poll F)}
    {now : Str → Instant} {state : OperationsState F} (hR : o.registry.check = .ok ())
    (hb : buildState o workerStates now = .ok state) {node : NodeRecord F}
    (hnode : node ∈ state.nodes) : ∃ manifests, ManifestsOk o.registry manifests ∧
      occupyingRuns manifests o.registry.depth o.leaseManager.activeGrants node.nodeId =
        .ok node.occupiedBy := by
  obtain ⟨manifests, hmanifests, hms⟩ := manifestsOf_eq_ok hR
  simp only [buildState, bind_eq_ok, mapError_eq_ok, hmanifests, Except.ok.injEq,
    exists_eq_left'] at hb
  obtain ⟨_, -, nodes, hnodes, rfl⟩ := hb
  obtain ⟨nodeId, -, hrecord⟩ := (mapM_eq_ok.1 hnodes).exists_of_mem_right hnode
  simp only [nodeRecord, bind_eq_ok] at hrecord
  obtain ⟨_, -, occupiedBy, hoccupied, _, -, _, -, hrecord⟩ := hrecord
  obtain rfl := Except.ok.inj hrecord
  exact ⟨manifests, hms, hoccupied⟩

/-- A node lists a run exactly when the run's grant shares something with the lock set of a role path
below the node, and exactly then a new run can be refused because of it, if and only if the grant is
visible at the node and, when it has something below, has something that can be asked for. -/
theorem occupied_iff {o : Observed F σ} {workerStates : Str → Option (Poll F)}
    {now : Str → Instant} {state : OperationsState F} (hR : o.registry.check = .ok ())
    (hm : Leased o.leaseManager) (hb : buildState o workerStates now = .ok state)
    {node : NodeRecord F} (hnode : node ∈ state.nodes) {n : ControlNode F}
    (hn : o.registry.find node.nodeId = some n) {runId : Str} (hkey : canonicalKey runId = true)
    (hfresh : o.leaseManager.grantFor runId = none) (r : Str) :
    ((r ∈ node.occupiedBy ↔ Shares o.leaseManager o.registry node.nodeId r) ∧
      (Shares o.leaseManager o.registry node.nodeId r ↔
        Refusable o.leaseManager o.registry runId node.nodeId r)) ↔
    ∀ g, o.leaseManager.grantFor r = some g →
      HeldVisibly o.registry g node.nodeId n ∧ HeldLeasably o.registry g node.nodeId n := by
  obtain ⟨manifests, hms, hruns⟩ := exists_occupyingRuns hR hb hnode
  rw [mem_occupyingRuns hR hms hm.inv hn hruns, shares_iff hR hn,
    refusable_iff hR hn hm.inv hkey hfresh]
  constructor
  · rintro ⟨hlisted, hrefused⟩ g hg
    constructor
    · intro b hbelow hholds
      obtain ⟨roles, p, group, h⟩ := (exists_holdsOn hR hn).2 (.inr ⟨b, hbelow, hholds⟩)
      obtain ⟨g', hg', h⟩ := hlisted.2 ⟨g, roles, p, group, hg, h⟩
      obtain rfl := Option.some.inj (hg.symm.trans hg')
      exact h
    · intro roles p group hroute hgroup hholds
      obtain ⟨g', roles', p', group', hg', h⟩ :=
        hrefused.1 ⟨g, roles, p, group, hg, hroute, hgroup, hholds⟩
      obtain rfl := Option.some.inj (hg.symm.trans hg')
      exact ⟨roles', p', group', h⟩
  · intro hheld
    refine ⟨⟨?_, ?_⟩, ⟨?_, ?_⟩⟩
    · rintro ⟨g, hg, h⟩
      have hshared : HoldsLeaf o.registry g node.nodeId ∨
          ∃ b, Below o.registry node.nodeId b ∧ HoldsOf g b :=
        h.imp_right fun hholds => ⟨n, .here hn, hholds⟩
      obtain ⟨roles, p, group, h⟩ := (exists_holdsOn hR hn).2 hshared
      exact ⟨g, roles, p, group, hg, h⟩
    · rintro ⟨g, roles, p, group, hg, h⟩
      obtain hleaf | ⟨b, hbelow, hholds⟩ := (exists_holdsOn hR hn).1 ⟨roles, p, group, h⟩
      · exact ⟨g, hg, .inl hleaf⟩
      · exact ⟨g, hg, (hheld g hg).1 b hbelow hholds⟩
    · rintro ⟨g, roles, p, group, hg, hroute, hgroup, hholds⟩
      obtain ⟨roles', p', group', h⟩ := (hheld g hg).2 roles p group hroute hgroup hholds
      exact ⟨g, roles', p', group', hg, h⟩
    · rintro ⟨g, roles, p, group, hg, hroute, hgroup, hholds, -⟩
      exact ⟨g, roles, p, group, hg, hroute, hgroup, hholds⟩

end Built

/-! ### Two robots at one bench -/

section Demo

local instance occupancyHash : Sha256 := demoHash

/-- The demo robot at a bench. -/
def benchRobot : PhysicalNode ℚ := { demoRobot with resources := [py "bench"] }

/-- Another robot needs the bench; a cell stands over the other one. -/
def benchRegistry : Registry ℚ :=
  { demoRegistry with nodes := [.physical benchRobot,
      .physical { benchRobot with nodeId := py "right", groups := [demoGroup "arm" "base"] },
      .composite { nodeId := py "cell", revision := 1, exposedAsRunRoot := true
                   children := [⟨py "right", py "right", false⟩] }] }

theorem benchRegistry_accepted : benchRegistry.check = .ok () := by
  have hok : benchRegistry.check.isOk = true := by decide +kernel
  obtain ⟨_, h⟩ := exists_of_isOk hok
  exact h

/-- The run moves the arm of the demo robot. -/
def benchLocks : LockRequirements := ⟨[py "demo_robot.arm"], [py "bench"], []⟩

theorem lockRequirements_benchLocks : ∃ program checked : CompiledProgram ℚ,
    preflight benchRegistry (py "example_operator") program = .ok checked ∧
      lockRequirements benchRegistry checked = .ok benchLocks := by
  have hsome : (askedLocks benchRegistry).toOption.any (fun r => decide (r.2 = benchLocks)) =
      true := by decide +kernel
  obtain ⟨⟨checked, locks⟩, hr, h⟩ := (Option.any_eq_true _ _).1 hsome
  obtain rfl : locks = benchLocks := of_decide_eq_true h
  have hasked := toOption_eq_some.1 hr
  simp only [askedLocks, bind_eq_ok] at hasked
  obtain ⟨program, -, checked', hchecked, locks, hlocks, he⟩ := hasked
  obtain ⟨rfl, rfl⟩ := Prod.mk.inj (Except.ok.inj he)
  exact ⟨program, checked', hchecked, hlocks⟩

def benchServer : Observed ℚ Unit where
  registry := benchRegistry
  leaseManager := (({} : LeaseManager).acquire (py "run") benchLocks.leaves benchLocks.resources
    benchLocks.safetyDomains 7).1
  journal := { store := () }
  executionAvailable := true
  recentRuns := 24
  recentEvents := 80

theorem exists_benchNode (nodeId : String) (listed : Bool) (h : (buildState benchServer
    (fun _ => none) (fun _ => ⟨9, 9⟩)).toOption.any (fun state => state.nodes.any fun node =>
      node.nodeId == py nodeId && node.occupiedBy.contains (py "run") == listed) = true) :
    ∃ state, buildState benchServer (fun _ => none) (fun _ => ⟨9, 9⟩) = .ok state ∧
      ∃ node ∈ state.nodes, node.nodeId = py nodeId ∧
        node.occupiedBy.contains (py "run") = listed := by
  obtain ⟨state, hstate, h⟩ := (Option.any_eq_true _ _).1 h
  obtain ⟨node, hnode, h⟩ := List.any_eq_true.1 h
  rw [Bool.and_eq_true, beq_iff_eq, beq_iff_eq] at h
  exact ⟨state, toOption_eq_some.1 hstate, node, hnode, h⟩

/-- The robot that moves lists the run. -/
theorem occupied_moving : ∃ state node, buildState benchServer (fun _ => none) (fun _ => ⟨9, 9⟩) =
      .ok state ∧ node ∈ state.nodes ∧ node.nodeId = py "demo_robot" ∧
    ((py "run" ∈ node.occupiedBy ↔
        Shares benchServer.leaseManager benchRegistry node.nodeId (py "run")) ∧
      (Shares benchServer.leaseManager benchRegistry node.nodeId (py "run") ↔
        Refusable benchServer.leaseManager benchRegistry (py "new") node.nodeId (py "run"))) := by
  obtain ⟨state, hstate, node, hnode, hid, -⟩ := exists_benchNode "demo_robot" true (by decide +kernel)
  have hfind : benchServer.registry.find node.nodeId = some (.physical benchRobot) := by
    rw [hid]
    rfl
  refine ⟨state, node, hstate, hnode, hid, ?_⟩
  refine (occupied_iff (o := benchServer) benchRegistry_accepted (Leased.created.acquired _ _ _ _ _)
    hstate hnode hfind (by decide +kernel) (by decide +kernel) (py "run")).2 fun g _ => ⟨?_, ?_⟩
  · intro b hbelow hholds
    cases hbelow with
    | here hb =>
      obtain rfl := Option.some.inj (hfind.symm.trans hb)
      exact .inr hholds
    | child hb => cases hfind.symm.trans hb
  · intro roles p group hroute hgroup hholds
    refine ⟨roles, p, group, hroute, hgroup, hholds, ?_⟩
    cases hroute with
    | here hp =>
      obtain rfl := ControlNode.physical.inj (Option.some.inj (hfind.symm.trans hp))
      have hleasable : ∀ group ∈ benchRobot.groups,
          canonicalKey (benchRobot.nodeId ++ py "." ++ group.groupId) = true := by decide +kernel
      refine ⟨hleasable group hgroup, fun b hb key hkey => ?_⟩
      obtain rfl := List.mem_singleton.1 hb
      obtain rfl := List.mem_singleton.1 hkey
      decide +kernel
    | child hc => cases hfind.symm.trans hc

/-- The cell lists no run, but a program for the robot below it is refused because of the bench. -/
theorem occupied_counterexample : (∃ program checked : CompiledProgram ℚ,
      preflight benchRegistry (py "example_operator") program = .ok checked ∧
        lockRequirements benchRegistry checked = .ok benchLocks) ∧ ∃ state node,
    buildState benchServer (fun _ => none) (fun _ => ⟨9, 9⟩) = .ok state ∧ node ∈ state.nodes ∧
    node.nodeId = py "cell" ∧ py "run" ∉ node.occupiedBy ∧
    Shares benchServer.leaseManager benchRegistry node.nodeId (py "run") ∧
    Refusable benchServer.leaseManager benchRegistry (py "new") node.nodeId (py "run") := by
  obtain ⟨state, hstate, node, hnode, hid, hlisted⟩ := exists_benchNode "cell" false (by decide +kernel)
  have hlocks : (groupLocks benchRegistry (py "cell") (py "right.arm")).toOption.any (fun locks =>
      decide (py "bench" ∈ locks.resources) && decide ((benchServer.leaseManager.acquire (py "new")
        locks.leaves locks.resources locks.safetyDomains 8).2 =
          .error (.conflict (py "new") [((LeaseKind.resource.name, py "bench"), py "run")]))) =
      true := by decide +kernel
  have hgrant : (benchServer.leaseManager.grantFor (py "run")).any (fun g =>
      decide (py "bench" ∈ g.request.resourceKeys)) = true := by decide +kernel
  obtain ⟨locks, hlocks, h⟩ := (Option.any_eq_true _ _).1 hlocks
  obtain ⟨g, hg, hbench⟩ := (Option.any_eq_true _ _).1 hgrant
  rw [Bool.and_eq_true, decide_eq_true_iff, decide_eq_true_iff] at h
  refine ⟨lockRequirements_benchLocks, state, node, hstate, hnode, hid, fun hmem => ?_, ?_, ?_⟩
  · rw [List.contains_iff_mem.2 hmem] at hlisted
    cases hlisted
  · rw [hid]
    exact ⟨g, _, locks, hg, toOption_eq_some.1 hlocks,
      .inr (.inl ⟨_, h.1, of_decide_eq_true hbench⟩)⟩
  · rw [hid]
    exact ⟨_, locks, 8, _, toOption_eq_some.1 hlocks, h.2, _, List.mem_singleton.2 rfl, rfl⟩

end Demo

end RemoteRobot.Operations
