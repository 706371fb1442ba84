import RemoteRobot.Orchestrator.Preflight
import RemoteRobot.Program.Canonical
import RemoteRobot.Routes

/-!
# The lock set covers the plans

The orchestrator authorises the role paths of the phase payloads, locks what the outline names and
plans what the payloads name.  For a program that passed `preflight` all three are those of one
typed body: every track of a plan is one of its sequences, its group is locked, the resources and
safety domains of every node on its role branch are locked, and its role path is authorised.
-/

namespace RemoteRobot

open Py Except

variable {F : Type}

/-! ## Nodes on a role branch -/

/-- The nodes a role path passes through, starting from `n`. -/
def branchNodes (R : Registry F) : ControlNode F → List Str → List (ControlNode F)
  | .physical p, _ => [.physical p]
  | .composite c, [] => [.composite c]
  | .composite c, role :: segments =>
    .composite c :: match (c.child role).bind fun child => R.find child.nodeId with
      | some next => branchNodes R next segments
      | none => []

def roleBranch (R : Registry F) (rootId rolePath : Str) : List (ControlNode F) :=
  match R.find rootId with
  | some root => branchNodes R root (split 46 rolePath)
  | none => []

/-! ## Manifests -/

theorem stringList_strList (xs : List Str) (label : String) :
    stringList (strList xs : Val F) label = .ok xs := by
  have hall : allStr (xs.map Val.str : List (Val F)) = some xs := by
    induction xs with
    | nil => rfl
    | cons x xs ih => rw [List.map_cons, allStr, ih]; rfl
  simp only [stringList, strList, hall]

/-! ### The fields the lock walk reads -/

section Fields

variable {R : Registry F} {n : ControlNode F} {rest : List (String × Val F)}

theorem lookup_resources :
    lookup (py "resources") (entries (R.commonManifest n ++ rest)) =
      some (strList n.resources) := by
  simp [Registry.commonManifest]

theorem lookup_safetyDomains :
    lookup (py "safety_domains") (entries (R.commonManifest n ++ rest)) =
      some (strList n.safetyDomains) := by
  simp [Registry.commonManifest]

theorem lookup_kind :
    lookup (py "kind") (entries (R.commonManifest n ++ rest)) = some (.str n.kind) := by
  simp [Registry.commonManifest]

theorem lookup_nodeId :
    lookup (py "node_id") (entries (R.commonManifest n ++ rest)) = some (.str n.nodeId) := by
  simp [Registry.commonManifest]

theorem manifestLocks_common :
    manifestLocks (entries (R.commonManifest n ++ rest)) =
      .ok ⟨[], n.resources, n.safetyDomains⟩ := by
  unfold manifestLocks
  rw [lookup_resources, lookup_safetyDomains, Option.getD_some, Option.getD_some,
    stringList_strList, stringList_strList]
  rfl

theorem lookup_children {c : CompositeNode} {children : List (Val F)}
    {physical : List (PhysicalNode F)} :
    lookup (py "children") (entries (R.commonManifest (.composite c) ++
      (Registry.compositeManifest c children physical ++ rest))) = some (.list children) := by
  simp [Registry.commonManifest, Registry.compositeManifest]

end Fields

/-- The one item a filter keeps belongs to the first source item that passes. -/
theorem find?_of_filter {α β : Type} {P : α → β → Prop} {f : α → Bool} {g : β → Bool}
    {xs : List α} {ys : List β} {y : β} (h : List.Forall₂ P xs ys)
    (hfg : ∀ x y, P x y → g y = f x) (hy : ys.filter g = [y]) :
    ∃ x, xs.find? f = some x ∧ P x y := by
  induction h with
  | nil => cases hy
  | cons hxy hrest ih =>
    rename_i x y' xs ys
    rw [List.filter_cons, hfg _ _ hxy] at hy
    rw [List.find?_cons]
    cases hf : f x with
    | true =>
      rw [hf, if_pos rfl, List.cons.injEq] at hy
      obtain ⟨rfl, -⟩ := hy
      exact ⟨x, rfl, hxy⟩
    | false =>
      rw [hf, if_neg Bool.false_ne_true] at hy
      exact ih hy

theorem childManifest_eq_ok {child : ChildRef} {m : List (String × Val F)} {v : Val F}
    (h : Registry.childManifest child m = (.ok v : Except (Error F) (Val F))) :
    ∃ e, v = .dict e ∧ field "role" e = .str child.role ∧ field "manifest" e = dictOf m := by
  simp only [Registry.childManifest, bind_eq_ok] at h
  obtain ⟨hash, -, h⟩ := h
  cases h
  exact ⟨_, rfl, by simp [field], by simp [field]⟩

/-! ## Lock sets -/

/-- Every lock of the first set is in the second. -/
structure LockRequirements.Sub (a b : LockRequirements) : Prop where
  leaves : a.leaves ⊆ b.leaves
  resources : a.resources ⊆ b.resources
  safetyDomains : a.safetyDomains ⊆ b.safetyDomains

theorem LockRequirements.Sub.trans {a b c : LockRequirements} (h : a.Sub b) (h' : b.Sub c) :
    a.Sub c :=
  ⟨fun _ hx => h'.leaves (h.leaves hx), fun _ hx => h'.resources (h.resources hx),
    fun _ hx => h'.safetyDomains (h.safetyDomains hx)⟩

theorem LockRequirements.sub_union_left (a b : LockRequirements) : a.Sub (a.union b) :=
  ⟨fun _ => List.mem_append_left _, fun _ => List.mem_append_left _,
    fun _ => List.mem_append_left _⟩

theorem LockRequirements.sub_union_right (a b : LockRequirements) : b.Sub (a.union b) :=
  ⟨fun _ => List.mem_append_right _, fun _ => List.mem_append_right _,
    fun _ => List.mem_append_right _⟩

theorem sub_unionLocks {a : LockRequirements} {locks : List LockRequirements} (h : a ∈ locks) :
    a.Sub (unionLocks locks) := by
  induction locks with
  | nil => cases h
  | cons b locks ih =>
    rcases List.mem_cons.1 h with rfl | h
    · exact LockRequirements.sub_union_left _ _
    · exact (ih h).trans (LockRequirements.sub_union_right _ _)

/-- The locks hold every resource and safety domain of the node. -/
structure Covers (locks : LockRequirements) (n : ControlNode F) : Prop where
  resources : n.resources ⊆ locks.resources
  safetyDomains : n.safetyDomains ⊆ locks.safetyDomains

theorem Covers.mono {a b : LockRequirements} {n : ControlNode F} (h : Covers a n) (hab : a.Sub b) :
    Covers b n :=
  ⟨fun _ hx => hab.resources (h.resources hx), fun _ hx => hab.safetyDomains (h.safetyDomains hx)⟩

theorem covers_own (n : ControlNode F) : Covers ⟨[], n.resources, n.safetyDomains⟩ n :=
  ⟨fun _ h => h, fun _ h => h⟩

section Equal

variable [PyFloat F]

/-! ## Reading the values of a canonical program -/

theorem equal_target {t : ResolvedTarget} {v : Val F} (h : Equal t.toVal v) :
    ∃ d, v = .dict d ∧ field "physical_node_id" d = .str t.physicalNodeId ∧
      field "group_id" d = .str t.groupId := by
  obtain ⟨d, rfl, hf⟩ := h.dict
  exact ⟨d, rfl, (hf _ (.str t.physicalNodeId) (by simp)).2.str,
    (hf _ (.str t.groupId) (by simp)).2.str⟩

/-- What the orchestrator reads of a sequence. -/
theorem equal_sequence {s : HashedSequence F} {v : Val F} (h : Equal s.toVal v) :
    ∃ d t, v = .dict d ∧ field "role_path" d = .str s.rolePath ∧
      lookup (py "resolved_target") d = some (.dict t) ∧
      field "physical_node_id" t = .str s.resolvedTarget.physicalNodeId ∧
      field "group_id" t = .str s.resolvedTarget.groupId := by
  obtain ⟨d, rfl, hf⟩ := h.dict
  have hrole := (hf "role_path" (.str s.rolePath) (by simp [CompiledSequence.fields])).2.str
  obtain ⟨hl, ht⟩ := hf "resolved_target" s.resolvedTarget.toVal (by simp [CompiledSequence.fields])
  obtain ⟨t, ht, hp, hg⟩ := equal_target ht
  rw [ht] at hl
  exact ⟨d, t, rfl, hrole, hl, hp, hg⟩

/-- What the orchestrator reads of an outline sequence. -/
theorem equal_outlineSequence {s : HashedSequence F} {v : Val F} (h : Equal s.outline v) :
    ∃ d t, v = .dict d ∧ field "role_path" d = .str s.rolePath ∧
      field "resolved_target" d = .dict t ∧
      field "physical_node_id" t = .str s.resolvedTarget.physicalNodeId ∧
      field "group_id" t = .str s.resolvedTarget.groupId := by
  obtain ⟨d, rfl, hf⟩ := h.dict
  have hrole := (hf "role_path" (.str s.rolePath) (by simp)).2.str
  obtain ⟨t, ht, hp, hg⟩ := equal_target (hf "resolved_target" s.resolvedTarget.toVal (by simp)).2
  exact ⟨d, t, rfl, hrole, ht, hp, hg⟩

theorem equal_phase {p : HashedPhase F} {v : Val F} (h : Equal p.toVal v) :
    ∃ d vs, v = .dict d ∧ lookup (py "sequences") d = some (.list vs) ∧
      List.Forall₂ (fun (s : HashedSequence F) v => Equal s.toVal v) p.sequences vs := by
  obtain ⟨d, rfl, hf⟩ := h.dict
  obtain ⟨hl, hs⟩ := hf "sequences" (.list (p.sequences.map HashedSequence.toVal))
    (by simp [CompiledPhase.fields])
  obtain ⟨vs, hvs, hall⟩ := hs.list
  rw [hvs] at hl
  exact ⟨d, vs, rfl, hl, hall⟩

theorem equal_outlinePhase {p : HashedPhase F} {v : Val F} (h : Equal p.outline v) :
    ∃ d vs, v = .dict d ∧ field "sequences" d = .list vs ∧
      List.Forall₂ (fun (s : HashedSequence F) v => Equal s.outline v) p.sequences vs := by
  obtain ⟨d, rfl, hf⟩ := h.dict
  obtain ⟨vs, hvs, hall⟩ :=
    (hf "sequences" (.list (p.sequences.map HashedSequence.outline)) (by simp)).2.list
  exact ⟨d, vs, rfl, hvs, hall⟩

/-! ## Authorised role paths -/

theorem phaseRolePaths_eq {p : HashedPhase F} {v : Val F} {paths : List Str}
    (h : Equal p.toVal v) (hp : phaseRolePaths v = .ok paths) :
    ∀ s ∈ p.sequences, s.rolePath ∈ paths := by
  obtain ⟨d, vs, rfl, hl, hall⟩ := equal_phase h
  unfold phaseRolePaths at hp
  simp only [bind_eq_ok, raiseWhen_eq_ok, exists_unit, liftExc_eq_ok,
    phaseRolePaths.phaseSequences, hl, Option.getD_some] at hp
  obtain ⟨-, -, -, -, -, -, w, hw, ws, hws, hmap⟩ := hp
  cases hw
  cases hws
  intro s hs
  obtain ⟨v, hv, he⟩ := hall.exists_of_mem_left hs
  obtain ⟨path, hpath, hr⟩ := (mapM_eq_ok.1 hmap).exists_of_mem_left hv
  obtain ⟨e, t, rfl, hrole, -⟩ := equal_sequence he
  simp only [sequenceRolePath, bind_eq_ok, plainMapping] at hr
  obtain ⟨_, he, hr⟩ := hr
  cases he
  rw [hrole] at hr
  rw [Except.ok.inj hr]
  exact hpath

/-! ## The lock walk follows the registry -/

/-- A physical manifest ends the walk. -/
theorem collect_physical {R : Registry F} {expected : Str} {p : PhysicalNode F}
    {rest : List (String × Val F)} {segments : List Str} {locks : LockRequirements} :
    collectRoleBranchLocks expected (entries (R.commonManifest (.physical p) ++ rest)) segments =
      .ok locks ↔ p.nodeId = expected ∧ segments.length = 1 ∧
        locks = ⟨[], p.resources, p.safetyDomains⟩ := by
  have hkind : Val.eq (field "kind" (entries (R.commonManifest (.physical p) ++ rest)))
      (.str (py "physical")) = true := by
    rw [field, lookup_kind]
    simp [ControlNode.kind, Val.eq]
  have hnode : Val.eq (field "node_id" (entries (R.commonManifest (.physical p) ++ rest)))
      (.str expected) = decide (p.nodeId = expected) := by
    rw [field, lookup_nodeId]
    simp [ControlNode.nodeId, Val.eq, Bool.beq_eq_decide_eq]
  unfold collectRoleBranchLocks
  rw [manifestLocks_common]
  simp only [bind_eq_ok, Except.ok.injEq, exists_eq_left']
  rw [if_pos hkind, hnode]
  by_cases hmatch : p.nodeId = expected ∧ segments.length = 1
  · rw [if_pos (by simpa using hmatch), Except.ok.injEq]
    exact ⟨fun h => ⟨hmatch.1, hmatch.2, h.symm⟩, fun h => h.2.2.symm⟩
  · rw [if_neg (by simpa using hmatch)]
    constructor
    · intro h
      cases h
    · intro h
      exact absurd ⟨h.1, h.2.1⟩ hmatch

/-- A composite manifest is walked through the child with the first role; there is a second one. -/
theorem collect_composite {R : Registry F} {expected : Str} {c : CompositeNode}
    {rest : List (String × Val F)} {segments : List Str} {locks : LockRequirements} :
    collectRoleBranchLocks expected (entries (R.commonManifest (.composite c) ++ rest)) segments =
      .ok locks ↔ ∃ role next tail child below, segments = role :: next :: tail ∧
        childManifestOf role (entries (R.commonManifest (.composite c) ++ rest)) = .ok child ∧
        collectRoleBranchLocks expected child (next :: tail) = .ok below ∧
        locks = LockRequirements.union ⟨[], c.resources, c.safetyDomains⟩ below := by
  have hkind : field "kind" (entries (R.commonManifest (.composite c) ++ rest)) =
      .str (py "composite") := by
    rw [field, lookup_kind]
    rfl
  conv_lhs => unfold collectRoleBranchLocks
  rw [manifestLocks_common]
  simp only [bind_eq_ok, Except.ok.injEq, exists_eq_left']
  rw [hkind, if_neg (by simp [Val.eq]), if_pos (by simp [Val.eq])]
  constructor
  · intro h
    split at h
    · simp only [bind_eq_ok] at h
      obtain ⟨child, hchild, below, hbelow, h⟩ := h
      exact ⟨_, _, _, child, below, rfl, hchild, hbelow, (Except.ok.inj h).symm⟩
    · cases h
  · rintro ⟨role, next, tail, child, below, rfl, hchild, hbelow, rfl⟩
    simp only [bind_eq_ok]
    exact ⟨child, hchild, below, hbelow, rfl⟩

end Equal

theorem requireControl_eq_ok {R : Registry F} {identityId rootId : Str} {paths : List Str}
    (h : requireControl R identityId rootId paths = .ok ()) :
    ∃ identity, R.identity identityId = .ok identity ∧
      ∀ path ∈ paths, identity.canControl rootId path = true := by
  unfold requireControl at h
  split at h
  · cases h
  · rename_i identity hid
    rw [raiseWhen_eq_ok, not_not, deniedPaths, List.filter_eq_nil_iff] at h
    refine ⟨identity, hid, fun path hpath => ?_⟩
    simpa using h path (mem_sortedSet.2 hpath)

section Agreement

variable [Cbor F] [Sha256] [PyFloat F] [PyText F]

/-- The program passed `preflight`, with its typed body. -/
structure Preflighted (R : Registry F) (identityId : Str) (p : CompiledProgram F)
    (b : CompiledBody F) : Prop where
  canonical : Canonical R p b
  authorised : ∃ identity, R.identity identityId = .ok identity ∧
    ∀ ph ∈ b.phases, ∀ s ∈ ph.sequences, identity.canControl b.rootId s.rolePath = true

theorem preflighted_of_preflight {R : Registry F} {identityId : Str}
    {program checked : CompiledProgram F} (h : preflight R identityId program = .ok checked) :
    ∃ b, Preflighted R identityId checked b := by
  unfold preflight at h
  simp only [bind_eq_ok, exists_unit] at h
  obtain ⟨-, -, checked, -, hv, vs, hvs, paths, hpaths, rootId, hroot, hctl, h⟩ := h
  cases h
  obtain ⟨b, hb⟩ := canonical_of_validate hv
  obtain ⟨vs', hvs', hall⟩ := hb.phases
  rw [hvs] at hvs'
  cases hvs'
  rw [hb.rootId] at hroot
  cases hroot
  obtain ⟨identity, hid, hcan⟩ := requireControl_eq_ok hctl
  refine ⟨b, hb, identity, hid, fun ph hph s hs => hcan _ ?_⟩
  obtain ⟨v, hv, he⟩ := hall.exists_of_mem_left hph
  obtain ⟨ps, hps, hr⟩ := (mapM_eq_ok.1 hpaths).exists_of_mem_left hv
  exact List.mem_flatten.2 ⟨ps, hps, phaseRolePaths_eq he hr s hs⟩

/-! ## Manifests below a composite -/

omit [PyText F] in
/-- The manifest below a composite is the manifest of the child with the role. -/
theorem childManifestOf_eq_ok {R : Registry F} {d : ℕ} {c : CompositeNode} {children : List (Val F)}
    {physical : List (PhysicalNode F)} {rest : List (String × Val F)} {role : Str} {child : Dict F}
    (hc : List.Forall₂ (fun (child : ChildRef) v => ∃ m, R.manifestFrom d child.nodeId = .ok m ∧
      Registry.childManifest child m = (.ok v : Except (Error F) (Val F))) c.children children)
    (h : childManifestOf role (entries (R.commonManifest (.composite c) ++
      (Registry.compositeManifest c children physical ++ rest))) = .ok child) :
    ∃ ref m, c.child role = some ref ∧ R.manifestFrom d ref.nodeId = .ok m ∧ child = entries m := by
  have hfield : field "children" (entries (R.commonManifest (.composite c) ++
      (Registry.compositeManifest c children physical ++ rest))) = .list children := by
    unfold field
    rw [lookup_children]
    rfl
  unfold childManifestOf at h
  rw [hfield] at h
  simp only at h
  split at h
  · rename_i e he
    have hrole : ∀ (ref : ChildRef) (v : Val F), (∃ m, R.manifestFrom d ref.nodeId = .ok m ∧
        Registry.childManifest ref m = (.ok v : Except (Error F) (Val F))) →
        hasRole role v = decide (ref.role = role) := by
      rintro ref v ⟨m, -, hv⟩
      obtain ⟨e, rfl, hr, -⟩ := childManifest_eq_ok hv
      simp [hasRole, hr, Val.eq, Bool.beq_eq_decide_eq]
    obtain ⟨ref, href, m, hm, hv⟩ := find?_of_filter hc hrole he
    obtain ⟨_, he', -, hmanifest⟩ := childManifest_eq_ok hv
    cases he'
    rw [hmanifest] at h
    exact ⟨ref, m, href, hm, (Except.ok.inj h).symm⟩
  · cases h

omit [PyText F] in
/-- The walk over the manifest of a node collects the locks of the nodes the registry passes
through. -/
theorem covers_of_collect {R : Registry F} {expected : Str} {segments : List Str} {d : ℕ}
    {nodeId : Str} {n : ControlNode F} {fields : List (String × Val F)} {locks : LockRequirements}
    (hm : R.manifestFrom d nodeId = .ok fields) (hn : R.find nodeId = some n)
    (hl : collectRoleBranchLocks expected (entries fields) segments = .ok locks) :
    ∀ m ∈ branchNodes R n segments, Covers locks m := by
  induction segments generalizing d nodeId n fields locks with
  | nil =>
    obtain ⟨e, n', own, hash, rfl, hn', hown, rfl, -⟩ := manifestFrom_eq_ok hm
    rw [hn] at hn'
    cases hn'
    rw [List.append_assoc] at hl
    cases n with
    | physical p =>
      obtain ⟨-, -, hlocks⟩ := collect_physical.1 hl
      intro m hmem
      rw [branchNodes, List.mem_singleton] at hmem
      rw [hmem, hlocks]
      exact covers_own (.physical p)
    | composite c =>
      obtain ⟨_, _, _, _, _, hnil, -⟩ := collect_composite.1 hl
      cases hnil
  | cons role segments ih =>
    obtain ⟨e, n', own, hash, rfl, hn', hown, rfl, -⟩ := manifestFrom_eq_ok hm
    rw [hn] at hn'
    cases hn'
    rw [List.append_assoc] at hl
    cases n with
    | physical p =>
      obtain ⟨-, -, hlocks⟩ := collect_physical.1 hl
      intro m hmem
      rw [branchNodes, List.mem_singleton] at hmem
      rw [hmem, hlocks]
      exact covers_own (.physical p)
    | composite c =>
      obtain ⟨role', next, tail, child, below, hseg, hchild, hbelow, rfl⟩ :=
        collect_composite.1 hl
      cases hseg
      obtain ⟨children, physical, rfl, hc⟩ := hown
      obtain ⟨ref, fields, href, hfields, rfl⟩ := childManifestOf_eq_ok hc hchild
      intro m hmem
      rw [branchNodes, List.mem_cons] at hmem
      rcases hmem with rfl | hmem
      · exact (covers_own (.composite c)).mono (LockRequirements.sub_union_left _ _)
      · obtain ⟨_, n', _, _, _, hfind, _⟩ := manifestFrom_eq_ok hfields
        rw [href, Option.bind_some, hfind] at hmem
        exact (ih hfields hfind hbelow m hmem).mono (LockRequirements.sub_union_right _ _)

/-! ## The lock set of a program -/

/-- What the lock set holds for one sequence. -/
structure Locked (R : Registry F) (rootId : Str) (locks : LockRequirements) (s : HashedSequence F) :
    Prop where
  leaf : s.resolvedTarget.physicalNodeId ++ py "." ++ s.resolvedTarget.groupId ∈ locks.leaves
  branch : ∀ n ∈ roleBranch R rootId s.rolePath, Covers locks n

omit [Cbor F] [Sha256] [PyFloat F] [PyText F] in
theorem Locked.mono {R : Registry F} {rootId : Str} {a b : LockRequirements} {s : HashedSequence F}
    (h : Locked R rootId a s) (hab : a.Sub b) : Locked R rootId b s :=
  ⟨hab.leaves h.leaf, fun n hn => (h.branch n hn).mono hab⟩

omit [PyText F] in
theorem outlineSequenceLocks_eq {R : Registry F} {rootId : Str} {d : ℕ}
    {fields : List (String × Val F)} {s : HashedSequence F} {v : Val F} {locks : LockRequirements}
    (hm : R.manifestFrom d rootId = .ok fields) (h : Equal s.outline v)
    (hl : outlineSequenceLocks (entries fields) v = .ok locks) : Locked R rootId locks s := by
  obtain ⟨e, t, rfl, hrole, htarget, hp, hg⟩ := equal_outlineSequence h
  unfold outlineSequenceLocks at hl
  simp only [bind_eq_ok, plainMapping, Except.ok.injEq, exists_eq_left', htarget, hp, hg, hrole] at hl
  obtain ⟨branch, hbranch, rfl⟩ := hl
  refine ⟨List.mem_append_left _ (List.mem_singleton_self _), fun n hn => ?_⟩
  have hsub := LockRequirements.sub_union_right
    ⟨[s.resolvedTarget.physicalNodeId ++ py "." ++ s.resolvedTarget.groupId], [], []⟩ branch
  unfold roleBranch at hn
  obtain ⟨_, root, _, _, _, hroot, _⟩ := manifestFrom_eq_ok hm
  rw [hroot] at hn
  exact (covers_of_collect hm hroot hbranch n hn).mono hsub

omit [PyText F] in
theorem outlinePhaseLocks_eq {R : Registry F} {rootId : Str} {d : ℕ}
    {fields : List (String × Val F)} {p : HashedPhase F} {v : Val F} {locks : LockRequirements}
    (hm : R.manifestFrom d rootId = .ok fields) (h : Equal p.outline v)
    (hl : outlinePhaseLocks (entries fields) v = .ok locks) :
    ∀ s ∈ p.sequences, Locked R rootId locks s := by
  obtain ⟨e, vs, rfl, hvs, hall⟩ := equal_outlinePhase h
  unfold outlinePhaseLocks at hl
  simp only [bind_eq_ok, plainMapping, Except.ok.injEq, exists_eq_left', hvs] at hl
  obtain ⟨ls, hls, rfl⟩ := hl
  intro s hs
  obtain ⟨w, hw, he⟩ := hall.exists_of_mem_left hs
  obtain ⟨l, hl, hr⟩ := (mapM_eq_ok.1 hls).exists_of_mem_left hw
  exact (outlineSequenceLocks_eq hm he hr).mono (sub_unionLocks hl)

theorem lockRequirements_eq_ok {R : Registry F} {p : CompiledProgram F} {b : CompiledBody F}
    {locks : LockRequirements} (hb : Canonical R p b) (h : lockRequirements R p = .ok locks) :
    ∀ ph ∈ b.phases, ∀ s ∈ ph.sequences, Locked R b.rootId locks s := by
  obtain ⟨o, ho, heq⟩ := hb.outline
  obtain ⟨e, rfl, hf⟩ := heq.dict
  obtain ⟨vs, hvs, hall⟩ :=
    (hf "phases" (.list (b.phases.map HashedPhase.outline)) (by simp)).2.list
  unfold lockRequirements at h
  simp only [bind_eq_ok, hb.rootId, ho, Registry.describe, map_eq_ok, Except.ok.injEq,
    exists_eq_left'] at h
  obtain ⟨_, ⟨fields, hm, rfl⟩, _, hd, _, ho', h⟩ := h
  cases hd
  cases ho'
  rw [hvs] at h
  simp only [bind_eq_ok, Except.ok.injEq] at h
  obtain ⟨ls, hls, rfl⟩ := h
  intro ph hph
  obtain ⟨w, hw, he⟩ := hall.exists_of_mem_left hph
  obtain ⟨l, hl, hr⟩ := (mapM_eq_ok.1 hls).exists_of_mem_left hw
  exact fun s hs => (outlinePhaseLocks_eq hm he hr s hs).mono (sub_unionLocks hl)

end Agreement

end RemoteRobot
