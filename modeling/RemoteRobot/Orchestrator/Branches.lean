import RemoteRobot.Orchestrator.Skew

/-!
# Three walks along a role path

`_leaf_paths` enumerates the leaves below a node, `resolve_group` follows a path through the nodes
and `_collect_role_branch_locks` follows it through the manifest.  All three go along the routes of
the graph (`leaf_paths_agree`).  The last one reads the roles alone: what stands in the place of the
group is not looked at (`leaf_paths_counterexample`).
-/

namespace RemoteRobot

open Py Except Registry

variable {F : Type}

/-- The locks are the resources and the safety domains of the nodes, no more and no fewer. -/
structure IsUnion (locks : LockRequirements) (nodes : List (ControlNode F)) : Prop where
  leaves : locks.leaves = []
  resources : ∀ x, x ∈ locks.resources ↔ ∃ n ∈ nodes, x ∈ n.resources
  safetyDomains : ∀ x, x ∈ locks.safetyDomains ↔ ∃ n ∈ nodes, x ∈ n.safetyDomains

theorem isUnion_single (n : ControlNode F) : IsUnion ⟨[], n.resources, n.safetyDomains⟩ [n] := by
  refine ⟨rfl, fun x => ?_, fun x => ?_⟩
  · simp
  · simp

theorem IsUnion.cons {locks : LockRequirements} {nodes : List (ControlNode F)} {n : ControlNode F}
    (h : IsUnion locks nodes) :
    IsUnion (LockRequirements.union ⟨[], n.resources, n.safetyDomains⟩ locks) (n :: nodes) := by
  refine ⟨h.leaves, fun x => ?_, fun x => ?_⟩
  · show x ∈ n.resources ++ locks.resources ↔ _
    rw [List.mem_append, h.resources, List.exists_mem_cons_iff]
  · show x ∈ n.safetyDomains ++ locks.safetyDomains ↔ _
    rw [List.mem_append, h.safetyDomains, List.exists_mem_cons_iff]

/-- A filter that looks at distinct names keeps the one item with a name that is there. -/
theorem filter_eq_singleton {α β κ : Type} [DecidableEq κ] {P : α → β → Prop} {f : α → κ}
    {g : β → Bool} {x : α} {xs : List α} {ys : List β} (h : List.Forall₂ P xs ys)
    (hfg : ∀ y z, P y z → g z = decide (f y = f x)) (hnd : (xs.map f).Nodup) (hx : x ∈ xs) :
    ∃ y, ys.filter g = [y] ∧ P x y := by
  induction h with
  | nil => cases hx
  | cons hyz hrest ih =>
    rename_i y z xs ys
    rw [List.map_cons, List.nodup_cons] at hnd
    rw [List.filter_cons, hfg y z hyz]
    by_cases hy : f y = f x
    · have hnone : ys.filter g = [] := by
        refine List.filter_eq_nil_iff.2 fun w hw => ?_
        obtain ⟨v, hv, hvw⟩ := hrest.exists_of_mem_right hw
        rw [hfg v w hvw, decide_eq_true_iff, ← hy]
        exact fun he => hnd.1 (List.mem_map.2 ⟨v, hv, he⟩)
      obtain rfl | hx := List.mem_cons.1 hx
      · rw [if_pos (decide_eq_true rfl), hnone]
        exact ⟨z, rfl, hyz⟩
      · exact absurd (List.mem_map.2 ⟨x, hx, hy.symm⟩) hnd.1
    · rw [if_neg (by rw [decide_eq_true_iff]; exact hy)]
      refine ih hnd.2 ((List.mem_cons.1 hx).resolve_left fun he => hy ?_)
      rw [he]

section Walk

variable [Cbor F] [Sha256] [PyFloat F] {R : Registry F} {d : ℕ} {nodeId : Str}
  {fields : List (String × Val F)}

theorem hasRole_of_childManifest {ref : ChildRef} {role : Str} {v : Val F}
    (h : ∃ m, R.manifestFrom d ref.nodeId = .ok m ∧
      Registry.childManifest ref m = (.ok v : Except (Error F) (Val F))) :
    hasRole role v = decide (ref.role = role) := by
  obtain ⟨m, -, hv⟩ := h
  obtain ⟨e, rfl, hr, -⟩ := childManifest_eq_ok hv
  simp [hasRole, hr, Val.eq, Bool.beq_eq_decide_eq]

theorem childManifestOf_of_mem {c : CompositeNode} {children : List (Val F)}
    (physical : List (PhysicalNode F)) (rest : List (String × Val F)) {ref : ChildRef}
    (hc : List.Forall₂ (fun (child : ChildRef) v => ∃ m, R.manifestFrom d child.nodeId = .ok m ∧
      Registry.childManifest child m = (.ok v : Except (Error F) (Val F))) c.children children)
    (hnd : (c.children.map ChildRef.role).Nodup) (href : ref ∈ c.children) :
    ∃ m, R.manifestFrom d ref.nodeId = .ok m ∧
      childManifestOf ref.role (entries (R.commonManifest (.composite c) ++
        (Registry.compositeManifest c children physical ++ rest))) = .ok (entries m) := by
  obtain ⟨v, hfilter, m, hm, hv⟩ := filter_eq_singleton hc
    (fun _ _ h => hasRole_of_childManifest h) hnd href
  obtain ⟨e, rfl, -, hmanifest⟩ := childManifest_eq_ok hv
  refine ⟨m, hm, ?_⟩
  have hfield : field "children" (entries (R.commonManifest (.composite c) ++
      (Registry.compositeManifest c children physical ++ rest))) = .list children := by
    unfold field
    rw [lookup_children]
    rfl
  unfold childManifestOf
  rw [hfield]
  simp only [hfilter]
  rw [hmanifest]
  rfl

/-- The walk goes along a route and collects the union of its nodes. -/
theorem route_of_collect {expected : Str} {segments : List Str} {n : ControlNode F}
    {locks : LockRequirements} (hm : R.manifestFrom d nodeId = .ok fields)
    (hn : R.find nodeId = some n)
    (hl : collectRoleBranchLocks expected (entries fields) segments = .ok locks) :
    (∃ roles last p, Route R nodeId roles p ∧ segments = roles ++ [last] ∧ p.nodeId = expected) ∧
      IsUnion locks (branchNodes R n segments) := by
  induction segments generalizing d nodeId n fields locks with
  | nil =>
    obtain ⟨e, n', own, hash, rfl, hn', hown, rfl, -⟩ := manifestFrom_eq_ok hm
    obtain rfl := Option.some.inj (hn.symm.trans hn')
    rw [List.append_assoc] at hl
    cases n with
    | physical p =>
      obtain ⟨-, hlen, -⟩ := collect_physical.1 hl
      cases hlen
    | composite c =>
      obtain ⟨_, _, _, _, _, hnil, -⟩ := collect_composite.1 hl
      cases hnil
  | cons role segments ih =>
    obtain ⟨e, n', own, hash, rfl, hn', hown, rfl, -⟩ := manifestFrom_eq_ok hm
    obtain rfl := Option.some.inj (hn.symm.trans hn')
    rw [List.append_assoc] at hl
    cases n with
    | physical p =>
      obtain ⟨hp, hlen, rfl⟩ := collect_physical.1 hl
      obtain rfl : segments = [] := List.length_eq_zero_iff.1 (Nat.succ.inj hlen)
      exact ⟨⟨[], role, p, .here hn, rfl, hp⟩, isUnion_single (.physical p)⟩
    | composite c =>
      obtain ⟨_, next, tail, child, below, hseg, hchild, hbelow, rfl⟩ := collect_composite.1 hl
      obtain ⟨rfl, rfl⟩ := List.cons.inj hseg
      obtain ⟨children, physical, rfl, hc⟩ := hown
      obtain ⟨ref, m, href, hm', rfl⟩ := childManifestOf_eq_ok hc hchild
      obtain ⟨rfl, hmem⟩ := child_eq_some href
      obtain ⟨_, next', _, _, _, hfind, -⟩ := manifestFrom_eq_ok hm'
      obtain ⟨⟨roles, last, p, hroute, htail, hp⟩, hunion⟩ := ih hm' hfind hbelow
      refine ⟨⟨ref.role :: roles, last, p, .child hn hmem hroute, ?_, hp⟩, ?_⟩
      · rw [htail]
        rfl
      · rw [branchNodes, href, Option.bind_some, hfind]
        exact hunion.cons (n := .composite c)

/-- Along a route the walk comes to its end, whatever is in the place of the group. -/
theorem collect_of_route {roles : List Str} {p : PhysicalNode F} (hnamed : AllNamed R)
    (h : Route R nodeId roles p) (last : Str) (hm : R.manifestFrom d nodeId = .ok fields) :
    ∃ locks, collectRoleBranchLocks p.nodeId (entries fields) (roles ++ [last]) = .ok locks := by
  induction h generalizing d fields with
  | here h =>
    obtain ⟨e, n, own, hash, rfl, hn, hown, rfl, -⟩ := manifestFrom_eq_ok hm
    obtain rfl := Option.some.inj (h.symm.trans hn)
    rw [List.append_assoc]
    exact ⟨_, collect_physical.2 ⟨rfl, rfl, rfl⟩⟩
  | child h href hroute ih =>
    rename_i nodeId c ref roles p
    obtain ⟨e, n, own, hash, rfl, hn, hown, rfl, -⟩ := manifestFrom_eq_ok hm
    obtain rfl := Option.some.inj (h.symm.trans hn)
    obtain ⟨children, physical, rfl, hc⟩ := hown
    obtain ⟨m, hm', hchild⟩ := childManifestOf_of_mem physical [("manifest_hash", .str hash)] hc
      (hnamed.find h).1 href
    obtain ⟨below, hbelow⟩ := ih hm'
    obtain ⟨next, tail, htail⟩ := List.exists_cons_of_ne_nil
      (List.append_ne_nil_of_right_ne_nil roles (List.cons_ne_nil last []))
    rw [htail] at hbelow
    refine ⟨LockRequirements.union ⟨[], c.resources, c.safetyDomains⟩ below, ?_⟩
    rw [List.append_assoc, List.cons_append, htail]
    exact collect_composite.2 ⟨ref.role, next, tail, entries m, below, rfl, hchild, hbelow, rfl⟩

end Walk

section Agreement

variable [Cbor F] [Sha256] [PyFloat F] [PyText F]

/-- In an accepted registry the paths of the leaves are distinct, `resolve_group` resolves exactly
these, to the leaf listed, and the lock walk over the manifest returns exactly on the paths that
differ from a listed one with the same physical node in their last segment at most; on the listed
ones it collects the union of the nodes passed. -/
theorem leaf_paths_agree (R : CapabilityRegistry F) {root : Str} {n : ControlNode F}
    (hroot : R.find root = some n) : ∃ leaves manifest,
    R.leafPaths root = .ok leaves ∧ R.describe root = .ok (.dict manifest) ∧
    (leaves.map Leaf.path).Nodup ∧
    (∀ l ∈ leaves, ∃ group, R.resolveGroup root l.path =
      .ok ⟨root, l.path, l.canonical.1, l.canonical.2, group⟩) ∧
    (∀ path r, R.resolveGroup root path = .ok r → ∃ l ∈ leaves, l.path = path) ∧
    (∀ l ∈ leaves, ∃ locks,
      collectRoleBranchLocks l.canonical.1 manifest (split 46 l.path) = .ok locks ∧
      IsUnion locks (roleBranch R.toRegistry root l.path)) ∧
    ∀ path physicalId, (∃ locks,
      collectRoleBranchLocks physicalId manifest (split 46 path) = .ok locks) ↔
      ∃ l ∈ leaves, l.canonical.1 = physicalId ∧
        (split 46 l.path).dropLast = (split 46 path).dropLast := by
  have hacc := accepted_of_check R.accepted
  have hnamed : AllNamed R.toRegistry := hacc.named
  have hmem : n ∈ R.nodes := List.mem_of_find?_eq_some hroot
  have hid := nodeId_of_find hroot
  obtain ⟨leaves, hleaves⟩ : ∃ leaves, R.leafPaths root = .ok leaves := by
    cases n with
    | physical p =>
      refine ⟨p.groups.map fun g => ⟨(p.nodeId, g.groupId), joinPath [g.groupId], false⟩, ?_⟩
      unfold Registry.leafPaths Registry.depth Registry.leafPathsFrom
      rw [hroot]
      rfl
    | composite c =>
      rw [← hid]
      exact hacc.paths c hmem
  obtain ⟨fields, hfields⟩ := hacc.manifests n hmem
  rw [hid] at hfields
  have henum := enumerates_leafPathsFrom hnamed hleaves
  have hnodup := henum.nodup hnamed
  obtain ⟨segmentss, -, hleaf, hcomplete⟩ := henum
  have hsplit : ∀ l ∈ leaves, ∃ roles p g, Route R.toRegistry root roles p ∧ g ∈ p.groups ∧
      l.path = joinPath (roles ++ [g.groupId]) ∧ split 46 l.path = roles ++ [g.groupId] ∧
      l.canonical = (p.nodeId, g.groupId) := by
    intro l hl
    obtain ⟨_, -, roles, p, g, hroute, hg, rfl, hpath, hcanonical⟩ := hleaf.exists_of_mem_left hl
    rw [List.nil_append] at hpath
    refine ⟨roles, p, g, hroute, hg, hpath, ?_, hcanonical⟩
    rw [hpath]
    exact hroute.split_path hnamed hg
  have hlisted : ∀ roles p g, Route R.toRegistry root roles p → g ∈ p.groups →
      ∃ l ∈ leaves, l.path = joinPath (roles ++ [g.groupId]) ∧ l.canonical.1 = p.nodeId := by
    intro roles p g hroute hg
    obtain ⟨l, hl, roles', p', g', hroute', -, hseg, hpath, hcanonical⟩ :=
      hleaf.exists_of_mem_right (hcomplete roles p g hroute hg)
    rw [List.nil_append] at hpath
    refine ⟨l, hl, hpath, ?_⟩
    obtain ⟨rfl, -⟩ := List.append_inj' hseg rfl
    rw [hcanonical, hroute.unique hnamed hroute']
  refine ⟨leaves, entries fields, hleaves, map_eq_ok.2 ⟨fields, hfields, rfl⟩, hnodup,
    fun l hl => ?_, fun path r hr => ?_, fun l hl => ?_, fun path physicalId => ?_⟩
  · obtain ⟨roles, p, g, hroute, hg, hpath, -, hcanonical⟩ := hsplit l hl
    rw [hcanonical]
    exact ⟨g, (resolveGroup_eq_ok hnamed).2 ⟨roles, p, g, hroute, hg, hpath, rfl⟩⟩
  · obtain ⟨roles, p, g, hroute, hg, rfl, -⟩ := (resolveGroup_eq_ok hnamed).1 hr
    obtain ⟨l, hl, hpath, -⟩ := hlisted roles p g hroute hg
    exact ⟨l, hl, hpath⟩
  · obtain ⟨roles, p, g, hroute, hg, -, hseg, hcanonical⟩ := hsplit l hl
    obtain ⟨locks, hlocks⟩ := collect_of_route hnamed hroute g.groupId hfields
    rw [hcanonical, hseg]
    refine ⟨locks, hlocks, ?_⟩
    unfold roleBranch
    rw [hroot, hseg]
    exact (route_of_collect hfields hroot hlocks).2
  · constructor
    · rintro ⟨locks, hlocks⟩
      obtain ⟨⟨roles, last, p, hroute, hseg, hp⟩, -⟩ := route_of_collect hfields hroot hlocks
      obtain ⟨g, hg⟩ := List.exists_mem_of_ne_nil _ (hroute.segments hnamed).2.1
      obtain ⟨l, hl, hpath, hcanonical⟩ := hlisted roles p g hroute hg
      refine ⟨l, hl, hcanonical.trans hp, ?_⟩
      rw [hpath, hroute.split_path hnamed hg, hseg, List.dropLast_concat, List.dropLast_concat]
    · rintro ⟨l, hl, rfl, hdrop⟩
      obtain ⟨roles, p, g, hroute, hg, -, hseg, hcanonical⟩ := hsplit l hl
      rw [hseg, List.dropLast_concat] at hdrop
      rw [hcanonical, ← List.dropLast_append_getLast (split_ne_nil 46 path), ← hdrop]
      exact collect_of_route hnamed hroute _ hfields

end Agreement

/-! ### A path the registry does not have -/

section Demo

local instance branchHash : Sha256 := lengthHash

def cellCapabilities : CapabilityRegistry ℚ := ⟨cellRegistry, cellRegistry_accepted⟩

/-- Below the cell the walks go over two composites. -/
theorem leaf_paths_agree_cell : ∃ leaves manifest,
    cellCapabilities.leafPaths (py "cell") = .ok leaves ∧
    cellCapabilities.describe (py "cell") = .ok (.dict manifest) ∧
    (leaves.map Leaf.path).Nodup ∧
    (∀ l ∈ leaves, ∃ group, cellCapabilities.resolveGroup (py "cell") l.path =
      .ok ⟨py "cell", l.path, l.canonical.1, l.canonical.2, group⟩) ∧
    (∀ path r, cellCapabilities.resolveGroup (py "cell") path = .ok r →
      ∃ l ∈ leaves, l.path = path) ∧
    (∀ l ∈ leaves, ∃ locks,
      collectRoleBranchLocks l.canonical.1 manifest (split 46 l.path) = .ok locks ∧
      IsUnion locks (roleBranch cellRegistry (py "cell") l.path)) ∧
    ∀ path physicalId, (∃ locks,
      collectRoleBranchLocks physicalId manifest (split 46 path) = .ok locks) ↔
      ∃ l ∈ leaves, l.canonical.1 = physicalId ∧
        (split 46 l.path).dropLast = (split 46 path).dropLast := by
  have hfind : (cellRegistry.find (py "cell")).isSome = true := by decide
  obtain ⟨n, hn⟩ := Option.isSome_iff_exists.1 hfind
  exact leaf_paths_agree cellCapabilities hn

/-- The robot on the left has no group of that name. -/
def strayPath : Str := py "pair.left.leg"

set_option maxRecDepth 20000 in
theorem leaf_paths_counterexample : ∃ leaves manifest locks,
    cellCapabilities.leafPaths (py "cell") = .ok leaves ∧
    cellCapabilities.describe (py "cell") = .ok (.dict manifest) ∧
    (∀ l ∈ leaves, l.path ≠ strayPath) ∧
    (cellCapabilities.resolveGroup (py "cell") strayPath).isOk = false ∧
    collectRoleBranchLocks (py "left") manifest (split 46 strayPath) = .ok locks := by
  have hleaves : (cellRegistry.leafPaths (py "cell")).toOption.any (fun leaves =>
      leaves.all fun l => l.path ≠ strayPath) = true := by decide +kernel
  have hwalk : (cellRegistry.manifestFrom cellRegistry.depth (py "cell")).toOption.any
      (fun fields => (collectRoleBranchLocks (py "left") (entries fields)
        (split 46 strayPath)).isOk) = true := by decide +kernel
  obtain ⟨leaves, hl, hstray⟩ := (Option.any_eq_true _ _).1 hleaves
  obtain ⟨fields, hm, hlocks⟩ := (Option.any_eq_true _ _).1 hwalk
  obtain ⟨locks, hlocks⟩ := exists_of_isOk hlocks
  refine ⟨leaves, entries fields, locks, toOption_eq_some.1 hl,
    map_eq_ok.2 ⟨fields, toOption_eq_some.1 hm, rfl⟩, ?_, by decide +kernel, hlocks⟩
  simpa using hstray

end Demo

end RemoteRobot
