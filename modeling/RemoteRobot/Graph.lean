import RemoteRobot.Routes
import RemoteRobot.Lib.Recursion

/-!
# The graph of a registry

`_validate_graph` searches the child relation depth first, with the path to the current node and the
set of finished nodes.  The finished nodes come out in topological order, children first; this order
excludes cycles and bounds every later recursion over the graph.  The limit the interpreter puts on
its own stack is not modelled.
-/

namespace RemoteRobot.Registry

open Py Except Recursion

variable {F : Type}

/-! ## The child relation -/

/-- The node has a child with the ID. -/
def Refers (R : Registry F) (nodeId childId : Str) : Prop :=
  ∃ n, R.find nodeId = some n ∧ ∃ child ∈ n.children, child.nodeId = childId

/-- Every child reference names a node. -/
def Closed (R : Registry F) : Prop :=
  ∀ n ∈ R.nodes, ∀ child ∈ n.children, (R.find child.nodeId).isSome

instance (R : Registry F) : Decidable R.Closed := by
  unfold Closed
  infer_instance

def cycleError (ids : List Str) : Error F := .registry ⟨"control-node cycle: %", [strList ids]⟩

/-- Distinct nodes of the map are no more than the map has. -/
theorem length_le_nodes {R : Registry F} {ids : List Str} (hnd : ids.Nodup)
    (hknown : ∀ a ∈ ids, (R.find a).isSome) : ids.length ≤ R.nodes.length := by
  rw [← List.length_map (f := ControlNode.nodeId)]
  refine (List.subperm_of_subset hnd fun a ha => ?_).length_le
  have := mem_nodeIds.2 (hknown a ha)
  rwa [nodeIds, mem_sortedSet] at this

/-! ## The search -/

/-- The path to the current node and the nodes that are finished. -/
structure Searching (R : Registry F) (visiting visited : List Str) : Prop where
  path : visiting.Nodup
  pathKnown : ∀ a ∈ visiting, (R.find a).isSome
  order : Topological R.Refers visited
  visitedKnown : ∀ a ∈ visited, (R.find a).isSome
  fresh : ∀ a ∈ visiting, a ∉ visited

/-- The search from the nodes finishes them, or it names a cycle. -/
def Searched (R : Registry F) (visiting visited ids : List Str) :
    Except (Error F) (List Str) → Prop
  | .ok seen => R.Searching visiting seen ∧ visited ⊆ seen ∧ ids ⊆ seen
  | .error e => ∃ cycle, e = cycleError cycle ∧ IsCycle R.Refers cycle

theorem searched_foldlM {R : Registry F} {visiting visited : List Str} {α : Type} {idOf : α → Str}
    {step : List Str → α → Except (Error F) (List Str)} {xs : List α}
    (h : ∀ x ∈ xs, ∀ seen, R.Searching visiting seen →
      R.Searched visiting seen [idOf x] (step seen x))
    (hvisited : R.Searching visiting visited) :
    R.Searched visiting visited (xs.map idOf) (xs.foldlM step visited) := by
  induction xs generalizing visited with
  | nil => exact ⟨hvisited, List.Subset.refl _, List.nil_subset _⟩
  | cons x xs ih =>
    rw [List.forall_mem_cons] at h
    rw [List.foldlM_cons]
    have hx := h.1 visited hvisited
    cases hstep : step visited x with
    | error e =>
      rw [hstep] at hx
      exact hx
    | ok seen =>
      rw [hstep] at hx
      obtain ⟨hseen, hsub, hid⟩ := hx
      have hrest := ih h.2 hseen
      show R.Searched visiting visited _ (xs.foldlM step seen)
      cases hfold : xs.foldlM step seen with
      | error e =>
        rw [hfold] at hrest
        exact hrest
      | ok all =>
        rw [hfold] at hrest
        obtain ⟨hall, hsub', hids⟩ := hrest
        refine ⟨hall, List.Subset.trans hsub hsub', ?_⟩
        rw [List.map_cons]
        exact List.cons_subset.2 ⟨hsub' (hid List.mem_cons_self), hids⟩

/-- A node is finished when the nodes below it are. -/
theorem Searching.finish {R : Registry F} {visiting seen : List Str} {nodeId : Str}
    {n : ControlNode F} (h : R.Searching (visiting ++ [nodeId]) seen) (hn : R.find nodeId = some n)
    (hchildren : n.children.map ChildRef.nodeId ⊆ seen) : R.Searching visiting (seen ++ [nodeId]) where
  path := h.path.of_append_left
  pathKnown a ha := h.pathKnown a (List.mem_append_left _ ha)
  order := by
    refine h.order.snoc (h.fresh nodeId (by simp)) ?_
    rintro y ⟨n', hn', child, hmem, rfl⟩
    obtain rfl := Option.some.inj (hn.symm.trans hn')
    exact hchildren (List.mem_map_of_mem hmem)
  visitedKnown a ha := by
    rw [List.mem_append, List.mem_singleton] at ha
    obtain ha | rfl := ha
    · exact h.visitedKnown a ha
    · exact hn ▸ rfl
  fresh a ha := by
    rw [List.mem_append, List.mem_singleton, not_or]
    refine ⟨h.fresh a (List.mem_append_left _ ha), ?_⟩
    rintro rfl
    exact List.disjoint_of_nodup_append h.path ha List.mem_cons_self

theorem Searching.push {R : Registry F} {visiting visited : List Str} {nodeId : Str}
    (h : R.Searching visiting visited) (hknown : (R.find nodeId).isSome) (hpath : nodeId ∉ visiting)
    (hfresh : nodeId ∉ visited) : R.Searching (visiting ++ [nodeId]) visited where
  path := List.Nodup.append h.path (List.nodup_singleton _) (List.disjoint_singleton.2 hpath)
  pathKnown a ha := by
    rw [List.mem_append, List.mem_singleton] at ha
    obtain ha | rfl := ha
    · exact h.pathKnown a ha
    · exact hknown
  order := h.order
  visitedKnown := h.visitedKnown
  fresh a ha := by
    rw [List.mem_append, List.mem_singleton] at ha
    obtain ha | rfl := ha
    · exact h.fresh a ha
    · exact hfresh

/-- The search from one node.  The path uses up nodes of the map, so the depth suffices. -/
theorem searched_visit {R : Registry F} (hclosed : R.Closed) {d : ℕ} {visiting visited : List Str}
    {nodeId : Str} (hd : R.nodes.length < d + visiting.length) (h : R.Searching visiting visited)
    (hknown : (R.find nodeId).isSome) (hchain : (visiting ++ [nodeId]).IsChain R.Refers) :
    R.Searched visiting visited [nodeId] (R.visit d visiting visited nodeId) := by
  induction d generalizing visiting visited nodeId with
  | zero =>
    have := length_le_nodes h.path h.pathKnown
    omega
  | succ d ih =>
    unfold visit
    by_cases hpath : nodeId ∈ visiting
    · rw [if_pos hpath]
      exact ⟨_, rfl, isCycle_dropWhile hchain hpath⟩
    by_cases hvisited : nodeId ∈ visited
    · rw [if_neg hpath, if_pos hvisited]
      exact ⟨h, List.Subset.refl _, by simpa using hvisited⟩
    obtain ⟨n, hn⟩ := Option.isSome_iff_exists.1 hknown
    rw [if_neg hpath, if_neg hvisited, hn]
    have hpush := h.push hknown hpath hvisited
    have hfold : R.Searched (visiting ++ [nodeId]) visited (n.children.map ChildRef.nodeId)
        (n.children.foldlM (fun seen c => R.visit d (visiting ++ [nodeId]) seen c.nodeId) visited) := by
      refine searched_foldlM (fun child hmem seen hseen => ?_) hpush
      refine ih ?_ hseen (hclosed n (List.mem_of_find?_eq_some hn) child hmem) ?_
      · rw [List.length_append, List.length_singleton]
        omega
      · rw [List.append_assoc, List.singleton_append, List.isChain_append_cons_cons]
        exact ⟨hchain, ⟨n, hn, child, hmem, rfl⟩, List.isChain_singleton _⟩
    show R.Searched visiting visited [nodeId] (_ >>= _)
    cases hr : n.children.foldlM (fun seen c => R.visit d (visiting ++ [nodeId]) seen c.nodeId)
        visited with
    | error e =>
      rw [hr] at hfold
      exact hfold
    | ok seen =>
      rw [hr] at hfold
      obtain ⟨hseen, hsub, hchildren⟩ := hfold
      exact ⟨hseen.finish hn hchildren, List.Subset.trans hsub (List.subset_append_left _ _), by simp⟩

/-- The nodes of the map in topological order. -/
structure Ordered (R : Registry F) (order : List Str) : Prop where
  topological : Topological R.Refers order
  mem_iff : ∀ a, a ∈ order ↔ (R.find a).isSome

theorem Ordered.not_transGen {R : Registry F} {order : List Str} (h : R.Ordered order) (a : Str) :
    ¬Relation.TransGen R.Refers a a := by
  intro hr
  have ha : a ∈ order := by
    obtain ⟨b, ⟨n, hn, -⟩, -⟩ := Relation.TransGen.head'_iff.1 hr
    exact (h.mem_iff a).2 (hn ▸ rfl)
  exact h.topological.not_transGen ha hr

theorem closed_of_validateGraph {R : Registry F} (h : R.validateGraph = .ok ()) : R.Closed := by
  unfold validateGraph at h
  rw [bind_eq_ok, exists_unit, forM_eq_ok] at h
  intro n hn child hmem
  have := forM_eq_ok.1 (h.1 n hn) child hmem
  cases hfind : R.find child.nodeId with
  | none =>
    rw [hfind] at this
    cases this
  | some _ => rfl

/-- Where no reference is missing only the search is left. -/
theorem validateGraph_eq {R : Registry F} (hclosed : R.Closed) : R.validateGraph =
    (R.nodeIds.foldlM (fun seen nodeId => R.visit R.depth [] seen nodeId) []).map fun _ => () := by
  have hskip : ∀ (check : Except (Error F) Unit) (search : Except (Error F) (List Str)),
      check = .ok () → (check >>= fun _ => search >>= fun _ => .ok ()) = search.map fun _ => () := by
    rintro _ search rfl
    cases search <;> rfl
  refine hskip _ _ (forM_eq_ok.2 fun n hn => forM_eq_ok.2 fun child hmem => ?_)
  obtain ⟨m, hm⟩ := Option.isSome_iff_exists.1 (hclosed n hn child hmem)
  rw [hm]

/-- `_validate_graph` puts the nodes into topological order, or it names a cycle. -/
theorem validateGraph_cases {R : Registry F} (hclosed : R.Closed) :
    (R.validateGraph = .ok () ∧ ∃ order, R.Ordered order) ∨
      ∃ cycle, R.validateGraph = .error (cycleError cycle) ∧ IsCycle R.Refers cycle := by
  have hsearch : R.Searched [] [] (R.nodeIds.map id)
      (R.nodeIds.foldlM (fun seen nodeId => R.visit R.depth [] seen nodeId) []) :=
    searched_foldlM
      (fun nodeId hmem seen hseen => searched_visit hclosed (Nat.lt_succ_self _) hseen
        (mem_nodeIds.1 hmem) (List.isChain_singleton _))
      ⟨List.nodup_nil, nofun, .nil, nofun, nofun⟩
  rw [validateGraph_eq hclosed]
  cases hr : R.nodeIds.foldlM (fun seen nodeId => R.visit R.depth [] seen nodeId) [] with
  | error e =>
    rw [hr] at hsearch
    obtain ⟨cycle, rfl, hcycle⟩ := hsearch
    exact .inr ⟨cycle, rfl, hcycle⟩
  | ok seen =>
    rw [hr, List.map_id] at hsearch
    obtain ⟨hseen, -, hall⟩ := hsearch
    exact .inl ⟨rfl, seen, hseen.order,
      fun a => ⟨hseen.visitedKnown a, fun ha => hall (mem_nodeIds.2 ha)⟩⟩

theorem ordered_of_validateGraph {R : Registry F} (h : R.validateGraph = .ok ()) :
    ∃ order, R.Ordered order := by
  obtain ⟨-, horder⟩ | ⟨cycle, herror, -⟩ := validateGraph_cases (closed_of_validateGraph h)
  · exact horder
  · rw [h] at herror
    cases herror

/-- How far down the order a node stands decreases along references. -/
theorem Ordered.idxOf_lt {R : Registry F} {order : List Str} (h : R.Ordered order) {nodeId : Str}
    {n : ControlNode F} (hn : R.find nodeId = some n) {child : ChildRef} (hmem : child ∈ n.children) :
    order.idxOf child.nodeId < order.idxOf nodeId :=
  h.topological.idxOf_lt ((h.mem_iff nodeId).2 (hn ▸ rfl)) ⟨n, hn, child, hmem, rfl⟩

theorem Ordered.idxOf_lt_depth {R : Registry F} {order : List Str} (h : R.Ordered order)
    (nodeId : Str) : order.idxOf nodeId < R.depth :=
  Nat.lt_succ_of_le (List.idxOf_le_length.trans
    (length_le_nodes h.topological.nodup fun a ha => (h.mem_iff a).1 ha))

/-! ## The recursions over the graph -/

/-- `_leaf_paths` with the recursive call as a parameter. -/
def leafPathsBody (R : Registry F)
    (leafPaths : List Str × Bool × Str → Except (Error F) (List Leaf)) :
    List Str × Bool × Str → Except (Error F) (List Leaf)
  | (pathPrefix, aliased, nodeId) =>
    match R.find nodeId with
    | none => .error (.builtin .keyError)
    | some (.physical p) => .ok (p.groups.map fun g =>
        ⟨(p.nodeId, g.groupId), joinPath (pathPrefix ++ [g.groupId]), aliased⟩)
    | some (.composite c) => do
      let leaves ← c.children.mapM fun child =>
        leafPaths (pathPrefix ++ [child.role], aliased || child.«alias», child.nodeId)
      .ok leaves.flatten

/-- `collect` of `_physical_descendants` -/
def collectBody (R : Registry F) (collect : Str → Except (Error F) (List (PhysicalNode F)))
    (nodeId : Str) : Except (Error F) (List (PhysicalNode F)) :=
  match R.find nodeId with
  | none => .error (.builtin .keyError)
  | some (.physical p) => .ok [p]
  | some (.composite c) => do
    let found ← c.children.mapM fun child => collect child.nodeId
    .ok found.flatten

/-- The loop of `resolve_group`, one role in each turn. -/
def descendBody (R : Registry F) (rolePath : Str)
    (descend : ControlNode F × List Str → Except (Error F) (PhysicalNode F × List Str)) :
    ControlNode F × List Str → Except (Error F) (PhysicalNode F × List Str)
  | (.physical p, segments) => .ok (p, segments)
  | (.composite _, []) => .error (.registry ⟨"role path % stops at a composite node", [.str rolePath]⟩)
  | (.composite c, role :: segments) =>
    match c.child role with
    | none => .error (.registry ⟨"composite % has no child role %", [.str c.nodeId, .str role]⟩)
    | some child => do
      let next ← R.node child.nodeId
      descend (next, segments)

/-- `_manifest` -/
def manifestBody [Cbor F] [Sha256] (R : Registry F)
    (manifest : Str → Except (Error F) (List (String × Val F))) (nodeId : Str) :
    Except (Error F) (List (String × Val F)) := do
  let n ← R.node nodeId
  match n with
  | .physical p => sealManifest (R.commonManifest n ++ physicalManifest p)
  | .composite c =>
    let children ← c.children.mapM fun child => do
      let m ← manifest child.nodeId
      childManifest child m
    let physical ← R.physicalDescendants n.nodeId
    sealManifest (R.commonManifest n ++ compositeManifest c children physical)

/-- The loop ends when the roles are used up. -/
theorem returns_descend (R : Registry F) (rolePath : Str) (n : ControlNode F) (segments : List Str) :
    Returns (R.descendBody rolePath) (n, segments) (R.descend rolePath n segments) := by
  refine ⟨segments.length + 1, fun call => ?_⟩
  induction segments generalizing n with
  | nil => cases n <;> rfl
  | cons role segments ih =>
    rw [List.length_cons, Function.iterate_succ_apply']
    cases n with
    | physical p => rfl
    | composite c =>
      cases hchild : c.child role with
      | none => simp only [descendBody, descend, hchild]
      | some child => simp only [descendBody, descend, hchild, ih]

section Ordered

variable {R : Registry F} {order : List Str}

theorem Ordered.returns_leafPaths (h : R.Ordered order) (pathPrefix : List Str) (aliased : Bool)
    (nodeId : Str) : Returns R.leafPathsBody (pathPrefix, aliased, nodeId)
      (R.leafPathsFrom R.depth pathPrefix aliased nodeId) := by
  have hbody : Decreases R.leafPathsBody fun a => order.idxOf a.2.2 := by
    rintro ⟨pathPrefix, aliased, nodeId⟩ call call' hcall
    simp only [leafPathsBody]
    cases hn : R.find nodeId with
    | none => rfl
    | some n =>
      cases n with
      | physical p => rfl
      | composite c =>
        refine congrArg (· >>= fun leaves => .ok leaves.flatten) (mapM_congr fun child hmem => ?_)
        exact hcall _ (h.idxOf_lt hn hmem)
  exact hbody.returns (f := fun d a => R.leafPathsFrom d a.1 a.2.1 a.2.2)
    (a := (pathPrefix, aliased, nodeId)) (fun _ _ => rfl) (h.idxOf_lt_depth nodeId)

theorem Ordered.returns_collect (h : R.Ordered order) (nodeId : Str) :
    Returns R.collectBody nodeId (R.collectPhysical R.depth nodeId) := by
  have hbody : Decreases R.collectBody order.idxOf := by
    intro nodeId call call' hcall
    simp only [collectBody]
    cases hn : R.find nodeId with
    | none => rfl
    | some n =>
      cases n with
      | physical p => rfl
      | composite c =>
        refine congrArg (· >>= fun found => .ok found.flatten) (mapM_congr fun child hmem => ?_)
        exact hcall _ (h.idxOf_lt hn hmem)
  exact hbody.returns (f := R.collectPhysical) (fun _ _ => rfl) (h.idxOf_lt_depth nodeId)

theorem Ordered.returns_manifest [Cbor F] [Sha256] (h : R.Ordered order) (nodeId : Str) :
    Returns R.manifestBody nodeId (R.manifestFrom R.depth nodeId) := by
  have hbody : Decreases R.manifestBody order.idxOf := by
    intro nodeId call call' hcall
    unfold manifestBody
    cases hnode : R.node nodeId with
    | error e => rfl
    | ok n =>
      cases n with
      | physical p => rfl
      | composite c =>
        have hchildren : (c.children.mapM fun child => call child.nodeId >>= childManifest child) =
            c.children.mapM fun child => call' child.nodeId >>= childManifest child :=
          mapM_congr fun child hmem => by rw [hcall _ (h.idxOf_lt (node_eq_ok.1 hnode) hmem)]
        exact congrArg (· >>= fun children => R.physicalDescendants c.nodeId >>= fun physical =>
          sealManifest (R.commonManifest (.composite c) ++ compositeManifest c children physical))
          hchildren
  exact hbody.returns (f := R.manifestFrom) (fun _ _ => rfl) (h.idxOf_lt_depth nodeId)

theorem Ordered.find_child (h : R.Ordered order) {nodeId : Str} {n : ControlNode F}
    (hn : R.find nodeId = some n) {child : ChildRef} (hmem : child ∈ n.children) :
    (R.find child.nodeId).isSome := by
  have hlt := h.idxOf_lt hn hmem
  exact (h.mem_iff _).1 (List.idxOf_lt_length_iff.1 (hlt.trans_le List.idxOf_le_length))

/-- `_leaf_paths` raises nothing on a node of the map. -/
theorem Ordered.exists_leafPaths (h : R.Ordered order) {d : ℕ} {nodeId : Str}
    (hd : order.idxOf nodeId < d) (hknown : (R.find nodeId).isSome) (pathPrefix : List Str)
    (aliased : Bool) : ∃ leaves, R.leafPathsFrom d pathPrefix aliased nodeId = .ok leaves := by
  induction d generalizing nodeId pathPrefix aliased with
  | zero => exact absurd hd (Nat.not_lt_zero _)
  | succ d ih =>
    obtain ⟨n, hn⟩ := Option.isSome_iff_exists.1 hknown
    unfold leafPathsFrom
    rw [hn]
    cases n with
    | physical p => exact ⟨_, rfl⟩
    | composite c =>
      have hchildren : ∀ child ∈ c.children, ∃ leaves, R.leafPathsFrom d (pathPrefix ++ [child.role])
          (aliased || child.«alias») child.nodeId = .ok leaves := fun child hmem =>
        ih ((h.idxOf_lt hn hmem).trans_le (Nat.le_of_lt_succ hd)) (h.find_child hn hmem) _ _
      obtain ⟨leaves, hleaves⟩ := exists_mapM hchildren
      exact ⟨leaves.flatten, bind_eq_ok.2 ⟨leaves, hleaves, rfl⟩⟩

theorem Ordered.exists_collectPhysical (h : R.Ordered order) {d : ℕ} {nodeId : Str}
    (hd : order.idxOf nodeId < d) (hknown : (R.find nodeId).isSome) :
    ∃ found, R.collectPhysical d nodeId = .ok found := by
  induction d generalizing nodeId with
  | zero => exact absurd hd (Nat.not_lt_zero _)
  | succ d ih =>
    obtain ⟨n, hn⟩ := Option.isSome_iff_exists.1 hknown
    unfold collectPhysical
    rw [hn]
    cases n with
    | physical p => exact ⟨_, rfl⟩
    | composite c =>
      obtain ⟨found, hfound⟩ := exists_mapM fun child hmem =>
        ih ((h.idxOf_lt hn hmem).trans_le (Nat.le_of_lt_succ hd)) (h.find_child hn hmem)
      exact ⟨found.flatten, bind_eq_ok.2 ⟨found, hfound, rfl⟩⟩

theorem Ordered.exists_physicalDescendants (h : R.Ordered order) {nodeId : Str}
    (hknown : (R.find nodeId).isSome) : ∃ physical, R.physicalDescendants nodeId = .ok physical := by
  obtain ⟨found, hfound⟩ := h.exists_collectPhysical (h.idxOf_lt_depth nodeId) hknown
  exact ⟨_, bind_eq_ok.2 ⟨found, hfound, rfl⟩⟩

end Ordered

/-! ## Validation and termination -/

/-- The recursions return on every node and every path, and the two that only walk raise nothing. -/
structure Terminates [Cbor F] [Sha256] (R : Registry F) : Prop where
  leafPaths : ∀ pathPrefix aliased nodeId, Returns R.leafPathsBody (pathPrefix, aliased, nodeId)
    (R.leafPathsFrom R.depth pathPrefix aliased nodeId)
  collect : ∀ nodeId, Returns R.collectBody nodeId (R.collectPhysical R.depth nodeId)
  manifest : ∀ nodeId, Returns R.manifestBody nodeId (R.manifestFrom R.depth nodeId)
  descend : ∀ rolePath n segments, Returns (R.descendBody rolePath) (n, segments)
    (R.descend rolePath n segments)
  leaves : ∀ nodeId, (R.find nodeId).isSome → ∀ pathPrefix aliased,
    ∃ leaves, R.leafPathsFrom R.depth pathPrefix aliased nodeId = .ok leaves
  physical : ∀ nodeId, (R.find nodeId).isSome →
    ∃ physical, R.physicalDescendants nodeId = .ok physical

theorem Ordered.terminates [Cbor F] [Sha256] {R : Registry F} {order : List Str}
    (h : R.Ordered order) : R.Terminates where
  leafPaths := h.returns_leafPaths
  collect := h.returns_collect
  manifest := h.returns_manifest
  descend := R.returns_descend
  leaves nodeId hknown := h.exists_leafPaths (h.idxOf_lt_depth nodeId) hknown
  physical _ hknown := h.exists_physicalDescendants hknown

/-- `_validate_graph` raises the cycle error exactly on a cyclic child relation; behind it every
recursion ends. -/
theorem validateGraph_cycle [Cbor F] [Sha256] {R : Registry F} (hclosed : R.Closed) :
    ((∃ cycle, R.validateGraph = .error (cycleError cycle)) ↔
      ∃ nodeId, Relation.TransGen R.Refers nodeId nodeId) ∧
    (R.validateGraph = .ok () → R.Terminates) := by
  refine ⟨⟨?_, ?_⟩, ?_⟩
  · rintro ⟨cycle, herror⟩
    obtain ⟨hok, -⟩ | ⟨_, -, hcycle⟩ := validateGraph_cases hclosed
    · rw [hok] at herror
      cases herror
    · exact hcycle.transGen
  · rintro ⟨nodeId, hcycle⟩
    obtain ⟨-, order, horder⟩ | ⟨cycle, herror, -⟩ := validateGraph_cases hclosed
    · exact absurd hcycle (horder.not_transGen nodeId)
    · exact ⟨cycle, herror⟩
  · intro hok
    obtain ⟨order, horder⟩ := ordered_of_validateGraph hok
    exact horder.terminates

section Demo

local instance graphHash : Sha256 := lengthHash

def loopNode (nodeId childId : String) : ControlNode ℚ :=
  .composite { nodeId := py nodeId, revision := 1, exposedAsRunRoot := false
               children := [⟨py childId, py childId, false⟩] }

/-- Two composites that contain each other, and a robot. -/
def loopRegistry : Registry ℚ :=
  { serverId := py "example-server"
    nodes := [loopNode "a" "b", loopNode "b" "a", .physical demoRobot]
    identities := [] }

/-- The search finds the loop, and none around the demo robot. -/
theorem validateGraph_cycle_demo :
    (∃ cycle, loopRegistry.validateGraph = .error (cycleError cycle)) ∧ demoRegistry.Terminates := by
  have hloop : Refers loopRegistry (py "a") (py "b") :=
    ⟨loopNode "a" "b", rfl, _, List.mem_cons_self, rfl⟩
  have hback : Refers loopRegistry (py "b") (py "a") :=
    ⟨loopNode "b" "a", rfl, _, List.mem_cons_self, rfl⟩
  obtain ⟨_, hok⟩ := exists_of_isOk (show demoRegistry.validateGraph.isOk = true by decide)
  exact ⟨(validateGraph_cycle (by decide)).1.2 ⟨py "a", .tail (.single hloop) hback⟩,
    (validateGraph_cycle (by decide)).2 hok⟩

end Demo

end RemoteRobot.Registry
