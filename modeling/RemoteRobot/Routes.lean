import RemoteRobot.Registry
import RemoteRobot.Lib.Except

/-!
# Role paths

A role path is the roles from a node to a physical node and a group of that node, joined with dots.
`_leaf_paths` lists these paths, each once, and `resolve_group` follows exactly them: both are
compared with the routes of the graph (`Route`).  A manifest is read back here as well
(`manifestFrom_eq_ok`).
-/

namespace RemoteRobot

open Py Except Registry

variable {F : Type}

/-! ## Dotted names -/

/-- A part of a dotted name. -/
def Segment (s : Str) : Prop := s ≠ [] ∧ 46 ∉ s

theorem split_ne_nil (sep : ℕ) (s : Str) : split sep s ≠ [] := by
  induction s with
  | nil => exact List.cons_ne_nil _ _
  | cons c s ih =>
    unfold split
    split_ifs
    · exact List.cons_ne_nil _ _
    · split
      · exact List.cons_ne_nil _ _
      · exact List.cons_ne_nil _ _

theorem split_append {s : Str} (h : 46 ∉ s) (t : Str) :
    split 46 (s ++ 46 :: t) = s :: split 46 t := by
  induction s with
  | nil => simp [split]
  | cons c s ih =>
    rw [List.mem_cons, not_or] at h
    rw [List.cons_append, split, if_neg (Ne.symm h.1), ih h.2]

theorem split_of_notMem {s : Str} (h : 46 ∉ s) : split 46 s = [s] := by
  induction s with
  | nil => rfl
  | cons c s ih =>
    rw [List.mem_cons, not_or] at h
    rw [split, if_neg (Ne.symm h.1), ih h.2]

theorem joinPath_cons_cons (s t : Str) (segments : List Str) :
    joinPath (s :: t :: segments) = s ++ 46 :: joinPath (t :: segments) := by
  rw [joinPath, List.append_assoc]
  · rfl
  · exact fun he => List.cons_ne_nil _ _ he

/-- Splitting undoes joining. -/
theorem split_joinPath {segments : List Str} (hne : segments ≠ []) (h : ∀ s ∈ segments, 46 ∉ s) :
    split 46 (joinPath segments) = segments := by
  induction segments with
  | nil => exact absurd rfl hne
  | cons s segments ih =>
    rw [List.forall_mem_cons] at h
    cases segments with
    | nil => exact split_of_notMem h.1
    | cons t segments =>
      rw [joinPath_cons_cons, split_append h.1, ih (List.cons_ne_nil _ _) h.2]

theorem joinPath_split (p : Str) : joinPath (split 46 p) = p := by
  induction p with
  | nil => rfl
  | cons c p ih =>
    obtain ⟨w, ws, hw⟩ := List.exists_cons_of_ne_nil (split_ne_nil 46 p)
    rw [hw] at ih
    rw [split, hw]
    by_cases hc : c = 46
    · rw [if_pos hc, joinPath_cons_cons, ih, hc]
      rfl
    · rw [if_neg hc, ← ih]
      cases ws with
      | nil => rfl
      | cons t ws =>
        simp only
        rw [joinPath_cons_cons, joinPath_cons_cons, List.cons_append]

/-- Joined segments are no empty name and neither start nor end with a dot. -/
theorem joinPath_ends {segments : List Str} (hne : segments ≠ []) (h : ∀ s ∈ segments, Segment s) :
    joinPath segments ≠ [] ∧ (joinPath segments).head? ≠ some 46 ∧
      (joinPath segments).getLast? ≠ some 46 := by
  induction segments with
  | nil => exact absurd rfl hne
  | cons s segments ih =>
    rw [List.forall_mem_cons] at h
    obtain ⟨hs, hdot⟩ := h.1
    have hhead : s.head? ≠ some 46 := fun he => hdot (List.mem_of_head? he)
    have hlast : s.getLast? ≠ some 46 := fun he => hdot (List.mem_of_getLast? he)
    cases segments with
    | nil => exact ⟨hs, hhead, hlast⟩
    | cons t segments =>
      obtain ⟨hrest, -, hend⟩ := ih (List.cons_ne_nil _ _) h.2
      obtain ⟨c, s, rfl⟩ := List.exists_cons_of_ne_nil hs
      rw [joinPath_cons_cons]
      refine ⟨?_, ?_, ?_⟩
      · exact List.cons_ne_nil _ _
      · exact hhead
      · rw [List.getLast?_append, List.getLast?_cons]
        rw [List.getLast?_eq_some_getLast hrest] at hend ⊢
        exact hend

/-! ## The names of an accepted registry -/

theorem node_eq_ok {R : Registry F} {nodeId : Str} {n : ControlNode F} :
    R.node nodeId = .ok n ↔ R.find nodeId = some n := by
  unfold Registry.node
  cases R.find nodeId <;> simp

theorem nodeId_of_find {R : Registry F} {nodeId : Str} {n : ControlNode F}
    (h : R.find nodeId = some n) : n.nodeId = nodeId := by
  have := List.find?_some h
  exact of_decide_eq_true this

section Names

variable [PyFloat F] [PyText F]

omit [PyFloat F] in
theorem segment_of_requireIdentifier {value : Str} {fieldName : String}
    (h : (requireIdentifier value fieldName : Except (Error F) Unit) = .ok ()) : Segment value := by
  unfold requireIdentifier at h
  split at h
  · cases h
  · rename_i c s
    split_ifs at h with hc hall
    refine ⟨List.cons_ne_nil _ _, fun hdot => hall ?_⟩
    refine List.any_eq_true.2 ⟨46, hdot, ?_⟩
    rw [PyText.isAlnum_ascii 46 (by decide)]
    decide

omit [PyFloat F] in
/-- The characters of an identifier are no blanks and no control characters. -/
theorem chars_of_requireIdentifier {value : Str} {fieldName : String}
    (h : (requireIdentifier value fieldName : Except (Error F) Unit) = .ok ()) :
    ∀ c ∈ value, isSpace c = false ∧ 32 ≤ c := by
  unfold requireIdentifier at h
  split at h
  · cases h
  · split_ifs at h with hc hall
    intro c hmem
    have hchar : (PyText.isAlnum F c || c == 95 || c == 45) = true := by
      by_contra hno
      exact hall (List.any_eq_true.2 ⟨c, hmem, by simpa using hno⟩)
    simp only [Bool.or_eq_true, beq_iff_eq] at hchar
    obtain (halnum | rfl) | rfl := hchar
    · refine ⟨PyText.not_isSpace_of_isAlnum c halnum, ?_⟩
      by_contra hlt
      rw [PyText.isAlnum_ascii c (by omega)] at halnum
      simp only [Bool.or_eq_true, Bool.and_eq_true, decide_eq_true_eq] at halnum
      omega
    · decide
    · decide

omit [PyFloat F] [PyText F] in
theorem requireUnique_eq_ok {values : List Str} {fieldName : String} :
    (requireUnique values fieldName : Except (Error F) Unit) = .ok () ↔ values.Nodup := by
  unfold requireUnique
  split_ifs with h <;> simp [h]

omit [PyFloat F] [PyText F] in
theorem raiseIf_eq_ok {condition : Bool} {text : String} :
    (raiseIf condition text : Except (Error F) Unit) = .ok () ↔ condition = false := by
  unfold raiseIf
  cases condition <;> simp

/-- The node, its groups and the roles of its children are named by identifiers. -/
def Identified : ControlNode F → Prop
  | .physical p => (requireIdentifier p.nodeId "node_id" : Except (Error F) Unit) = .ok () ∧
      ∀ g ∈ p.groups, (requireIdentifier g.groupId "group_id" : Except (Error F) Unit) = .ok ()
  | .composite c => (requireIdentifier c.nodeId "node_id" : Except (Error F) Unit) = .ok () ∧
      ∀ child ∈ c.children, (requireIdentifier child.role "child role" : Except (Error F) Unit) = .ok ()

theorem postInit_physical {p : PhysicalNode F} (h : (ControlNode.physical p).postInit = .ok ()) :
    (∀ g ∈ p.groups, g.postInit = .ok ()) ∧ p.postInit = .ok () := by
  simp only [ControlNode.postInit, bind_eq_ok, exists_unit, forM_eq_ok] at h
  obtain ⟨hgroups, h⟩ := h
  refine ⟨fun g hg => (hgroups g hg).2, ?_⟩
  split at h
  · exact h
  · exact (bind_eq_ok.1 h).choose_spec.2

theorem identified_of_postInit {n : ControlNode F} (h : n.postInit = .ok ()) : Identified n := by
  cases n with
  | physical p =>
    obtain ⟨hgroups, hp⟩ := postInit_physical h
    simp only [PhysicalNode.postInit, bind_eq_ok, exists_unit] at hp
    refine ⟨hp.1, fun g hg => ?_⟩
    have hg := hgroups g hg
    simp only [ActuatorGroupSpec.postInit, bind_eq_ok, exists_unit] at hg
    exact hg.1
  | composite c =>
    simp only [ControlNode.postInit, CompositeNode.postInit, bind_eq_ok, exists_unit, forM_eq_ok] at h
    obtain ⟨hchildren, hc, -⟩ := h
    refine ⟨hc, fun child hmem => ?_⟩
    have hchild := hchildren child hmem
    simp only [ChildRef.postInit, bind_eq_ok, exists_unit] at hchild
    exact hchild.1

/-- The groups of a physical node and the roles of a composite have distinct names without dots. -/
def WellNamed : ControlNode F → Prop
  | .physical p => p.groups ≠ [] ∧ (p.groups.map ActuatorGroupSpec.groupId).Nodup ∧
      ∀ g ∈ p.groups, Segment g.groupId
  | .composite c => (c.children.map ChildRef.role).Nodup ∧ ∀ child ∈ c.children, Segment child.role

theorem wellNamed_of_postInit {n : ControlNode F} (h : n.postInit = .ok ()) : WellNamed n := by
  have hidentified := identified_of_postInit h
  cases n with
  | physical p =>
    have hp := (postInit_physical h).2
    simp only [PhysicalNode.postInit, bind_eq_ok, exists_unit, requireUnique_eq_ok,
      raiseIf_eq_ok] at hp
    obtain ⟨-, -, -, hne, hnd, -⟩ := hp
    refine ⟨fun he => ?_, hnd, fun g hg => segment_of_requireIdentifier (hidentified.2 g hg)⟩
    rw [he] at hne
    cases hne
  | composite c =>
    simp only [ControlNode.postInit, CompositeNode.postInit, bind_eq_ok, exists_unit,
      requireUnique_eq_ok] at h
    obtain ⟨-, -, -, -, hnd, -⟩ := h
    exact ⟨hnd, fun child hc => segment_of_requireIdentifier (hidentified.2 child hc)⟩

end Names

theorem mem_nodeIds {R : Registry F} {nodeId : Str} :
    nodeId ∈ R.nodeIds ↔ (R.find nodeId).isSome := by
  unfold Registry.nodeIds Registry.find
  rw [mem_sortedSet, List.find?_isSome, List.mem_map]
  simp

/-- What `check` has looked at. -/
structure Checked [Cbor F] [Sha256] [PyFloat F] [PyText F] (R : Registry F) : Prop where
  nodes : ∀ n ∈ R.nodes, n.postInit = .ok ()
  graph : R.validateGraph = .ok ()
  aliases : ∀ c, ControlNode.composite c ∈ R.nodes → R.validateCompositeAliases c = .ok ()
  describes : ∀ n ∈ R.nodes, ∃ fields, R.manifestFrom R.depth n.nodeId = .ok fields

theorem checked_of_check [Cbor F] [Sha256] [PyFloat F] [PyText F] {R : Registry F}
    (h : R.check = .ok ()) : Checked R := by
  unfold Registry.check at h
  simp only [bind_eq_ok, exists_unit, forM_eq_ok] at h
  obtain ⟨hnodes, -, -, -, h⟩ := h
  split_ifs at h
  · cases h
  simp only [bind_eq_ok, exists_unit, forM_eq_ok] at h
  obtain ⟨-, hgraph, haliases, -, hdescribe⟩ := h
  refine ⟨hnodes, hgraph, fun c hc => haliases _ hc, fun n hn => ?_⟩
  have hid : n.nodeId ∈ R.nodeIds := mem_sortedSet.2 (List.mem_map_of_mem hn)
  obtain ⟨v, hv, -⟩ := hdescribe _ hid
  unfold Registry.describe at hv
  obtain ⟨fields, hfields, -⟩ := map_eq_ok.1 hv
  exact ⟨fields, hfields⟩

theorem identified_of_check [Cbor F] [Sha256] [PyFloat F] [PyText F] {R : Registry F}
    (h : R.check = .ok ()) : ∀ n ∈ R.nodes, Identified n :=
  fun n hn => identified_of_postInit ((checked_of_check h).nodes n hn)

/-- What an accepted registry is known to be. -/
structure Accepted [Cbor F] [Sha256] (R : Registry F) : Prop where
  named : ∀ n ∈ R.nodes, WellNamed n
  paths : ∀ c, ControlNode.composite c ∈ R.nodes → ∃ leaves, R.leafPaths c.nodeId = .ok leaves
  manifests : ∀ n ∈ R.nodes, ∃ fields, R.manifestFrom R.depth n.nodeId = .ok fields

theorem accepted_of_check [Cbor F] [Sha256] [PyFloat F] [PyText F] {R : Registry F}
    (h : R.check = .ok ()) : Accepted R := by
  have hchecked := checked_of_check h
  refine ⟨fun n hn => wellNamed_of_postInit (hchecked.nodes n hn), fun c hc => ?_,
    hchecked.describes⟩
  have haliases := hchecked.aliases c hc
  unfold Registry.validateCompositeAliases at haliases
  obtain ⟨leaves, hl, -⟩ := bind_eq_ok.1 haliases
  exact ⟨leaves, hl⟩

/-! ## Routes -/

/-- The roles lead from a node to a physical node. -/
inductive Route (R : Registry F) : Str → List Str → PhysicalNode F → Prop
  | here {nodeId : Str} {p : PhysicalNode F} (h : R.find nodeId = some (.physical p)) :
      Route R nodeId [] p
  | child {nodeId : Str} {c : CompositeNode} {ref : ChildRef} {roles : List Str}
      {p : PhysicalNode F} (h : R.find nodeId = some (.composite c)) (href : ref ∈ c.children)
      (hroute : Route R ref.nodeId roles p) : Route R nodeId (ref.role :: roles) p

theorem Route.find {R : Registry F} {nodeId : Str} {roles : List Str} {p : PhysicalNode F}
    (h : Route R nodeId roles p) : R.find p.nodeId = some (.physical p) := by
  induction h with
  | here h =>
    rename_i p
    rw [show p.nodeId = _ from nodeId_of_find h]
    exact h
  | child _ _ _ ih => exact ih

theorem Route.mem {R : Registry F} {nodeId : Str} {roles : List Str} {p : PhysicalNode F}
    (h : Route R nodeId roles p) : .physical p ∈ R.nodes := List.mem_of_find?_eq_some h.find

def AllNamed (R : Registry F) : Prop := ∀ n ∈ R.nodes, WellNamed n

theorem AllNamed.find {R : Registry F} (h : AllNamed R) {nodeId : Str} {n : ControlNode F}
    (hn : R.find nodeId = some n) : WellNamed n := h n (List.mem_of_find?_eq_some hn)

theorem Route.segments {R : Registry F} (hnamed : AllNamed R) {nodeId : Str} {roles : List Str}
    {p : PhysicalNode F} (h : Route R nodeId roles p) :
    (∀ s ∈ roles, Segment s) ∧ WellNamed (.physical p : ControlNode F) := by
  induction h with
  | here h => exact ⟨fun s hs => (List.not_mem_nil hs).elim, hnamed.find h⟩
  | child h href _ ih =>
    refine ⟨?_, ih.2⟩
    rw [List.forall_mem_cons]
    exact ⟨(hnamed.find h).2 _ href, ih.1⟩

/-- Splitting the role path of a group. -/
theorem Route.split_path {R : Registry F} (hnamed : AllNamed R) {nodeId : Str} {roles : List Str}
    {p : PhysicalNode F} {g : ActuatorGroupSpec F} (h : Route R nodeId roles p)
    (hg : g ∈ p.groups) : split 46 (joinPath (roles ++ [g.groupId])) = roles ++ [g.groupId] := by
  obtain ⟨hroles, hp⟩ := h.segments hnamed
  refine split_joinPath (List.append_ne_nil_of_right_ne_nil _ (List.cons_ne_nil _ _)) ?_
  intro s hs
  rw [List.mem_append, List.mem_singleton] at hs
  obtain hs | rfl := hs
  · exact (hroles s hs).2
  · exact (hp.2.2 g hg).2

/-- The roles lead to one node. -/
theorem Route.unique {R : Registry F} (hnamed : AllNamed R) {nodeId : Str} {roles : List Str}
    {p q : PhysicalNode F} (h : Route R nodeId roles p) (h' : Route R nodeId roles q) : p = q := by
  induction h with
  | here h =>
    cases h' with
    | here h' => exact ControlNode.physical.inj (Option.some.inj (h.symm.trans h'))
  | child h href _ ih =>
    generalize hroles : _ :: _ = roles' at h'
    cases h' with
    | here h' => cases hroles
    | child h' href' hroute =>
      obtain ⟨hrole, rfl⟩ := List.cons.inj hroles
      obtain rfl := ControlNode.composite.inj (Option.some.inj (h.symm.trans h'))
      rw [← List.inj_on_of_nodup_map (hnamed.find h).1 href href' hrole] at hroute
      exact ih hroute

/-- The segments of a leaf: the roles of a route and a group of the node it leads to. -/
def IsLeaf (R : Registry F) (nodeId : Str) (pathPrefix : List Str) (l : Leaf)
    (segments : List Str) : Prop :=
  ∃ roles p g, Route R nodeId roles p ∧ g ∈ p.groups ∧ segments = roles ++ [g.groupId] ∧
    l.path = joinPath (pathPrefix ++ segments) ∧ l.canonical = (p.nodeId, g.groupId)

/-- The leaves are those of all routes, each once. -/
def Enumerates (R : Registry F) (nodeId : Str) (pathPrefix : List Str) (leaves : List Leaf) :
    Prop :=
  ∃ segmentss : List (List Str), segmentss.Nodup ∧
    List.Forall₂ (IsLeaf R nodeId pathPrefix) leaves segmentss ∧
    ∀ roles p g, Route R nodeId roles p → g ∈ p.groups → roles ++ [g.groupId] ∈ segmentss

theorem enumerates_physical {R : Registry F} {nodeId : Str} {p : PhysicalNode F}
    (hnamed : AllNamed R) (h : R.find nodeId = some (.physical p)) (pathPrefix : List Str)
    (aliased : Bool) : Enumerates R nodeId pathPrefix (p.groups.map fun g =>
      ⟨(p.nodeId, g.groupId), joinPath (pathPrefix ++ [g.groupId]), aliased⟩) := by
  refine ⟨p.groups.map fun g => [g.groupId], ?_, ?_, ?_⟩
  · have hnd : (p.groups.map ActuatorGroupSpec.groupId).Nodup := (hnamed.find h).2.1
    have := hnd.map (f := fun i : Str => [i]) fun i j hij => List.singleton_inj.1 hij
    rwa [List.map_map] at this
  · rw [List.forall₂_map_left_iff, List.forall₂_map_right_iff, List.forall₂_same]
    exact fun g hg => ⟨[], p, g, .here h, hg, rfl, rfl, rfl⟩
  · intro roles q g hroute hg
    cases hroute with
    | here h' =>
      obtain rfl := ControlNode.physical.inj (Option.some.inj (h.symm.trans h'))
      exact List.mem_map.2 ⟨g, hg, rfl⟩
    | child h' =>
      rw [h] at h'
      cases h'

/-- The leaves below the children with the given references. -/
theorem enumerates_children {R : Registry F} {nodeId : Str} {c : CompositeNode}
    {pathPrefix : List Str} (h : R.find nodeId = some (.composite c)) {refs : List ChildRef}
    {leavess : List (List Leaf)} (hsub : ∀ ref ∈ refs, ref ∈ c.children)
    (hnd : (refs.map ChildRef.role).Nodup)
    (hall : List.Forall₂ (fun (ref : ChildRef) leaves =>
      Enumerates R ref.nodeId (pathPrefix ++ [ref.role]) leaves) refs leavess) :
    ∃ segmentss : List (List Str), segmentss.Nodup ∧
      List.Forall₂ (IsLeaf R nodeId pathPrefix) leavess.flatten segmentss ∧
      (∀ segments ∈ segmentss, ∃ ref ∈ refs, segments.head? = some ref.role) ∧
      ∀ ref ∈ refs, ∀ roles p g, Route R ref.nodeId roles p → g ∈ p.groups →
        ref.role :: roles ++ [g.groupId] ∈ segmentss := by
  induction hall with
  | nil =>
    refine ⟨[], List.nodup_nil, .nil, ?_, ?_⟩
    · intro segments hs
      cases hs
    · intro ref hr
      cases hr
  | cons hfirst hrest ih =>
    rename_i ref leaves refs leavess
    rw [List.map_cons, List.nodup_cons] at hnd
    rw [List.forall_mem_cons] at hsub
    obtain ⟨below, hnodup, hleaf, hcomplete⟩ := hfirst
    obtain ⟨others, hnodup', hleaf', hhead, hcomplete'⟩ := ih hsub.2 hnd.2
    refine ⟨below.map (ref.role :: ·) ++ others, ?_, ?_, ?_, ?_⟩
    · refine (hnodup.map (List.cons_injective)).append hnodup' ?_
      intro segments hs hs'
      obtain ⟨tail, -, rfl⟩ := List.mem_map.1 hs
      obtain ⟨ref', href', he⟩ := hhead _ hs'
      exact hnd.1 (List.mem_map.2 ⟨ref', href', (Option.some.inj he).symm⟩)
    · rw [List.flatten_cons]
      refine List.rel_append ?_ hleaf'
      rw [List.forall₂_map_right_iff]
      refine hleaf.imp ?_
      rintro l _ ⟨roles, p, g, hroute, hg, rfl, hpath, hcanonical⟩
      refine ⟨ref.role :: roles, p, g, .child h hsub.1 hroute, hg, rfl, ?_, hcanonical⟩
      rw [hpath, List.append_assoc]
      rfl
    · intro segments hs
      rw [List.mem_append, List.mem_map] at hs
      obtain ⟨tail, -, rfl⟩ | hs := hs
      · exact ⟨ref, List.mem_cons_self, rfl⟩
      · obtain ⟨ref', href', he⟩ := hhead segments hs
        exact ⟨ref', List.mem_cons_of_mem _ href', he⟩
    · rw [List.forall_mem_cons]
      refine ⟨fun roles p g hroute hg => ?_, fun ref' href' roles p g hroute hg => ?_⟩
      · exact List.mem_append_left _ (List.mem_map.2 ⟨_, hcomplete roles p g hroute hg, rfl⟩)
      · exact List.mem_append_right _ (hcomplete' ref' href' roles p g hroute hg)

/-- `_leaf_paths` lists the leaves of all routes. -/
theorem enumerates_leafPathsFrom {R : Registry F} (hnamed : AllNamed R) {d : ℕ}
    {pathPrefix : List Str} {aliased : Bool} {nodeId : Str} {leaves : List Leaf}
    (h : R.leafPathsFrom d pathPrefix aliased nodeId = .ok leaves) :
    Enumerates R nodeId pathPrefix leaves := by
  induction d generalizing pathPrefix aliased nodeId leaves with
  | zero => cases h
  | succ d ih =>
    unfold Registry.leafPathsFrom at h
    split at h
    · cases h
    · rename_i p hfind
      obtain rfl := Except.ok.inj h
      exact enumerates_physical hnamed hfind pathPrefix aliased
    · rename_i c hfind
      obtain ⟨leavess, hl, he⟩ := bind_eq_ok.1 h
      obtain rfl := Except.ok.inj he
      obtain ⟨segmentss, hnodup, hleaf, -, hcomplete⟩ := enumerates_children hfind
        (fun _ hr => hr) (hnamed.find hfind).1 ((mapM_eq_ok.1 hl).imp fun _ _ => ih)
      refine ⟨segmentss, hnodup, hleaf, fun roles p g hroute hg => ?_⟩
      cases hroute with
      | here h' =>
        rw [hfind] at h'
        cases h'
      | child h' href hroute =>
        rw [hfind] at h'
        obtain rfl := ControlNode.composite.inj (Option.some.inj h')
        exact hcomplete _ href _ p g hroute hg

/-- The paths are distinct. -/
theorem Enumerates.nodup {R : Registry F} (hnamed : AllNamed R) {nodeId : Str}
    {leaves : List Leaf} (h : Enumerates R nodeId [] leaves) : (leaves.map Leaf.path).Nodup := by
  obtain ⟨segmentss, hnodup, hleaf, -⟩ := h
  have hsplit : (leaves.map Leaf.path).map (split 46) = segmentss := by
    rw [List.map_map]
    refine List.forall₂_eq_eq_eq ▸ List.forall₂_map_left_iff.2 (hleaf.imp ?_)
    rintro l _ ⟨roles, p, g, hroute, hg, rfl, hpath, -⟩
    rw [Function.comp_apply, hpath, List.nil_append]
    exact hroute.split_path hnamed hg
  exact List.Nodup.of_map _ (hsplit ▸ hnodup)

/-! ## Following a role path -/

theorem find?_of_nodup {α β : Type} [DecidableEq β] {f : α → β} {xs : List α} {x : α}
    (hnd : (xs.map f).Nodup) (hx : x ∈ xs) : xs.find? (fun y => f y = f x) = some x := by
  induction xs with
  | nil => cases hx
  | cons y xs ih =>
    rw [List.map_cons, List.nodup_cons] at hnd
    rw [List.find?_cons]
    by_cases hy : f y = f x
    · obtain rfl | hx := List.mem_cons.1 hx
      · rw [decide_eq_true hy]
      · exact absurd (List.mem_map.2 ⟨x, hx, hy.symm⟩) hnd.1
    · rw [decide_eq_false hy]
      refine ih hnd.2 ((List.mem_cons.1 hx).resolve_left fun he => hy ?_)
      rw [he]

theorem child_eq_some {c : CompositeNode} {role : Str} {ref : ChildRef}
    (h : c.child role = some ref) : ref.role = role ∧ ref ∈ c.children := by
  unfold CompositeNode.child at h
  have hrole := List.find?_some h
  exact ⟨of_decide_eq_true hrole, List.mem_of_find?_eq_some h⟩

theorem group_eq_some {p : PhysicalNode F} {groupId : Str} {g : ActuatorGroupSpec F}
    (h : p.group groupId = some g) : g.groupId = groupId ∧ g ∈ p.groups := by
  unfold PhysicalNode.group at h
  have hid := List.find?_some h
  exact ⟨of_decide_eq_true hid, List.mem_of_find?_eq_some h⟩

theorem descend_of_route {R : Registry F} (hnamed : AllNamed R) {nodeId path : Str}
    {roles rest : List Str} {p : PhysicalNode F} {n : ControlNode F}
    (h : Route R nodeId roles p) (hn : R.find nodeId = some n) :
    R.descend path n (roles ++ rest) = .ok (p, rest) := by
  induction h generalizing n with
  | here h =>
    rw [h] at hn
    rw [← Option.some.inj hn, Registry.descend]
    rfl
  | child h href hroute ih =>
    rename_i nodeId c ref roles p
    rw [h] at hn
    rw [← Option.some.inj hn]
    have hchild : c.child ref.role = some ref := find?_of_nodup (hnamed.find h).1 href
    have hnext : ∃ next, R.find ref.nodeId = some next := by
      cases hroute with
      | here h => exact ⟨_, h⟩
      | child h => exact ⟨_, h⟩
    obtain ⟨next, hnext⟩ := hnext
    rw [List.cons_append, Registry.descend, hchild]
    exact bind_eq_ok.2 ⟨next, node_eq_ok.2 hnext, ih hnext⟩

theorem route_of_descend {R : Registry F} {nodeId path : Str} {segments rest : List Str}
    {p : PhysicalNode F} {n : ControlNode F} (hn : R.find nodeId = some n)
    (h : R.descend path n segments = .ok (p, rest)) :
    ∃ roles, Route R nodeId roles p ∧ segments = roles ++ rest := by
  induction segments generalizing nodeId n with
  | nil =>
    cases n with
    | physical q =>
      obtain ⟨rfl, rfl⟩ := Prod.mk.inj (Except.ok.inj h)
      exact ⟨[], .here hn, rfl⟩
    | composite c => cases h
  | cons role segments ih =>
    cases n with
    | physical q =>
      obtain ⟨rfl, rfl⟩ := Prod.mk.inj (Except.ok.inj h)
      exact ⟨[], .here hn, rfl⟩
    | composite c =>
      unfold Registry.descend at h
      split at h
      · cases h
      · rename_i ref href
        obtain ⟨next, hnext, h⟩ := bind_eq_ok.1 h
        obtain ⟨roles, hroute, rfl⟩ := ih (node_eq_ok.1 hnext) h
        obtain ⟨rfl, hmem⟩ := child_eq_some href
        exact ⟨ref.role :: roles, .child hn hmem hroute, rfl⟩

/-- `resolve_group` follows the routes. -/
theorem resolveGroup_eq_ok {R : Registry F} (hnamed : AllNamed R) {rootId path : Str}
    {r : ResolvedGroup F} : R.resolveGroup rootId path = .ok r ↔
      ∃ roles p g, Route R rootId roles p ∧ g ∈ p.groups ∧ path = joinPath (roles ++ [g.groupId]) ∧
        r = ⟨rootId, path, p.nodeId, g.groupId, g⟩ := by
  constructor
  · intro h
    unfold Registry.resolveGroup at h
    split_ifs at h
    obtain ⟨root, hroot, h⟩ := bind_eq_ok.1 h
    obtain ⟨⟨p, rest⟩, hd, h⟩ := bind_eq_ok.1 h
    simp only at h
    split at h
    · rename_i groupId
      split at h
      · cases h
      · rename_i g hg
        obtain ⟨roles, hroute, hsplit⟩ := route_of_descend (node_eq_ok.1 hroot) hd
        obtain ⟨rfl, hmem⟩ := group_eq_some hg
        refine ⟨roles, p, g, hroute, hmem, ?_, (Except.ok.inj h).symm⟩
        rw [← hsplit, joinPath_split]
    · cases h
  · rintro ⟨roles, p, g, hroute, hg, rfl, rfl⟩
    obtain ⟨hroles, hp⟩ := hroute.segments hnamed
    have hne : roles ++ [g.groupId] ≠ [] :=
      List.append_ne_nil_of_right_ne_nil _ (List.cons_ne_nil _ _)
    have hsegments : ∀ s ∈ roles ++ [g.groupId], Segment s := by
      intro s hs
      rw [List.mem_append, List.mem_singleton] at hs
      obtain hs | rfl := hs
      · exact hroles s hs
      · exact hp.2.2 g hg
    have hsplit := hroute.split_path hnamed hg
    obtain ⟨hpath, hhead, hlast⟩ := joinPath_ends hne hsegments
    have hempty : ¬(roles ++ [g.groupId]).any List.isEmpty = true := by
      rw [List.any_eq_true]
      rintro ⟨s, hs, he⟩
      exact (hsegments s hs).1 (List.isEmpty_iff.1 he)
    have hroot : ∃ root, R.find rootId = some root := by
      cases hroute with
      | here h => exact ⟨_, h⟩
      | child h => exact ⟨_, h⟩
    obtain ⟨root, hroot⟩ := hroot
    have hgroup : p.group g.groupId = some g := find?_of_nodup hp.2.1 hg
    unfold Registry.resolveGroup
    rw [if_neg (not_or.2 ⟨hpath, not_or.2 ⟨hhead, hlast⟩⟩), hsplit, if_neg hempty]
    refine bind_eq_ok.2 ⟨root, node_eq_ok.2 hroot, bind_eq_ok.2 ⟨(p, [g.groupId]), ?_, ?_⟩⟩
    · exact descend_of_route hnamed hroute hroot
    · simp only [hgroup]

/-! ## Manifests the registry makes -/

section Manifests

variable [Cbor F] [Sha256]

/-- What the manifest of a node holds besides the common fields and the digest. -/
def OwnManifest (R : Registry F) (d : ℕ) : ControlNode F → List (String × Val F) → Prop
  | .physical p, own => own = Registry.physicalManifest p
  | .composite c, own => ∃ children physical, own = Registry.compositeManifest c children physical ∧
      List.Forall₂ (fun (child : ChildRef) v => ∃ m, R.manifestFrom d child.nodeId = .ok m ∧
        Registry.childManifest child m = (.ok v : Except (Error F) (Val F))) c.children children

theorem manifestFrom_eq_ok {R : Registry F} {d : ℕ} {nodeId : Str} {fields : List (String × Val F)}
    (h : R.manifestFrom d nodeId = .ok fields) :
    ∃ e n own digest, d = e + 1 ∧ R.find nodeId = some n ∧ OwnManifest R e n own ∧
      fields = R.commonManifest n ++ own ++ [("manifest_hash", Val.str digest)] ∧
      canonicalCborSha256 (dictOf (R.commonManifest n ++ own)) = .ok digest := by
  cases d with
  | zero => cases h
  | succ e =>
    unfold Registry.manifestFrom at h
    simp only [bind_eq_ok] at h
    obtain ⟨n, hn, h⟩ := h
    rw [node_eq_ok] at hn
    cases n with
    | physical p =>
      simp only [Registry.sealManifest, bind_eq_ok] at h
      obtain ⟨digest, hd, h⟩ := h
      exact ⟨e, _, _, digest, rfl, hn, rfl, (Except.ok.inj h).symm, hd⟩
    | composite c =>
      simp only [Registry.sealManifest, bind_eq_ok] at h
      obtain ⟨children, hc, physical, -, digest, hd, h⟩ := h
      refine ⟨e, _, _, digest, rfl, hn, ⟨children, physical, rfl, ?_⟩, (Except.ok.inj h).symm, hd⟩
      refine (mapM_eq_ok.1 hc).imp fun child v hv => ?_
      rwa [bind_eq_ok] at hv

theorem getItem_manifestHash {R : Registry F} {d : ℕ} {n : ControlNode F}
    {own : List (String × Val F)} (hown : OwnManifest R d n own) (digest : Str) :
    (dictOf (R.commonManifest n ++ own ++ [("manifest_hash", Val.str digest)])).getItem "manifest_hash" =
      .ok (.str digest) := by
  cases n with
  | physical p =>
    obtain rfl := hown
    simp [dictOf, Val.getItem, Registry.commonManifest, Registry.physicalManifest]
  | composite c =>
    obtain ⟨children, physical, rfl, -⟩ := hown
    simp [dictOf, Val.getItem, Registry.commonManifest, Registry.compositeManifest]

/-- The manifest of a node, with the hash at its end. -/
theorem manifestHash_eq_ok [PyText F] {R : Registry F} {nodeId h : Str}
    (hash : R.manifestHash nodeId = .ok h) :
    ∃ body, R.manifestFrom R.depth nodeId = .ok (body ++ [("manifest_hash", Val.str h)]) ∧
      canonicalCborSha256 (dictOf body) = .ok h := by
  simp only [Registry.manifestHash, Registry.describe, bind_eq_ok, map_eq_ok] at hash
  obtain ⟨_, ⟨m, hm, rfl⟩, v, hv, hh⟩ := hash
  obtain ⟨e, n, own, digest, -, -, hown, rfl, hdigest⟩ := manifestFrom_eq_ok hm
  rw [getItem_manifestHash hown, liftExc_ok] at hv
  obtain rfl := Except.ok.inj hv
  obtain rfl : digest = h := Except.ok.inj hh
  exact ⟨_, hm, hdigest⟩

end Manifests

end RemoteRobot
