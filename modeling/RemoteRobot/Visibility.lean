import RemoteRobot.Network
import RemoteRobot.Orchestrator.Execute
import RemoteRobot.Routes

/-!
# What a management client can learn

Two registries that agree on what is reachable from the nodes an identity may discover are one and
the same to that identity: the public fields decide the manifests (`manifestFrom_agree`), and the
manifests decide the replies (`ManagementEndpoint.dispatch_noninterference`).  Connection data is in
no manifest, and a hidden node is answered as if it did not exist.
-/

namespace RemoteRobot

open Py Except Registry

variable {F : Type}

/-! ## Public fields -/

/-- A physical node without its connection. -/
def PhysicalNode.publicPart (p : PhysicalNode F) : PhysicalNode F := { p with connection := [] }

def ControlNode.publicPart : ControlNode F → ControlNode F
  | .physical p => .physical p.publicPart
  | .composite c => .composite c

theorem ControlNode.physical_of_publicPart {p : PhysicalNode F} {n : ControlNode F}
    (h : (ControlNode.physical p).publicPart = n.publicPart) :
    ∃ p', n = .physical p' ∧ p.publicPart = p'.publicPart := by
  cases n with
  | physical p' => exact ⟨p', rfl, ControlNode.physical.inj h⟩
  | composite c => cases h

theorem ControlNode.composite_of_publicPart {c : CompositeNode} {n : ControlNode F}
    (h : (ControlNode.composite c : ControlNode F).publicPart = n.publicPart) :
    n = .composite c := by
  cases n with
  | physical p => cases h
  | composite c' => exact congrArg _ (ControlNode.composite.inj h).symm

theorem ControlNode.exposedAsRunRoot_publicPart (n : ControlNode F) :
    n.publicPart.exposedAsRunRoot = n.exposedAsRunRoot := by
  cases n <;> rfl

theorem commonManifest_publicPart (R : Registry F) (n : ControlNode F) :
    R.commonManifest n.publicPart = R.commonManifest n := by
  cases n <;> rfl

theorem commonManifest_agree {R R' : Registry F} (hserver : R.serverId = R'.serverId)
    {n n' : ControlNode F} (h : n.publicPart = n'.publicPart) :
    R.commonManifest n = R'.commonManifest n' := by
  rw [← commonManifest_publicPart R, ← commonManifest_publicPart R', h]
  unfold Registry.commonManifest
  rw [hserver]

theorem physicalManifest_agree {p p' : PhysicalNode F} (h : p.publicPart = p'.publicPart) :
    Registry.physicalManifest p = Registry.physicalManifest p' := by
  show Registry.physicalManifest p.publicPart = Registry.physicalManifest p'.publicPart
  rw [h]

theorem assurance_publicPart (physical : List (PhysicalNode F)) (flag : WatchdogSpec → Bool) :
    Registry.assurance (physical.map PhysicalNode.publicPart) flag =
      Registry.assurance physical flag := by
  unfold Registry.assurance
  rw [List.filterMap_map, List.length_map]
  rfl

theorem compositeManifest_agree (c : CompositeNode) (children : List (Val F))
    {physical physical' : List (PhysicalNode F)}
    (h : physical.map PhysicalNode.publicPart = physical'.map PhysicalNode.publicPart) :
    Registry.compositeManifest c children physical =
      Registry.compositeManifest c children physical' := by
  unfold Registry.compositeManifest
  rw [← assurance_publicPart physical, ← assurance_publicPart physical, h, assurance_publicPart,
    assurance_publicPart]

/-! ## Nodes in reach -/

/-- The second node is the first one, or is below it. -/
inductive Reachable (R : Registry F) : Str → Str → Prop
  | here {nodeId : Str} {n : ControlNode F} (h : R.find nodeId = some n) : Reachable R nodeId nodeId
  | child {nodeId : Str} {c : CompositeNode} {ref : ChildRef} {target : Str}
      (h : R.find nodeId = some (.composite c)) (href : ref ∈ c.children)
      (hreach : Reachable R ref.nodeId target) : Reachable R nodeId target

/-- What is reachable in either registry is in both, with the same public fields. -/
def AgreeBelow (R R' : Registry F) (nodeId : Str) : Prop :=
  ∀ target, Reachable R nodeId target ∨ Reachable R' nodeId target →
    ∃ n n', R.find target = some n ∧ R'.find target = some n' ∧ n.publicPart = n'.publicPart

namespace AgreeBelow

variable {R R' : Registry F} {nodeId : Str}

theorem find (h : AgreeBelow R R' nodeId) {n : ControlNode F} (hn : R.find nodeId = some n) :
    ∃ n', R'.find nodeId = some n' ∧ n.publicPart = n'.publicPart := by
  obtain ⟨m, n', hm, hn', hpublic⟩ := h nodeId (.inl (.here hn))
  obtain rfl := Option.some.inj (hn.symm.trans hm)
  exact ⟨n', hn', hpublic⟩

theorem find_eq_none (h : AgreeBelow R R' nodeId) (hn : R.find nodeId = none) :
    R'.find nodeId = none := by
  cases hn' : R'.find nodeId with
  | none => rfl
  | some n' =>
    obtain ⟨n, -, hfind, -⟩ := h nodeId (.inr (.here hn'))
    rw [hn] at hfind
    cases hfind

theorem find_physical (h : AgreeBelow R R' nodeId) {p : PhysicalNode F}
    (hp : R.find nodeId = some (.physical p)) :
    ∃ p', R'.find nodeId = some (.physical p') ∧ p.publicPart = p'.publicPart := by
  obtain ⟨n', hn', hpublic⟩ := h.find hp
  obtain ⟨p', rfl, hp'⟩ := ControlNode.physical_of_publicPart hpublic
  exact ⟨p', hn', hp'⟩

theorem find_composite (h : AgreeBelow R R' nodeId) {c : CompositeNode}
    (hc : R.find nodeId = some (.composite c)) : R'.find nodeId = some (.composite c) := by
  obtain ⟨n', hn', hpublic⟩ := h.find hc
  rw [hn', ControlNode.composite_of_publicPart hpublic]

theorem child (h : AgreeBelow R R' nodeId) {c : CompositeNode}
    (hc : R.find nodeId = some (.composite c)) {ref : ChildRef} (href : ref ∈ c.children) :
    AgreeBelow R R' ref.nodeId := by
  rintro target (hreach | hreach)
  · exact h target (.inl (.child hc href hreach))
  · exact h target (.inr (.child (h.find_composite hc) href hreach))

theorem symm (h : AgreeBelow R R' nodeId) : AgreeBelow R' R nodeId := by
  intro target hreach
  obtain ⟨n, n', hn, hn', hpublic⟩ := h target hreach.symm
  exact ⟨n', n, hn', hn, hpublic.symm⟩

end AgreeBelow

/-! ## Manifests of two registries -/

/-- Two loops over the same items that return have collected the same, if each turn has. -/
theorem map_eq_of_mapM {ε α β γ : Type} {f f' : α → Except ε β} {g : β → γ} {xs : List α}
    {ys ys' : List β} (h : ∀ x ∈ xs, ∀ y y', f x = .ok y → f' x = .ok y' → g y = g y')
    (hys : xs.mapM f = .ok ys) (hys' : xs.mapM f' = .ok ys') : ys.map g = ys'.map g := by
  rw [mapM_eq_ok] at hys hys'
  induction hys generalizing ys' with
  | nil =>
    rw [List.forall₂_nil_left_iff] at hys'
    rw [hys']
  | cons hy hrest ih =>
    rename_i x y xs ys
    rw [List.forall₂_cons_left_iff] at hys'
    obtain ⟨y', ys', hy', hrest', rfl⟩ := hys'
    rw [List.map_cons, List.map_cons, h x List.mem_cons_self y y' hy hy',
      ih (fun z hz => h z (List.mem_cons_of_mem x hz)) hrest']

theorem collectPhysical_agree {R R' : Registry F} {d d' : ℕ} {nodeId : Str}
    {found found' : List (PhysicalNode F)} (hagree : AgreeBelow R R' nodeId)
    (h : R.collectPhysical d nodeId = .ok found) (h' : R'.collectPhysical d' nodeId = .ok found') :
    found.map PhysicalNode.publicPart = found'.map PhysicalNode.publicPart := by
  induction d generalizing d' nodeId found found' with
  | zero => cases h
  | succ d ih =>
    cases d' with
    | zero => cases h'
    | succ d' =>
      unfold Registry.collectPhysical at h h'
      cases hn : R.find nodeId with
      | none =>
        rw [hn] at h
        cases h
      | some n =>
        cases n with
        | physical p =>
          obtain ⟨p', hp', hpublic⟩ := hagree.find_physical hn
          rw [hn] at h
          rw [hp'] at h'
          cases h
          cases h'
          rw [List.map_singleton, List.map_singleton, hpublic]
        | composite c =>
          rw [hn] at h
          rw [hagree.find_composite hn] at h'
          obtain ⟨founds, hfounds, h⟩ := bind_eq_ok.1 h
          obtain ⟨founds', hfounds', h'⟩ := bind_eq_ok.1 h'
          cases h
          cases h'
          rw [List.map_flatten, List.map_flatten, map_eq_of_mapM ?_ hfounds hfounds']
          exact fun ref href y y' hy hy' => ih (hagree.child hn href) hy hy'

/-- The descendants by ID. -/
def descendantsOf (found : List (PhysicalNode F)) : List (PhysicalNode F) :=
  (sortedSet (found.map PhysicalNode.nodeId)).filterMap fun i =>
    found.find? fun p => p.nodeId = i

theorem descendantsOf_publicPart (found : List (PhysicalNode F)) :
    (descendantsOf found).map PhysicalNode.publicPart =
      descendantsOf (found.map PhysicalNode.publicPart) := by
  unfold descendantsOf
  rw [List.map_filterMap, List.map_map]
  simp only [List.find?_map]
  rfl

theorem physicalDescendants_agree {R R' : Registry F} {nodeId : Str}
    {physical physical' : List (PhysicalNode F)} (hagree : AgreeBelow R R' nodeId)
    (h : R.physicalDescendants nodeId = .ok physical)
    (h' : R'.physicalDescendants nodeId = .ok physical') :
    physical.map PhysicalNode.publicPart = physical'.map PhysicalNode.publicPart := by
  obtain ⟨found, hfound, h⟩ := bind_eq_ok.1 h
  obtain ⟨found', hfound', h'⟩ := bind_eq_ok.1 h'
  obtain rfl := Except.ok.inj h
  obtain rfl := Except.ok.inj h'
  have hmap := collectPhysical_agree hagree hfound hfound'
  show (descendantsOf found).map _ = (descendantsOf found').map _
  rw [descendantsOf_publicPart, hmap, descendantsOf_publicPart]

section Manifest

variable [Cbor F] [Sha256]

/-- The depth of the recursion does not matter once it suffices. -/
theorem manifestFrom_agree {R R' : Registry F} (hserver : R.serverId = R'.serverId) {d d' : ℕ}
    {nodeId : Str} {m m' : List (String × Val F)} (hagree : AgreeBelow R R' nodeId)
    (h : R.manifestFrom d nodeId = .ok m) (h' : R'.manifestFrom d' nodeId = .ok m') : m = m' := by
  induction d generalizing d' nodeId m m' with
  | zero => cases h
  | succ d ih =>
    cases d' with
    | zero => cases h'
    | succ d' =>
      unfold Registry.manifestFrom at h h'
      obtain ⟨n, hnode, h⟩ := bind_eq_ok.1 h
      obtain ⟨n', hnode', h'⟩ := bind_eq_ok.1 h'
      have hn := node_eq_ok.1 hnode
      have hn' := node_eq_ok.1 hnode'
      obtain ⟨_, hfind, hpublic⟩ := hagree.find hn
      obtain rfl := Option.some.inj (hfind.symm.trans hn')
      have hcommon := commonManifest_agree hserver hpublic
      cases n with
      | physical p =>
        obtain ⟨p', rfl, hp'⟩ := ControlNode.physical_of_publicPart hpublic
        simp only at h h'
        rw [hcommon, physicalManifest_agree hp', h'] at h
        exact (Except.ok.inj h).symm
      | composite c =>
        obtain rfl := ControlNode.composite_of_publicPart hpublic
        simp only at h h'
        obtain ⟨children, hchildren, h⟩ := bind_eq_ok.1 h
        obtain ⟨children', hchildren', h'⟩ := bind_eq_ok.1 h'
        obtain ⟨physical, hphysical, h⟩ := bind_eq_ok.1 h
        obtain ⟨physical', hphysical', h'⟩ := bind_eq_ok.1 h'
        have hids := nodeId_of_find hn
        rw [hids] at hphysical hphysical'
        have hsame : children.map id = children'.map id := by
          refine map_eq_of_mapM (fun ref href v v' hv hv' => ?_) hchildren hchildren'
          obtain ⟨e, he, hv⟩ := bind_eq_ok.1 hv
          obtain ⟨e', he', hv'⟩ := bind_eq_ok.1 hv'
          obtain rfl := ih (hagree.child hn href) he he'
          exact Except.ok.inj (hv.symm.trans hv')
        rw [List.map_id, List.map_id] at hsame
        rw [hcommon, hsame, compositeManifest_agree c children'
          (physicalDescendants_agree hagree hphysical hphysical'), h'] at h
        exact (Except.ok.inj h).symm

variable [PyFloat F] [PyText F] {R R' : CapabilityRegistry F}

theorem describe_agree (hserver : R.serverId = R'.serverId) {nodeId : Str}
    (hagree : AgreeBelow R.toRegistry R'.toRegistry nodeId) :
    R.describe nodeId = R'.describe nodeId := by
  have hacc := accepted_of_check R.accepted
  have hacc' := accepted_of_check R'.accepted
  unfold Registry.describe
  cases hn : R.find nodeId with
  | none =>
    have hn' := hagree.find_eq_none hn
    unfold Registry.depth Registry.manifestFrom Registry.node
    rw [hn, hn']
    rfl
  | some n =>
    obtain ⟨n', hn', -⟩ := hagree.find hn
    obtain ⟨m, hm⟩ := hacc.manifests n (List.mem_of_find?_eq_some hn)
    obtain ⟨m', hm'⟩ := hacc'.manifests n' (List.mem_of_find?_eq_some hn')
    rw [nodeId_of_find hn] at hm
    rw [nodeId_of_find hn'] at hm'
    rw [hm, hm', manifestFrom_agree hserver hagree hm hm']

theorem manifestHash_agree (hserver : R.serverId = R'.serverId) {nodeId : Str}
    (hagree : AgreeBelow R.toRegistry R'.toRegistry nodeId) :
    R.manifestHash nodeId = R'.manifestHash nodeId := by
  unfold Registry.manifestHash
  rw [describe_agree hserver hagree]

/-! ## Replies -/

/-- The two registries show the identity the same nodes. -/
def SameView (R R' : Registry F) (i : IdentitySpec) : Prop :=
  ∀ nodeId, i.canDiscover nodeId = true → AgreeBelow R R' nodeId

theorem describeFor_agree (hserver : R.serverId = R'.serverId) {identityId : Str}
    (hidentity : (R.identity identityId : Except (Error F) IdentitySpec) = R'.identity identityId)
    (hview : ∀ i, (R.identity identityId : Except (Error F) IdentitySpec) = .ok i →
      SameView R.toRegistry R'.toRegistry i) (nodeId : Str) :
    R.describeFor nodeId identityId = R'.describeFor nodeId identityId := by
  unfold Registry.describeFor
  rw [← hidentity]
  cases hi : (R.identity identityId : Except (Error F) IdentitySpec) with
  | error e => rfl
  | ok i =>
    show (if i.canDiscover nodeId = true then _ else _) = ite _ _ _
    by_cases hcan : i.canDiscover nodeId = true
    · rw [if_pos hcan, if_pos hcan]
      exact describe_agree hserver (hview i hi nodeId hcan)
    · rw [if_neg hcan, if_neg hcan]

/-- `list_robots` shows the node. -/
def Shown (R : Registry F) (i : IdentitySpec) (nodeId : Str) : Bool :=
  (R.find nodeId).any ControlNode.exposedAsRunRoot && i.canDiscover nodeId

omit [Cbor F] [Sha256] [PyFloat F] [PyText F] in
theorem SameView.shown {R R' : Registry F} {i : IdentitySpec} (h : SameView R R' i) {nodeId : Str}
    (hmem : nodeId ∈ R.nodes.map ControlNode.nodeId ∧ Shown R i nodeId = true) :
    nodeId ∈ R'.nodes.map ControlNode.nodeId ∧ Shown R' i nodeId = true := by
  obtain ⟨-, hshown⟩ := hmem
  unfold Shown at hshown ⊢
  rw [Bool.and_eq_true] at hshown ⊢
  obtain ⟨hexposed, hcan⟩ := hshown
  obtain ⟨n, hn, hexposed⟩ := (Option.any_eq_true _ _).1 hexposed
  obtain ⟨n', hn', hpublic⟩ := (h nodeId hcan).find hn
  refine ⟨?_, ?_, hcan⟩
  · rw [← nodeId_of_find hn']
    exact List.mem_map_of_mem (List.mem_of_find?_eq_some hn')
  · rw [hn', Option.any_some, ← n'.exposedAsRunRoot_publicPart, ← hpublic,
      n.exposedAsRunRoot_publicPart, hexposed]

omit [Cbor F] [Sha256] [PyFloat F] [PyText F] in
theorem SameView.filter_shown {R R' : Registry F} {i : IdentitySpec} (h : SameView R R' i) :
    R.nodeIds.filter (Shown R i) = R'.nodeIds.filter (Shown R' i) :=
  filter_sortedSet_congr fun _ => ⟨h.shown, SameView.shown fun nodeId hcan => (h nodeId hcan).symm⟩

theorem listRobots_agree (hserver : R.serverId = R'.serverId) {identityId : Str}
    (hidentity : (R.identity identityId : Except (Error F) IdentitySpec) = R'.identity identityId)
    (hview : ∀ i, (R.identity identityId : Except (Error F) IdentitySpec) = .ok i →
      SameView R.toRegistry R'.toRegistry i) :
    R.listRobots identityId = R'.listRobots identityId := by
  unfold Registry.listRobots
  rw [← hidentity]
  cases hi : (R.identity identityId : Except (Error F) IdentitySpec) with
  | error e => rfl
  | ok i =>
    show (R.nodeIds.filter (Shown R.toRegistry i)).mapM R.describe =
      (R'.nodeIds.filter (Shown R'.toRegistry i)).mapM R'.describe
    rw [← (hview i hi).filter_shown]
    refine mapM_congr fun nodeId hmem => ?_
    obtain ⟨-, hshown⟩ := List.mem_filter.1 hmem
    exact describe_agree hserver (hview i hi nodeId (Bool.and_eq_true_iff.1 hshown).2)

namespace ManagementEndpoint

/-- A node the identity may not discover, or one that is not there. -/
theorem describeRobot_hidden (R : CapabilityRegistry F) (environ : Str → Option Str)
    {identityId nodeId : Str} (hhidden : R.find nodeId = none ∨
      ∀ i, (R.identity identityId : Except (Error F) IdentitySpec) = .ok i →
        i.canDiscover nodeId = false) :
    (⟨R.toRegistry, environ⟩ : ManagementEndpoint F).describeRobot identityId (.str nodeId) =
      .error (networkError "NOT_FOUND" "robot isn't visible to this identity") := by
  have hraise : ∃ m, R.describeFor nodeId identityId = .error (.registry m) := by
    unfold Registry.describeFor
    cases hi : (R.identity identityId : Except (Error F) IdentitySpec) with
    | error e =>
      unfold Registry.identity at hi
      split at hi
      · cases hi
      · cases hi
        exact ⟨_, rfl⟩
    | ok i =>
      by_cases hcan : i.canDiscover nodeId = true
      · obtain hnone | hno := hhidden
        · refine ⟨⟨"unknown node: %", [.str nodeId]⟩, ?_⟩
          show (if i.canDiscover nodeId = true then _ else _) = _
          rw [if_pos hcan]
          unfold Registry.describe Registry.depth Registry.manifestFrom Registry.node
          rw [hnone]
          rfl
        · rw [hno i hi] at hcan
          cases hcan
      · refine ⟨⟨"identity % is not allowed to discover %",
          [.str identityId, .str nodeId]⟩, ?_⟩
        show (if i.canDiscover nodeId = true then _ else _) = _
        rw [if_neg hcan]
  obtain ⟨m, hm⟩ := hraise
  unfold describeRobot
  simp only [hm]

theorem dispatch_agree (hserver : R.serverId = R'.serverId) {identityId : Str}
    (hidentity : (R.identity identityId : Except (Error F) IdentitySpec) = R'.identity identityId)
    (hview : ∀ i, (R.identity identityId : Except (Error F) IdentitySpec) = .ok i →
      SameView R.toRegistry R'.toRegistry i) (environ environ' : Str → Option Str) (method : Str)
    (params : Dict F) :
    (⟨R.toRegistry, environ⟩ : ManagementEndpoint F).dispatch identityId method params =
      (⟨R'.toRegistry, environ'⟩ : ManagementEndpoint F).dispatch identityId method params := by
  have hlist : (⟨R.toRegistry, environ⟩ : ManagementEndpoint F).listRobots identityId =
      (⟨R'.toRegistry, environ'⟩ : ManagementEndpoint F).listRobots identityId := by
    unfold listRobots
    simp only [listRobots_agree hserver hidentity hview]
  have hdescribe : ∀ v, (⟨R.toRegistry, environ⟩ : ManagementEndpoint F).describeRobot identityId v =
      (⟨R'.toRegistry, environ'⟩ : ManagementEndpoint F).describeRobot identityId v := by
    intro v
    unfold describeRobot
    simp only [describeFor_agree hserver hidentity hview]
  unfold dispatch
  rw [hlist, hdescribe]
  simp only [hserver]

/-- An identity gets the same replies and the same errors from two registries that agree on what it
may discover; a hidden node is answered like one that does not exist; and a manifest hash is fixed
by the public fields of the nodes below. -/
theorem dispatch_noninterference (R R' : CapabilityRegistry F) (environ environ' : Str → Option Str)
    (hserver : R.serverId = R'.serverId) {identityId : Str}
    (hidentity : (R.identity identityId : Except (Error F) IdentitySpec) = R'.identity identityId)
    (hview : ∀ i, (R.identity identityId : Except (Error F) IdentitySpec) = .ok i →
      SameView R.toRegistry R'.toRegistry i) :
    (∀ requests : List (Str × Dict F),
      (requests.map fun r =>
        (⟨R.toRegistry, environ⟩ : ManagementEndpoint F).dispatch identityId r.1 r.2) =
      requests.map fun r =>
        (⟨R'.toRegistry, environ'⟩ : ManagementEndpoint F).dispatch identityId r.1 r.2) ∧
    (∀ nodeId params, exactFields params ["node_id"] = .ok () →
      field "node_id" params = .str nodeId →
      (R.find nodeId = none ∨
        ∀ i, (R.identity identityId : Except (Error F) IdentitySpec) = .ok i →
          i.canDiscover nodeId = false) →
      (⟨R.toRegistry, environ⟩ : ManagementEndpoint F).dispatch identityId (py "describe_robot")
        params = .error (networkError "NOT_FOUND" "robot isn't visible to this identity")) ∧
    ∀ nodeId, AgreeBelow R.toRegistry R'.toRegistry nodeId →
      R.manifestHash nodeId = R'.manifestHash nodeId := by
  refine ⟨fun requests => ?_, fun nodeId params hexact hfield hhidden => ?_, fun nodeId hagree => ?_⟩
  · exact List.map_congr_left fun r _ =>
      dispatch_agree hserver hidentity hview environ environ' r.1 r.2
  · unfold dispatch
    rw [if_neg (by decide), if_pos rfl, hexact, hfield]
    exact describeRobot_hidden R environ hhidden
  · exact manifestHash_agree hserver hagree

end ManagementEndpoint

end Manifest

/-! ### A second robot behind the first -/

section Demo

local instance visibilityHash : Sha256 := lengthHash

/-- The demo robot at some address, and a robot the demo operator may not discover. -/
def crowdedRegistry : Registry ℚ :=
  { serverId := py "example-server"
    nodes := [.physical { demoRobot with nodeId := py "secret_robot", revision := 7 },
      .physical { demoRobot with connection := [(.str (py "port"), .str (py "/dev/ttyUSB0"))] }]
    identities := [demoOperator, { demoOperator with
      identityId := py "owner", discover := [py "*"] }] }

set_option maxRecDepth 20000 in
theorem crowdedRegistry_accepted : crowdedRegistry.check = .ok () := by
  have hok : crowdedRegistry.check.isOk = true := by decide +kernel
  obtain ⟨_, h⟩ := exists_of_isOk hok
  exact h

theorem sameView_demo : SameView demoRegistry crowdedRegistry demoOperator := by
  intro nodeId hcan target hreach
  have hid : nodeId = py "demo_robot" := by
    obtain hall | hone := Bool.or_eq_true_iff.1 hcan
    · exact absurd hall (by decide)
    · exact List.mem_singleton.1 (List.contains_iff_mem.1 hone)
  subst hid
  have htarget : target = py "demo_robot" := by
    obtain h | h := hreach
    · cases h with
      | here => rfl
      | child h => exact nomatch h
    · cases h with
      | here => rfl
      | child h => exact nomatch h
  subst htarget
  exact ⟨_, _, rfl, rfl, rfl⟩

/-- The operator cannot tell the two registries apart. -/
theorem ManagementEndpoint.dispatch_noninterference_demo :
    let visible : ManagementEndpoint ℚ := ⟨demoRegistry, fun _ => none⟩
    let crowded : ManagementEndpoint ℚ := ⟨crowdedRegistry, fun _ => none⟩
    (∀ requests : List (Str × Dict ℚ),
      (requests.map fun r => visible.dispatch (py "example_operator") r.1 r.2) =
        requests.map fun r => crowded.dispatch (py "example_operator") r.1 r.2) ∧
    crowdedRegistry.manifestHash (py "demo_robot") = demoRegistry.manifestHash (py "demo_robot") := by
  have hview : SameView demoRegistry crowdedRegistry demoOperator := sameView_demo
  have hidentity : (demoRegistry.identity (py "example_operator") : Except (Error ℚ) IdentitySpec) =
      crowdedRegistry.identity (py "example_operator") := rfl
  obtain ⟨hsame, -, hhash⟩ := dispatch_noninterference (F := ℚ)
    ⟨demoRegistry, demoRegistry_accepted⟩ ⟨crowdedRegistry, crowdedRegistry_accepted⟩
    (fun _ => none) (fun _ => none) rfl hidentity
    (fun i hi => by cases hi; exact hview)
  exact ⟨hsame, (hhash _ (hview _ (by decide))).symm⟩

end Demo

end RemoteRobot
