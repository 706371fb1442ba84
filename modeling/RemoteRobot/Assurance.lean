import RemoteRobot.Graph

/-!
# What a composite promises

The manifest of a composite carries two claims about the whole cell below it, folded over the
watchdogs of `_physical_descendants`.  They are compared with the physical nodes the role paths lead
to: a node may be reached over many paths, and counts once.
-/

namespace RemoteRobot

open Py Except Registry

variable {F : Type}

/-! ## The physical nodes below a node -/

/-- The walk finds the nodes the role paths lead to. -/
theorem mem_collectPhysical {R : Registry F} {d : ℕ} {nodeId : Str} {found : List (PhysicalNode F)}
    (h : R.collectPhysical d nodeId = .ok found) {p : PhysicalNode F} :
    p ∈ found ↔ ∃ roles, Route R nodeId roles p := by
  induction d generalizing nodeId found with
  | zero => cases h
  | succ d ih =>
    unfold Registry.collectPhysical at h
    cases hn : R.find nodeId with
    | none =>
      rw [hn] at h
      cases h
    | some n =>
      rw [hn] at h
      cases n with
      | physical q =>
        obtain rfl := Except.ok.inj h
        rw [List.mem_singleton]
        constructor
        · rintro rfl
          exact ⟨[], .here hn⟩
        · rintro ⟨_, hroute⟩
          cases hroute with
          | here hp => exact ControlNode.physical.inj (Option.some.inj (hp.symm.trans hn))
          | child hc => cases hn.symm.trans hc
      | composite c =>
        obtain ⟨founds, hfounds, h⟩ := bind_eq_ok.1 h
        obtain rfl := Except.ok.inj h
        rw [mapM_eq_ok] at hfounds
        rw [List.mem_flatten]
        constructor
        · rintro ⟨below, hmem, hp⟩
          obtain ⟨child, hchild, hbelow⟩ := hfounds.exists_of_mem_right hmem
          obtain ⟨roles, hroute⟩ := (ih hbelow).1 hp
          exact ⟨child.role :: roles, .child hn hchild hroute⟩
        · rintro ⟨_, hroute⟩
          cases hroute with
          | here hp => cases hn.symm.trans hp
          | child hc hchild hroute =>
            obtain rfl := ControlNode.composite.inj (Option.some.inj (hn.symm.trans hc))
            obtain ⟨below, hmem, hbelow⟩ := hfounds.exists_of_mem_left hchild
            exact ⟨below, hmem, (ih hbelow).2 ⟨_, hroute⟩⟩

/-- Nodes are found by their IDs, so none is lost where a node is reached twice. -/
theorem mem_physicalDescendants {R : Registry F} {nodeId : Str} {physical : List (PhysicalNode F)}
    (h : R.physicalDescendants nodeId = .ok physical) {p : PhysicalNode F} :
    p ∈ physical ↔ ∃ roles, Route R nodeId roles p := by
  obtain ⟨found, hfound, h⟩ := bind_eq_ok.1 h
  obtain rfl := Except.ok.inj h
  have hroutes : ∀ q, q ∈ found ↔ ∃ roles, Route R nodeId roles q :=
    fun q => mem_collectPhysical hfound
  rw [← hroutes, List.mem_filterMap]
  constructor
  · rintro ⟨i, -, hp⟩
    exact List.mem_of_find?_eq_some hp
  · intro hp
    refine ⟨p.nodeId, mem_sortedSet.2 (List.mem_map_of_mem hp), ?_⟩
    obtain ⟨q, hq⟩ := Option.isSome_iff_exists.1
      (List.find?_isSome.2 ⟨p, hp, decide_eq_true rfl⟩ :
        (found.find? fun q => q.nodeId = p.nodeId).isSome)
    have hid : q.nodeId = p.nodeId := by
      have := List.find?_some hq
      exact of_decide_eq_true this
    obtain ⟨_, hroute⟩ := (hroutes q).1 (List.mem_of_find?_eq_some hq)
    obtain ⟨_, hroute'⟩ := (hroutes p).1 hp
    have hfind := hroute.find
    rw [hid, hroute'.find] at hfind
    rw [hq, ControlNode.physical.inj (Option.some.inj hfind)]

/-! ## The fold -/

/-- A claim is made when there is a node, and each has a watchdog that makes it. -/
theorem assurance_eq_true {physical : List (PhysicalNode F)} {flag : WatchdogSpec → Bool} :
    Registry.assurance physical flag = true ↔
      physical ≠ [] ∧ ∀ p ∈ physical, ∃ w, p.watchdog = some w ∧ flag w = true := by
  have hlength : (physical.filterMap PhysicalNode.watchdog).length = physical.length ↔
      ∀ p ∈ physical, p.watchdog.isSome := by
    rw [List.length_filterMap_eq_countP, List.countP_eq_length]
  unfold Registry.assurance
  rw [Bool.and_eq_true, Bool.and_eq_true, decide_eq_true_iff, beq_iff_eq, List.length_pos_iff, hlength,
    List.all_eq_true, and_assoc, and_congr_right_iff]
  intro _
  constructor
  · rintro ⟨hall, hflags⟩ p hp
    obtain ⟨w, hw⟩ := Option.isSome_iff_exists.1 (hall p hp)
    exact ⟨w, hw, hflags w (List.mem_filterMap.2 ⟨p, hp, hw⟩)⟩
  · intro h
    refine ⟨fun p hp => ?_, fun w hw => ?_⟩
    · obtain ⟨w, hw, -⟩ := h p hp
      exact hw ▸ rfl
    · obtain ⟨p, hp, hpw⟩ := List.mem_filterMap.1 hw
      obtain ⟨w', hw', hflag⟩ := h p hp
      rwa [Option.some.inj (hpw.symm.trans hw')]

/-- A physical node can be reached, and every one that can has a watchdog with the flag set. -/
def Assured (R : Registry F) (nodeId : Str) (flag : WatchdogSpec → Bool) : Prop :=
  (∃ roles p, Route R nodeId roles p) ∧
    ∀ roles p, Route R nodeId roles p → ∃ w, p.watchdog = some w ∧ flag w = true

theorem assurance_iff {R : Registry F} {nodeId : Str} {physical : List (PhysicalNode F)}
    (h : R.physicalDescendants nodeId = .ok physical) {flag : WatchdogSpec → Bool} :
    Registry.assurance physical flag = true ↔ Assured R nodeId flag := by
  rw [assurance_eq_true]
  constructor
  · rintro ⟨hne, hall⟩
    obtain ⟨p, hp⟩ := List.exists_mem_of_ne_nil _ hne
    obtain ⟨roles, hroute⟩ := (mem_physicalDescendants h).1 hp
    exact ⟨⟨roles, p, hroute⟩, fun _ q hq => hall q ((mem_physicalDescendants h).2 ⟨_, hq⟩)⟩
  · rintro ⟨⟨roles, p, hroute⟩, hall⟩
    refine ⟨List.ne_nil_of_mem ((mem_physicalDescendants h).2 ⟨roles, hroute⟩), fun q hq => ?_⟩
    obtain ⟨roles', hroute'⟩ := (mem_physicalDescendants h).1 hq
    exact hall roles' q hroute'

/-! ## Nested composites -/

/-- What is below a child is below its parent. -/
theorem Route.parent {R : Registry F} {nodeId childId : Str} (h : R.Refers nodeId childId)
    {roles : List Str} {p : PhysicalNode F} (hroute : Route R childId roles p) :
    ∃ role, Route R nodeId (role :: roles) p := by
  obtain ⟨n, hn, child, hmem, rfl⟩ := h
  cases n with
  | physical q => cases hmem
  | composite c => exact ⟨child.role, .child hn hmem hroute⟩

theorem Route.ancestor {R : Registry F} {nodeId target : Str}
    (h : Relation.TransGen R.Refers nodeId target) {roles : List Str} {p : PhysicalNode F}
    (hroute : Route R target roles p) : ∃ roles', Route R nodeId roles' p := by
  induction h using Relation.TransGen.head_induction_on with
  | single h => exact ⟨_, (hroute.parent h).choose_spec⟩
  | head h _ ih =>
    obtain ⟨roles', hroute'⟩ := ih
    exact ⟨_, (hroute'.parent h).choose_spec⟩

theorem Assured.nested {R : Registry F} {nodeId target : Str} {flag : WatchdogSpec → Bool}
    (h : Assured R nodeId flag) (hbelow : Relation.TransGen R.Refers nodeId target)
    (hreach : ∃ roles p, Route R target roles p) : Assured R target flag := by
  refine ⟨hreach, fun roles p hroute => ?_⟩
  obtain ⟨roles', hroute'⟩ := hroute.ancestor hbelow
  exact h.2 roles' p hroute'

/-- The watchdogs are checked, and each composite has a child. -/
def WellGuarded : ControlNode F → Prop
  | .physical p => ∀ w, p.watchdog = some w → w.unattendedOperationAllowed = true →
      w.workerCrashSafe = true
  | .composite c => c.children ≠ []

theorem wellGuarded_of_postInit [PyFloat F] [PyText F] {n : ControlNode F} (h : n.postInit = .ok ()) :
    WellGuarded n := by
  cases n with
  | physical p =>
    intro w hw hallowed
    simp only [ControlNode.postInit, bind_eq_ok, exists_unit, hw, WatchdogSpec.postInit,
      raiseIf_eq_ok, Bool.and_eq_false_iff, Bool.not_eq_false'] at h
    obtain ⟨-, ⟨-, -, -, hflags⟩, -⟩ := h
    exact hflags.resolve_left (by simp [hallowed])
  | composite c =>
    simp only [ControlNode.postInit, CompositeNode.postInit, bind_eq_ok, exists_unit,
      raiseIf_eq_ok] at h
    obtain ⟨-, -, -, hne, -⟩ := h
    intro hnil
    rw [hnil] at hne
    cases hne

/-- Every node of an ordered graph leads to a physical node. -/
theorem Registry.Ordered.exists_route {R : Registry F} {order : List Str} (h : R.Ordered order)
    (hguarded : ∀ n ∈ R.nodes, WellGuarded n) {d : ℕ} {nodeId : Str} (hd : order.idxOf nodeId < d)
    (hknown : (R.find nodeId).isSome) : ∃ roles p, Route R nodeId roles p := by
  induction d generalizing nodeId with
  | zero => exact absurd hd (Nat.not_lt_zero _)
  | succ d ih =>
    obtain ⟨n, hn⟩ := Option.isSome_iff_exists.1 hknown
    cases n with
    | physical p => exact ⟨[], p, .here hn⟩
    | composite c =>
      obtain ⟨child, hmem⟩ :=
        List.exists_mem_of_ne_nil _ (hguarded _ (List.mem_of_find?_eq_some hn) : c.children ≠ [])
      obtain ⟨roles, p, hroute⟩ :=
        ih ((h.idxOf_lt hn hmem).trans_le (Nat.le_of_lt_succ hd)) (h.find_child hn hmem)
      exact ⟨child.role :: roles, p, .child hn hmem hroute⟩

/-! ## The manifest -/

section Manifest

variable [Cbor F] [Sha256]

/-- The two claims in the manifest of a composite. -/
def Advertises (R : Registry F) (nodeId : Str) (crashSafe unattended : Bool) : Prop :=
  ∃ manifest, R.describe nodeId = .ok manifest ∧ manifest.getItem "assurances" =
    .ok (dictOf [("worker_crash_safe", .bool crashSafe),
      ("unattended_operation_allowed", .bool unattended)])

theorem exists_advertises {R : Registry F} {nodeId : Str} {c : CompositeNode}
    (hc : R.find nodeId = some (.composite c)) {fields : List (String × Val F)}
    (h : R.manifestFrom R.depth nodeId = .ok fields) :
    ∃ physical, R.physicalDescendants nodeId = .ok physical ∧
      Advertises R nodeId (Registry.assurance physical WatchdogSpec.workerCrashSafe)
        (Registry.assurance physical WatchdogSpec.unattendedOperationAllowed) := by
  have hdescribe : R.describe nodeId = .ok (dictOf fields) := map_eq_ok.2 ⟨fields, h, rfl⟩
  unfold Registry.depth Registry.manifestFrom at h
  obtain ⟨n, hn, h⟩ := bind_eq_ok.1 h
  obtain rfl := Option.some.inj (hc.symm.trans (node_eq_ok.1 hn))
  simp only [Registry.sealManifest, bind_eq_ok] at h
  obtain ⟨children, -, physical, hphysical, digest, -, h⟩ := h
  obtain rfl := Except.ok.inj h
  rw [nodeId_of_find hc] at hphysical
  refine ⟨physical, hphysical, _, hdescribe, ?_⟩
  simp [dictOf, Val.getItem, Registry.commonManifest, Registry.compositeManifest]

variable [PyFloat F] [PyText F]

namespace CapabilityRegistry

variable (R : CapabilityRegistry F)

theorem wellGuarded : ∀ n ∈ R.nodes, WellGuarded n := fun n hn =>
  wellGuarded_of_postInit ((checked_of_check R.accepted).nodes n hn)

theorem exists_route {nodeId : Str} (hknown : (R.find nodeId).isSome) :
    ∃ roles p, Route R.toRegistry nodeId roles p := by
  obtain ⟨order, horder⟩ := ordered_of_validateGraph (checked_of_check R.accepted).graph
  exact horder.exists_route R.wellGuarded (Nat.lt_succ_self _) hknown

/-- The claims of a composite of an accepted registry are the flags of all watchdogs below it. -/
theorem advertises {nodeId : Str} {c : CompositeNode} (hc : R.find nodeId = some (.composite c)) :
    ∃ crashSafe unattended, Advertises R.toRegistry nodeId crashSafe unattended ∧
      (crashSafe = true ↔ Assured R.toRegistry nodeId WatchdogSpec.workerCrashSafe) ∧
      (unattended = true ↔ Assured R.toRegistry nodeId WatchdogSpec.unattendedOperationAllowed) := by
  obtain ⟨fields, hfields⟩ :=
    (checked_of_check R.accepted).describes _ (List.mem_of_find?_eq_some hc)
  rw [show (ControlNode.composite c : ControlNode F).nodeId = nodeId from nodeId_of_find hc] at hfields
  obtain ⟨physical, hphysical, hadvertises⟩ := exists_advertises hc hfields
  exact ⟨_, _, hadvertises, assurance_iff hphysical, assurance_iff hphysical⟩

theorem crashSafe_of_unattended {nodeId : Str}
    (h : Assured R.toRegistry nodeId WatchdogSpec.unattendedOperationAllowed) :
    Assured R.toRegistry nodeId WatchdogSpec.workerCrashSafe := by
  refine ⟨h.1, fun roles p hroute => ?_⟩
  obtain ⟨w, hw, hflag⟩ := h.2 roles p hroute
  exact ⟨w, hw, R.wellGuarded _ hroute.mem w hw hflag⟩

/-- What a composite advertises: its flags hold exactly when a physical node is reachable and all
reachable ones have them, unattended operation comes with crash safety, and every nested composite
advertises the same. -/
theorem assurances_sound {nodeId : Str} {c : CompositeNode}
    (hc : R.find nodeId = some (.composite c)) :
    ∃ crashSafe unattended, Advertises R.toRegistry nodeId crashSafe unattended ∧
      (crashSafe = true ↔ Assured R.toRegistry nodeId WatchdogSpec.workerCrashSafe) ∧
      (unattended = true ↔ Assured R.toRegistry nodeId WatchdogSpec.unattendedOperationAllowed) ∧
      (unattended = true → crashSafe = true) ∧
      ∀ target c', Relation.TransGen R.Refers nodeId target → R.find target = some (.composite c') →
        ∃ crashSafe' unattended', Advertises R.toRegistry target crashSafe' unattended' ∧
          (crashSafe = true → crashSafe' = true) ∧ (unattended = true → unattended' = true) := by
  obtain ⟨crashSafe, unattended, hadvertises, hcrash, hallowed⟩ := R.advertises hc
  refine ⟨crashSafe, unattended, hadvertises, hcrash, hallowed, ?_, ?_⟩
  · exact fun h => hcrash.2 (R.crashSafe_of_unattended (hallowed.1 h))
  · intro target c' hbelow hc'
    obtain ⟨crashSafe', unattended', hadvertises', hcrash', hallowed'⟩ := R.advertises hc'
    have hreach := R.exists_route (hc' ▸ rfl : (R.find target).isSome)
    refine ⟨crashSafe', unattended', hadvertises', fun h => ?_, fun h => ?_⟩
    · exact hcrash'.2 ((hcrash.1 h).nested hbelow hreach)
    · exact hallowed'.2 ((hallowed.1 h).nested hbelow hreach)

end CapabilityRegistry

end Manifest

section Demo

local instance assuranceHash : Sha256 := lengthHash

/-- A robot whose watchdog survives a crash of its worker. -/
def guardedRobot (nodeId : String) (unattended : Bool) : ControlNode ℚ :=
  .physical { demoRobot with
    nodeId := py nodeId, groups := [demoGroup "arm" "base"]
    watchdog := some ⟨py "hardware", some 50, py "stop", true, unattended⟩ }

/-- The cell reaches the left robot through the pair and once more under another name. -/
def guardedRegistry : Registry ℚ :=
  { serverId := py "example-server"
    nodes := [.composite { nodeId := py "cell", revision := 1, exposedAsRunRoot := true
                           children := [⟨py "pair", py "pair", false⟩, ⟨py "main", py "left", true⟩] },
      .composite { nodeId := py "pair", revision := 1, exposedAsRunRoot := false
                   children := [⟨py "left", py "left", false⟩, ⟨py "right", py "right", false⟩] },
      guardedRobot "left" true, guardedRobot "right" false]
    identities := [] }

set_option maxRecDepth 20000 in
theorem guardedRegistry_accepted : guardedRegistry.check = .ok () := by
  have hok : guardedRegistry.check.isOk = true := by decide +kernel
  obtain ⟨_, h⟩ := exists_of_isOk hok
  exact h

/-- The cell, one robot of which may not be left alone, and the pair inside it. -/
theorem CapabilityRegistry.assurances_sound_demo :
    ∃ crashSafe unattended, Advertises guardedRegistry (py "cell") crashSafe unattended ∧
      (crashSafe = true ↔ Assured guardedRegistry (py "cell") WatchdogSpec.workerCrashSafe) ∧
      ∃ crashSafe' unattended', Advertises guardedRegistry (py "pair") crashSafe' unattended' ∧
        (crashSafe = true → crashSafe' = true) ∧ (unattended = true → unattended' = true) := by
  obtain ⟨crashSafe, unattended, hadvertises, hcrash, -, -, hnested⟩ :=
    assurances_sound ⟨guardedRegistry, guardedRegistry_accepted⟩
      (show guardedRegistry.find (py "cell") = some (.composite _) from rfl)
  refine ⟨crashSafe, unattended, hadvertises, hcrash, hnested (py "pair") _ ?_ rfl⟩
  exact .single ⟨_, rfl, _, List.mem_cons_self, rfl⟩

end Demo

end RemoteRobot
