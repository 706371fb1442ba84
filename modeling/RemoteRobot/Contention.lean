import RemoteRobot.Lib.CborCodec
import RemoteRobot.Lease

/-!
# Acquiring as a transaction

`acquire` takes all requested targets or none.  What it answers depends on the run's own grant and
the owners of the requested targets only (`attempt`), so acquires of requests that share no target
do not see each other, and the conflicts it raises are the owned targets in the order of their kinds
and keys.
-/

namespace RemoteRobot

open Py

/-! ## The order of the targets -/

/-- `(kind, key) < (kind', key')` -/
def TargetBefore (a b : String × Str) : Prop :=
  py a.1 ≠ py b.1 ∧ strLe (py a.1) (py b.1) = true ∨
    a.1 = b.1 ∧ a.2 ≠ b.2 ∧ strLe a.2 b.2 = true

theorem pairwise_sortedSet (names : List Str) :
    (sortedSet names).Pairwise fun a b => a ≠ b ∧ strLe a b = true := by
  have htotal : Std.Total fun a b : Str => strLe a b = true := ⟨strLe_total⟩
  have htrans : IsTrans Str fun a b => strLe a b = true := ⟨fun _ _ _ => strLe_trans⟩
  have hsorted : (sortedSet names).Pairwise fun a b => strLe a b = true :=
    List.pairwise_insertionSort _ _
  exact (nodup_sortedSet names).and hsorted

def LeaseTarget.name (t : LeaseTarget) : String × Str := (t.kind.name, t.key)

/-- The targets of a request are in order. -/
theorem pairwise_targets {leaves resources safetyDomains : List Str} {request : LeaseRequest}
    (h : LeaseRequest.make leaves resources safetyDomains = .ok request) :
    request.targets.Pairwise fun a b => TargetBefore a.name b.name := by
  have hkind : ∀ (kind : LeaseKind) (names : List Str),
      ((sortedSet names).map (LeaseTarget.mk kind)).Pairwise fun a b =>
        TargetBefore a.name b.name := fun kind names =>
    List.pairwise_map.2 ((pairwise_sortedSet names).imp fun hab => .inr ⟨rfl, hab⟩)
  obtain rfl := LeaseRequest.make_eq_ok h
  unfold LeaseRequest.targets
  rw [List.pairwise_append, List.pairwise_append]
  refine ⟨⟨hkind _ _, hkind _ _, ?_⟩, hkind _ _, ?_⟩
  · intro a ha b hb
    obtain ⟨_, -, rfl⟩ := List.mem_map.1 ha
    obtain ⟨_, -, rfl⟩ := List.mem_map.1 hb
    exact .inl (by decide :
      py "leaf" ≠ py "resource" ∧ strLe (py "leaf") (py "resource") = true)
  · intro a ha b hb
    obtain ⟨_, -, rfl⟩ := List.mem_map.1 hb
    rcases List.mem_append.1 ha with ha | ha
    · obtain ⟨_, -, rfl⟩ := List.mem_map.1 ha
      exact .inl (by decide :
      py "leaf" ≠ py "safety_domain" ∧ strLe (py "leaf") (py "safety_domain") = true)
    · obtain ⟨_, -, rfl⟩ := List.mem_map.1 ha
      exact .inl (by decide :
      py "resource" ≠ py "safety_domain" ∧ strLe (py "resource") (py "safety_domain") = true)

namespace LeaseManager

variable {m n : LeaseManager} {runId : Str} {leaves resources safetyDomains : List Str} {ns : ℕ}
  {request : LeaseRequest}

/-! ## What `acquire` answers -/

/-- The conflicts as the exception carries them. -/
def conflictItems (m : LeaseManager) (runId : Str) (request : LeaseRequest) :
    List ((String × Str) × Str) :=
  (m.conflicts runId request).map fun c => ((c.1.kind.name, c.1.key), c.2)

/-- The answer to a request without the clock reading of its receipt. -/
def attempt (m : LeaseManager) (runId : Str) (request : LeaseRequest) :
    Except LeaseError (Str × LeaseRequest) :=
  match m.grantFor runId with
  | some existing =>
    if existing.request = request then .ok (existing.runId, existing.request)
    else .error (.requestMismatch runId)
  | none =>
    if m.conflicts runId request = [] then .ok (runId, request)
    else .error (.conflict runId (m.conflictItems runId request))

/-- A result without the clock reading. -/
def outcome (result : Except LeaseError LeaseReceipt) : Except LeaseError (Str × LeaseRequest) :=
  result.map fun g => (g.runId, g.request)

theorem conflicts_congr (h : ∀ t ∈ request.targets, m.ownerOf t = n.ownerOf t) :
    m.conflicts runId request = n.conflicts runId request :=
  List.filterMap_congr fun t ht => by rw [h t ht]

/-- Only the run's grant and the owners of the requested targets matter. -/
theorem attempt_congr (hgrant : m.grantFor runId = n.grantFor runId)
    (howner : ∀ t ∈ request.targets, m.ownerOf t = n.ownerOf t) :
    m.attempt runId request = n.attempt runId request := by
  unfold attempt conflictItems
  rw [hgrant, conflicts_congr howner]

section Canonical

variable (hrun : canonicalKey runId = true)
  (hmake : LeaseRequest.make leaves resources safetyDomains = .ok request)
include hrun hmake

theorem acquire_of_grant {existing : LeaseReceipt} (h : m.grantFor runId = some existing) :
    m.acquire runId leaves resources safetyDomains ns =
      (m, if existing.request = request then .ok existing else .error (.requestMismatch runId)) := by
  unfold acquire
  rw [show leaseRunId runId = .ok runId from if_pos hrun, hmake]
  simp only [h]
  split_ifs <;> rfl

theorem acquire_of_none (h : m.grantFor runId = none) :
    m.acquire runId leaves resources safetyDomains ns =
      if m.conflicts runId request = [] then
        ({ owners := setOwners runId m.owners request.targets
           grants := m.grants.insert runId ⟨runId, request, ns⟩ }, .ok ⟨runId, request, ns⟩)
      else (m, .error (.conflict runId (m.conflictItems runId request))) := by
  unfold acquire
  rw [show leaseRunId runId = .ok runId from if_pos hrun, hmake]
  simp only [h, ne_eq, ite_not]
  rfl

theorem acquire_outcome :
    outcome (m.acquire runId leaves resources safetyDomains ns).2 = m.attempt runId request := by
  unfold attempt
  cases hg : m.grantFor runId with
  | some existing =>
    rw [acquire_of_grant hrun hmake hg]
    simp only
    split_ifs <;> rfl
  | none =>
    rw [acquire_of_none hrun hmake hg]
    split_ifs <;> rfl

/-- A run that gets its grant owns the requested targets; nothing else changes hands. -/
theorem Inv.ownerOf_acquire (hI : m.Inv) (t : LeaseTarget) :
    (m.acquire runId leaves resources safetyDomains ns).1.ownerOf t =
      if (m.attempt runId request).isOk = true ∧ t ∈ request.targets then some runId
      else m.ownerOf t := by
  unfold attempt
  cases hg : m.grantFor runId with
  | some existing =>
    rw [acquire_of_grant hrun hmake hg]
    simp only
    split_ifs with hsame hok hok
    · obtain ⟨-, ht⟩ := hok
      exact (hI.owner_iff t runId).2 ⟨existing, hg, hsame ▸ ht⟩
    · rfl
    · cases hok.1
    · rfl
  | none =>
    rw [acquire_of_none hrun hmake hg]
    simp only
    by_cases hc : m.conflicts runId request = []
    · rw [if_pos hc, if_pos hc]
      show (setOwners runId m.owners request.targets).get t = _
      rw [get_setOwners]
      by_cases ht : t ∈ request.targets
      · rw [if_pos ht, if_pos ⟨rfl, ht⟩]
      · rw [if_neg ht, if_neg fun h => ht h.2]
        rfl
    · rw [if_neg hc, if_neg hc, if_neg fun h => nomatch h.1]

theorem grantFor_acquire {r : Str} (hne : r ≠ runId) :
    (m.acquire runId leaves resources safetyDomains ns).1.grantFor r = m.grantFor r := by
  cases hg : m.grantFor runId with
  | some existing => rw [acquire_of_grant hrun hmake hg]
  | none =>
    rw [acquire_of_none hrun hmake hg]
    split_ifs
    · show Table.get (m.grants.insert runId _) r = _
      rw [Table.get_insert, if_neg hne]
      rfl
    · rfl

end Canonical

/-! ## Conflicts -/

/-- Without a grant the run owns nothing, so each owned target is a conflict. -/
theorem Inv.mem_conflicts (hI : m.Inv) (hnone : m.grantFor runId = none) {t : LeaseTarget}
    {owner : Str} : (t, owner) ∈ m.conflicts runId request ↔
      t ∈ request.targets ∧ m.ownerOf t = some owner := by
  have hother : ∀ t, m.ownerOf t ≠ some runId := by
    intro t ht
    obtain ⟨g, hg, -⟩ := (hI.owner_iff t runId).1 ht
    rw [hnone] at hg
    cases hg
  unfold conflicts
  rw [List.mem_filterMap]
  constructor
  · rintro ⟨s, hs, h⟩
    cases howner : m.ownerOf s with
    | none =>
      rw [howner] at h
      cases h
    | some heldBy =>
      rw [howner] at h
      simp only at h
      split_ifs at h
      cases h
      exact ⟨hs, howner⟩
  · rintro ⟨ht, howner⟩
    refine ⟨t, ht, ?_⟩
    rw [howner]
    exact if_neg fun he => hother t (by rw [howner, he])

theorem Inv.mem_conflictItems (hI : m.Inv) (hnone : m.grantFor runId = none)
    {item : (String × Str) × Str} : item ∈ m.conflictItems runId request ↔
      ∃ t ∈ request.targets, t.name = item.1 ∧ m.ownerOf t = some item.2 := by
  unfold conflictItems
  rw [List.mem_map]
  constructor
  · rintro ⟨⟨t, owner⟩, hmem, rfl⟩
    obtain ⟨ht, howner⟩ := (hI.mem_conflicts hnone).1 hmem
    exact ⟨t, ht, rfl, howner⟩
  · rintro ⟨t, ht, hname, howner⟩
    refine ⟨(t, item.2), (hI.mem_conflicts hnone).2 ⟨ht, howner⟩, ?_⟩
    exact Prod.ext hname rfl

theorem pairwise_conflictItems
    (hmake : LeaseRequest.make leaves resources safetyDomains = .ok request) :
    (m.conflictItems runId request).Pairwise fun a b => TargetBefore a.1 b.1 := by
  unfold conflictItems conflicts
  rw [List.pairwise_map]
  refine (pairwise_targets hmake).filterMap _ fun a b hab x hx y hy => ?_
  split at hx
  · split_ifs at hx
    cases hx
    split at hy
    · split_ifs at hy
      cases hy
      exact hab
    · cases hy
  · cases hx

theorem Inv.conflicts_ne_nil_iff (hI : m.Inv) (hnone : m.grantFor runId = none) :
    m.conflicts runId request ≠ [] ↔ ∃ t ∈ request.targets, ∃ owner, m.ownerOf t = some owner := by
  constructor
  · intro h
    obtain ⟨⟨t, owner⟩, hmem⟩ := List.exists_mem_of_ne_nil _ h
    obtain ⟨ht, howner⟩ := (hI.mem_conflicts hnone).1 hmem
    exact ⟨t, ht, owner, howner⟩
  · rintro ⟨t, ht, owner, howner⟩ h
    have hmem : (t, owner) ∈ m.conflicts runId request := (hI.mem_conflicts hnone).2 ⟨ht, howner⟩
    rw [h] at hmem
    cases hmem

theorem acquire_conflict_iff (hrun : canonicalKey runId = true)
    (hmake : LeaseRequest.make leaves resources safetyDomains = .ok request)
    (hnone : m.grantFor runId = none) :
    (∃ conflicts, (m.acquire runId leaves resources safetyDomains ns).2 =
      .error (.conflict runId conflicts)) ↔ m.conflicts runId request ≠ [] := by
  rw [acquire_of_none hrun hmake hnone]
  split_ifs with hc
  · exact iff_of_false nofun fun h => h hc
  · exact iff_of_true ⟨_, rfl⟩ hc

/-- The grant a run gets is kept, with the request it was asked for. -/
theorem grant_of_acquire
    (hmake : LeaseRequest.make leaves resources safetyDomains = .ok request) {g : LeaseReceipt}
    (h : (m.acquire runId leaves resources safetyDomains ns).2 = .ok g) :
    (m.acquire runId leaves resources safetyDomains ns).1.grantFor runId = some g ∧
      g.request = request := by
  cases hx : m.acquire runId leaves resources safetyDomains ns with
  | mk m' r =>
  rw [hx] at h
  cases h
  refine ⟨(grantFor_of_acquire hx runId).trans (if_pos rfl), ?_⟩
  have hrequest := LeaseRequest.make_eq_ok hmake
  rcases acquire_cases hx with ⟨-, e, he⟩ | ⟨-, g', hg', -, hreq⟩ | ⟨g', hg', -, -, hreq, -⟩
  · cases he
  · cases hg'
    rw [hreq, hrequest]
  · cases hg'
    rw [hreq, hrequest]

/-! ## Calls that raise, and calls undone -/

theorem acquire_of_error {e : LeaseError}
    (h : (m.acquire runId leaves resources safetyDomains ns).2 = .error e) :
    (m.acquire runId leaves resources safetyDomains ns).1 = m := by
  cases hx : m.acquire runId leaves resources safetyDomains ns with
  | mk m' r =>
  rw [hx] at h
  rcases acquire_cases hx with ⟨rfl, -⟩ | ⟨rfl, -⟩ | ⟨g, rfl, -⟩
  · rfl
  · rfl
  · cases h

theorem release_of_error {e : LeaseError} (h : (m.release runId).2 = .error e) :
    (m.release runId).1 = m := by
  unfold release at h ⊢
  cases hrun : leaseRunId runId with
  | error e' => rfl
  | ok owner =>
    rw [hrun] at h
    simp only at h
    split at h <;> cases h

theorem ownerOf_release_of_grant {g : LeaseReceipt} (hkey : canonicalKey runId = true)
    (hg : m.grantFor runId = some g) (t : LeaseTarget) :
    (m.release runId).1.ownerOf t =
      if t ∈ g.request.targets ∧ m.ownerOf t = some runId then none else m.ownerOf t := by
  unfold release
  rw [show leaseRunId runId = .ok runId from if_pos hkey]
  simp only [hg]
  exact get_dropOwners runId m.owners g.request.targets t

/-- The same owners and the same grants. -/
def SameState (m n : LeaseManager) : Prop :=
  (∀ t, m.ownerOf t = n.ownerOf t) ∧ ∀ r, m.grantFor r = n.grantFor r

/-- Whatever `acquire` does for a run without a grant, `release` undoes. -/
theorem Inv.release_acquire (hI : m.Inv) (hnone : m.grantFor runId = none) :
    SameState ((m.acquire runId leaves resources safetyDomains ns).1.release runId).1 m := by
  have hunchanged : SameState (m.release runId).1 m := by
    cases hx : m.release runId with
    | mk m' r =>
    rcases release_cases hx with ⟨rfl, -⟩ | ⟨g, hg, -⟩
    · exact ⟨fun _ => rfl, fun _ => rfl⟩
    · rw [hnone] at hg
      cases hg
  have hnobody : ∀ t, m.ownerOf t ≠ some runId := by
    intro t ht
    obtain ⟨g, hg, -⟩ := (hI.owner_iff t runId).1 ht
    rw [hnone] at hg
    cases hg
  cases hx : m.acquire runId leaves resources safetyDomains ns with
  | mk m' r =>
  rcases acquire_cases hx with ⟨rfl, -⟩ | ⟨rfl, -⟩ | ⟨g, rfl, hrun, -, -, hfree, rfl⟩
  · exact hunchanged
  · exact hunchanged
  · have hkey := canonicalKey_of_acquire hx
    constructor
    · intro t
      have hg := grantFor_of_acquire hx runId
      rw [if_pos rfl] at hg
      rw [ownerOf_release_of_grant hkey hg]
      simp only [ownerOf, get_setOwners]
      by_cases ht : t ∈ g.request.targets
      · -- a requested target was free
        have howner : m.owners.get t = none := by
          cases ho : m.owners.get t with
          | none => rfl
          | some o => exact absurd (hfree t ht o ho ▸ ho) (hnobody t)
        simp [ht, howner]
      · simp [ht]
    · intro r
      rw [grantFor_release _ hkey]
      by_cases hr : r = runId
      · rw [if_pos hr, hr, hnone]
      · rw [if_neg hr]
        show Table.get (m.grants.insert runId g) r = _
        rw [Table.get_insert, if_neg hr]
        rfl

/-! ## Requests that share nothing -/

section Disjoint

variable {runId' : Str} {leaves' resources' safetyDomains' : List Str} {ns' : ℕ}
  {request' : LeaseRequest}

/-- The answer to a run does not depend on a disjoint request of another run before it. -/
theorem Inv.attempt_acquire (hI : m.Inv) (hrun : canonicalKey runId = true)
    (hmake : LeaseRequest.make leaves resources safetyDomains = .ok request)
    (hne : runId' ≠ runId) (hdisjoint : ∀ t ∈ request'.targets, t ∉ request.targets) :
    (m.acquire runId leaves resources safetyDomains ns).1.attempt runId' request' =
      m.attempt runId' request' := by
  refine attempt_congr (grantFor_acquire hrun hmake hne) fun t ht => ?_
  rw [hI.ownerOf_acquire hrun hmake, if_neg fun h => hdisjoint t ht h.2]

/-- The owners after two such requests, the second answered as if it were alone. -/
theorem Inv.ownerOf_both (hI : m.Inv) (hrun : canonicalKey runId = true)
    (hmake : LeaseRequest.make leaves resources safetyDomains = .ok request)
    (hrun' : canonicalKey runId' = true)
    (hmake' : LeaseRequest.make leaves' resources' safetyDomains' = .ok request')
    (hne : runId' ≠ runId) (hdisjoint : ∀ t ∈ request'.targets, t ∉ request.targets)
    (t : LeaseTarget) :
    ((m.acquire runId leaves resources safetyDomains ns).1.acquire runId' leaves' resources'
      safetyDomains' ns').1.ownerOf t =
      if (m.attempt runId' request').isOk = true ∧ t ∈ request'.targets then some runId'
      else if (m.attempt runId request).isOk = true ∧ t ∈ request.targets then some runId
      else m.ownerOf t := by
  have hI' := hI.acquire runId leaves resources safetyDomains ns
  rw [hI'.ownerOf_acquire hrun' hmake', hI.attempt_acquire hrun hmake hne hdisjoint,
    hI.ownerOf_acquire hrun hmake]

end Disjoint

/-- After any calls, `acquire` is a transaction.  A call that raises changes nothing.  A run without
a grant gets a `LeaseConflict` exactly when some requested target is owned, with the owned requested
targets and their owners in order; if it gets the grant it owns exactly the requested targets, and
no other target changes hands; and `release` takes back what `acquire` did.  Two runs with requests
that share no target get the same answers and leave the same owners in either order. -/
theorem acquire_transaction (calls : List LeaseCall) (runId : Str)
    (leaves resources safetyDomains : List Str) (request : LeaseRequest) (ns : ℕ)
    (hrun : canonicalKey runId = true)
    (hmake : LeaseRequest.make leaves resources safetyDomains = .ok request) :
    let m := after calls
    let acquired := m.acquire runId leaves resources safetyDomains ns
    (m.grantFor runId = none →
      ((∃ conflicts, acquired.2 = .error (.conflict runId conflicts)) ↔
        ∃ t ∈ request.targets, ∃ owner, m.ownerOf t = some owner) ∧
      (∀ conflicts, acquired.2 = .error (.conflict runId conflicts) →
        conflicts.Pairwise (fun a b => TargetBefore a.1 b.1) ∧ ∀ item, item ∈ conflicts ↔
          ∃ t ∈ request.targets, t.name = item.1 ∧ m.ownerOf t = some item.2) ∧
      SameState (acquired.1.release runId).1 m) ∧
    (∀ g, acquired.2 = .ok g →
      (∀ t, acquired.1.ownerOf t = some runId ↔ t ∈ request.targets) ∧
      ∀ t, t ∉ request.targets → acquired.1.ownerOf t = m.ownerOf t) ∧
    (∀ r ls rs ds ns e, (m.acquire r ls rs ds ns).2 = .error e → (m.acquire r ls rs ds ns).1 = m) ∧
    (∀ r e, (m.release r).2 = .error e → (m.release r).1 = m) ∧
    ∀ runId' leaves' resources' safetyDomains' request' ns' ns₁ ns₁',
      canonicalKey runId' = true →
      LeaseRequest.make leaves' resources' safetyDomains' = .ok request' → runId' ≠ runId →
      (∀ t ∈ request'.targets, t ∉ request.targets) →
      let acquired' := m.acquire runId' leaves' resources' safetyDomains' ns₁'
      let behind := acquired.1.acquire runId' leaves' resources' safetyDomains' ns'
      let behind' := acquired'.1.acquire runId leaves resources safetyDomains ns₁
      (∀ t, behind.1.ownerOf t = behind'.1.ownerOf t) ∧
      outcome behind.2 = outcome acquired'.2 ∧ outcome behind'.2 = outcome acquired.2 := by
  intro m acquired
  have hI : m.Inv := inv_empty.calls calls
  refine ⟨fun hnone => ⟨?_, fun conflicts hconflict => ?_, hI.release_acquire hnone⟩,
    fun g hg => ?_, fun _ _ _ _ _ _ => acquire_of_error, fun _ _ => release_of_error, ?_⟩
  · rw [acquire_conflict_iff hrun hmake hnone, hI.conflicts_ne_nil_iff hnone]
  · rw [show acquired = _ from acquire_of_none hrun hmake hnone] at hconflict
    split_ifs at hconflict
    cases hconflict
    exact ⟨pairwise_conflictItems hmake, fun _ => hI.mem_conflictItems hnone⟩
  · have hok : (m.attempt runId request).isOk = true := by
      rw [← acquire_outcome hrun hmake, show (m.acquire _ _ _ _ ns).2 = _ from hg]
      rfl
    have howner : ∀ t, acquired.1.ownerOf t =
        if (m.attempt runId request).isOk = true ∧ t ∈ request.targets then some runId
        else m.ownerOf t := hI.ownerOf_acquire hrun hmake
    refine ⟨fun t => ?_, fun t ht => ?_⟩
    · obtain ⟨hgrant, hrequest⟩ := grant_of_acquire hmake hg
      rw [(hI.acquire _ _ _ _ _).owner_iff]
      constructor
      · rintro ⟨g', hg', ht⟩
        rw [show acquired.1.grantFor runId = some g' from hg'] at hgrant
        cases hgrant
        exact hrequest ▸ ht
      · intro ht
        exact ⟨g, hgrant, hrequest.symm ▸ ht⟩
    · rw [show acquired.1.ownerOf t = _ from howner t, if_neg fun h => ht h.2]
  · intro runId' leaves' resources' safetyDomains' request' ns' ns₁ ns₁' hrun' hmake' hne hdisjoint
    have hdisjoint' : ∀ t ∈ request.targets, t ∉ request'.targets :=
      fun t ht ht' => hdisjoint t ht' ht
    have hI₁ : acquired.1.Inv := hI.acquire _ _ _ _ _
    have hI₂ := hI.acquire runId' leaves' resources' safetyDomains' ns₁'
    refine ⟨fun t => ?_, ?_, ?_⟩
    · rw [hI.ownerOf_both hrun hmake hrun' hmake' hne hdisjoint,
        hI.ownerOf_both hrun' hmake' hrun hmake hne.symm hdisjoint']
      by_cases ht : t ∈ request.targets
      · simp [ht, hdisjoint' t ht]
      · simp [ht]
    · rw [acquire_outcome hrun' hmake', acquire_outcome hrun' hmake']
      exact hI.attempt_acquire hrun hmake hne hdisjoint
    · rw [acquire_outcome hrun hmake, acquire_outcome hrun hmake]
      exact hI.attempt_acquire hrun' hmake' hne.symm hdisjoint'

/-! ### A busy resource -/

/-- The run `a` holds the leaf `1` and the resource `2`. -/
def busyCalls : List LeaseCall := [.acquire (py "a") [py "1"] [py "2"] [] 0]

/-- The run `b` is refused for the resource, and the refusal leaves nothing behind. -/
theorem acquire_transaction_busy :
    (∃ conflicts, ((after busyCalls).acquire (py "b") [py "3"] [py "2"] [] 1).2 =
      .error (.conflict (py "b") conflicts)) ∧
    SameState (((after busyCalls).acquire (py "b") [py "3"] [py "2"] [] 1).1.release (py "b")).1
      (after busyCalls) := by
  have h := (acquire_transaction busyCalls (py "b") [py "3"] [py "2"] []
    ⟨[py "3"], [py "2"], []⟩ 1 (by decide) rfl).1 rfl
  exact ⟨h.1.2 ⟨⟨.resource, py "2"⟩, by decide, py "a", rfl⟩, h.2.2⟩

end LeaseManager

end RemoteRobot
