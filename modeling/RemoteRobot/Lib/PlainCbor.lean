import RemoteRobot.Lib.CborCodec

/-!
# Decoded values are Python values

`Val` has dictionaries with two entries of one key and strings that UTF-8 cannot encode; a decoder
returns neither.  `PlainCbor` are the laws of a CBOR library that say so, and `strictCodec` is the
codec of `CborCodec` behind a decoder that refuses such payloads.
-/

namespace Py

variable {F : Type} [PyFloat F]

/-! ## Distinct keys -/

/-- No two keys are equal. -/
def distinctKeys : List (Key F) → Bool
  | [] => true
  | k :: ks => ks.all (fun k' => !Key.eq k k' && !Key.eq k' k) && distinctKeys ks

mutual

/-- No dictionary in the value holds two entries of one key. -/
def Val.wellFormed : Val F → Bool
  | .list vs | .tuple vs => Val.wellFormeds vs
  | .dict kvs => distinctKeys (kvs.map Prod.fst) && Val.wellFormedDict kvs
  | _ => true

def Val.wellFormeds : List (Val F) → Bool
  | [] => true
  | v :: vs => Val.wellFormed v && Val.wellFormeds vs

def Val.wellFormedDict : Dict F → Bool
  | [] => true
  | (_, v) :: kvs => Val.wellFormed v && Val.wellFormedDict kvs

end

theorem distinctKeys_iff_pairwise {ks : List (Key F)} : distinctKeys ks = true ↔
    ks.Pairwise fun k k' => Key.eq k k' = false ∧ Key.eq k' k = false := by
  induction ks with
  | nil => simp [distinctKeys]
  | cons k ks ih => simp [distinctKeys, ih]

theorem distinctKeys_perm {ks ks' : List (Key F)} (h : ks.Perm ks') :
    distinctKeys ks = distinctKeys ks' := by
  rw [Bool.eq_iff_iff, distinctKeys_iff_pairwise, distinctKeys_iff_pairwise]
  apply h.pairwise_iff
  intro k k' hk
  exact ⟨hk.2, hk.1⟩

/-- Strings are distinct keys when they are distinct. -/
theorem distinctKeys_iff_nodup {ks : List (Key F)} (h : ∀ k ∈ ks, ∃ s, k = .str s) :
    distinctKeys ks = true ↔ ks.Nodup := by
  rw [distinctKeys_iff_pairwise]
  refine List.Pairwise.iff_of_mem fun {k k'} hk hk' => ?_
  obtain ⟨s, rfl⟩ := h k hk
  obtain ⟨t, rfl⟩ := h k' hk'
  simp only [← Bool.not_eq_true, Key.eq_str_iff, Key.str.injEq, ne_eq]
  exact ⟨fun hne => fun he => hne.1 he.symm, fun hne => ⟨fun he => hne he.symm, hne⟩⟩

theorem Val.wellFormedDict_eq_all (kvs : Dict F) :
    Val.wellFormedDict kvs = kvs.all fun p => p.2.wellFormed := by
  induction kvs with
  | nil => rfl
  | cons p kvs ih => rw [Val.wellFormedDict, ih, List.all_cons]

/-- A dictionary display with distinct names. -/
theorem wellFormed_dictOf {fields : List (String × Val F)} (hnd : (fields.map Prod.fst).Nodup)
    (h : ∀ p ∈ fields, p.2.wellFormed = true) : (dictOf fields).wellFormed = true := by
  have hkeys : distinctKeys ((entries fields).map Prod.fst) = true := by
    refine (distinctKeys_iff_nodup fun k hk => ?_).2 (nodup_entries hnd)
    obtain ⟨q, hq, rfl⟩ := List.mem_map.1 hk
    obtain ⟨p, -, rfl⟩ := List.mem_map.1 hq
    exact ⟨_, rfl⟩
  rw [dictOf, Val.wellFormed, hkeys, Val.wellFormedDict_eq_all, Bool.true_and, List.all_eq_true]
  intro q hq
  obtain ⟨p, hp, rfl⟩ := List.mem_map.1 hq
  exact h p hp

mutual

/-- What a well-formed value reads back as is well-formed. -/
theorem Val.Reads.wellFormed : ∀ {v w : Val F}, v.Reads w → w.wellFormed = v.wellFormed
  | .none, _, h | .bool _, _, h | .int _, _, h | .float _, _, h | .str _, _, h
  | .bytes _, _, h => by rw [show _ = _ from h]
  | .list vs, _, h | .tuple vs, _, h => by
    obtain ⟨ws, rfl, hws⟩ := h
    exact Val.ReadsList.wellFormeds hws
  | .dict a, _, h => by
    obtain ⟨b, c, rfl, hp, hc⟩ := h
    have hkeys : distinctKeys (b.map Prod.fst) = distinctKeys (a.map Prod.fst) := by
      rw [← Val.readsDict_keys hc]
      exact distinctKeys_perm (hp.map Prod.fst).symm
    have hvals : Val.wellFormedDict b = Val.wellFormedDict a := by
      rw [← Val.ReadsDict.wellFormedDict hc, Val.wellFormedDict_eq_all, Val.wellFormedDict_eq_all]
      exact hp.all_eq.symm
    rw [Val.wellFormed, Val.wellFormed, hkeys, hvals]

theorem Val.ReadsList.wellFormeds : ∀ {vs ws : List (Val F)}, Val.ReadsList vs ws →
    Val.wellFormeds ws = Val.wellFormeds vs
  | [], _, h => by rw [show _ = [] from h]
  | v :: vs, _, h => by
    obtain ⟨w, ws', rfl, hv, hvs⟩ := h
    rw [Val.wellFormeds, Val.wellFormeds, hv.wellFormed, Val.ReadsList.wellFormeds hvs]

theorem Val.ReadsDict.wellFormedDict : ∀ {a c : Dict F}, Val.ReadsDict a c →
    Val.wellFormedDict c = Val.wellFormedDict a
  | [], _, h => by rw [show _ = [] from h]
  | (_, v) :: a, _, h => by
    obtain ⟨w, c', rfl, hv, hac⟩ := h
    rw [Val.wellFormedDict, Val.wellFormedDict, hv.wellFormed, Val.ReadsDict.wellFormedDict hac]

end

/-! ## The library -/

/-- Canonical CBOR is deterministic and injective on plain values, `loads` is its inverse, and what
`loads` returns is a value `dumps` accepts. -/
class PlainCbor (F : Type) [PyFloat F] [Cbor F] : Prop where
  dumps_ok : ∀ v : Val F, v.encodable = true → ∃ b, Cbor.dumps v = .ok b
  dumps_error : ∀ v : Val F, v.encodable = false → Cbor.dumps v = .error .unicodeEncodeError
  loads_dumps : ∀ (v : Val F) (b : Bytes), v.wellFormed = true → Cbor.dumps v = .ok b →
    ∃ w, Cbor.loads b = .ok w ∧ v.Reads w
  dumps_reads : ∀ v w : Val F, v.Reads w → Cbor.dumps w = Cbor.dumps v
  loads_ok : ∀ (b : Bytes) (w : Val F), Cbor.loads b = .ok w →
    w.wellFormed = true ∧ w.encodable = true

theorem PlainCbor.encodable_of_dumps [Cbor F] [PlainCbor F] {v : Val F} {b : Bytes}
    (h : Cbor.dumps v = .ok b) : v.encodable = true := by
  by_contra hv
  rw [PlainCbor.dumps_error v (by simpa using hv)] at h
  cases h

/-- A decoder that refuses the payloads of no Python value. -/
def strictLoads (b : Bytes) : Except Exc (Val ℚ) :=
  match (Cbor.loads b : Except Exc (Val ℚ)) with
  | .ok w => if w.wellFormed && w.encodable then .ok w else .error .valueError
  | .error e => .error e

/-- The codec with that decoder. -/
abbrev strictCodec : Cbor ℚ := ⟨Cbor.dumps, strictLoads⟩

theorem strictLoads_eq_ok {b : Bytes} {w : Val ℚ} : strictLoads b = .ok w ↔
    (Cbor.loads b : Except Exc (Val ℚ)) = .ok w ∧ w.wellFormed = true ∧ w.encodable = true := by
  unfold strictLoads
  rcases (Cbor.loads b : Except Exc (Val ℚ)) with e | v
  · simp
  · by_cases hv : (v.wellFormed && v.encodable) = true
    · simp only [hv, if_true, Except.ok.injEq]
      rw [Bool.and_eq_true] at hv
      exact ⟨fun h => ⟨h, h ▸ hv⟩, And.left⟩
    · simp only [hv]
      rw [Bool.and_eq_true] at hv
      refine ⟨fun h => (nomatch h), fun h => absurd ?_ hv⟩
      rw [Except.ok.inj h.1]
      exact h.2

theorem plainCbor_strictCodec : @PlainCbor ℚ _ strictCodec :=
  @PlainCbor.mk ℚ _ strictCodec
    (LawfulCbor.dumps_ok (F := ℚ)) (LawfulCbor.dumps_error (F := ℚ))
    (fun v b hv hb => by
      have hb : (Cbor.dumps v : Except Exc Bytes) = .ok b := hb
      obtain ⟨w, hw, hr⟩ := LawfulCbor.loads_dumps v b hb
      refine ⟨w, strictLoads_eq_ok.2 ⟨hw, ?_, ?_⟩, hr⟩
      · rw [hr.wellFormed, hv]
      · rw [hr.encodable, encodable_of_dumps hb])
    (LawfulCbor.dumps_reads (F := ℚ))
    fun _ _ hw => (strictLoads_eq_ok.1 hw).2

end Py
