import RemoteRobot.Lib.Except
import RemoteRobot.Lib.PyValue

/-!
# Serialisation of plain values

`Cbor` is a canonical CBOR library (`dumps`, `loads`) and `Sha256` a hash function.  The laws are
what programs rely on: strings with unpaired surrogates are the only values `dumps` refuses,
`loads` inverts `dumps` up to `Val.Reads`, and the bytes depend on nothing `Val.Reads` forgets.
-/

namespace Py

variable {F : Type}

/-! ## Values read back -/

mutual

/-- `w` is what a decoder returns for the encoding of `v`: arrays are lists, and the entries of a
dictionary may stand in another order. -/
def Val.Reads : Val F → Val F → Prop
  | .none, w => w = .none
  | .bool b, w => w = .bool b
  | .int n, w => w = .int n
  | .float x, w => w = .float x
  | .str s, w => w = .str s
  | .bytes b, w => w = .bytes b
  | .list vs, w => ∃ ws, w = .list ws ∧ Val.ReadsList vs ws
  | .tuple vs, w => ∃ ws, w = .list ws ∧ Val.ReadsList vs ws
  | .dict a, w => ∃ b c, w = .dict b ∧ c.Perm b ∧ Val.ReadsDict a c

def Val.ReadsList : List (Val F) → List (Val F) → Prop
  | [], ws => ws = []
  | v :: vs, ws => ∃ w ws', ws = w :: ws' ∧ Val.Reads v w ∧ Val.ReadsList vs ws'

def Val.ReadsDict : Dict F → Dict F → Prop
  | [], b => b = []
  | (k, v) :: a, b => ∃ w b', b = (k, w) :: b' ∧ Val.Reads v w ∧ Val.ReadsDict a b'

end

theorem Val.readsList_iff_forall₂ {vs ws : List (Val F)} :
    Val.ReadsList vs ws ↔ List.Forall₂ Val.Reads vs ws := by
  induction vs generalizing ws with
  | nil => simp [Val.ReadsList]
  | cons v vs ih =>
    constructor
    · rintro ⟨w, ws', rfl, hv, hvs⟩
      exact .cons hv (ih.1 hvs)
    · rintro (_ | ⟨hv, hvs⟩)
      exact ⟨_, _, rfl, hv, ih.2 hvs⟩

theorem Val.readsDict_keys {a b : Dict F} (h : Val.ReadsDict a b) :
    b.map Prod.fst = a.map Prod.fst := by
  induction a generalizing b with
  | nil => rw [show b = [] from h]
  | cons p a ih =>
    obtain ⟨k, v⟩ := p
    obtain ⟨w, b', rfl, -, hab⟩ := h
    simp [ih hab]

theorem Val.readsDict_lookup {a b : Dict F} (h : Val.ReadsDict a b) (k : Str) :
    (∀ v, lookup k a = some v → ∃ w, lookup k b = some w ∧ Val.Reads v w) ∧
      (lookup k a = .none → lookup k b = .none) := by
  induction a generalizing b with
  | nil => rw [show b = [] from h]; simp
  | cons p a ih =>
    obtain ⟨k', v⟩ := p
    obtain ⟨w, b', rfl, hv, hab⟩ := h
    have hrest := ih hab
    cases k' with
    | str s =>
      simp only [lookup_cons_str]
      split_ifs with hs
      · exact ⟨fun u hu => ⟨w, rfl, Option.some.inj hu ▸ hv⟩, fun hu => by simp at hu⟩
      · exact hrest
    | _ => exact hrest

/-- With distinct keys `lookup` is membership. -/
theorem lookup_eq_some_iff {kvs : Dict F} (hnd : (kvs.map Prod.fst).Nodup) {k : Str} {v : Val F} :
    lookup k kvs = some v ↔ (Key.str k, v) ∈ kvs := by
  induction kvs with
  | nil => simp
  | cons p kvs ih =>
    obtain ⟨k', w⟩ := p
    rw [List.map_cons, List.nodup_cons] at hnd
    rw [List.mem_cons, ← ih hnd.2]
    by_cases hk : k' = .str k
    · subst hk
      have habs : lookup k kvs ≠ some v := fun h =>
        hnd.1 (List.mem_map.2 ⟨(.str k, v), (ih hnd.2).1 h, rfl⟩)
      simp [habs, eq_comm]
    · have hne : ¬ (Key.str k, v) = (k', w) := fun h => hk (congrArg Prod.fst h).symm
      simp only [hne, false_or]
      cases k' with
      | str s => rw [lookup_cons_str, if_neg (fun h => hk (congrArg Key.str h))]
      | _ => rfl

theorem lookup_perm {a b : Dict F} (hp : a.Perm b) (hnd : (a.map Prod.fst).Nodup) (k : Str) :
    lookup k a = lookup k b := by
  have hnd' : (b.map Prod.fst).Nodup := (hp.map _).nodup_iff.1 hnd
  refine Option.ext fun v => ?_
  rw [lookup_eq_some_iff hnd, lookup_eq_some_iff hnd', hp.mem_iff]

/-- What a dictionary with distinct keys reads back as: each field reads back. -/
theorem Val.Reads.fields {a : Dict F} {w : Val F} (h : Val.Reads (.dict a) w)
    (hnd : (a.map Prod.fst).Nodup) : ∃ b, w = .dict b ∧ b.length = a.length ∧
      (b.map Prod.fst).Perm (a.map Prod.fst) ∧
      ∀ k, (∀ v, lookup k a = some v → ∃ u, lookup k b = some u ∧ Val.Reads v u) ∧
        (lookup k a = .none → lookup k b = .none) := by
  obtain ⟨b, c, rfl, hp, hc⟩ := h
  have hkeys := Val.readsDict_keys hc
  refine ⟨b, rfl, ?_, ?_, fun k => ?_⟩
  · rw [← hp.length_eq, ← List.length_map (f := Prod.fst), hkeys, List.length_map]
  · rw [← hkeys]
    exact (hp.map _).symm
  · rw [← lookup_perm hp (hkeys ▸ hnd)]
    exact Val.readsDict_lookup hc k

theorem nodup_entries {kvs : List (String × Val F)} (h : (kvs.map Prod.fst).Nodup) :
    ((entries kvs).map Prod.fst).Nodup := by
  have hinj : Function.Injective fun s : String => (Key.str (py s) : Key F) :=
    fun s t hst => py_inj.1 (Key.str.inj hst)
  have := h.map hinj
  simpa [entries, Function.comp_def] using this

theorem Val.readsDict_append {a a' b : Dict F} (h : Val.ReadsDict (a ++ a') b) :
    ∃ c c', b = c ++ c' ∧ Val.ReadsDict a c ∧ Val.ReadsDict a' c' := by
  induction a generalizing b with
  | nil => exact ⟨[], b, rfl, rfl, h⟩
  | cons p a ih =>
    obtain ⟨w, b', rfl, hv, hab⟩ := h
    obtain ⟨c, c', rfl, hc, hc'⟩ := ih hab
    exact ⟨_, c', rfl, ⟨w, c, rfl, hv, hc⟩, hc'⟩

/-! ## Values equal to what they read back as -/

theorem Val.readsDict_append_str {a c : Dict F} {k : Key F} {s : Str} (h : Val.ReadsDict a c) :
    Val.ReadsDict (a ++ [(k, Val.str s)]) (c ++ [(k, Val.str s)]) := by
  induction a generalizing c with
  | nil =>
    obtain rfl : c = [] := h
    exact ⟨.str s, [], rfl, rfl, rfl⟩
  | cons p a ih =>
    obtain ⟨w, c', rfl, hv, hc⟩ := h
    exact ⟨w, c' ++ [(k, Val.str s)], rfl, hv, ih hc⟩

/-! ## Values that read back alike -/

/-- One value is read back for both. -/
def Val.Same (v v' : Val F) : Prop := ∃ w, v.Reads w ∧ v'.Reads w

namespace Val.Same

theorem none_left {v : Val F} (h : Same .none v) : v = .none := by
  obtain ⟨w, h₁, h₂⟩ := h
  obtain rfl : w = .none := h₁
  cases v <;> simp [Reads] at h₂ ⊢

theorem str {s t : Str} (h : Same (.str s : Val F) (.str t)) : s = t := by
  obtain ⟨w, h₁, h₂⟩ := h
  exact Val.str.inj (Eq.trans (Eq.symm h₁) h₂)

theorem int {m n : ℤ} (h : Same (.int m : Val F) (.int n)) : m = n := by
  obtain ⟨w, h₁, h₂⟩ := h
  exact Val.int.inj (Eq.trans (Eq.symm h₁) h₂)

theorem bool {a b : Bool} (h : Same (.bool a : Val F) (.bool b)) : a = b := by
  obtain ⟨w, h₁, h₂⟩ := h
  exact Val.bool.inj (Eq.trans (Eq.symm h₁) h₂)

theorem float {x y : F} (h : Same (.float x) (.float y)) : x = y := by
  obtain ⟨w, h₁, h₂⟩ := h
  exact Val.float.inj (Eq.trans (Eq.symm h₁) h₂)

theorem list {vs ws : List (Val F)} (h : Same (.list vs) (.list ws)) :
    List.Forall₂ Same vs ws := by
  obtain ⟨_, ⟨us, rfl, h₁⟩, us', he, h₂⟩ := h
  obtain rfl := Val.list.inj he
  rw [Val.readsList_iff_forall₂] at h₁ h₂
  clear he
  induction h₁ generalizing ws with
  | nil =>
    cases h₂
    exact .nil
  | cons hv _ ih =>
    cases h₂ with
    | cons hw hrest => exact .cons ⟨_, hv, hw⟩ (ih hrest)

/-- Lists of records are equal when the records can be told apart. -/
theorem list_map {α : Type} {f : α → Val F} (hf : ∀ a b, Same (f a) (f b) → a = b) {xs ys : List α}
    (h : Same (.list (xs.map f)) (.list (ys.map f))) : xs = ys := by
  have hall := List.forall₂_map_left_iff.1 (List.forall₂_map_right_iff.1 h.list)
  exact List.forall₂_eq_eq_eq ▸ hall.imp fun a b => hf a b

/-- A field of the first dictionary is one of the second. -/
theorem lookup {a b : List (String × Val F)} (h : Same (dictOf a) (dictOf b))
    (hnd : (a.map Prod.fst).Nodup) (hnd' : (b.map Prod.fst).Nodup) {k : String} {v : Val F}
    (hk : Py.lookup (py k) (entries a) = some v) :
    ∃ v', Py.lookup (py k) (entries b) = some v' ∧ Same v v' := by
  obtain ⟨w, h₁, h₂⟩ := h
  obtain ⟨c, rfl, -, -, hc⟩ := Val.Reads.fields h₁ (nodup_entries hnd)
  obtain ⟨c', he, -, -, hc'⟩ := Val.Reads.fields h₂ (nodup_entries hnd')
  obtain rfl := Val.dict.inj he
  obtain ⟨u, hu, hr⟩ := (hc (py k)).1 v hk
  cases hb : Py.lookup (py k) (entries b) with
  | none =>
    rw [(hc' (py k)).2 hb] at hu
    cases hu
  | some v' =>
    obtain ⟨u', hu', hr'⟩ := (hc' (py k)).1 v' hb
    rw [hu] at hu'
    obtain rfl := Option.some.inj hu'
    exact ⟨v', rfl, u, hr, hr'⟩

/-- The field `k` of two dictionaries. -/
theorem field {a b : List (String × Val F)} (h : Same (dictOf a) (dictOf b))
    (hnd : (a.map Prod.fst).Nodup) (hnd' : (b.map Prod.fst).Nodup) {k : String} {v w : Val F}
    (hk : Py.lookup (py k) (entries a) = some v) (hk' : Py.lookup (py k) (entries b) = some w) :
    Same v w := by
  obtain ⟨u, hu, hsame⟩ := h.lookup hnd hnd' hk
  rw [hk'] at hu
  rw [Option.some.inj hu]
  exact hsame

/-- One more string in both. -/
theorem append_str {a b : List (String × Val F)} (h : Same (dictOf a) (dictOf b)) (k : String)
    (s : Str) : Same (dictOf (a ++ [(k, Val.str s)])) (dictOf (b ++ [(k, Val.str s)])) := by
  have hstep : ∀ {d : Dict F} {kvs : List (String × Val F)}, (dictOf kvs).Reads (.dict d) →
      (dictOf (kvs ++ [(k, Val.str s)])).Reads (.dict (d ++ [(Key.str (py k), Val.str s)])) := by
    rintro d kvs ⟨d', c, he, hp, hc⟩
    obtain rfl := Val.dict.inj he
    refine ⟨_, c ++ [(Key.str (py k), Val.str s)], rfl, hp.append_right _, ?_⟩
    rw [entries, List.map_append]
    exact Val.readsDict_append_str hc
  obtain ⟨w, h₁, h₂⟩ := h
  obtain ⟨d, hd⟩ : ∃ d, w = .dict d := by
    obtain ⟨d, _, hd, -⟩ := h₁
    exact ⟨d, hd⟩
  rw [hd] at h₁ h₂
  exact ⟨_, hstep h₁, hstep h₂⟩

theorem symm {v v' : Val F} (h : Same v v') : Same v' v := by
  obtain ⟨w, h₁, h₂⟩ := h
  exact ⟨w, h₂, h₁⟩

end Val.Same

section Plain

variable [PyFloat F]

mutual

/-- Values a program builds from JSON: no tuples, no float that differs from itself, dictionaries
with distinct strings as keys. -/
def Val.Plain : Val F → Prop
  | .float x => PyFloat.eq x x = true
  | .list vs => Val.PlainList vs
  | .tuple _ => False
  | .dict kvs => (kvs.map Prod.fst).Nodup ∧ (∀ p ∈ kvs, ∃ s, p.1 = .str s) ∧ Val.PlainDict kvs
  | _ => True

def Val.PlainList : List (Val F) → Prop
  | [] => True
  | v :: vs => Val.Plain v ∧ Val.PlainList vs

def Val.PlainDict : Dict F → Prop
  | [] => True
  | (_, v) :: kvs => Val.Plain v ∧ Val.PlainDict kvs

end

theorem Val.plainList_iff {vs : List (Val F)} : Val.PlainList vs ↔ ∀ v ∈ vs, v.Plain := by
  induction vs with
  | nil => simp [Val.PlainList]
  | cons v vs ih => rw [Val.PlainList, ih, List.forall_mem_cons]

theorem Val.plain_list {vs : List (Val F)} : (Val.list vs).Plain ↔ ∀ v ∈ vs, v.Plain :=
  Val.plainList_iff

theorem Val.plain_dictOf {kvs : List (String × Val F)} (hnd : (kvs.map Prod.fst).Nodup)
    (h : ∀ p ∈ kvs, p.2.Plain) : (dictOf kvs).Plain := by
  refine ⟨nodup_entries hnd, ?_, ?_⟩
  · intro p hp
    obtain ⟨q, -, rfl⟩ := List.mem_map.1 hp
    exact ⟨_, rfl⟩
  · clear hnd
    induction kvs with
    | nil => trivial
    | cons p kvs ih =>
      rw [List.forall_mem_cons] at h
      exact ⟨h.1, ih h.2⟩

mutual

theorem Val.Reads.eq : ∀ {v w : Val F}, v.Plain → v.Reads w → Val.eq v w = true
  | .none, _, _, h | .bool _, _, _, h | .int _, _, _, h | .str _, _, _, h
  | .bytes _, _, _, h => by rw [show _ = _ from h]; simp [Val.eq]
  | .float _, _, hp, h => by rw [show _ = _ from h, Val.eq]; exact hp
  | .list vs, _, hp, h => by
    obtain ⟨ws, rfl, hws⟩ := h
    simpa [Val.eq] using Val.ReadsList.eqs hp hws
  | .tuple _, _, hp, _ => hp.elim
  | .dict a, _, hp, h => by
    obtain ⟨b, c, rfl, hperm, hc⟩ := h
    obtain ⟨hnd, hstr, hplain⟩ := hp
    have hall := Val.ReadsDict.eqs hplain hc
    have hndb : (b.map Prod.fst).Nodup :=
      (hperm.map Prod.fst).nodup_iff.1 (Val.readsDict_keys hc ▸ hnd)
    have hlen : a.length = b.length := hall.length_eq.trans hperm.length_eq
    simp only [Val.eq, hlen, BEq.rfl, Bool.true_and]
    refine Val.subDict_of_forall fun p hp => ?_
    obtain ⟨s, hs⟩ := hstr p hp
    obtain ⟨q, hq, hkey, he⟩ := hall.exists_of_mem_left hp
    refine ⟨q.2, ?_, he⟩
    rw [hs, findKey_str, lookup_eq_some_iff hndb, ← hs, hkey]
    exact hperm.mem_iff.1 hq

theorem Val.ReadsList.eqs : ∀ {vs ws : List (Val F)}, Val.PlainList vs → Val.ReadsList vs ws →
    Val.eqs vs ws = true
  | [], _, _, h => by rw [show _ = [] from h]; rfl
  | v :: vs, _, hp, h => by
    obtain ⟨w, ws', rfl, hv, hvs⟩ := h
    simp [Val.eqs, Val.Reads.eq hp.1 hv, Val.ReadsList.eqs hp.2 hvs]

theorem Val.ReadsDict.eqs : ∀ {a c : Dict F}, Val.PlainDict a → Val.ReadsDict a c →
    List.Forall₂ (fun p q => p.1 = q.1 ∧ Val.eq p.2 q.2 = true) a c
  | [], _, _, h => by rw [show _ = [] from h]; exact .nil
  | (_, v) :: a, _, hp, h => by
    obtain ⟨w, c', rfl, hv, hac⟩ := h
    exact .cons ⟨rfl, Val.Reads.eq hp.1 hv⟩ (Val.ReadsDict.eqs hp.2 hac)

end

end Plain

/-! ## Encodable text -/

@[simp] theorem encodable_nil : encodable [] = true := rfl

@[simp] theorem encodable_cons {c : ℕ} {s : Str} :
    encodable (c :: s) = true ↔ isSurrogate c = false ∧ encodable s = true := by
  simp [encodable]

@[simp] theorem encodable_append {s t : Str} :
    encodable (s ++ t) = true ↔ encodable s = true ∧ encodable t = true := by
  simp [encodable]

theorem isSurrogate_of_lt {c : ℕ} (h : c < 0xD800) : isSurrogate c = false := by
  simp [isSurrogate]
  omega

theorem encodable_of_lt {s : Str} (h : ∀ c ∈ s, c < 256) : encodable s = true := by
  simp only [encodable, List.all_eq_true, Bool.not_eq_true']
  intro c hc
  have := h c hc
  exact isSurrogate_of_lt (by omega)

/-- A literal of the source can be encoded. -/
@[simp] theorem encodable_py (s : String) : encodable (py s) = true := by
  apply encodable_of_lt
  intro c hc
  obtain ⟨b, -, rfl⟩ := List.mem_map.1 hc
  exact b.toNat_lt

/-! ## Encodable values -/

mutual

/-- No string in the key has an unpaired surrogate. -/
def Key.encodable : Key F → Bool
  | .str s => Py.encodable s
  | .tuple ks => Key.encodables ks
  | _ => true

def Key.encodables : List (Key F) → Bool
  | [] => true
  | k :: ks => Key.encodable k && Key.encodables ks

end

mutual

/-- No string in the value has an unpaired surrogate. -/
def Val.encodable : Val F → Bool
  | .str s => Py.encodable s
  | .list vs | .tuple vs => Val.encodables vs
  | .dict kvs => Val.encodableDict kvs
  | _ => true

def Val.encodables : List (Val F) → Bool
  | [] => true
  | v :: vs => Val.encodable v && Val.encodables vs

def Val.encodableDict : Dict F → Bool
  | [] => true
  | (k, v) :: kvs => Key.encodable k && Val.encodable v && Val.encodableDict kvs

end

theorem Val.encodableDict_eq_all (kvs : Dict F) :
    Val.encodableDict kvs = kvs.all fun p => p.1.encodable && p.2.encodable := by
  induction kvs with
  | nil => rfl
  | cons p kvs ih => rw [Val.encodableDict, ih, List.all_cons]

theorem encodable_dictOf {kvs : List (String × Val F)} :
    (dictOf kvs).encodable = true ↔ ∀ p ∈ kvs, p.2.encodable = true := by
  unfold dictOf
  rw [Val.encodable]
  induction kvs with
  | nil => simp [Val.encodableDict]
  | cons p kvs ih =>
    rw [entries_cons, Val.encodableDict, Bool.and_eq_true, Bool.and_eq_true, ih, List.forall_mem_cons]
    simp [Key.encodable]

theorem encodable_list {vs : List (Val F)} :
    (Val.list vs).encodable = true ↔ ∀ v ∈ vs, v.encodable = true := by
  rw [Val.encodable]
  induction vs with
  | nil => simp [Val.encodables]
  | cons v vs ih => rw [Val.encodables, Bool.and_eq_true, ih, List.forall_mem_cons]

mutual

theorem Val.Reads.encodable : ∀ {v w : Val F}, v.Reads w → w.encodable = v.encodable
  | .none, _, h | .bool _, _, h | .int _, _, h | .float _, _, h | .str _, _, h
  | .bytes _, _, h => by rw [show _ = _ from h]
  | .list vs, w, h | .tuple vs, w, h => by
    obtain ⟨ws, rfl, hws⟩ := h
    exact Val.ReadsList.encodables hws
  | .dict a, w, h => by
    obtain ⟨b, c, rfl, hp, hc⟩ := h
    refine Eq.trans ?_ (Val.ReadsDict.encodableDict hc)
    simp only [Val.encodable, Val.encodableDict_eq_all]
    exact (hp.all_eq).symm

theorem Val.ReadsList.encodables : ∀ {vs ws : List (Val F)}, Val.ReadsList vs ws →
    Val.encodables ws = Val.encodables vs
  | [], _, h => by rw [show _ = [] from h]
  | v :: vs, _, h => by
    obtain ⟨w, ws', rfl, hv, hvs⟩ := h
    rw [Val.encodables, Val.encodables, hv.encodable, Val.ReadsList.encodables hvs]

theorem Val.ReadsDict.encodableDict : ∀ {a b : Dict F}, Val.ReadsDict a b →
    Val.encodableDict b = Val.encodableDict a
  | [], _, h => by rw [show _ = [] from h]
  | (_, v) :: a, _, h => by
    obtain ⟨w, b', rfl, hv, hab⟩ := h
    rw [Val.encodableDict, Val.encodableDict, hv.encodable, Val.ReadsDict.encodableDict hab]

end

/-! ## The libraries -/

/-- `cbor2.dumps(v, canonical=True)` and `cbor2.loads`. -/
class Cbor (F : Type) where
  dumps : Val F → Except Exc Bytes
  loads : Bytes → Except Exc (Val F)

/-- Canonical CBOR is deterministic and injective, and `loads` is its inverse. -/
class LawfulCbor (F : Type) [Cbor F] : Prop where
  dumps_ok : ∀ v : Val F, v.encodable = true → ∃ b, Cbor.dumps v = .ok b
  dumps_error : ∀ v : Val F, v.encodable = false → Cbor.dumps v = .error .unicodeEncodeError
  loads_dumps : ∀ (v : Val F) (b : Bytes), Cbor.dumps v = .ok b →
    ∃ w, Cbor.loads b = .ok w ∧ v.Reads w
  dumps_reads : ∀ (v w : Val F), v.Reads w → Cbor.dumps w = Cbor.dumps v

theorem encodable_of_dumps [Cbor F] [LawfulCbor F] {v : Val F} {b : Bytes}
    (h : Cbor.dumps v = .ok b) : v.encodable = true := by
  by_contra hv
  rw [LawfulCbor.dumps_error v (by simpa using hv)] at h
  cases h

/-- Values with one encoding read back as one value. -/
theorem exists_reads_of_dumps_eq [Cbor F] [LawfulCbor F] {v v' : Val F} {b : Bytes}
    (h : Cbor.dumps v = .ok b) (h' : Cbor.dumps v' = .ok b) : ∃ w, v.Reads w ∧ v'.Reads w := by
  obtain ⟨w, hw, hr⟩ := LawfulCbor.loads_dumps v b h
  obtain ⟨w', hw', hr'⟩ := LawfulCbor.loads_dumps v' b h'
  obtain rfl : w = w' := Except.ok.inj (hw.symm.trans hw')
  exact ⟨w, hr, hr'⟩

/-- What `json.loads` raises: a `JSONDecodeError` with its message, or another exception such as the
`RecursionError` of deep nesting. -/
inductive JsonError where
  | decode (msg : Str)
  | other (e : Exc)

/-- `bytes.decode("utf-8")` and `json.loads`. -/
class Json (F : Type) where
  decodeUtf8 : Bytes → Option Str
  loads : Str → Except JsonError (Val F)

/-- `hashlib.sha256(b).digest()` -/
class Sha256 where
  digest : Bytes → Bytes

/-- One hexadecimal digit. -/
def hexDigit (n : ℕ) : ℕ := if n < 10 then 48 + n else 87 + n

/-- The hexadecimal digits of the bytes. -/
def hexlify : Bytes → Str
  | [] => []
  | b :: bs => hexDigit (b.toNat / 16) :: hexDigit (b.toNat % 16) :: hexlify bs

/-- `hashlib.sha256(b).hexdigest()` -/
def hexdigest [Sha256] (b : Bytes) : Str := hexlify (Sha256.digest b)

theorem hexDigit_inj {m n : ℕ} (hm : m < 16) (hn : n < 16) (h : hexDigit m = hexDigit n) :
    m = n := by
  unfold hexDigit at h
  split_ifs at h <;> omega

theorem hexlify_injective : Function.Injective hexlify := by
  intro a
  induction a with
  | nil => intro b h; cases b with
    | nil => rfl
    | cons y b => simp [hexlify] at h
  | cons x a ih =>
    intro b h
    cases b with
    | nil => simp [hexlify] at h
    | cons y b =>
      simp only [hexlify, List.cons.injEq] at h
      have hx := x.toNat_lt
      have hy := y.toNat_lt
      have h₁ := hexDigit_inj (by omega) (by omega) h.1
      have h₂ := hexDigit_inj (by omega) (by omega) h.2.1
      rw [ih h.2.2, UInt8.toNat_inj.1 (show x.toNat = y.toNat by omega)]

theorem hexDigit_lt (n : ℕ) (h : n < 16) : hexDigit n < 128 := by
  unfold hexDigit; split_ifs <;> omega

theorem encodable_hexlify (b : Bytes) : encodable (hexlify b) = true := by
  induction b with
  | nil => rfl
  | cons x b ih =>
    have hx := x.toNat_lt
    have h₁ := hexDigit_lt (x.toNat / 16) (by omega)
    have h₂ := hexDigit_lt (x.toNat % 16) (by omega)
    simp only [encodable, hexlify, List.all_cons, Bool.and_eq_true] at ih ⊢
    refine ⟨?_, ?_, ih⟩ <;> simp [isSurrogate] <;> omega

end Py
