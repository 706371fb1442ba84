import Mathlib.Data.List.Sort
import RemoteRobot.Lib.Serial
import RemoteRobot.Lib.CborCodec
import RemoteRobot.Lib.Except

/-!
# Canonical JSON text

`json.dumps(value, ensure_ascii=False, sort_keys=True, separators=(",", ":"))` and the encoding of
its result in UTF-8.  Only the text of a float is a parameter.  `Val.Jsonable` are the values whose
text exists and can be encoded: no byte strings, string keys, no unpaired surrogate.
-/

namespace Py

variable {F : Type}

/-- `repr` of a float, which is ASCII. -/
class FloatRepr (F : Type) where
  repr : F → Str
  repr_encodable : ∀ x, encodable (repr x) = true

/-- `str(n)` -/
def intStr (n : ℤ) : Str := (if n < 0 then [45] else []) ++ natStr n.natAbs

/-- One character inside a JSON string. -/
def escapeChar (c : ℕ) : Str :=
  if c = 34 ∨ c = 92 then [92, c]
  else if c = 8 then [92, 98]
  else if c = 9 then [92, 116]
  else if c = 10 then [92, 110]
  else if c = 12 then [92, 102]
  else if c = 13 then [92, 114]
  else if c < 32 then [92, 117, 48, 48, hexDigit (c / 16), hexDigit (c % 16)]
  else [c]

/-- A JSON string. -/
def quote (s : Str) : Str := 34 :: s.flatMap escapeChar ++ [34]

/-- `",".join(texts)` -/
def joinComma : List Str → Str
  | [] => []
  | [t] => t
  | t :: ts => t ++ 44 :: joinComma ts

/-- The members of an object in the order of their keys. -/
def sortEntries (entries : List (Str × Str)) : List (Str × Str) :=
  entries.insertionSort fun a b => strLe a.1 b.1 = true

section Dumps

variable [FloatRepr F]

mutual

/-- The text of a value.  Keys that are no strings do not occur in what is hashed. -/
def dumps : Val F → Except Exc Str
  | .none => .ok (py "null")
  | .bool true => .ok (py "true")
  | .bool false => .ok (py "false")
  | .int n => .ok (intStr n)
  | .float x => .ok (FloatRepr.repr x)
  | .str s => .ok (quote s)
  | .bytes _ => .error .typeError
  | .list xs | .tuple xs => do
    let texts ← dumpsItems xs
    .ok (91 :: joinComma texts ++ [93])
  | .dict kvs => do
    let texts ← dumpsEntries kvs
    .ok (123 :: joinComma ((sortEntries texts).map fun e => quote e.1 ++ 58 :: e.2) ++ [125])

def dumpsItems : List (Val F) → Except Exc (List Str)
  | [] => .ok []
  | x :: xs => do
    let text ← dumps x
    let texts ← dumpsItems xs
    .ok (text :: texts)

def dumpsEntries : Dict F → Except Exc (List (Str × Str))
  | [] => .ok []
  | (.str k, v) :: kvs => do
    let text ← dumps v
    let texts ← dumpsEntries kvs
    .ok ((k, text) :: texts)
  | _ :: _ => .error .typeError

end

end Dumps

/-- `s.encode("utf-8")` -/
def encodeUtf8 (s : Str) : Except Exc Bytes :=
  if encodable s then .ok (Codec.utf8 s) else .error .unicodeEncodeError

/-! ## Values with a text -/

mutual

def Val.Jsonable : Val F → Prop
  | .str s => encodable s = true
  | .bytes _ => False
  | .list xs | .tuple xs => Jsonables xs
  | .dict kvs => JsonableEntries kvs
  | .none | .bool _ | .int _ | .float _ => True

def Jsonables : List (Val F) → Prop
  | [] => True
  | x :: xs => x.Jsonable ∧ Jsonables xs

def JsonableEntries : Dict F → Prop
  | [] => True
  | (.str k, v) :: kvs => encodable k = true ∧ v.Jsonable ∧ JsonableEntries kvs
  | _ :: _ => False

end

@[simp] theorem jsonable_str {s : Str} : (Val.str s : Val F).Jsonable ↔ encodable s = true := by
  rw [Val.Jsonable]

@[simp] theorem jsonable_int {n : ℤ} : (Val.int n : Val F).Jsonable := by
  rw [Val.Jsonable]
  trivial

@[simp] theorem jsonable_float {x : F} : (Val.float x : Val F).Jsonable := by
  rw [Val.Jsonable]
  trivial

theorem jsonable_list {xs : List (Val F)} :
    (Val.list xs : Val F).Jsonable ↔ ∀ x ∈ xs, x.Jsonable := by
  rw [Val.Jsonable]
  induction xs with
  | nil => simp [Jsonables]
  | cons x xs ih => rw [Jsonables, ih, List.forall_mem_cons]

theorem jsonable_dictOf {kvs : List (String × Val F)} :
    (dictOf kvs : Val F).Jsonable ↔ ∀ p ∈ kvs, encodable (py p.1) = true ∧ p.2.Jsonable := by
  rw [dictOf, Val.Jsonable]
  induction kvs with
  | nil => simp [JsonableEntries]
  | cons p kvs ih => rw [entries_cons, JsonableEntries, ih, List.forall_mem_cons, and_assoc]

/-! ## Encodable text -/

/-- A surrogate stands for itself. -/
theorem encodable_of_quote {s : Str} (h : encodable (quote s) = true) : encodable s = true := by
  rw [quote, encodable_append, encodable_cons] at h
  have hchars := h.1.2
  simp only [encodable, List.all_eq_true, Bool.not_eq_true'] at hchars ⊢
  intro c hc
  by_contra hsurrogate
  have hge : 0xD800 ≤ c := by
    by_contra hlt
    exact hsurrogate (isSurrogate_of_lt (not_le.1 hlt))
  have hmem : c ∈ s.flatMap escapeChar := by
    refine List.mem_flatMap.2 ⟨c, hc, ?_⟩
    unfold escapeChar
    split_ifs <;> first | omega | exact List.mem_singleton_self c
  exact hsurrogate (hchars c hmem)

theorem encodable_quote {s : Str} (h : encodable s = true) : encodable (quote s) = true := by
  have hchars : encodable (s.flatMap escapeChar) = true := by
    simp only [encodable, List.all_eq_true, Bool.not_eq_true'] at h ⊢
    intro d hd
    obtain ⟨c, hc, hd⟩ := List.mem_flatMap.1 hd
    unfold escapeChar at hd
    have h₁ := hexDigit_lt (c % 16) (Nat.mod_lt c (by omega))
    split_ifs at hd with h34 h8 h9 h10 h12 h13 h32
    · rcases List.mem_cons.1 hd with rfl | hd
      · rfl
      · rw [List.mem_singleton.1 hd]
        exact h c hc
    · exact isSurrogate_of_lt (by simp at hd; omega)
    · exact isSurrogate_of_lt (by simp at hd; omega)
    · exact isSurrogate_of_lt (by simp at hd; omega)
    · exact isSurrogate_of_lt (by simp at hd; omega)
    · exact isSurrogate_of_lt (by simp at hd; omega)
    · have h₂ := hexDigit_lt (c / 16) (by omega)
      exact isSurrogate_of_lt (by simp at hd; omega)
    · rw [List.mem_singleton.1 hd]
      exact h c hc
  rw [quote, encodable_append, encodable_cons]
  exact ⟨⟨rfl, hchars⟩, rfl⟩

theorem encodable_natStr (n : ℕ) : encodable (natStr n) = true := by
  apply encodable_of_lt
  intro c hc
  have := (digit_of_mem_natStr hc).2
  omega

theorem encodable_intStr (n : ℤ) : encodable (intStr n) = true := by
  unfold intStr
  rw [encodable_append]
  refine ⟨?_, encodable_natStr _⟩
  split_ifs <;> rfl

theorem encodable_joinComma {ts : List Str} (h : ∀ t ∈ ts, encodable t = true) :
    encodable (joinComma ts) = true := by
  induction ts with
  | nil => rfl
  | cons t ts ih =>
    rw [List.forall_mem_cons] at h
    cases ts with
    | nil => exact h.1
    | cons u us =>
      rw [joinComma, encodable_append, encodable_cons]
      · exact ⟨h.1, rfl, ih h.2⟩
      · intro he
        cases he

theorem encodable_of_joinComma {ts : List Str} (h : encodable (joinComma ts) = true) :
    ∀ t ∈ ts, encodable t = true := by
  induction ts with
  | nil => simp
  | cons t ts ih =>
    cases ts with
    | nil => simpa [joinComma] using h
    | cons u us =>
      rw [joinComma, encodable_append, encodable_cons] at h
      · exact List.forall_mem_cons.2 ⟨h.1, ih h.2.2⟩
      · intro he
        cases he

/-! ## The text of a value -/

section Text

variable [FloatRepr F]

theorem encodable_members {texts : List (Str × Str)}
    (h : ∀ e ∈ texts, encodable e.1 = true ∧ encodable e.2 = true) :
    encodable (joinComma ((sortEntries texts).map fun e => quote e.1 ++ 58 :: e.2)) = true := by
  apply encodable_joinComma
  intro t ht
  obtain ⟨e, he, rfl⟩ := List.mem_map.1 ht
  obtain ⟨hk, hv⟩ := h e ((List.perm_insertionSort _ _).mem_iff.1 he)
  rw [encodable_append, encodable_cons]
  exact ⟨encodable_quote hk, rfl, hv⟩

mutual

/-- A jsonable value has a text, which can be encoded. -/
theorem dumps_of_jsonable : ∀ (v : Val F), v.Jsonable →
    ∃ text, dumps v = .ok text ∧ encodable text = true
  | .none, _ => ⟨_, by rw [dumps], encodable_py _⟩
  | .bool true, _ => ⟨_, by rw [dumps], encodable_py _⟩
  | .bool false, _ => ⟨_, by rw [dumps], encodable_py _⟩
  | .int n, _ => ⟨_, by rw [dumps], encodable_intStr n⟩
  | .float x, _ => ⟨_, by rw [dumps], FloatRepr.repr_encodable x⟩
  | .str s, h => ⟨_, by rw [dumps], encodable_quote (jsonable_str.1 h)⟩
  | .bytes _, h => by
    rw [Val.Jsonable] at h
    exact h.elim
  | .list xs, h => by
    rw [Val.Jsonable] at h
    obtain ⟨texts, ht, he⟩ := dumpsItems_of_jsonables xs h
    refine ⟨_, by rw [dumps, ht]; rfl, ?_⟩
    simp [isSurrogate, encodable_joinComma he]
  | .tuple xs, h => by
    rw [Val.Jsonable] at h
    obtain ⟨texts, ht, he⟩ := dumpsItems_of_jsonables xs h
    refine ⟨_, by rw [dumps, ht]; rfl, ?_⟩
    simp [isSurrogate, encodable_joinComma he]
  | .dict kvs, h => by
    rw [Val.Jsonable] at h
    obtain ⟨texts, ht, he⟩ := dumpsEntries_of_jsonable kvs h
    refine ⟨_, by rw [dumps, ht]; rfl, ?_⟩
    simp [isSurrogate, encodable_members he]

theorem dumpsItems_of_jsonables : ∀ (xs : List (Val F)), Jsonables xs →
    ∃ texts, dumpsItems xs = .ok texts ∧ ∀ t ∈ texts, encodable t = true
  | [], _ => ⟨[], by rw [dumpsItems], by simp⟩
  | x :: xs, h => by
    rw [Jsonables] at h
    obtain ⟨text, ht, he⟩ := dumps_of_jsonable x h.1
    obtain ⟨texts, hts, hes⟩ := dumpsItems_of_jsonables xs h.2
    refine ⟨text :: texts, by rw [dumpsItems, ht, hts]; rfl, ?_⟩
    exact List.forall_mem_cons.2 ⟨he, hes⟩

theorem dumpsEntries_of_jsonable : ∀ (kvs : Dict F), JsonableEntries kvs →
    ∃ texts, dumpsEntries kvs = .ok texts ∧
      ∀ e ∈ texts, encodable e.1 = true ∧ encodable e.2 = true
  | [], _ => ⟨[], by rw [dumpsEntries], by simp⟩
  | (.str k, v) :: kvs, h => by
    rw [JsonableEntries] at h
    obtain ⟨text, ht, he⟩ := dumps_of_jsonable v h.2.1
    obtain ⟨texts, hts, hes⟩ := dumpsEntries_of_jsonable kvs h.2.2
    refine ⟨(k, text) :: texts, by rw [dumpsEntries, ht, hts]; rfl, ?_⟩
    exact List.forall_mem_cons.2 ⟨⟨h.1, he⟩, hes⟩
  | (.none, _) :: _, h | (.bool _, _) :: _, h | (.int _, _) :: _, h | (.float _, _) :: _, h
  | (.bytes _, _) :: _, h | (.tuple _, _) :: _, h => by
    rw [JsonableEntries] at h
    · exact h.elim
    · intro k v he
      cases he

end

theorem encodable_of_members {texts : List (Str × Str)}
    (h : encodable (joinComma ((sortEntries texts).map fun e => quote e.1 ++ 58 :: e.2)) = true) :
    ∀ e ∈ texts, encodable e.1 = true ∧ encodable e.2 = true := by
  intro e he
  have hmem : e ∈ sortEntries texts := (List.perm_insertionSort _ _).mem_iff.2 he
  have ht := encodable_of_joinComma h _ (List.mem_map.2 ⟨e, hmem, rfl⟩)
  rw [encodable_append, encodable_cons] at ht
  exact ⟨encodable_of_quote ht.1, ht.2.2⟩

mutual

/-- A value whose text exists and can be encoded is jsonable. -/
theorem jsonable_of_dumps : ∀ (v : Val F) {text : Str}, dumps v = .ok text →
    encodable text = true → v.Jsonable
  | .none, _, _, _ | .bool _, _, _, _ => by
    rw [Val.Jsonable]
    trivial
  | .int _, _, _, _ => jsonable_int
  | .float _, _, _, _ => jsonable_float
  | .str s, text, h, he => by
    rw [dumps] at h
    cases h
    exact jsonable_str.2 (encodable_of_quote he)
  | .bytes _, _, h, _ => by
    rw [dumps] at h
    cases h
  | .list xs, text, h, he | .tuple xs, text, h, he => by
    rw [dumps] at h
    obtain ⟨texts, ht, h⟩ := Except.bind_eq_ok.1 h
    cases h
    rw [encodable_append, encodable_cons] at he
    rw [Val.Jsonable]
    exact jsonables_of_dumpsItems xs ht (encodable_of_joinComma he.1.2)
  | .dict kvs, text, h, he => by
    rw [dumps] at h
    obtain ⟨texts, ht, h⟩ := Except.bind_eq_ok.1 h
    cases h
    rw [encodable_append, encodable_cons] at he
    rw [Val.Jsonable]
    exact jsonableEntries_of_dumpsEntries kvs ht (encodable_of_members he.1.2)

theorem jsonables_of_dumpsItems : ∀ (xs : List (Val F)) {texts : List Str},
    dumpsItems xs = .ok texts → (∀ t ∈ texts, encodable t = true) → Jsonables xs
  | [], _, _, _ => by
    rw [Jsonables]
    trivial
  | x :: xs, texts, h, he => by
    rw [dumpsItems] at h
    obtain ⟨text, ht, h⟩ := Except.bind_eq_ok.1 h
    obtain ⟨rest, hrest, h⟩ := Except.bind_eq_ok.1 h
    cases h
    rw [List.forall_mem_cons] at he
    rw [Jsonables]
    exact ⟨jsonable_of_dumps x ht he.1, jsonables_of_dumpsItems xs hrest he.2⟩

theorem jsonableEntries_of_dumpsEntries : ∀ (kvs : Dict F) {texts : List (Str × Str)},
    dumpsEntries kvs = .ok texts → (∀ e ∈ texts, encodable e.1 = true ∧ encodable e.2 = true) →
      JsonableEntries kvs
  | [], _, _, _ => by
    rw [JsonableEntries]
    trivial
  | (.str k, v) :: kvs, texts, h, he => by
    rw [dumpsEntries] at h
    obtain ⟨text, ht, h⟩ := Except.bind_eq_ok.1 h
    obtain ⟨rest, hrest, h⟩ := Except.bind_eq_ok.1 h
    cases h
    rw [List.forall_mem_cons] at he
    rw [JsonableEntries]
    exact ⟨he.1.1, jsonable_of_dumps v ht he.1.2, jsonableEntries_of_dumpsEntries kvs hrest he.2⟩
  | (.none, _) :: _, _, h, _ | (.bool _, _) :: _, _, h, _ | (.int _, _) :: _, _, h, _
  | (.float _, _) :: _, _, h, _ | (.bytes _, _) :: _, _, h, _ | (.tuple _, _) :: _, _, h, _ => by
    rw [dumpsEntries] at h
    · cases h
    · intro k v he
      cases he

end

end Text

/-- The text of a rational that is an integer is the text of that float; other rationals are
written as a fraction. -/
instance : FloatRepr ℚ where
  repr q := intStr q.num ++ if q.den = 1 then [46, 48] else 47 :: natStr q.den
  repr_encodable q := by
    rw [encodable_append]
    refine ⟨encodable_intStr _, ?_⟩
    split_ifs
    · rfl
    · rw [encodable_cons]
      exact ⟨rfl, encodable_natStr _⟩

end Py
