import Mathlib.Data.Nat.Log
import RemoteRobot.Lib.Serial

/-!
# A canonical CBOR codec

`Cbor ℚ` is an encoder and a decoder with the format's own layout: heads with the shortest
argument, UTF-8 strings, half-precision floats, and maps in the order of the length and then the
bytes of the encoded key.  Rational floats that are no half-precision number are tagged as
rationals, and arguments from `2 ^ 64` on have an encoding of their own, so that every encodable
value has one.  `LawfulCbor ℚ` is the round trip.
-/

namespace Py

/-! ## The order of encoded keys -/

theorem strLe_total (s t : Str) : strLe s t = true ∨ strLe t s = true := by
  induction s generalizing t with
  | nil => exact .inl rfl
  | cons a s ih =>
    cases t with
    | nil => exact .inr rfl
    | cons b t =>
      simp only [strLe, Bool.or_eq_true, Bool.and_eq_true, decide_eq_true_eq, beq_iff_eq]
      rcases Nat.lt_trichotomy a b with h | h | h
      · exact .inl (.inl h)
      · rcases ih t with ht | ht
        · exact .inl (.inr ⟨h, ht⟩)
        · exact .inr (.inr ⟨h.symm, ht⟩)
      · exact .inr (.inl h)

theorem strLe_trans {s t u : Str} (hst : strLe s t = true) (htu : strLe t u = true) :
    strLe s u = true := by
  induction s generalizing t u with
  | nil => rfl
  | cons a s ih =>
    cases t with
    | nil => cases hst
    | cons b t =>
      cases u with
      | nil => cases htu
      | cons c u =>
        simp only [strLe, Bool.or_eq_true, Bool.and_eq_true, decide_eq_true_eq, beq_iff_eq]
          at hst htu ⊢
        rcases hst with h | ⟨rfl, h⟩ <;> rcases htu with h' | ⟨rfl, h'⟩
        · exact .inl (by omega)
        · exact .inl h
        · exact .inl h'
        · exact .inr ⟨rfl, ih h h'⟩

theorem strLe_antisymm {s t : Str} (hst : strLe s t = true) (hts : strLe t s = true) : s = t := by
  induction s generalizing t with
  | nil => cases t with
    | nil => rfl
    | cons b t => cases hts
  | cons a s ih =>
    cases t with
    | nil => cases hst
    | cons b t =>
      simp only [strLe, Bool.or_eq_true, Bool.and_eq_true, decide_eq_true_eq, beq_iff_eq]
        at hst hts
      rcases hst with h | ⟨rfl, h⟩ <;> rcases hts with h' | ⟨h', h''⟩
      · omega
      · omega
      · omega
      · rw [ih h h'']

theorem pairwise_sortedSet (names : List Str) :
    (sortedSet names).Pairwise fun s t => strLe s t = true := by
  have : Std.Total fun s t : Str => strLe s t = true := ⟨strLe_total⟩
  have : IsTrans Str fun s t => strLe s t = true := ⟨fun _ _ _ => strLe_trans⟩
  exact List.pairwise_insertionSort _ _

/-- What is kept of `sorted(set(...))` depends on the members kept alone. -/
theorem filter_sortedSet_congr {names names' : List Str} {p p' : Str → Bool}
    (h : ∀ s, s ∈ names ∧ p s = true ↔ s ∈ names' ∧ p' s = true) :
    (sortedSet names).filter p = (sortedSet names').filter p' := by
  have : Std.Antisymm fun s t : Str => strLe s t = true := ⟨fun _ _ => strLe_antisymm⟩
  refine List.Perm.eq_of_pairwise' ((pairwise_sortedSet names).filter p)
    ((pairwise_sortedSet names').filter p') ?_
  refine (List.perm_ext_iff_of_nodup ((nodup_sortedSet names).filter p)
    ((nodup_sortedSet names').filter p')).2 fun s => ?_
  rw [List.mem_filter, List.mem_filter, mem_sortedSet, mem_sortedSet]
  exact h s

/-- `sorted(set(...))` depends on the members alone. -/
theorem sortedSet_congr {names names' : List Str} (h : ∀ s, s ∈ names ↔ s ∈ names') :
    sortedSet names = sortedSet names' := by
  have hfilter : (sortedSet names).filter (fun _ => true) = (sortedSet names').filter fun _ => true :=
    filter_sortedSet_congr fun s => and_congr_left' (h s)
  rwa [List.filter_true, List.filter_true] at hfilter

namespace Codec

/-! ## Bytes and arguments -/

def byte (n : ℕ) : UInt8 := UInt8.ofNat n

theorem toNat_byte (n : ℕ) : (byte n).toNat = n % 256 := UInt8.toNat_ofNat'

theorem byte_toNat (b : UInt8) : byte b.toNat = b := UInt8.ofNat_toNat

/-- The low `k` bytes of `n`, the highest first. -/
def beBytes : ℕ → ℕ → Bytes
  | 0, _ => []
  | k + 1, n => byte (n / 256 ^ k) :: beBytes k n

def readBe : ℕ → ℕ → Bytes → Option (ℕ × Bytes)
  | 0, acc, bs => some (acc, bs)
  | k + 1, acc, b :: bs => readBe k (acc * 256 + b.toNat) bs
  | _ + 1, _, [] => none

theorem readBe_beBytes (k n acc : ℕ) (rest : Bytes) :
    readBe k acc (beBytes k n ++ rest) = some (acc * 256 ^ k + n % 256 ^ k, rest) := by
  induction k generalizing acc with
  | zero => simp [readBe, beBytes, Nat.mod_one]
  | succ k ih =>
    rw [beBytes, List.cons_append, readBe, ih, toNat_byte, Nat.mod_pow_succ, Nat.pow_succ]
    congr 2
    ring

theorem readBe_beBytes_lt {k n : ℕ} (h : n < 256 ^ k) (rest : Bytes) :
    readBe k 0 (beBytes k n ++ rest) = some (n, rest) := by
  rw [readBe_beBytes, Nat.mod_eq_of_lt h, Nat.zero_mul, Nat.zero_add]

/-- Only the low bytes are written. -/
theorem beBytes_add_mul (k c n : ℕ) : beBytes k (c * 256 ^ k + n) = beBytes k n := by
  induction k generalizing c with
  | zero => rfl
  | succ k ih =>
    have hpow : c * 256 ^ (k + 1) + n = c * 256 * 256 ^ k + n := by
      rw [Nat.pow_succ]
      ring
    have hdiv : (c * 256 * 256 ^ k + n) / 256 ^ k = c * 256 + n / 256 ^ k := by
      rw [Nat.add_comm, Nat.add_mul_div_right _ _ (by positivity), Nat.add_comm]
    rw [hpow, beBytes, beBytes, ih, hdiv]
    congr 1
    rw [← UInt8.toNat_inj, toNat_byte, toNat_byte]
    omega

theorem exists_of_readBe {k acc n : ℕ} {bs rest : Bytes} (h : readBe k acc bs = some (n, rest)) :
    ∃ m, n = acc * 256 ^ k + m ∧ m < 256 ^ k ∧ bs = beBytes k m ++ rest := by
  induction k generalizing acc bs with
  | zero =>
    simp only [readBe, Option.some.injEq, Prod.mk.injEq] at h
    exact ⟨0, by omega, by simp, h.2⟩
  | succ k ih =>
    cases bs with
    | nil => cases h
    | cons b bs =>
      obtain ⟨m, hn, hm, hbs⟩ := ih h
      have hdiv : (b.toNat * 256 ^ k + m) / 256 ^ k = b.toNat := by
        rw [Nat.add_comm, Nat.add_mul_div_right _ _ (by positivity), Nat.div_eq_of_lt hm,
          Nat.zero_add]
      refine ⟨b.toNat * 256 ^ k + m, ?_, ?_, ?_⟩
      · rw [hn, Nat.pow_succ]
        ring
      · have hb := b.toNat_lt
        rw [Nat.pow_succ]
        nlinarith
      · rw [beBytes, hdiv, byte_toNat, beBytes_add_mul, hbs, List.cons_append]

/-- What is read is the number that was written. -/
theorem eq_of_readBe {k n : ℕ} {bs rest : Bytes} (h : readBe k 0 bs = some (n, rest)) :
    bs = beBytes k n ++ rest ∧ n < 256 ^ k := by
  obtain ⟨m, hn, hm, hbs⟩ := exists_of_readBe h
  obtain rfl : n = m := by omega
  exact ⟨hbs, hm⟩

theorem readBe_append {k acc n : ℕ} {bs rest : Bytes} (h : readBe k acc bs = some (n, rest))
    (more : Bytes) : readBe k acc (bs ++ more) = some (n, rest ++ more) := by
  induction k generalizing acc bs with
  | zero =>
    simp only [readBe, Option.some.injEq, Prod.mk.injEq] at h ⊢
    exact ⟨h.1, h.2 ▸ rfl⟩
  | succ k ih =>
    cases bs with
    | nil => cases h
    | cons b bs => exact ih h

theorem length_of_readBe {k acc n : ℕ} {bs rest : Bytes} (h : readBe k acc bs = some (n, rest)) :
    rest.length + k = bs.length := by
  induction k generalizing acc bs with
  | zero =>
    simp only [readBe, Option.some.injEq, Prod.mk.injEq] at h
    rw [h.2, Nat.add_zero]
  | succ k ih =>
    cases bs with
    | nil => cases h
    | cons b bs =>
      have := ih h
      rw [List.length_cons]
      omega

/-- Seven bits a byte, the lowest first, with the top bit set on all but the last. -/
def varint : ℕ → ℕ → Bytes
  | 0, _ => []
  | f + 1, n => if n < 128 then [byte n] else byte (128 + n % 128) :: varint f (n / 128)

def readVarint : Bytes → Option (ℕ × Bytes)
  | [] => none
  | b :: bs =>
    if b.toNat < 128 then some (b.toNat, bs)
    else (readVarint bs).map fun r => (b.toNat - 128 + 128 * r.1, r.2)

theorem readVarint_varint {f n : ℕ} (h : n < f) (rest : Bytes) :
    readVarint (varint f n ++ rest) = some (n, rest) := by
  induction f generalizing n with
  | zero => omega
  | succ f ih =>
    rw [varint]
    split_ifs with hn
    · have hb : (byte n).toNat = n := by rw [toNat_byte]; omega
      simp [readVarint, hb, hn]
    · have hb : (byte (128 + n % 128)).toNat = 128 + n % 128 := by rw [toNat_byte]; omega
      rw [List.cons_append, readVarint, hb, if_neg (by omega), ih (by omega)]
      simp only [Option.map_some, Option.some.injEq, Prod.mk.injEq, and_true]
      omega

/-- The head of an item: its major type and its argument. -/
def head (major n : ℕ) : Bytes :=
  if n < 24 then [byte (32 * major + n)]
  else if n < 256 ^ 1 then byte (32 * major + 24) :: beBytes 1 n
  else if n < 256 ^ 2 then byte (32 * major + 25) :: beBytes 2 n
  else if n < 256 ^ 4 then byte (32 * major + 26) :: beBytes 4 n
  else if n < 256 ^ 8 then byte (32 * major + 27) :: beBytes 8 n
  else byte (32 * major + 28) :: varint (n + 1) n

/-- The major type, the low five bits, the argument and what follows the head. -/
def readHead : Bytes → Option (ℕ × ℕ × ℕ × Bytes)
  | [] => none
  | b :: bs =>
    let major := b.toNat / 32
    let info := b.toNat % 32
    (if info < 24 then some (info, bs)
      else if info = 24 then readBe 1 0 bs
      else if info = 25 then readBe 2 0 bs
      else if info = 26 then readBe 4 0 bs
      else if info = 27 then readBe 8 0 bs
      else if info = 28 then readVarint bs
      else none).map fun r => (major, info, r)

theorem readHead_head {major : ℕ} (hm : major < 8) (n : ℕ) (rest : Bytes) :
    ∃ info, readHead (head major n ++ rest) = some (major, info, n, rest) := by
  have hdiv : ∀ i < 32, (byte (32 * major + i)).toNat / 32 = major := by
    intro i hi
    rw [toNat_byte]
    omega
  have hmod : ∀ i < 32, (byte (32 * major + i)).toNat % 32 = i := by
    intro i hi
    rw [toNat_byte]
    omega
  unfold head
  split_ifs with h h1 h2 h4 h8
  · exact ⟨n, by simp [readHead, hdiv n (by omega), hmod n (by omega), h]⟩
  · exact ⟨24, by simp [readHead, hdiv, hmod, readBe_beBytes_lt h1]⟩
  · exact ⟨25, by simp [readHead, hdiv, hmod, readBe_beBytes_lt h2]⟩
  · exact ⟨26, by simp [readHead, hdiv, hmod, readBe_beBytes_lt h4]⟩
  · exact ⟨27, by simp [readHead, hdiv, hmod, readBe_beBytes_lt h8]⟩
  · exact ⟨28, by simp [readHead, hdiv, hmod, readVarint_varint]⟩

theorem length_head_pos (major n : ℕ) : 0 < (head major n).length := by
  unfold head
  split_ifs <;> simp

/-! ## UTF-8 -/

def utf8Char (c : ℕ) : Bytes :=
  if c < 0x80 then [byte c]
  else if c < 0x800 then [byte (0xC0 + c / 64), byte (0x80 + c % 64)]
  else if c < 0x10000 then
    [byte (0xE0 + c / 64 ^ 2), byte (0x80 + c / 64 % 64), byte (0x80 + c % 64)]
  else if c < 0x110000 then
    [byte (0xF0 + c / 64 ^ 3), byte (0x80 + c / 64 ^ 2 % 64), byte (0x80 + c / 64 % 64),
      byte (0x80 + c % 64)]
  else byte 0xFF :: varint (c + 1) c

/-- The first character of the bytes and what follows it. -/
def readChar : Bytes → Option (ℕ × Bytes)
  | [] => none
  | b :: bs =>
    if b.toNat < 0x80 then some (b.toNat, bs)
    else if b.toNat < 0xC0 then none
    else if b.toNat < 0xE0 then
      match bs with
      | x :: bs => some ((b.toNat - 0xC0) * 64 + (x.toNat - 0x80), bs)
      | _ => none
    else if b.toNat < 0xF0 then
      match bs with
      | x :: y :: bs =>
        some ((b.toNat - 0xE0) * 64 ^ 2 + (x.toNat - 0x80) * 64 + (y.toNat - 0x80), bs)
      | _ => none
    else if b.toNat < 0xF8 then
      match bs with
      | x :: y :: z :: bs =>
        some ((b.toNat - 0xF0) * 64 ^ 3 + (x.toNat - 0x80) * 64 ^ 2 + (y.toNat - 0x80) * 64 +
          (z.toNat - 0x80), bs)
      | _ => none
    else if b.toNat = 0xFF then readVarint bs
    else none

theorem readChar_utf8Char (c : ℕ) (rest : Bytes) :
    readChar (utf8Char c ++ rest) = some (c, rest) := by
  unfold utf8Char
  split_ifs with h1 h2 h3 h4
  · have hb : (byte c).toNat = c := by rw [toNat_byte]; omega
    simp [readChar, hb, h1]
  · have hb : (byte (0xC0 + c / 64)).toNat = 0xC0 + c / 64 := by rw [toNat_byte]; omega
    have hx : (byte (0x80 + c % 64)).toNat = 0x80 + c % 64 := by rw [toNat_byte]; omega
    simp only [List.cons_append, List.nil_append, readChar, hb, hx]
    rw [if_neg (by omega), if_neg (by omega), if_pos (by omega)]
    simp only [Option.some.injEq, Prod.mk.injEq, and_true]
    omega
  · have hb : (byte (0xE0 + c / 64 ^ 2)).toNat = 0xE0 + c / 64 ^ 2 := by rw [toNat_byte]; omega
    have hx : (byte (0x80 + c / 64 % 64)).toNat = 0x80 + c / 64 % 64 := by
      rw [toNat_byte]; omega
    have hy : (byte (0x80 + c % 64)).toNat = 0x80 + c % 64 := by rw [toNat_byte]; omega
    simp only [List.cons_append, List.nil_append, readChar, hb, hx, hy]
    rw [if_neg (by omega), if_neg (by omega), if_neg (by omega), if_pos (by omega)]
    simp only [Option.some.injEq, Prod.mk.injEq, and_true]
    omega
  · have hb : (byte (0xF0 + c / 64 ^ 3)).toNat = 0xF0 + c / 64 ^ 3 := by rw [toNat_byte]; omega
    have hx : (byte (0x80 + c / 64 ^ 2 % 64)).toNat = 0x80 + c / 64 ^ 2 % 64 := by
      rw [toNat_byte]; omega
    have hy : (byte (0x80 + c / 64 % 64)).toNat = 0x80 + c / 64 % 64 := by
      rw [toNat_byte]; omega
    have hz : (byte (0x80 + c % 64)).toNat = 0x80 + c % 64 := by rw [toNat_byte]; omega
    simp only [List.cons_append, List.nil_append, readChar, hb, hx, hy, hz]
    rw [if_neg (by omega), if_neg (by omega), if_neg (by omega), if_neg (by omega),
      if_pos (by omega)]
    simp only [Option.some.injEq, Prod.mk.injEq, and_true]
    omega
  · have hb : (byte 0xFF).toNat = 0xFF := by rw [toNat_byte]
    simp [readChar, hb, readVarint_varint]

theorem length_utf8Char_pos (c : ℕ) : 0 < (utf8Char c).length := by
  unfold utf8Char
  split_ifs <;> simp

def utf8 (s : Str) : Bytes := s.flatMap utf8Char

def readUtf8 : ℕ → Bytes → Option Str
  | _, [] => some []
  | 0, _ :: _ => none
  | f + 1, b :: bs => (readChar (b :: bs)).bind fun r => (readUtf8 f r.2).map (r.1 :: ·)

theorem readUtf8_utf8 {s : Str} {f : ℕ} (hf : (utf8 s).length ≤ f) :
    readUtf8 f (utf8 s) = some s := by
  induction s generalizing f with
  | nil => cases f <;> rfl
  | cons c s ih =>
    have hpos := length_utf8Char_pos c
    have hlen : (utf8 (c :: s)).length = (utf8Char c).length + (utf8 s).length := by
      simp [utf8]
    obtain ⟨f, rfl⟩ : ∃ g, f = g + 1 := ⟨f - 1, by omega⟩
    have happ : utf8 (c :: s) = utf8Char c ++ utf8 s := rfl
    cases hu : utf8 (c :: s) with
    | nil => rw [hu] at hlen; simp at hlen; omega
    | cons b bs =>
      rw [readUtf8, ← hu, happ, readChar_utf8Char]
      simp [ih (f := f) (by omega)]

/-! ## Floats -/

/-- The value of a half-precision code. -/
def halfValue (code : ℕ) : ℚ :=
  let sign : ℤ := if code / 2 ^ 15 % 2 = 1 then -1 else 1
  let exponent := code / 2 ^ 10 % 32
  let mantissa := code % 2 ^ 10
  let n : ℕ := if exponent = 0 then mantissa else (1024 + mantissa) * 2 ^ (exponent - 1)
  (sign * n : ℤ) / 2 ^ 24

/-- The code a rational has if it is a half-precision number. -/
def halfGuess (x : ℚ) : ℕ :=
  let n := (x * 2 ^ 24).num.natAbs
  let exponent := Nat.log2 n - 9
  let mantissa := if exponent = 0 then n else n / 2 ^ (exponent - 1) - 1024
  (if x < 0 then 2 ^ 15 else 0) + exponent * 2 ^ 10 + mantissa

def halfCode (x : ℚ) : Option ℕ :=
  if halfGuess x < 256 ^ 2 ∧ halfValue (halfGuess x) = x then some (halfGuess x) else none

theorem halfCode_spec {x : ℚ} {code : ℕ} (h : halfCode x = some code) :
    code < 256 ^ 2 ∧ halfValue code = x := by
  unfold halfCode at h
  split_ifs at h with hc
  exact Option.some.inj h ▸ hc

def encInt (n : ℤ) : Bytes :=
  if 0 ≤ n then head 0 n.toNat else head 1 (-1 - n).toNat

def encFloat (x : ℚ) : Bytes :=
  match halfCode x with
  | some code => byte 0xF9 :: beBytes 2 code
  | none => head 6 30 ++ (head 4 2 ++ (encInt x.num ++ head 0 x.den))

def encStr (s : Str) : Bytes := head 3 (utf8 s).length ++ utf8 s

def encBytes (b : Bytes) : Bytes := head 2 b.length ++ b

/-! ## Values -/

/-- The order of map entries. -/
def rank (e : Bytes × Bytes) : Str :=
  e.1.length :: (e.1.map UInt8.toNat ++ e.2.map UInt8.toNat)

theorem rank_injective : Function.Injective rank := by
  rintro ⟨a, b⟩ ⟨a', b'⟩ h
  unfold rank at h
  rw [List.cons.injEq] at h
  have hinj : Function.Injective UInt8.toNat := fun x y => UInt8.toNat_inj.1
  have happ := List.append_inj h.2 (by simpa using h.1)
  exact Prod.ext (hinj.list_map happ.1) (hinj.list_map happ.2)

def entryLe (e e' : Bytes × Bytes) : Bool := strLe (rank e) (rank e')

/-- The entries of a map in their order. -/
def sortEntries {α : Type} (es : List ((Bytes × Bytes) × α)) : List ((Bytes × Bytes) × α) :=
  es.insertionSort fun e e' => entryLe e.1 e'.1 = true

theorem sortEntries_perm {α : Type} (es : List ((Bytes × Bytes) × α)) :
    (sortEntries es).Perm es := List.perm_insertionSort _ es

/-- The order of the encodings does not depend on the order the entries came in. -/
theorem map_fst_sortEntries {α β : Type} {es : List ((Bytes × Bytes) × α)}
    {es' : List ((Bytes × Bytes) × β)} (h : (es.map Prod.fst).Perm (es'.map Prod.fst)) :
    (sortEntries es).map Prod.fst = (sortEntries es').map Prod.fst := by
  unfold sortEntries
  rw [List.map_insertionSort _ (fun e e' => entryLe e e' = true) _ _ (by simp),
    List.map_insertionSort _ (fun e e' => entryLe e e' = true) _ _ (by simp)]
  have : Std.Total fun e e' : Bytes × Bytes => entryLe e e' = true :=
    ⟨fun e e' => strLe_total _ _⟩
  have : IsTrans (Bytes × Bytes) fun e e' => entryLe e e' = true :=
    ⟨fun e e' e'' => strLe_trans⟩
  have : Std.Antisymm fun e e' : Bytes × Bytes => entryLe e e' = true :=
    ⟨fun e e' h h' => rank_injective (strLe_antisymm h h')⟩
  refine List.Perm.eq_of_pairwise' (List.pairwise_insertionSort _ _)
    (List.pairwise_insertionSort _ _) ?_
  exact (List.perm_insertionSort _ _).trans (h.trans (List.perm_insertionSort _ _).symm)

mutual

def encKey : Key ℚ → Bytes
  | .none => [byte 0xF6]
  | .bool b => [byte (if b then 0xF5 else 0xF4)]
  | .int n => encInt n
  | .float x => encFloat x
  | .str s => encStr s
  | .bytes b => encBytes b
  | .tuple ks => head 4 ks.length ++ encKeys ks

def encKeys : List (Key ℚ) → Bytes
  | [] => []
  | k :: ks => encKey k ++ encKeys ks

end

mutual

/-- The encoding of a value, and the value a decoder makes of it. -/
def canon : Val ℚ → Bytes × Val ℚ
  | .none => ([byte 0xF6], .none)
  | .bool b => ([byte (if b then 0xF5 else 0xF4)], .bool b)
  | .int n => (encInt n, .int n)
  | .float x => (encFloat x, .float x)
  | .str s => (encStr s, .str s)
  | .bytes b => (encBytes b, .bytes b)
  | .list vs | .tuple vs =>
    let cs := canonList vs
    (head 4 cs.length ++ cs.flatMap Prod.fst, .list (cs.map Prod.snd))
  | .dict kvs =>
    let cs := sortEntries (canonDict kvs)
    (head 5 cs.length ++ cs.flatMap fun c => c.1.1 ++ c.1.2, .dict (cs.map Prod.snd))

def canonList : List (Val ℚ) → List (Bytes × Val ℚ)
  | [] => []
  | v :: vs => canon v :: canonList vs

def canonDict : Dict ℚ → List ((Bytes × Bytes) × (Key ℚ × Val ℚ))
  | [] => []
  | (k, v) :: kvs => ((encKey k, (canon v).1), (k, (canon v).2)) :: canonDict kvs

end

/-! ## Decoding -/

def take? (n : ℕ) (bs : Bytes) : Option (Bytes × Bytes) :=
  if n ≤ bs.length then some (bs.take n, bs.drop n) else none

theorem take?_append (b rest : Bytes) : take? b.length (b ++ rest) = some (b, rest) := by
  simp [take?]

def readRational (bs : Bytes) : Option (ℚ × Bytes) :=
  (readHead bs).bind fun (_, _, _, bs) => (readHead bs).bind fun (major, _, m, bs) =>
    (readHead bs).map fun (_, _, den, bs) => ((if major = 0 then (m : ℤ) else -1 - m) / (den : ℚ), bs)

/-- The items of the last major type: simple values and half-precision floats. -/
def readSimple (info arg : ℕ) : Option (Val ℚ) :=
  if info = 20 then some (.bool false)
  else if info = 21 then some (.bool true)
  else if info = 22 then some .none
  else if info = 25 then some (.float (halfValue arg))
  else none

mutual

/-- A value as a key: arrays are tuples. -/
def asKey : Val ℚ → Option (Key ℚ)
  | .none => some .none
  | .bool b => some (.bool b)
  | .int n => some (.int n)
  | .float x => some (.float x)
  | .str s => some (.str s)
  | .bytes b => some (.bytes b)
  | .list vs => (asKeys vs).map .tuple
  | _ => none

def asKeys : List (Val ℚ) → Option (List (Key ℚ))
  | [] => some []
  | v :: vs => (asKey v).bind fun k => (asKeys vs).map (k :: ·)

end

mutual

def decode : ℕ → Bytes → Option (Val ℚ × Bytes)
  | 0, _ => none
  | f + 1, bs => (readHead bs).bind fun (major, info, n, rest) =>
    if major = 0 then some (.int n, rest)
    else if major = 1 then some (.int (-1 - n), rest)
    else if major = 2 then (take? n rest).map fun r => (.bytes r.1, r.2)
    else if major = 3 then
      (take? n rest).bind fun r => (readUtf8 r.1.length r.1).map fun s => (.str s, r.2)
    else if major = 4 then (decodeMany f n rest).map fun r => (.list r.1, r.2)
    else if major = 5 then (decodePairs f n rest).map fun r => (.dict r.1, r.2)
    else if major = 6 then (readRational rest).map fun r => (.float r.1, r.2)
    else (readSimple info n).map fun v => (v, rest)

def decodeMany : ℕ → ℕ → Bytes → Option (List (Val ℚ) × Bytes)
  | 0, _, _ => none
  | _ + 1, 0, bs => some ([], bs)
  | f + 1, n + 1, bs => (decode f bs).bind fun r =>
    (decodeMany f n r.2).map fun r' => (r.1 :: r'.1, r'.2)

def decodePairs : ℕ → ℕ → Bytes → Option (Dict ℚ × Bytes)
  | 0, _, _ => none
  | _ + 1, 0, bs => some ([], bs)
  | f + 1, n + 1, bs => (decode f bs).bind fun rk => (asKey rk.1).bind fun k =>
    (decode f rk.2).bind fun rv =>
      (decodePairs f n rv.2).map fun r' => ((k, rv.1) :: r'.1, r'.2)

end

/-! ## Round trips of the parts -/

theorem length_encInt_pos (n : ℤ) : 0 < (encInt n).length := by
  unfold encInt
  split_ifs <;> exact length_head_pos _ _

theorem length_encFloat_pos (x : ℚ) : 0 < (encFloat x).length := by
  unfold encFloat
  have := length_head_pos 6 30
  split
  · simp
  · rw [List.length_append]
    omega

theorem length_encStr_pos (s : Str) : 0 < (encStr s).length := by
  have := length_head_pos 3 (utf8 s).length
  simp only [encStr, List.length_append]
  omega

theorem length_encBytes_pos (b : Bytes) : 0 < (encBytes b).length := by
  have := length_head_pos 2 b.length
  simp only [encBytes, List.length_append]
  omega

theorem length_encKey_pos (k : Key ℚ) : 0 < (encKey k).length := by
  cases k with
  | none => simp [encKey]
  | bool b => simp [encKey]
  | int n => exact length_encInt_pos n
  | float x => exact length_encFloat_pos x
  | str s => exact length_encStr_pos s
  | bytes b => exact length_encBytes_pos b
  | tuple ks =>
    have := length_head_pos 4 ks.length
    simp only [encKey, List.length_append]
    omega

theorem length_canon_pos (v : Val ℚ) : 0 < (canon v).1.length := by
  cases v with
  | none => simp [canon]
  | bool b => simp [canon]
  | int n => exact length_encInt_pos n
  | float x => exact length_encFloat_pos x
  | str s => exact length_encStr_pos s
  | bytes b => exact length_encBytes_pos b
  | list vs | tuple vs =>
    have := length_head_pos 4 (canonList vs).length
    simp only [canon, List.length_append]
    omega
  | dict kvs =>
    have := length_head_pos 5 (sortEntries (canonDict kvs)).length
    simp only [canon, List.length_append]
    omega

theorem decode_encInt (f : ℕ) (n : ℤ) (rest : Bytes) :
    decode (f + 1) (encInt n ++ rest) = some (.int n, rest) := by
  unfold encInt
  split_ifs with hn
  · obtain ⟨info, h⟩ := readHead_head (show 0 < 8 by omega) n.toNat rest
    simp [decode, h, Int.toNat_of_nonneg hn]
  · obtain ⟨info, h⟩ := readHead_head (show 1 < 8 by omega) (-1 - n).toNat rest
    have hneg : -1 - ((-1 - n).toNat : ℤ) = n := by omega
    simp only [decode, h, Option.bind_some, one_ne_zero, if_false, if_true, hneg]

theorem readRational_enc (x : ℚ) (rest : Bytes) :
    readRational (head 4 2 ++ (encInt x.num ++ head 0 x.den) ++ rest) = some (x, rest) := by
  obtain ⟨_, h₁⟩ := readHead_head (show 4 < 8 by omega) 2 (encInt x.num ++ (head 0 x.den ++ rest))
  obtain ⟨_, h₃⟩ := readHead_head (show 0 < 8 by omega) x.den rest
  unfold readRational
  simp only [List.append_assoc, h₁, Option.bind_some]
  unfold encInt
  split_ifs with hn
  · obtain ⟨_, h₂⟩ := readHead_head (show 0 < 8 by omega) x.num.toNat (head 0 x.den ++ rest)
    simp only [h₂, h₃, Option.bind_some, Option.map_some, if_true, Int.toNat_of_nonneg hn,
      Rat.num_div_den]
  · obtain ⟨_, h₂⟩ := readHead_head (show 1 < 8 by omega) (-1 - x.num).toNat
      (head 0 x.den ++ rest)
    have hneg : -1 - ((-1 - x.num).toNat : ℤ) = x.num := by omega
    simp only [h₂, h₃, Option.bind_some, Option.map_some, one_ne_zero, if_false, hneg,
      Rat.num_div_den]

theorem decode_encFloat (f : ℕ) (x : ℚ) (rest : Bytes) :
    decode (f + 1) (encFloat x ++ rest) = some (.float x, rest) := by
  unfold encFloat
  cases hc : halfCode x with
  | some code =>
    obtain ⟨hlt, hval⟩ := halfCode_spec hc
    have hb : (byte 0xF9).toNat = 0xF9 := by rw [toNat_byte]
    simp [decode, readHead, hb, readBe_beBytes_lt hlt, readSimple, hval]
  | none =>
    obtain ⟨_, h⟩ := readHead_head (show 6 < 8 by omega) 30
      (head 4 2 ++ (encInt x.num ++ head 0 x.den) ++ rest)
    simp only [decode, List.append_assoc] at h ⊢
    rw [h]
    have hr := readRational_enc x rest
    simp only [List.append_assoc] at hr
    simp [hr]

theorem decode_encStr (f : ℕ) (s : Str) (rest : Bytes) :
    decode (f + 1) (encStr s ++ rest) = some (.str s, rest) := by
  obtain ⟨_, h⟩ := readHead_head (show 3 < 8 by omega) (utf8 s).length (utf8 s ++ rest)
  unfold encStr
  rw [List.append_assoc]
  simp [decode, h, take?_append, readUtf8_utf8]

theorem decode_encBytes (f : ℕ) (b rest : Bytes) :
    decode (f + 1) (encBytes b ++ rest) = some (.bytes b, rest) := by
  obtain ⟨_, h⟩ := readHead_head (show 2 < 8 by omega) b.length (b ++ rest)
  unfold encBytes
  rw [List.append_assoc]
  simp [decode, h, take?_append]

theorem decode_none (f : ℕ) (rest : Bytes) :
    decode (f + 1) ([byte 0xF6] ++ rest) = some (.none, rest) := by
  have hb : (byte 0xF6).toNat = 0xF6 := by rw [toNat_byte]
  simp [decode, readHead, hb, readSimple]

theorem decode_bool (f : ℕ) (b : Bool) (rest : Bytes) :
    decode (f + 1) ([byte (if b then 0xF5 else 0xF4)] ++ rest) = some (.bool b, rest) := by
  have hb : ∀ n < 256, (byte n).toNat = n := fun n hn => by rw [toNat_byte]; omega
  cases b <;> simp [decode, readHead, hb, readSimple]

/-! ## The round trip -/

/-- Any amount of fuel that bounds the bytes twice decodes `b` to `v`. -/
def Decodes (b : Bytes) (v : Val ℚ) : Prop :=
  0 < b.length ∧ ∀ f rest, 2 * b.length ≤ f → decode f (b ++ rest) = some (v, rest)

theorem Decodes.of_succ {b : Bytes} {v : Val ℚ} (hpos : 0 < b.length)
    (h : ∀ f rest, 2 * b.length ≤ f + 1 → decode (f + 1) (b ++ rest) = some (v, rest)) :
    Decodes b v := by
  refine ⟨hpos, fun f rest hf => ?_⟩
  obtain ⟨f, rfl⟩ : ∃ g, f = g + 1 := ⟨f - 1, by omega⟩
  exact h f rest hf

theorem decodeMany_flatMap {cs : List (Bytes × Val ℚ)} (h : ∀ c ∈ cs, Decodes c.1 c.2) {f : ℕ}
    (hf : 2 * (cs.flatMap Prod.fst).length + 1 ≤ f) (rest : Bytes) :
    decodeMany f cs.length (cs.flatMap Prod.fst ++ rest) = some (cs.map Prod.snd, rest) := by
  induction cs generalizing f with
  | nil =>
    obtain ⟨f, rfl⟩ : ∃ g, f = g + 1 := ⟨f - 1, by omega⟩
    rfl
  | cons c cs ih =>
    obtain ⟨hpos, hc⟩ := h c List.mem_cons_self
    rw [List.flatMap_cons, List.length_append] at hf
    obtain ⟨f, rfl⟩ : ∃ g, f = g + 1 := ⟨f - 1, by omega⟩
    have hcs := ih (fun c' hc' => h c' (List.mem_cons_of_mem _ hc')) (f := f) (by omega)
    simp [decodeMany, hc f _ (by omega), hcs]

/-- A list of arrays is decoded with the fuel of its head added. -/
theorem Decodes.list {cs : List (Bytes × Val ℚ)} (h : ∀ c ∈ cs, Decodes c.1 c.2) :
    Decodes (head 4 cs.length ++ cs.flatMap Prod.fst) (.list (cs.map Prod.snd)) := by
  have hpos := length_head_pos 4 cs.length
  refine .of_succ (by rw [List.length_append]; omega) fun f rest hf => ?_
  rw [List.length_append] at hf
  obtain ⟨_, hh⟩ := readHead_head (show 4 < 8 by omega) cs.length (cs.flatMap Prod.fst ++ rest)
  rw [List.append_assoc]
  simp [decode, hh, decodeMany_flatMap h (f := f) (by omega) rest]

mutual

/-- The value a key is decoded to. -/
def keyImage : Key ℚ → Val ℚ
  | .none => .none
  | .bool b => .bool b
  | .int n => .int n
  | .float x => .float x
  | .str s => .str s
  | .bytes b => .bytes b
  | .tuple ks => .list (keyImages ks)

def keyImages : List (Key ℚ) → List (Val ℚ)
  | [] => []
  | k :: ks => keyImage k :: keyImages ks

end

mutual

theorem asKey_keyImage : ∀ k, asKey (keyImage k) = some k
  | .none | .bool _ | .int _ | .float _ | .str _ | .bytes _ => by simp [keyImage, asKey]
  | .tuple ks => by simp [keyImage, asKey, asKeys_keyImages ks]

theorem asKeys_keyImages : ∀ ks, asKeys (keyImages ks) = some ks
  | [] => by simp [keyImages, asKeys]
  | k :: ks => by simp [keyImages, asKeys, asKey_keyImage k, asKeys_keyImages ks]

end

theorem encKeys_eq (ks : List (Key ℚ)) : encKeys ks = ks.flatMap encKey := by
  induction ks with
  | nil => rfl
  | cons k ks ih => rw [encKeys, ih, List.flatMap_cons]

theorem keyImages_eq (ks : List (Key ℚ)) : keyImages ks = ks.map keyImage := by
  induction ks with
  | nil => rfl
  | cons k ks ih => rw [keyImages, ih, List.map_cons]

mutual

theorem decodes_encKey : ∀ k, Decodes (encKey k) (keyImage k)
  | .none => .of_succ (length_encKey_pos _) fun f rest _ => decode_none f rest
  | .bool b => .of_succ (length_encKey_pos (.bool b)) fun f rest _ => decode_bool f b rest
  | .int n => .of_succ (length_encKey_pos (.int n)) fun f rest _ => decode_encInt f n rest
  | .float x => .of_succ (length_encKey_pos (.float x)) fun f rest _ => decode_encFloat f x rest
  | .str s => .of_succ (length_encKey_pos (.str s)) fun f rest _ => decode_encStr f s rest
  | .bytes b => .of_succ (length_encKey_pos (.bytes b)) fun f rest _ => decode_encBytes f b rest
  | .tuple ks => by
    have hall : ∀ c ∈ ks.map fun k => (encKey k, keyImage k), Decodes c.1 c.2 := by
      rintro c hc
      obtain ⟨k, hk, rfl⟩ := List.mem_map.1 hc
      exact decodes_encKeys ks k hk
    have h := Decodes.list hall
    rw [List.length_map, List.flatMap_map, List.map_map] at h
    rw [encKey, keyImage, encKeys_eq, keyImages_eq]
    exact h

theorem decodes_encKeys : ∀ ks : List (Key ℚ), ∀ k ∈ ks, Decodes (encKey k) (keyImage k)
  | [], _, hk => absurd hk List.not_mem_nil
  | k :: ks, k', hk => by
    rcases List.mem_cons.1 hk with heq | hk
    · rw [heq]
      exact decodes_encKey k
    · exact decodes_encKeys ks k' hk

end

theorem decodePairs_flatMap {cs : List ((Bytes × Bytes) × (Key ℚ × Val ℚ))}
    (h : ∀ c ∈ cs, Decodes c.1.1 (keyImage c.2.1) ∧ Decodes c.1.2 c.2.2) {f : ℕ}
    (hf : 2 * (cs.flatMap fun c => c.1.1 ++ c.1.2).length + 1 ≤ f) (rest : Bytes) :
    decodePairs f cs.length ((cs.flatMap fun c => c.1.1 ++ c.1.2) ++ rest) =
      some (cs.map Prod.snd, rest) := by
  induction cs generalizing f with
  | nil =>
    obtain ⟨f, rfl⟩ : ∃ g, f = g + 1 := ⟨f - 1, by omega⟩
    rfl
  | cons c cs ih =>
    obtain ⟨⟨hkpos, hk⟩, -, hv⟩ := h c List.mem_cons_self
    rw [List.flatMap_cons, List.length_append, List.length_append] at hf
    obtain ⟨f, rfl⟩ : ∃ g, f = g + 1 := ⟨f - 1, by omega⟩
    have hcs := ih (fun c' hc' => h c' (List.mem_cons_of_mem _ hc')) (f := f) (by omega)
    simp [decodePairs, hk f _ (by omega), hv f _ (by omega), asKey_keyImage, hcs]

mutual

theorem decodes_canon : ∀ v, Decodes (canon v).1 (canon v).2
  | .none => .of_succ (length_canon_pos _) fun f rest _ => decode_none f rest
  | .bool b => .of_succ (length_canon_pos (.bool b)) fun f rest _ => decode_bool f b rest
  | .int n => .of_succ (length_canon_pos (.int n)) fun f rest _ => decode_encInt f n rest
  | .float x => .of_succ (length_canon_pos (.float x)) fun f rest _ => decode_encFloat f x rest
  | .str s => .of_succ (length_canon_pos (.str s)) fun f rest _ => decode_encStr f s rest
  | .bytes b => .of_succ (length_canon_pos (.bytes b)) fun f rest _ => decode_encBytes f b rest
  | .list vs | .tuple vs => by
    simp only [canon]
    exact Decodes.list (decodes_canonList vs)
  | .dict kvs => by
    have hall : ∀ c ∈ sortEntries (canonDict kvs),
        Decodes c.1.1 (keyImage c.2.1) ∧ Decodes c.1.2 c.2.2 :=
      fun c hc => decodes_canonDict kvs c ((sortEntries_perm _).mem_iff.1 hc)
    refine .of_succ (length_canon_pos (.dict kvs)) fun f rest hf => ?_
    simp only [canon, List.length_append] at hf ⊢
    have hpos := length_head_pos 5 (sortEntries (canonDict kvs)).length
    obtain ⟨_, hh⟩ := readHead_head (show 5 < 8 by omega) (sortEntries (canonDict kvs)).length
      (((sortEntries (canonDict kvs)).flatMap fun c => c.1.1 ++ c.1.2) ++ rest)
    have hp := decodePairs_flatMap hall (f := f) (by omega) rest
    rw [List.append_assoc]
    simp only [decode, hh, Option.bind_some, hp, Option.map_some]
    rfl

theorem decodes_canonList : ∀ vs, ∀ c ∈ canonList vs, Decodes c.1 c.2
  | [], _, hc => by cases hc
  | v :: vs, c, hc => by
    rcases List.mem_cons.1 hc with rfl | hc
    · exact decodes_canon v
    · exact decodes_canonList vs c hc

theorem decodes_canonDict : ∀ kvs, ∀ c ∈ canonDict kvs,
    Decodes c.1.1 (keyImage c.2.1) ∧ Decodes c.1.2 c.2.2
  | [], _, hc => by cases hc
  | (k, v) :: kvs, c, hc => by
    rcases List.mem_cons.1 hc with rfl | hc
    · exact ⟨decodes_encKey k, decodes_canon v⟩
    · exact decodes_canonDict kvs c hc

end

/-! ## What decoding forgets -/

mutual

theorem reads_canon : ∀ v : Val ℚ, v.Reads (canon v).2
  | .none | .bool _ | .int _ | .float _ | .str _ | .bytes _ => by simp [Val.Reads, canon]
  | .list vs | .tuple vs => by
    simp only [Val.Reads, canon]
    exact ⟨_, rfl, readsList_canonList vs⟩
  | .dict kvs => by
    simp only [Val.Reads, canon]
    exact ⟨_, _, rfl, ((sortEntries_perm _).map Prod.snd).symm, readsDict_canonDict kvs⟩

theorem readsList_canonList : ∀ vs, Val.ReadsList vs ((canonList vs).map Prod.snd)
  | [] => rfl
  | v :: vs => ⟨_, _, rfl, reads_canon v, readsList_canonList vs⟩

theorem readsDict_canonDict : ∀ kvs, Val.ReadsDict kvs ((canonDict kvs).map Prod.snd)
  | [] => rfl
  | (_, v) :: kvs => ⟨_, _, rfl, reads_canon v, readsDict_canonDict kvs⟩

end

theorem canonDict_eq (kvs : Dict ℚ) :
    canonDict kvs = kvs.map fun p => ((encKey p.1, (canon p.2).1), (p.1, (canon p.2).2)) := by
  induction kvs with
  | nil => rfl
  | cons p kvs ih => rw [canonDict, ih, List.map_cons]

theorem canonDict_perm {a b : Dict ℚ} (h : a.Perm b) : (canonDict a).Perm (canonDict b) := by
  rw [canonDict_eq, canonDict_eq]
  exact h.map _

mutual

/-- A value and what it reads back as have one encoding. -/
theorem canon_of_reads : ∀ (v w : Val ℚ), v.Reads w → (canon w).1 = (canon v).1
  | .none, w, h | .bool _, w, h | .int _, w, h | .float _, w, h | .str _, w, h
  | .bytes _, w, h => by rw [show w = _ from h]
  | .list vs, w, h | .tuple vs, w, h => by
    obtain ⟨ws, rfl, hws⟩ := h
    have hfst := canonList_of_reads vs ws hws
    have hlen : (canonList ws).length = (canonList vs).length := by
      rw [← List.length_map (f := Prod.fst), hfst, List.length_map]
    simp only [canon, hlen, List.flatMap_def, hfst]
  | .dict a, w, h => by
    obtain ⟨b, c, rfl, hp, hc⟩ := h
    have hperm : ((canonDict b).map Prod.fst).Perm ((canonDict a).map Prod.fst) := by
      rw [← canonDict_of_reads a c hc]
      exact ((canonDict_perm hp).map Prod.fst).symm
    have hfst := map_fst_sortEntries hperm
    have hlen : (sortEntries (canonDict b)).length = (sortEntries (canonDict a)).length := by
      rw [← List.length_map (f := Prod.fst), hfst, List.length_map]
    have hflat : ∀ es : List ((Bytes × Bytes) × (Key ℚ × Val ℚ)),
        (es.flatMap fun e => e.1.1 ++ e.1.2) = (es.map Prod.fst).flatMap fun e => e.1 ++ e.2 := by
      intro es
      rw [List.flatMap_map]
    simp only [canon, hlen, hflat, hfst]

theorem canonList_of_reads : ∀ (vs ws : List (Val ℚ)), Val.ReadsList vs ws →
    (canonList ws).map Prod.fst = (canonList vs).map Prod.fst
  | [], ws, h => by rw [show ws = [] from h]
  | v :: vs, ws, h => by
    obtain ⟨w, ws', rfl, hv, hvs⟩ := h
    simp only [canonList, List.map_cons, canon_of_reads v w hv, canonList_of_reads vs ws' hvs]

theorem canonDict_of_reads : ∀ (a c : Dict ℚ), Val.ReadsDict a c →
    (canonDict c).map Prod.fst = (canonDict a).map Prod.fst
  | [], c, h => by rw [show c = [] from h]
  | (k, v) :: a, c, h => by
    obtain ⟨w, c', rfl, hv, hc⟩ := h
    simp only [canonDict, List.map_cons, canon_of_reads v w hv, canonDict_of_reads a c' hc]

end

end Codec

open Codec in
instance : Cbor ℚ where
  dumps v := if v.encodable then .ok (canon v).1 else .error .unicodeEncodeError
  loads b := match decode (2 * b.length) b with
    | some r => .ok r.1
    | none => .error .valueError

open Codec in
instance : LawfulCbor ℚ where
  dumps_ok v h := ⟨_, if_pos h⟩
  dumps_error v h := if_neg (by simp [h])
  loads_dumps v b h := by
    refine ⟨(canon v).2, ?_, reads_canon v⟩
    unfold Cbor.dumps instCborRat at h
    simp only at h
    split_ifs at h
    cases h
    have hd := (decodes_canon v).2 _ [] (Nat.le_refl _)
    rw [List.append_nil] at hd
    show (match decode _ _ with
      | some r => Except.ok r.1
      | none => Except.error Exc.valueError) = _
    rw [hd]
  dumps_reads v w h := by
    unfold Cbor.dumps instCborRat
    simp only [canon_of_reads v w h, h.encodable]

/-- A checksum of 32 bytes to run programs with. -/
abbrev lengthHash : Sha256 := ⟨fun b => List.replicate 28 0 ++ Codec.beBytes 4 b.length⟩

theorem length_lengthHash (b : Bytes) : (lengthHash.digest b).length = 32 := rfl

end Py
