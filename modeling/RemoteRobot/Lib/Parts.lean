import RemoteRobot.Lib.JsonText

/-!
# Values whose texts part

Two texts part when they differ at a position both have, whatever follows them: in a JSON text that is
a comma or a closing bracket.  Values whose texts part, as two integers do, make the lists and
dictionaries they stand in part, so one number deep inside two structures tells their texts apart.
-/

namespace Py

variable {F : Type}

/-! ## Texts -/

/-- The texts agree up to a position at which they differ. -/
def Diverges (s t : Str) : Prop :=
  ∃ p x y s' t', s = p ++ x :: s' ∧ t = p ++ y :: t' ∧ x ≠ y

theorem Diverges.ne {s t : Str} (h : Diverges s t) : s ≠ t := by
  obtain ⟨p, x, y, s', t', rfl, rfl, hne⟩ := h
  intro he
  exact hne (List.cons.inj (List.append_cancel_left he)).1

theorem Diverges.append {s t : Str} (h : Diverges s t) (p a b : Str) :
    Diverges (p ++ (s ++ a)) (p ++ (t ++ b)) := by
  obtain ⟨q, x, y, s', t', rfl, rfl, hne⟩ := h
  exact ⟨p ++ q, x, y, s' ++ a, t' ++ b, by simp, by simp, hne⟩

/-- What may follow the text of a value. -/
def IsDelimiter (c : ℕ) : Prop := c = 44 ∨ c = 93 ∨ c = 125

/-- The texts differ, also where one ends and the other goes on. -/
def Parts (s t : Str) : Prop :=
  ∀ c c', IsDelimiter c → IsDelimiter c' → Diverges (s ++ [c]) (t ++ [c'])

theorem parts_of_ne {s t : Str} (hs : ∀ c ∈ s, ¬IsDelimiter c) (ht : ∀ c ∈ t, ¬IsDelimiter c)
    (hne : s ≠ t) : Parts s t := by
  intro c c' hc hc'
  induction s generalizing t with
  | nil =>
    cases t with
    | nil => exact absurd rfl hne
    | cons d t =>
      refine ⟨[], c, d, [], t ++ [c'], rfl, rfl, ?_⟩
      rintro rfl
      exact ht c List.mem_cons_self hc
  | cons a s ih =>
    rw [List.forall_mem_cons] at hs
    cases t with
    | nil =>
      refine ⟨[], a, c', s ++ [c], [], rfl, rfl, ?_⟩
      rintro rfl
      exact hs.1 hc'
    | cons b t =>
      rw [List.forall_mem_cons] at ht
      by_cases hab : a = b
      · have hrest := ih hs.2 ht.2 fun he => hne (by rw [hab, he])
        simpa [hab] using hrest.append [b] [] []
      · exact ⟨[], a, b, s ++ [c], t ++ [c'], rfl, rfl, hab⟩

theorem Parts.enclose {s t : Str} (h : Parts s t) (p : Str) {c : ℕ} (hc : IsDelimiter c) :
    Parts (p ++ s ++ [c]) (p ++ t ++ [c]) := by
  intro d d' _ _
  simpa using (h c c hc hc).append p [d] [d']

theorem Parts.append {s t : Str} (h : Parts s t) (p : Str) : Parts (p ++ s) (p ++ t) := by
  intro c c' hc hc'
  simpa using (h c c' hc hc').append p [] []

/-- Behind the first of some texts stands a comma, or what follows them all. -/
theorem exists_delimiter (x : Str) (post : List Str) {c : ℕ} (hc : IsDelimiter c) :
    ∃ d rest, joinComma (x :: post) ++ [c] = x ++ [d] ++ rest ∧ IsDelimiter d := by
  cases post with
  | nil => exact ⟨c, [], by simp [joinComma], hc⟩
  | cons y post => exact ⟨44, joinComma (y :: post) ++ [c], by simp [joinComma], .inl rfl⟩

theorem Parts.joinComma {x y : Str} (h : Parts x y) (before after after' : List Str) :
    Parts (joinComma (before ++ x :: after)) (joinComma (before ++ y :: after')) := by
  induction before with
  | nil =>
    intro c c' hc hc'
    obtain ⟨d, rest, he, hd⟩ := exists_delimiter x after hc
    obtain ⟨d', rest', he', hd'⟩ := exists_delimiter y after' hc'
    rw [List.nil_append, List.nil_append, he, he']
    exact (h d d' hd hd').append [] rest rest'
  | cons p before ih =>
    have hcons : ∀ z after, Py.joinComma (p :: before ++ z :: after) =
        (p ++ [44]) ++ Py.joinComma (before ++ z :: after) := by
      intro z after
      cases before <;> simp [Py.joinComma]
    rw [hcons, hcons]
    exact ih.append _

/-! ## Sorted members -/

/-- The members of one key part, and those before them in the order are the same. -/
theorem exists_sortEntries {entries entries' : List (Str × Str)} {k : Str}
    (hnd : (entries.map Prod.fst).Nodup) (hk : k ∈ entries.map Prod.fst)
    (h : List.Forall₂ (fun e e' => e.1 = e'.1 ∧ (e.1 = k → Parts e.2 e'.2) ∧
      (e.1 ≠ k → strLe e.1 k = true → e = e')) entries entries') :
    ∃ before x y after after', sortEntries entries = before ++ (k, x) :: after ∧
      sortEntries entries' = before ++ (k, y) :: after' ∧ Parts x y := by
  obtain ⟨hlen, hmem⟩ := List.forall₂_iff_zip.1 h
  -- both lists are sorted as the list of their pairs is
  let pairs := (entries.zip entries').insertionSort fun a b => strLe a.1.1 b.1.1 = true
  have hin : ∀ z ∈ pairs, z ∈ entries.zip entries' := fun z hz => (List.mem_insertionSort _).1 hz
  have hkeys : ∀ z ∈ entries.zip entries', z.1.1 = z.2.1 := fun z hz => (hmem hz).1
  have hfst : pairs.map Prod.fst = sortEntries entries := by
    rw [List.map_insertionSort _ (fun a b : Str × Str => strLe a.1 b.1 = true) Prod.fst _
      fun _ _ _ _ => Iff.rfl, List.map_fst_zip hlen.le]
    rfl
  have hsnd : pairs.map Prod.snd = sortEntries entries' := by
    rw [List.map_insertionSort _ (fun a b : Str × Str => strLe a.1 b.1 = true) Prod.snd _
      fun a ha b hb => by rw [hkeys a ha, hkeys b hb], List.map_snd_zip hlen.ge]
    rfl
  have hnodup : (pairs.map fun z => z.1.1).Nodup := by
    have hperm : (sortEntries entries).Perm entries := List.perm_insertionSort _ _
    have := (hperm.map Prod.fst).nodup_iff.2 hnd
    rwa [← hfst, List.map_map] at this
  have hsorted : pairs.Pairwise fun a b => strLe a.1.1 b.1.1 = true := by
    have : Std.Total fun a b : (Str × Str) × Str × Str => strLe a.1.1 b.1.1 = true :=
      ⟨fun _ _ => strLe_total _ _⟩
    have : IsTrans ((Str × Str) × Str × Str) fun a b => strLe a.1.1 b.1.1 = true :=
      ⟨fun _ _ _ => strLe_trans⟩
    exact List.pairwise_insertionSort _ _
  obtain ⟨⟨⟨k', x⟩, ⟨k'', y⟩⟩, hz, rfl⟩ : ∃ z ∈ pairs, z.1.1 = k := by
    have hperm : (sortEntries entries).Perm entries := List.perm_insertionSort _ _
    rw [← (hperm.map Prod.fst).mem_iff, ← hfst, List.map_map, List.mem_map] at hk
    exact hk
  obtain ⟨hkey, hparts, -⟩ := hmem (hin _ hz)
  obtain rfl : k' = k'' := hkey
  obtain ⟨before, after, hsplit⟩ := List.append_of_mem hz
  have hbefore : before.map Prod.fst = before.map Prod.snd := by
    refine List.map_congr_left fun z hzb => ?_
    rw [hsplit, List.map_append, List.map_cons, List.nodup_append] at hnodup
    rw [hsplit, List.pairwise_append] at hsorted
    have hne : z.1.1 ≠ k' :=
      hnodup.2.2 z.1.1 (List.mem_map_of_mem hzb) k' List.mem_cons_self
    have hzp : z ∈ pairs := hsplit ▸ List.mem_append_left _ hzb
    exact (hmem (hin z hzp)).2.2 hne (hsorted.2.2 z hzb _ List.mem_cons_self)
  refine ⟨before.map Prod.fst, x, y, after.map Prod.fst, after.map Prod.snd, ?_, ?_, hparts rfl⟩
  · rw [← hfst, hsplit, List.map_append, List.map_cons]
  · rw [← hsnd, hsplit, List.map_append, List.map_cons, hbefore]

/-! ## Values -/

section Values

variable [FloatRepr F]

/-- The texts of the values part. -/
def Val.Parts (v w : Val F) : Prop := ∀ s t, dumps v = .ok s → dumps w = .ok t → Py.Parts s t

theorem Val.Parts.ne {v w : Val F} (h : v.Parts w) {s t : Str} (hs : dumps v = .ok s)
    (ht : dumps w = .ok t) : s ≠ t := by
  rintro rfl
  exact (h s s hs ht 44 44 (.inl rfl) (.inl rfl)).ne rfl

theorem not_isDelimiter_of_mem_intStr {n : ℤ} {c : ℕ} (h : c ∈ intStr n) : ¬IsDelimiter c := by
  rw [intStr, List.mem_append] at h
  rintro (rfl | rfl | rfl)
  all_goals
    obtain h | h := h
    · split_ifs at h <;> simp at h
    · have := digit_of_mem_natStr h
      omega

theorem intStr_injective : Function.Injective intStr := by
  have hsign : ∀ {m n : ℤ}, intStr m = intStr n → m < 0 → n < 0 := by
    intro m n h hm
    by_contra hn
    have hmem : 45 ∈ natStr n.natAbs := by
      rw [intStr, intStr, if_pos hm, if_neg hn] at h
      rw [← List.nil_append (natStr n.natAbs), ← h]
      exact List.mem_cons_self
    have := (digit_of_mem_natStr hmem).1
    omega
  intro m n h
  have hiff : m < 0 ↔ n < 0 := ⟨hsign h, hsign h.symm⟩
  have habs : m.natAbs = n.natAbs := by
    rw [intStr, intStr, if_congr hiff rfl rfl] at h
    exact natStr_injective (List.append_cancel_left h)
  omega

theorem parts_int {m n : ℤ} (h : m ≠ n) : (Val.int m : Val F).Parts (.int n) := by
  intro s t hs ht
  rw [dumps] at hs ht
  cases hs
  cases ht
  exact parts_of_ne (fun _ => not_isDelimiter_of_mem_intStr) (fun _ => not_isDelimiter_of_mem_intStr)
    fun he => h (intStr_injective he)

theorem forall₂_dumpsItems {xs : List (Val F)} {texts : List Str} (h : dumpsItems xs = .ok texts) :
    List.Forall₂ (fun x text => dumps x = .ok text) xs texts := by
  induction xs generalizing texts with
  | nil =>
    rw [dumpsItems] at h
    cases h
    exact .nil
  | cons x xs ih =>
    rw [dumpsItems] at h
    obtain ⟨text, htext, h⟩ := Except.bind_eq_ok.1 h
    obtain ⟨rest, hrest, h⟩ := Except.bind_eq_ok.1 h
    cases h
    exact .cons htext (ih hrest)

theorem Val.Parts.list {v w : Val F} (h : v.Parts w) (after after' : List (Val F)) :
    (Val.list (v :: after)).Parts (.list (w :: after')) := by
  intro s t hs ht
  rw [dumps] at hs ht
  obtain ⟨texts, htexts, hs⟩ := Except.bind_eq_ok.1 hs
  obtain ⟨texts', htexts', ht⟩ := Except.bind_eq_ok.1 ht
  cases hs
  cases ht
  cases forall₂_dumpsItems htexts with
  | cons hx _ =>
    cases forall₂_dumpsItems htexts' with
    | cons hy _ => exact ((h _ _ hx hy).joinComma [] _ _).enclose [91] (.inr (.inl rfl))

theorem forall₂_dumpsEntries {kvs : List (String × Val F)} {texts : List (Str × Str)}
    (h : dumpsEntries (entries kvs) = .ok texts) :
    List.Forall₂ (fun p e => e.1 = py p.1 ∧ dumps p.2 = .ok e.2) kvs texts := by
  induction kvs generalizing texts with
  | nil =>
    rw [entries_nil, dumpsEntries] at h
    cases h
    exact .nil
  | cons p kvs ih =>
    rw [entries_cons, dumpsEntries] at h
    obtain ⟨text, htext, h⟩ := Except.bind_eq_ok.1 h
    obtain ⟨rest, hrest, h⟩ := Except.bind_eq_ok.1 h
    cases h
    exact .cons ⟨rfl, htext⟩ (ih hrest)

theorem keys_of_dumpsEntries {kvs : List (String × Val F)} {texts : List (Str × Str)}
    (h : dumpsEntries (entries kvs) = .ok texts) :
    texts.map Prod.fst = (kvs.map Prod.fst).map py := by
  have hall := forall₂_dumpsEntries h
  clear h
  induction hall with
  | nil => rfl
  | cons hp _ ih => rw [List.map_cons, List.map_cons, List.map_cons, hp.1, ih]

/-- The members of the key `k` part, and those of the keys before it are the same. -/
def PartAt (k : String) (p q : String × Val F) : Prop :=
  p.1 = q.1 ∧ (p.1 = k → p.2.Parts q.2) ∧ (p.1 ≠ k → strLe (py p.1) (py k) = true → p.2 = q.2)

theorem PartAt.same {k k' : String} {v w : Val F} (hne : k' ≠ k) (h : v = w) :
    PartAt k (k', v) (k', w) := ⟨rfl, fun he => absurd he hne, fun _ _ => h⟩

theorem PartAt.later {k k' : String} (v w : Val F) (hlt : strLe (py k') (py k) = false) :
    PartAt k (k', v) (k', w) := by
  refine ⟨rfl, ?_, fun _ hle => ?_⟩
  · rintro rfl
    have hself := (strLe_total (py k') (py k')).elim id id
    rw [hlt] at hself
    cases hself
  · rw [hlt] at hle
    cases hle

theorem PartAt.here {k : String} {v w : Val F} (h : v.Parts w) : PartAt k (k, v) (k, w) :=
  ⟨rfl, fun _ => h, fun hne => absurd rfl hne⟩

theorem forall₂_of_partAt {kvs kvs' : List (String × Val F)} {k : String}
    (h : List.Forall₂ (PartAt k) kvs kvs') {texts texts' : List (Str × Str)}
    (htexts : dumpsEntries (entries kvs) = .ok texts)
    (htexts' : dumpsEntries (entries kvs') = .ok texts') :
    List.Forall₂ (fun e e' => e.1 = e'.1 ∧ (e.1 = py k → Py.Parts e.2 e'.2) ∧
      (e.1 ≠ py k → strLe e.1 (py k) = true → e = e')) texts texts' := by
  have hall := forall₂_dumpsEntries htexts
  have hall' := forall₂_dumpsEntries htexts'
  clear htexts htexts'
  induction h generalizing texts texts' with
  | nil =>
    cases hall
    cases hall'
    exact .nil
  | cons hpq _ ih =>
    obtain ⟨hkey, hparts, hsame⟩ := hpq
    cases hall with
    | cons hp hrest =>
      cases hall' with
      | cons hq hrest' =>
        refine .cons ⟨by rw [hp.1, hq.1, hkey], fun he => ?_, fun hne hle => ?_⟩ (ih hrest hrest')
        · rw [hp.1, py_inj] at he
          exact hparts he _ _ hp.2 hq.2
        · rw [hp.1] at hle
          rw [hp.1, Ne, py_inj] at hne
          have htext := hp.2
          rw [hsame hne hle, hq.2] at htext
          exact Prod.ext (by rw [hp.1, hq.1, hkey]) (Except.ok.inj htext).symm

/-- Dictionaries part where the members of one key do and those of the keys before it are the same. -/
theorem Val.Parts.dictOf {kvs kvs' : List (String × Val F)} {k : String}
    (hnd : (kvs.map Prod.fst).Nodup) (hk : k ∈ kvs.map Prod.fst)
    (h : List.Forall₂ (PartAt k) kvs kvs') : (dictOf kvs).Parts (dictOf kvs') := by
  intro s t hs ht
  rw [Py.dictOf, dumps] at hs ht
  obtain ⟨texts, htexts, hs⟩ := Except.bind_eq_ok.1 hs
  obtain ⟨texts', htexts', ht⟩ := Except.bind_eq_ok.1 ht
  cases hs
  cases ht
  have hkeys := keys_of_dumpsEntries htexts
  obtain ⟨before, x, y, after, after', he, he', hparts⟩ := exists_sortEntries (k := py k)
    (hkeys ▸ hnd.map fun _ _ => py_inj.1) (hkeys ▸ List.mem_map_of_mem hk)
    (forall₂_of_partAt h htexts htexts')
  rw [he, he', List.map_append, List.map_append, List.map_cons, List.map_cons]
  have hmember : Py.Parts (quote (py k) ++ 58 :: x) (quote (py k) ++ 58 :: y) := by
    have := hparts.append (quote (py k) ++ [58])
    rwa [List.append_assoc, List.append_assoc] at this
  exact (hmember.joinComma _ _ _).enclose [123] (.inr (.inr rfl))

end Values

/-! ## Encoded texts -/

theorem utf8_injective : Function.Injective Codec.utf8 := by
  intro s t h
  have hs := Codec.readUtf8_utf8 (s := s) le_rfl
  rw [h, Codec.readUtf8_utf8 le_rfl] at hs
  exact (Option.some.inj hs).symm

theorem encodeUtf8_inj {s t : Str} {b : Bytes} (hs : encodeUtf8 s = .ok b)
    (ht : encodeUtf8 t = .ok b) : s = t := by
  unfold encodeUtf8 at hs ht
  split_ifs at hs ht
  exact utf8_injective ((Except.ok.inj hs).trans (Except.ok.inj ht).symm)

end Py
