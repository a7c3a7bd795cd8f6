import TitanDns.Lib.LittleEndian
import TitanDns.Plugins.CacheSystem

/-!
# Keys and spellings of a name

The key of a question is a hash of the text of its name, as it is spelled.

* `fxStep_left`, `fxStep_right`, `hashFx_injective` — no step of the hash forgets anything;
  `hashFx_middle` — **texts that differ in one byte have different hashes**;
  `fxStep_dot_ne`, `hashFx_dot` — **a dot at the end changes the hash**, unless it completes a word.
* `Spelling` — the texts of one name: any case, with or without the dot at the end.
* `KeysAgree` — every spelling leads to one key, by whatever way the key is built;
  `spellings_share_key_iff` — **when that is so.**
-/

namespace TitanDns

open CachePlugin

/-! ## One step of the hash -/

theorem rotateLeft5_toNat (h : UInt64) :
    (rotateLeft5 h).toNat =
      32 * (h.toNat % 576460752303423488) + h.toNat / 576460752303423488 := by
  have hlt := h.toNat_lt
  have hor := @Nat.two_pow_add_eq_or_of_lt 5 (h.toNat / 576460752303423488) (by omega)
    (h.toNat % 576460752303423488)
  unfold rotateLeft5
  rw [UInt64.toNat_or, UInt64.toNat_shiftLeft, UInt64.toNat_shiftRight, Nat.shiftLeft_eq,
    Nat.shiftRight_eq_div_pow]
  simp only [UInt64.toNat_ofNat, Nat.reducePow, Nat.reduceMod] at hor ⊢
  rw [show h.toNat * 32 % 18446744073709551616 = 32 * (h.toNat % 576460752303423488) by omega, hor]

theorem rotateLeft5_injective {h h' : UInt64} (heq : rotateLeft5 h = rotateLeft5 h') : h = h' := by
  have hnat := congrArg UInt64.toNat heq
  rw [rotateLeft5_toNat, rotateLeft5_toNat] at hnat
  have hhigh : h.toNat / 576460752303423488 < 32 := Nat.div_lt_of_lt_mul h.toNat_lt
  have hhigh' : h'.toNat / 576460752303423488 < 32 := Nat.div_lt_of_lt_mul h'.toNat_lt
  apply UInt64.toNat_inj.mp
  rw [← Nat.div_add_mod h.toNat 576460752303423488, ← Nat.div_add_mod h'.toNat 576460752303423488]
  generalize h.toNat / 576460752303423488 = q at *
  generalize h'.toNat / 576460752303423488 = q' at *
  generalize h.toNat % 576460752303423488 = r at *
  generalize h'.toNat % 576460752303423488 = r' at *
  have hq : q = q' := by omega
  have hr : r = r' := by omega
  rw [hq, hr]

/-- The multiplier is odd, so it has an inverse. -/
theorem fxMul_injective {a b : UInt64} (h : a * 0x517cc1b727220a95 = b * 0x517cc1b727220a95) :
    a = b := by
  have hunit : (0x517cc1b727220a95 : UInt64) * 0x2040003d780970bd = 1 := by decide
  have hmul := congrArg (· * (0x2040003d780970bd : UInt64)) h
  simpa only [UInt64.mul_assoc, hunit, UInt64.mul_one] using hmul

/-- **The state before a step can be told from the state after it.** -/
theorem fxStep_left {h h' n : UInt64} (heq : fxStep h n = fxStep h' n) : h = h' := by
  have hxor := congrArg (· ^^^ n) (fxMul_injective heq)
  simp only [UInt64.xor_assoc, UInt64.xor_self, UInt64.xor_zero] at hxor
  exact rotateLeft5_injective hxor

/-- **So can the word that was taken in.** -/
theorem fxStep_right {h n n' : UInt64} (heq : fxStep h n = fxStep h n') : n = n' := by
  have hxor := congrArg (rotateLeft5 h ^^^ ·) (fxMul_injective heq)
  simpa only [← UInt64.xor_assoc, UInt64.xor_self, UInt64.zero_xor] using hxor

/-! ## The hash of a text -/

/-- The bytes behind the last whole word, one by one. -/
def hashBytes (h : UInt64) (bs : List UInt8) : UInt64 :=
  bs.foldl (fun h b => fxStep h b.toUInt64) h

theorem hashFx_short {bs : List UInt8} (hlen : bs.length < 8) (h : UInt64) :
    hashFx h bs = hashBytes h bs := by
  rw [hashFx, hashBytes]
  rintro a b c d e f g i rest rfl
  simp only [List.length_cons] at hlen
  omega

/-- A text longer than a word: its first word is taken in first. -/
theorem hashFx_word {w : List UInt8} (hlen : w.length = 8) (h : UInt64) (rest : List UInt8) :
    hashFx h (w ++ rest) = hashFx (fxStep h (leValue w)) rest := by
  match w, hlen with
  | [a, b, c, d, e, f, g, i], _ => exact hashFx.eq_1 h a b c d e f g i rest

theorem hashBytes_injective {h h' : UInt64} {bs : List UInt8}
    (heq : hashBytes h bs = hashBytes h' bs) : h = h' := by
  induction bs generalizing h h' with
  | nil => exact heq
  | cons b bs ih => exact fxStep_left (ih heq)

/-- **The state before a text can be told from the state after it.** -/
theorem hashFx_injective {h h' : UInt64} {bs : List UInt8} (heq : hashFx h bs = hashFx h' bs) :
    h = h' := by
  by_cases hlen : bs.length < 8
  · rw [hashFx_short hlen, hashFx_short hlen] at heq
    exact hashBytes_injective heq
  · have hword : (bs.take 8).length = 8 := by
      rw [List.length_take]
      omega
    rw [← List.take_append_drop 8 bs, hashFx_word hword, hashFx_word hword] at heq
    exact fxStep_left (hashFx_injective heq)
termination_by bs.length
decreasing_by
  rw [List.length_drop]
  omega

theorem leValue_toNat {w : List UInt8} (hlen : w.length ≤ 8) : (leValue w).toNat = leNat w := by
  have hbound : ∀ bs : List UInt8, bs.length ≤ 8 → leNat bs < 18446744073709551616 := by
    intro bs hbs
    have hpow := Nat.pow_le_pow_right (show 0 < 256 by omega) hbs
    have := leNat_lt bs
    omega
  induction w with
  | nil => rfl
  | cons b w ih =>
    have hw := ih (by rw [List.length_cons] at hlen; omega)
    have hfit := hbound (b :: w) hlen
    have hcons : leNat (b :: w) = b.toNat + 256 * leNat w := rfl
    have hvalue : leValue (b :: w) = b.toUInt64 + 256 * leValue w := rfl
    rw [hvalue, UInt64.toNat_add, UInt64.toNat_mul, hw, hcons, UInt8.toNat_toUInt64]
    rw [hcons] at hfit
    simp only [UInt64.reduceToNat]
    omega

/-- **Texts that differ in one byte have different hashes.** -/
theorem hashFx_middle {h : UInt64} {p s : List UInt8} {a b : UInt8}
    (heq : hashFx h (p ++ a :: s) = hashFx h (p ++ b :: s)) : a = b := by
  by_cases hlong : 8 ≤ p.length
  · -- the byte stands behind the first word
    have hword : (p.take 8).length = 8 := by
      rw [List.length_take]
      omega
    have hsplit : ∀ x, p ++ x :: s = p.take 8 ++ (p.drop 8 ++ x :: s) := by
      intro x
      rw [← List.append_assoc, List.take_append_drop]
    rw [hsplit a, hsplit b, hashFx_word hword, hashFx_word hword] at heq
    exact hashFx_middle heq
  by_cases hshort : p.length + (s.length + 1) < 8
  · -- it is one of the bytes behind the last whole word
    have hlen : ∀ x, (p ++ x :: s).length < 8 := by
      intro x
      rw [List.length_append, List.length_cons]
      exact hshort
    rw [hashFx_short (hlen a), hashFx_short (hlen b)] at heq
    simp only [hashBytes, List.foldl_append, List.foldl_cons] at heq
    have hstep := fxStep_right (hashBytes_injective heq)
    apply UInt8.toNat_inj.mp
    simpa using congrArg UInt64.toNat hstep
  · -- it stands in the first word
    have hword : ∀ x, (p ++ x :: s.take (7 - p.length)).length = 8 := by
      intro x
      rw [List.length_append, List.length_cons, List.length_take]
      omega
    have hsplit : ∀ x, p ++ x :: s =
        (p ++ x :: s.take (7 - p.length)) ++ s.drop (7 - p.length) := by
      intro x
      rw [List.append_assoc, List.cons_append, List.take_append_drop]
    rw [hsplit a, hsplit b, hashFx_word (hword a), hashFx_word (hword b)] at heq
    have hvalue := congrArg UInt64.toNat (fxStep_right (hashFx_injective heq))
    rw [leValue_toNat (Nat.le_of_eq (hword a)), leValue_toNat (Nat.le_of_eq (hword b))] at hvalue
    exact leNat_middle hvalue
termination_by p.length
decreasing_by
  rw [List.length_drop]
  omega

/-! ## A dot at the end -/

/-- A text of whole words in front of another. -/
theorem hashFx_append {p : List UInt8} (hlen : p.length % 8 = 0) (h : UInt64) (s : List UInt8) :
    hashFx h (p ++ s) = hashFx (hashFx h p) s := by
  by_cases hnil : p.length < 8
  · have : p = [] := List.eq_nil_of_length_eq_zero (by omega)
    rw [this, @hashFx_short [] (by simp)]
    rfl
  · have hword : (p.take 8).length = 8 := by
      rw [List.length_take]
      omega
    have hrest : (p.drop 8).length % 8 = 0 := by
      rw [List.length_drop]
      omega
    have hsplit : p = p.take 8 ++ p.drop 8 := (List.take_append_drop 8 p).symm
    calc hashFx h (p ++ s)
        = hashFx h (p.take 8 ++ (p.drop 8 ++ s)) := by
          rw [← List.append_assoc, List.take_append_drop]
      _ = hashFx (fxStep h (leValue (p.take 8))) (p.drop 8 ++ s) := hashFx_word hword h _
      _ = hashFx (hashFx (fxStep h (leValue (p.take 8))) (p.drop 8)) s := hashFx_append hrest _ s
      _ = hashFx (hashFx h p) s := by rw [← hashFx_word hword, ← hsplit]
termination_by p.length
decreasing_by
  rw [List.length_drop]
  omega

/-- Up to a small number, a step with the dot turns the state by five bits. -/
theorem rotateLeft5_dot (h : UInt64) :
    ∃ k < 96, (rotateLeft5 h ^^^ 46) + 32 = 32 * h + UInt64.ofNat k := by
  have hlt := h.toNat_lt
  have hmul : h.toNat * 32 % 18446744073709551616 = 32 * (h.toNat % 576460752303423488) := by omega
  have hxor : (rotateLeft5 h ^^^ 46).toNat = (rotateLeft5 h).toNat ^^^ 46 := UInt64.toNat_xor _ _
  have hhigh : h.toNat / 576460752303423488 < 32 := Nat.div_lt_of_lt_mul hlt
  have hlow : h.toNat % 576460752303423488 < 576460752303423488 := Nat.mod_lt _ (by omega)
  rw [rotateLeft5_toNat] at hxor
  generalize h.toNat % 576460752303423488 = m at *
  generalize h.toNat / 576460752303423488 = r at *
  -- the five low bits and the rest are changed apart
  have hdiv : ((32 * m + r) ^^^ 46) / 32 = m ^^^ 1 := by
    have := @Nat.xor_div_two_pow (32 * m + r) 46 5
    rwa [show (32 * m + r) / 2 ^ 5 = m by omega] at this
  have hhalf : (m ^^^ 1) / 2 = m / 2 := by
    rw [Nat.xor_div_two]
    exact Nat.xor_zero _
  have hturn : (rotateLeft5 h ^^^ 46).toNat + 32 - 32 * m < 96 ∧
      32 * m ≤ (rotateLeft5 h ^^^ 46).toNat + 32 := by omega
  refine ⟨(rotateLeft5 h ^^^ 46).toNat + 32 - 32 * m, hturn.1, ?_⟩
  apply UInt64.toNat_inj.mp
  rw [UInt64.toNat_add, UInt64.toNat_add, UInt64.toNat_mul, Nat.mul_comm _ h.toNat]
  simp only [UInt64.reduceToNat, UInt64.toNat_ofNat', Nat.reducePow, hmul]
  omega

/-- **A step with the dot changes every state.** -/
theorem fxStep_dot_ne (h : UInt64) : fxStep h 46 ≠ h := by
  intro heq
  obtain ⟨k, hk, hturn⟩ := rotateLeft5_dot h
  have hlinear : h * (1 - 32 * 0x517cc1b727220a95) =
      (UInt64.ofNat k - 32) * 0x517cc1b727220a95 := by
    unfold fxStep at heq
    grind
  have hunit : (1 - 32 * 0x517cc1b727220a95 : UInt64) * 0x6acfe1afed12b6a1 = 1 := by decide
  have hfixed : h = (UInt64.ofNat k - 32) * 0x517cc1b727220a95 * 0x6acfe1afed12b6a1 := by
    rw [← hlinear, UInt64.mul_assoc, hunit, UInt64.mul_one]
  have hnone : ∀ k < 96,
      fxStep ((UInt64.ofNat k - 32) * 0x517cc1b727220a95 * 0x6acfe1afed12b6a1) 46 ≠
      (UInt64.ofNat k - 32) * 0x517cc1b727220a95 * 0x6acfe1afed12b6a1 := by
    decide +kernel
  rw [hfixed] at heq
  exact hnone k hk heq

/-- **A dot at the end changes the hash**, unless it completes a word. -/
theorem hashFx_dot {bs : List UInt8} (hlen : bs.length % 8 ≠ 7) (h : UInt64) :
    hashFx h (bs ++ [46]) ≠ hashFx h bs := by
  have hwhole : (bs.take (8 * (bs.length / 8))).length % 8 = 0 := by
    rw [List.length_take]
    omega
  have hrest : (bs.drop (8 * (bs.length / 8))).length < 7 := by
    rw [List.length_drop]
    omega
  have hsplit : bs = bs.take (8 * (bs.length / 8)) ++ bs.drop (8 * (bs.length / 8)) :=
    (List.take_append_drop _ bs).symm
  have hdotted : (bs.drop (8 * (bs.length / 8)) ++ [46]).length < 8 := by
    rw [List.length_append, List.length_singleton]
    omega
  rw [hsplit, List.append_assoc, hashFx_append hwhole, hashFx_append hwhole, hashFx_short hdotted,
    @hashFx_short _ (by omega : (bs.drop (8 * (bs.length / 8))).length < 8)]
  generalize hashFx h (bs.take (8 * (bs.length / 8))) = h'
  generalize bs.drop (8 * (bs.length / 8)) = rest
  show hashBytes h' (rest ++ [46]) ≠ hashBytes h' rest
  rw [hashBytes, List.foldl_append]
  exact fxStep_dot_ne (hashBytes h' rest)

/-! ## Spellings -/

/-- The bytes of a text. -/
def utf8Bytes (cs : List Char) : List UInt8 := cs.flatMap String.utf8EncodeChar

theorem hashDomain_ofList (cs : List Char) :
    hashDomain (String.ofList cs) = hashFx 0xcbf29ce484222325 (utf8Bytes cs) := by
  show hashFx _ (String.ofList cs).toByteArray.data.toList = _
  rw [String.toByteArray_ofList, List.utf8Encode, List.toList_data_toByteArray]
  rfl

/-- The texts of the name whose labels, dots between them, are `u`: any ASCII case, with or without
the dot at the end. -/
def Spelling (u t : List Char) : Prop :=
  t ≠ [] ∧ (t.map Char.toLower = u.map Char.toLower ∨
    t.map Char.toLower = (u ++ ['.']).map Char.toLower)

instance (u t : List Char) : Decidable (Spelling u t) :=
  inferInstanceAs (Decidable (_ ∧ _))

theorem isAlpha_lt {c : Char} (h : c.isAlpha) : c.toNat < 128 := by
  change (decide (c.val ≥ 'A'.val ∧ c.val ≤ 'Z'.val) ||
    (decide (c.val ≥ 'a'.val) && decide (c.val ≤ 'z'.val))) = true at h
  simp only [Bool.or_eq_true, decide_eq_true_eq, Bool.and_eq_true, ge_iff_le,
    UInt32.le_iff_toNat_le] at h
  show c.val.toNat < 128
  have hz : 'Z'.val.toNat = 90 := rfl
  have hz' : 'z'.val.toNat = 122 := rfl
  omega

/-- An ASCII letter has two spellings, of one byte each. -/
theorem letter_cases {c : Char} (h : c.isAlpha) :
    c.toLower.toLower = c.toLower ∧ c.toUpper.toLower = c.toLower ∧
      ∃ a b : UInt8, a ≠ b ∧ String.utf8EncodeChar c.toLower = [a] ∧
        String.utf8EncodeChar c.toUpper = [b] := by
  have hall : ∀ n < 128, (Char.ofNat n).isAlpha →
      (Char.ofNat n).toLower.toLower = (Char.ofNat n).toLower ∧
      (Char.ofNat n).toUpper.toLower = (Char.ofNat n).toLower ∧
      (String.utf8EncodeChar (Char.ofNat n).toLower).length = 1 ∧
      (String.utf8EncodeChar (Char.ofNat n).toUpper).length = 1 ∧
      String.utf8EncodeChar (Char.ofNat n).toLower ≠
        String.utf8EncodeChar (Char.ofNat n).toUpper := by
    decide +kernel
  have hc := hall c.toNat (isAlpha_lt h)
  rw [Char.ofNat_toNat] at hc
  obtain ⟨hlower, hupper, hone, hone', hne⟩ := hc h
  obtain ⟨a, ha⟩ := List.length_eq_one_iff.mp hone
  obtain ⟨b, hb⟩ := List.length_eq_one_iff.mp hone'
  refine ⟨hlower, hupper, a, b, ?_, ha, hb⟩
  rintro rfl
  exact hne (ha.trans hb.symm)

theorem toLower_of_not_isAlpha {c : Char} (h : c.isAlpha = false) : c.toLower = c := by
  change (decide (c.val ≥ 'A'.val ∧ c.val ≤ 'Z'.val) || c.isLower) = false at h
  simp only [Bool.or_eq_false_iff, decide_eq_false_iff_not] at h
  unfold Char.toLower
  rw [dif_neg]
  exact h.1

theorem toLower_inj {c d : Char} (hd : d.isAlpha = false) (h : c.toLower = d.toLower) : c = d := by
  rw [toLower_of_not_isAlpha hd] at h
  cases hc : c.isAlpha with
  | false => rw [← h, toLower_of_not_isAlpha hc]
  | true =>
    -- a letter is folded to a letter
    have hall : ∀ n < 128, (Char.ofNat n).isAlpha → (Char.ofNat n).toLower.isAlpha := by
      decide +kernel
    have halpha := hall c.toNat (isAlpha_lt hc)
    rw [Char.ofNat_toNat, h, hd] at halpha
    exact absurd (halpha hc) (by simp)

/-- **A text without letters is spelled in one way.** -/
theorem map_toLower_inj {v t : List Char} (hv : ∀ c ∈ v, c.isAlpha = false)
    (h : t.map Char.toLower = v.map Char.toLower) : t = v := by
  induction v generalizing t with
  | nil => simpa using h
  | cons d v ih =>
    cases t with
    | nil => cases h
    | cons c t =>
      simp only [List.map_cons, List.cons.injEq] at h
      have hhead := toLower_inj (hv d List.mem_cons_self) h.1
      have htail := ih (fun c hc => hv c (List.mem_cons_of_mem _ hc)) h.2
      rw [hhead, htail]

/-! ## Keys of the spellings -/

/-- The key of the text, by whatever way it is built. -/
structure BuildsKey (t : String) (qtype qclass : UInt16) (key : QueryKey) : Prop where
  /-- `get_key` of a request -/
  request : ∀ codec ctx q, ctx.request.query = some q → codec.display q.name = t →
    q.qtype = qtype → q.qclass = qclass → getKey codec ctx = some key
  /-- `build_key_for_domain` -/
  domain : buildKeyForDomain t qtype qclass = key
  /-- the refresh that a hit starts -/
  prefetch : ∀ codec c env request q w, request.query = some q → codec.display q.name = t →
    q.qtype = qtype → q.qclass = qclass → prefetch codec c env request = some w → w.key = key
  /-- the refresh that the kernel asks for -/
  shadow : ∀ codec c env w, shadowRefresh codec c env t qtype qclass = some w → w.key = key

/-- **Every spelling of the name leads to one key.** -/
def KeysAgree (u : List Char) : Prop :=
  ∀ qtype qclass, ∃ key, ∀ t, Spelling u t → BuildsKey (String.ofList t) qtype qclass key

/-- Whatever builds a key from a text builds the same. -/
theorem buildsKey (t : String) (qtype qclass : UInt16) :
    BuildsKey t qtype qclass (buildKeyForDomain t qtype qclass) where
  request := by
    rintro codec ctx q hq rfl rfl rfl
    unfold getKey Context.qname
    rw [hq]
    rfl
  domain := rfl
  prefetch := by
    rintro codec c env request q w hq rfl rfl rfl hw
    obtain ⟨q', resp, entry, hq', -, -, rfl⟩ := prefetch_some hw
    cases hq.symm.trans hq'
    rfl
  shadow := by
    intro codec c env w hw
    obtain ⟨b, resp, bytes, -, -, -, hkey, -⟩ := shadowRefresh_some hw
    exact hkey

/-- The keys agree exactly when the texts have one hash. -/
theorem keysAgree_iff_hash (u : List Char) :
    KeysAgree u ↔ ∀ t t', Spelling u t → Spelling u t' →
      hashDomain (String.ofList t) = hashDomain (String.ofList t') := by
  constructor
  · intro h t t' ht ht'
    obtain ⟨key, hkey⟩ := h 1 1
    have heq := (hkey t ht).domain.trans (hkey t' ht').domain.symm
    exact congrArg QueryKey.nameHash heq
  · intro h qtype qclass
    by_cases hsome : ∃ t, Spelling u t
    · obtain ⟨t, ht⟩ := hsome
      refine ⟨buildKeyForDomain (String.ofList t) qtype qclass, fun t' ht' => ?_⟩
      have hsame : buildKeyForDomain (String.ofList t) qtype qclass =
          buildKeyForDomain (String.ofList t') qtype qclass := by
        unfold buildKeyForDomain
        rw [h t t' ht ht']
      rw [hsame]
      exact buildsKey _ _ _
    · exact ⟨⟨0, 0, 0⟩, fun t ht => absurd ⟨t, ht⟩ hsome⟩

/-- **A name with a letter has two keys.** -/
theorem not_keysAgree_of_isAlpha {u : List Char} {c : Char} (hmem : c ∈ u) (hc : c.isAlpha) :
    ¬ KeysAgree u := by
  intro h
  obtain ⟨p, s, rfl⟩ := List.append_of_mem hmem
  obtain ⟨hlower, hupper, a, b, hne, ha, hb⟩ := letter_cases hc
  have hspell : ∀ c', c'.toLower = c.toLower → Spelling (p ++ c :: s) (p ++ c' :: s) := by
    intro c' hc'
    refine ⟨by simp, Or.inl ?_⟩
    rw [List.map_append, List.map_append, List.map_cons, List.map_cons, hc']
  have hhash := (keysAgree_iff_hash _).mp h _ _ (hspell _ hlower) (hspell _ hupper)
  rw [hashDomain_ofList, hashDomain_ofList] at hhash
  simp only [utf8Bytes, List.flatMap_append, List.flatMap_cons, ha, hb, List.singleton_append]
    at hhash
  exact hne (hashFx_middle hhash)

/-- What a name without letters is spelled like. -/
theorem spelling_iff {u t : List Char} (hu : ∀ c ∈ u, c.isAlpha = false) :
    Spelling u t ↔ t ≠ [] ∧ (t = u ∨ t = u ++ ['.']) := by
  have hdotted : ∀ c ∈ u ++ ['.'], c.isAlpha = false := by
    intro c hc
    rcases List.mem_append.mp hc with hc | hc
    · exact hu c hc
    · rw [List.mem_singleton.mp hc]
      rfl
  unfold Spelling
  constructor
  · rintro ⟨hne, h | h⟩
    · exact ⟨hne, Or.inl (map_toLower_inj hu h)⟩
    · exact ⟨hne, Or.inr (map_toLower_inj hdotted h)⟩
  · rintro ⟨hne, rfl | rfl⟩
    · exact ⟨hne, Or.inl rfl⟩
    · exact ⟨hne, Or.inr rfl⟩

/-- **When all spellings of a name lead to one key**: the root has one spelling; any other name has
no letter, and its text happens to have the hash that it has with the dot, for which its length has
to leave seven bytes behind the last whole word. -/
theorem spellings_share_key_iff (u : List Char) :
    KeysAgree u ↔ u = [] ∨ ((∀ c ∈ u, c.isAlpha = false) ∧ (utf8Bytes u).length % 8 = 7 ∧
      hashDomain (String.ofList (u ++ ['.'])) = hashDomain (String.ofList u)) := by
  constructor
  · intro h
    have hletters : ∀ c ∈ u, c.isAlpha = false := by
      intro c hc
      by_contra halpha
      exact not_keysAgree_of_isAlpha hc (by simpa using halpha) h
    rcases u.eq_nil_or_concat with rfl | hu
    · exact Or.inl rfl
    · have hne : u ≠ [] := by
        rintro rfl
        simp at hu
      have hhash := (keysAgree_iff_hash u).mp h (u ++ ['.']) u
        ((spelling_iff hletters).mpr ⟨by simp, Or.inr rfl⟩)
        ((spelling_iff hletters).mpr ⟨hne, Or.inl rfl⟩)
      refine Or.inr ⟨hletters, ?_, hhash⟩
      by_contra hlen
      rw [hashDomain_ofList, hashDomain_ofList] at hhash
      simp only [utf8Bytes, List.flatMap_append] at hhash
      exact hashFx_dot hlen _ hhash
  · intro h
    rw [keysAgree_iff_hash]
    rcases h with rfl | ⟨hletters, -, hhash⟩
    · intro t t' ht ht'
      rw [spelling_iff (by simp)] at ht ht'
      obtain ⟨hne, h⟩ := ht
      obtain ⟨hne', h'⟩ := ht'
      rw [h.resolve_left hne, h'.resolve_left hne']
    · intro t t' ht ht'
      rw [spelling_iff hletters] at ht ht'
      rcases ht.2 with rfl | rfl
      · rcases ht'.2 with rfl | rfl
        · rfl
        · exact hhash.symm
      · rcases ht'.2 with rfl | rfl
        · exact hhash
        · rfl

/-- The name as a request prints it, and the same name in capitals, have different keys. -/
theorem spellings_keys_differ : ¬ KeysAgree "www.example.com".toList := by
  intro h
  have hhash := (keysAgree_iff_hash _).mp h
    "www.example.com.".toList "WWW.example.com.".toList (by decide +kernel) (by decide +kernel)
  revert hhash
  decide +kernel

end TitanDns
