import TitanDns.Bpf.Userspace

/-!
# The kernel's key and the userspace keys

* `CarriesAt i f q` — the DNS message at offset `i` is a header, then the question in wire form;
  `Carries f q` — the message behind the IPv4 header that the packet states.
* `ReadsAs f w` — what the program takes for a query and a question, at its fixed offsets;
  `xdpKey_some_iff` — **its key is the digest of just these octets.**
* `wire_hashes_agree` — **a question at the fixed offset has its own key or none**, with what
  becomes of the packet in either case.
* `keys_agree_iff` — **exactly when a packet has the key of the question it carries**: no options in
  the header, or what the program reads there is no question, or one of the same digest.
* `questionKey_collide` — **the key confuses names**: two letters it confuses, it confuses at the
  same place of any two names.
-/

namespace TitanDns.Bpf

open IterHash

/-- The DNS message at offset `i` is a header followed by the question. -/
def CarriesAt (i : Nat) (f : Frame) (q : Question) : Prop :=
  ∃ header rest, header.length = 12 ∧ f.drop i = header ++ q.wire ++ rest

/-- The DNS message of the packet, behind the IPv4 header with its options and the UDP header, is a
header followed by the question. -/
def Carries (f : Frame) (q : Question) : Prop := CarriesAt (udpAt f + UDP_LEN) f q

/-- Without options the message is where the program looks for it. -/
theorem Carries.atPayload {f : Frame} {q : Question} (h : Carries f q) (hihl : ihl f = 5) :
    CarriesAt PAYLOAD f q := by
  have hat : udpAt f + UDP_LEN = PAYLOAD := by
    rw [udpAt, hihl]
    rfl
  unfold Carries at h
  rwa [hat] at h

/-- The call is about the question. -/
def CacheUpdate.IsFor (u : CacheUpdate) (q : Question) : Prop :=
  u.qnameRaw = q.name.wire ∧ u.qtype = q.qtype ∧ u.qclass = q.qclass

/-- The key of a question. -/
def questionKey (q : Question) : UInt64 := updateCacheKey q.name.wire q.qtype q.qclass

theorem CacheUpdate.IsFor.key_eq {u : CacheUpdate} {q : Question} (h : u.IsFor q) :
    u.key = questionKey q := by
  obtain ⟨hname, htype, hclass⟩ := h
  rw [CacheUpdate.key, questionKey, hname, htype, hclass]

/-- The loop stops at the first zero octet, and only there, with the digest so far. -/
theorem parseLoop_wire {n : Nat} {hash : UInt64} {bs rest : List UInt8} (hbs : (0 : UInt8) ∉ bs)
    {r : UInt64 × List UInt8} (h : parseLoop n hash (bs ++ 0 :: rest) = some r) :
    r = (digest djb2HashByte hash (bs ++ [0]), rest) := by
  induction bs generalizing n hash with
  | nil =>
    cases n with
    | zero => cases h
    | succ n =>
      simp only [List.nil_append, parseLoop, if_pos] at h
      exact (Option.some.inj h).symm
  | cons b bs ih =>
    cases n with
    | zero => cases h
    | succ n =>
      have hb : b ≠ 0 := fun h0 => hbs (by rw [h0]; exact List.mem_cons_self)
      rw [List.cons_append, parseLoop, if_neg hb] at h
      split at h
      · cases h
      · exact ih (fun hmem => hbs (List.mem_cons_of_mem _ hmem)) h

/-- **The key of the packet is the key of its question.** -/
theorem xdpKey_carries {f : Frame} {q : Question} (hf : CarriesAt PAYLOAD f q) (hz : q.name.NoZero)
    {k : UInt64} (hk : xdpKey f = some k) : k = questionKey q := by
  obtain ⟨header, rest, hheader, hpay⟩ := hf
  have hbody : (f.drop PAYLOAD).drop 12 =
      labelsWire q.name.labels ++ 0 :: (be16 q.qtype ++ be16 q.qclass ++ rest) := by
    rw [hpay, List.append_assoc, List.drop_left' hheader]
    simp only [Question.wire, Name.wire, List.append_assoc, List.cons_append, List.nil_append]
  unfold xdpKey at hk
  split at hk
  · cases hk
  split at hk
  · cases hk
  split at hk
  · cases hk
  split at hk
  · cases hk
  split at hk
  · cases hk
  rw [parseDnsQnameHash, hbody] at hk
  cases hloop : parseLoop 128 5381
      (labelsWire q.name.labels ++ 0 :: (be16 q.qtype ++ be16 q.qclass ++ rest)) with
  | none =>
    rw [hloop] at hk
    cases hk
  | some r =>
    obtain rfl := parseLoop_wire hz.zero_notMem hloop
    simp only [hloop] at hk
    split at hk
    · cases hk
    · simp only [be16, List.cons_append, List.nil_append, Option.some.injEq] at hk
      rw [questionKey, updateCacheKey_eq, digest_append, digest_append]
      exact hk.symm

/-- The key of the packet and the two userspace keys of the question: the packet is passed unchanged
for want of a key (unless the firewall decides first), or its key is both `calculate_xdp_hash` of
the question and the key of every `update_cache` call for it. -/
def KeysAgree (f : Frame) (q : Question) : Prop :=
  (xdpKey f = none ∧ ∀ e env m, firewall e m.blacklist f = none →
    titanDnsFilter e env m f = (m, ⟨.pass, f⟩)) ∨
  (xdpKey f = some (calculateXdpHash q.name.wire q.qtype q.qclass) ∧
    ∀ u : CacheUpdate, u.IsFor q → xdpKey f = some u.key)

theorem keysAgree_of_none {f : Frame} {q : Question} (hk : xdpKey f = none) : KeysAgree f q := by
  refine Or.inl ⟨hk, ?_⟩
  intro e env m hfw
  rcases titanDnsFilter_cases e env m f with hpass | ⟨v, hsome, -⟩ | ⟨k, -, hkey, -⟩
  · exact hpass
  · rw [hfw] at hsome
    cases hsome
  · rw [hk] at hkey
    cases hkey

/-- **The keys agree unless the packet has another key than its question.** -/
theorem keysAgree_iff_key {f : Frame} {q : Question} :
    KeysAgree f q ↔ ∀ k, xdpKey f = some k → k = questionKey q := by
  constructor
  · rintro (⟨hnone, -⟩ | ⟨hkey, -⟩) k hk
    · rw [hnone] at hk
      cases hk
    · rw [hkey, calculateXdpHash_eq] at hk
      exact (Option.some.inj hk).symm
  · intro h
    cases hk : xdpKey f with
    | none => exact keysAgree_of_none hk
    | some k =>
      have hkey := h k hk
      refine Or.inr ⟨?_, ?_⟩
      · rw [hk, hkey, calculateXdpHash_eq, questionKey]
      · intro u hu
        rw [hk, hkey, hu.key_eq]

/-- **The three hashes agree** where the question is at the fixed offset. -/
theorem wire_hashes_agree {f : Frame} {q : Question} (hf : CarriesAt PAYLOAD f q)
    (hz : q.name.NoZero) : KeysAgree f q :=
  keysAgree_iff_key.mpr fun _ hk => xdpKey_carries hf hz hk

/-! ## A header with options -/

/-- What the program takes for a query of its own: at the offsets of a packet without options, a
query to port 53, then the octets `name` up to a zero octet, read through within 128 octets and
without a compression pointer, then the four octets `kind`. -/
structure ReadsAs (f : Frame) (name kind : List UInt8) : Prop where
  udp : isUdp f = true
  port : f.slice (UDP + 2) 2 = [0, 53]
  query : f.byte (PAYLOAD + 2) &&& 0x80 = 0
  octets : ∃ rest, f.drop (PAYLOAD + 12) = name ++ 0 :: (kind ++ rest)
  short : name.length < 128
  noZero : (0 : UInt8) ∉ name
  noPointer : ∀ b ∈ name, b &&& 0xC0 ≠ 0xC0
  kind : kind.length = 4
  /-- A digest of zero is what the parser returns for failure. -/
  nonzero : digest djb2HashByte 5381 (name ++ [0]) ≠ 0

/-- **What the bounded loop accepts**, and what it returns. -/
theorem parseLoop_some_iff {n : Nat} {hash : UInt64} {bs : List UInt8} {r : UInt64 × List UInt8} :
    parseLoop n hash bs = some r ↔
      ∃ name, bs = name ++ 0 :: r.2 ∧ name.length < n ∧ (0 : UInt8) ∉ name ∧
        (∀ b ∈ name, b &&& 0xC0 ≠ 0xC0) ∧ r.1 = digest djb2HashByte hash (name ++ [0]) := by
  induction n generalizing hash bs with
  | zero => simp [parseLoop]
  | succ n ih =>
    cases bs with
    | nil => simp [parseLoop]
    | cons b bs =>
      rw [parseLoop]
      by_cases hb : b = 0
      · rw [if_pos hb]
        constructor
        · rintro ⟨⟩
          exact ⟨[], by rw [hb, List.nil_append], Nat.succ_pos n, List.not_mem_nil,
            fun _ h => absurd h List.not_mem_nil, rfl⟩
        · rintro ⟨name, hbs, -, hzero, -, hdigest⟩
          cases name with
          | nil =>
            obtain ⟨-, hrest⟩ := List.cons.inj hbs
            rw [hrest]
            exact congrArg some (Prod.ext hdigest.symm rfl)
          | cons c name =>
            obtain ⟨hc, -⟩ := List.cons.inj hbs
            exact absurd (hc ▸ hb ▸ List.mem_cons_self) hzero
      · rw [if_neg hb]
        by_cases hp : b &&& 0xC0 = 0xC0
        · rw [if_pos hp]
          refine ⟨fun h => absurd h (by simp), ?_⟩
          rintro ⟨name, hbs, -, -, hpointer, -⟩
          cases name with
          | nil => exact absurd (List.cons.inj hbs).1 hb
          | cons c name =>
            obtain ⟨hc, -⟩ := List.cons.inj hbs
            exact absurd (hc ▸ hp) (hpointer c List.mem_cons_self)
        · rw [if_neg hp, ih]
          constructor
          · rintro ⟨name, rfl, hlen, hzero, hpointer, hdigest⟩
            refine ⟨b :: name, rfl, Nat.succ_lt_succ hlen, ?_, ?_, hdigest⟩
            · exact fun h => (List.mem_cons.mp h).elim (fun h0 => hb h0.symm) hzero
            · exact List.forall_mem_cons.mpr ⟨hp, hpointer⟩
          · rintro ⟨name, hbs, hlen, hzero, hpointer, hdigest⟩
            cases name with
            | nil => exact absurd (List.cons.inj hbs).1 hb
            | cons c name =>
              obtain ⟨rfl, hrest⟩ := List.cons.inj hbs
              exact ⟨name, hrest, Nat.lt_of_succ_lt_succ hlen,
                fun h => hzero (List.mem_cons_of_mem _ h), (List.forall_mem_cons.mp hpointer).2,
                hdigest⟩

/-- The message begins behind the fixed offset, its question behind the header. -/
theorem drop_header (f : Frame) : (f.drop PAYLOAD).drop 12 = f.drop (PAYLOAD + 12) :=
  List.drop_drop

/-- Every check of the program is behind a key. -/
theorem readsAs_of_key {f : Frame} {k : UInt64} (h : xdpKey f = some k) :
    ∃ name kind, ReadsAs f name kind ∧ k = digest djb2HashByte 5381 (name ++ 0 :: kind) := by
  unfold xdpKey at h
  split at h
  · cases h
  rename_i hudp
  split at h
  · cases h
  split at h
  · cases h
  rename_i hport
  split at h
  · cases h
  split at h
  · cases h
  rename_i hquery
  rw [parseDnsQnameHash, drop_header] at h
  cases hloop : parseLoop 128 5381 (f.drop (PAYLOAD + 12)) with
  | none =>
    rw [hloop] at h
    cases h
  | some r =>
    obtain ⟨name, hoctets, hshort, hzero, hpointer, hdigest⟩ := parseLoop_some_iff.mp hloop
    simp only [hloop] at h
    split at h
    · cases h
    rename_i hnonzero
    split at h
    · rename_i m0 m1 m2 m3 rest heq
      refine ⟨name, [m0, m1, m2, m3], ⟨Bool.not_eq_false _ ▸ hudp, not_not.mp hport,
        not_not.mp hquery, ⟨rest, ?_⟩, hshort, hzero, hpointer, rfl, ?_⟩, ?_⟩
      · rw [hoctets, heq]
        rfl
      · rwa [← hdigest]
      · rw [List.append_cons, digest_append, ← hdigest]
        exact (Option.some.inj h).symm
    · cases h

/-- What passes them all has the digest of the octets read. -/
theorem ReadsAs.key {f : Frame} {name kind : List UInt8} (h : ReadsAs f name kind) :
    xdpKey f = some (digest djb2HashByte 5381 (name ++ 0 :: kind)) := by
  obtain ⟨rest, hrest⟩ := h.octets
  have hlength : PAYLOAD + 12 < f.length := by
    by_contra hge
    rw [List.drop_eq_nil_of_le (Nat.not_lt.mp hge)] at hrest
    cases name <;> cases hrest
  have hloop : parseLoop 128 5381 (f.drop (PAYLOAD + 12)) =
      some (digest djb2HashByte 5381 (name ++ [0]), kind ++ rest) :=
    parseLoop_some_iff.mpr ⟨name, hrest, h.short, h.noZero, h.noPointer, rfl⟩
  unfold xdpKey
  rw [if_neg (by rw [h.udp]; exact Bool.noConfusion), if_neg (by omega),
    if_neg (not_not.mpr h.port), if_neg (by omega), if_neg (not_not.mpr h.query),
    parseDnsQnameHash, drop_header, hloop]
  simp only [if_neg h.nonzero]
  match kind, h.kind with
  | [m0, m1, m2, m3], _ =>
    have hdigest := @digest_append _ _ djb2HashByte 5381 (name ++ [0]) [m0, m1, m2, m3]
    rw [← List.append_cons] at hdigest
    rw [hdigest]
    rfl

/-- **The key is the digest of the octets read**, and there is none where none are. -/
theorem xdpKey_some_iff {f : Frame} {k : UInt64} :
    xdpKey f = some k ↔
      ∃ name kind, ReadsAs f name kind ∧ k = digest djb2HashByte 5381 (name ++ 0 :: kind) := by
  refine ⟨readsAs_of_key, ?_⟩
  rintro ⟨name, kind, h, rfl⟩
  exact h.key

/-- **Exactly when a packet has the key of the question it carries**: its header has no options, or
what the program reads behind the first 20 bytes of it is no question, or has the same digest. -/
theorem keys_agree_iff {f : Frame} {q : Question} (hf : Carries f q) (hz : q.name.NoZero) :
    KeysAgree f q ↔ ihl f = 5 ∨ ∀ name kind, ReadsAs f name kind →
      digest djb2HashByte 5381 (name ++ 0 :: kind) = digest djb2HashByte 5381 q.wire := by
  have hquestion : questionKey q = digest djb2HashByte 5381 q.wire := updateCacheKey_eq _ _ _
  constructor
  · intro h
    refine Or.inr fun name kind hreads => ?_
    rw [keysAgree_iff_key] at h
    rw [← hquestion]
    exact h _ hreads.key
  · rintro (hihl | hsame)
    · exact wire_hashes_agree (hf.atPayload hihl) hz
    · refine keysAgree_iff_key.mpr fun k hk => ?_
      obtain ⟨name, kind, hreads, rfl⟩ := xdpKey_some_iff.mp hk
      rw [hquestion]
      exact hsame name kind hreads

/-! ## Colliding names -/

/-- `hash * 33 + byte`, as the comment of the source has it. -/
theorem djb2HashByte_eq (hash : UInt64) (b : UInt8) :
    djb2HashByte hash b = 33 * hash + (asciiLower b).toUInt64 := by
  have hshift : (hash <<< 5) + hash = 33 * hash := by
    apply UInt64.toNat_inj.mp
    simp only [UInt64.toNat_add, UInt64.toNat_mul, UInt64.toNat_shiftLeft, Nat.shiftLeft_eq,
      UInt64.reduceToNat, Nat.reduceMod, Nat.reducePow]
    omega
  rw [djb2HashByte, hshift]

/-- Two letters are worth as much as two others when the first are 33 apart for each one between
the second. -/
theorem letters_collide {a b a' b' : UInt8}
    (h : 33 * (asciiLower a).toUInt64 + (asciiLower b).toUInt64 =
      33 * (asciiLower a').toUInt64 + (asciiLower b').toUInt64) :
    Collide djb2HashByte [a, b] [a', b'] := by
  intro hash
  simp only [digest_cons, digest_nil, djb2HashByte_eq]
  grind

/-- **Colliding letters collide in every question**, wherever they stand in the name. -/
theorem questionKey_collide {q q' : Question} {p s u v : List UInt8}
    (huv : Collide djb2HashByte u v) (hq : q.name.wire = p ++ u ++ s)
    (hq' : q'.name.wire = p ++ v ++ s) (htype : q.qtype = q'.qtype)
    (hclass : q.qclass = q'.qclass) : questionKey q = questionKey q' := by
  have hctx := huv.context p (s ++ be16 q'.qtype ++ be16 q'.qclass) 5381
  rw [questionKey, questionKey, updateCacheKey_eq, updateCacheKey_eq, hq, hq', htype, hclass]
  simpa only [List.append_assoc] using hctx

/-! ## A query on the wire -/

/-- A UDP query for `q` from the address `src`, with the transaction ID `id0`, `id1`. -/
def queryFrame (src : Ipv4Addr) (id0 id1 : UInt8) (q : Question) : Frame :=
  [2, 0, 0, 0, 0, 1, 2, 0, 0, 0, 0, 2, 0x08, 0x00] ++
  [0x45, 0] ++ htons (IP_LEN + UDP_LEN + 12 + q.wire.length) ++ [0, 0, 0, 0, 64, 17, 0, 0] ++
  [src.a, src.b, src.c, src.d] ++ [10, 0, 0, 1] ++
  [0xC0, 0x00, 0, 53] ++ htons (UDP_LEN + 12 + q.wire.length) ++ [0, 0] ++
  [id0, id1, 1, 0, 0, 1, 0, 0, 0, 0, 0, 0] ++ q.wire

theorem queryFrame_payload (src : Ipv4Addr) (id0 id1 : UInt8) (q : Question) :
    (queryFrame src id0 id1 q).drop PAYLOAD =
      [id0, id1, 1, 0, 0, 1, 0, 0, 0, 0, 0, 0] ++ q.wire := rfl

theorem queryFrame_carriesAt (src : Ipv4Addr) (id0 id1 : UInt8) (q : Question) :
    CarriesAt PAYLOAD (queryFrame src id0 id1 q) q :=
  ⟨[id0, id1, 1, 0, 0, 1, 0, 0, 0, 0, 0, 0], [], rfl, by
    rw [queryFrame_payload, List.append_nil]⟩

theorem queryFrame_ihl (src : Ipv4Addr) (id0 id1 : UInt8) (q : Question) :
    ihl (queryFrame src id0 id1 q) = 5 := by
  have hbyte : (queryFrame src id0 id1 q).byte IP = 0x45 := rfl
  rw [ihl, hbyte]
  rfl

theorem queryFrame_carries (src : Ipv4Addr) (id0 id1 : UInt8) (q : Question) :
    Carries (queryFrame src id0 id1 q) q := by
  rw [Carries, udpAt, queryFrame_ihl]
  exact queryFrame_carriesAt src id0 id1 q

theorem keys_agree_query :
    KeysAgree (queryFrame ⟨10, 0, 0, 2⟩ 7 7 exampleQuestion) exampleQuestion ↔
      ihl (queryFrame ⟨10, 0, 0, 2⟩ 7 7 exampleQuestion) = 5 ∨
        ∀ name kind, ReadsAs (queryFrame ⟨10, 0, 0, 2⟩ 7 7 exampleQuestion) name kind →
          digest djb2HashByte 5381 (name ++ 0 :: kind) =
            digest djb2HashByte 5381 exampleQuestion.wire :=
  keys_agree_iff (queryFrame_carries _ _ _ _) (by decide)

/-- A query for `www.example.com` whose IPv4 header carries a router alert option: its value 53
stands where the program reads the port. -/
def optionsFrame : Frame :=
  [2, 0, 0, 0, 0, 1, 2, 0, 0, 0, 0, 2, 0x08, 0x00] ++
  [0x46, 0] ++ htons 65 ++ [0, 0, 0, 0, 64, 17, 0xD1, 0x70] ++ [10, 0, 0, 2] ++ [10, 0, 0, 1] ++
  [0x94, 4, 0, 53] ++
  [0xC0, 0x00, 0, 53] ++ htons 41 ++ [0, 0] ++
  [7, 7, 1, 0, 0, 1, 0, 0, 0, 0, 0, 0] ++ exampleQuestion.wire

/-- **A packet with options can have a key that is not its question's**: the header is correct and
the packet a query to port 53, and the program hashes the end of the DNS header. -/
theorem options_misread :
    (isUdp optionsFrame = true ∧
      foldCarries (sumWords .big optionsFrame IP (2 * ihl optionsFrame)) = 65535 ∧
      optionsFrame.length = ETH_LEN + 65 ∧
      optionsFrame.slice (udpAt optionsFrame + 2) 2 = [0, 53] ∧
      optionsFrame.byte (udpAt optionsFrame + UDP_LEN + 2) &&& 0x80 = 0) ∧
    Carries optionsFrame exampleQuestion ∧ exampleQuestion.name.NoZero ∧
    ReadsAs optionsFrame [] [0, 0, 0, 3] ∧ ¬ KeysAgree optionsFrame exampleQuestion := by
  have hreads : ReadsAs optionsFrame [] [0, 0, 0, 3] := by
    refine ⟨rfl, rfl, rfl, ⟨exampleQuestion.wire.drop 1, rfl⟩, ?_, ?_, ?_, rfl, ?_⟩ <;>
      decide +kernel
  have hcarries : Carries optionsFrame exampleQuestion :=
    ⟨[7, 7, 1, 0, 0, 1, 0, 0, 0, 0, 0, 0], [], rfl, rfl⟩
  refine ⟨by decide +kernel, hcarries, by decide, hreads, ?_⟩
  intro h
  have hkey := keysAgree_iff_key.mp h _ hreads.key
  revert hkey
  decide +kernel

end TitanDns.Bpf
