import Mathlib.Data.List.Induction
import TitanDns.Bpf.WireHash

/-!
# Blacklist addressing

Userspace writes a rule under `u32::from(ip)`, the number whose most significant octet is the
first one; the program looks up the native word of `saddr`.

* `lastAction` — the table the configuration means: address to the action listed last.
* `populateBlacklist_spec` — **a table written without error holds, under the number of each
  address, the action listed last for it.**
* `saddr_little` — on a little-endian host the word looked up is the number of the address with
  its octets reversed.
* `blacklist_addressing_iff` — **hence the firewall obeys the list for a source address exactly
  when what is listed for it agrees with what is listed for its reversal.**
-/

namespace TitanDns.Bpf

/-! ## The table userspace writes -/

/-- The action listed last for each address. -/
def lastAction (entries : List BlacklistEntry) : Ipv4Addr → Option UInt8 :=
  entries.foldl (fun table entry =>
    match Ipv4Addr.parse entry.ip with
    | none => table
    | some ip => PartialMap.put table ip (actionCode entry.action)) PartialMap.empty

/-- The address is listed with the action. -/
def Listed (entries : List BlacklistEntry) (ip : Ipv4Addr) (code : UInt8) : Prop :=
  ∃ entry ∈ entries, Ipv4Addr.parse entry.ip = some ip ∧ actionCode entry.action = code

instance (entries : List BlacklistEntry) (ip : Ipv4Addr) (code : UInt8) :
    Decidable (Listed entries ip code) :=
  inferInstanceAs (Decidable (∃ entry ∈ entries, _ ∧ _))

theorem actionCode_cases (action : String) : actionCode action = 1 ∨ actionCode action = 2 := by
  unfold actionCode
  split
  · exact Or.inr rfl
  · exact Or.inl rfl

/-- The kernel table and a table by address agree on every address. -/
def Agree (map : UInt32 → Option UInt8) (table : Ipv4Addr → Option UInt8) : Prop :=
  ∀ ip : Ipv4Addr, map ip.toU32 = table ip

theorem Agree.put {map : UInt32 → Option UInt8} {table : Ipv4Addr → Option UInt8}
    (h : Agree map table) (ip : Ipv4Addr) (code : UInt8) :
    Agree (PartialMap.put map ip.toU32 code) (PartialMap.put table ip code) := by
  intro ip'
  by_cases hip : ip' = ip
  · subst hip
    rw [PartialMap.put_self, PartialMap.put_self]
  · rw [PartialMap.put_of_ne hip,
      PartialMap.put_of_ne fun hu => hip (Ipv4Addr.toU32_injective hu), h]

theorem populateBlacklist_agree {refuses : (UInt32 → Option UInt8) → UInt32 → Option String}
    {entries : List BlacklistEntry} {map map' : UInt32 → Option UInt8}
    {table : Ipv4Addr → Option UInt8} (h : Agree map table)
    (hok : populateBlacklist refuses map entries = (map', .ok ())) :
    Agree map' (entries.foldl (fun table entry =>
      match Ipv4Addr.parse entry.ip with
      | none => table
      | some ip => PartialMap.put table ip (actionCode entry.action)) table) := by
  induction entries generalizing map table with
  | nil =>
    cases hok
    exact h
  | cons entry entries ih =>
    rw [populateBlacklist] at hok
    cases hip : Ipv4Addr.parse entry.ip with
    | none =>
      rw [hip] at hok
      cases hok
    | some ip =>
      simp only [hip] at hok
      cases hr : refuses map ip.toU32 with
      | some err =>
        rw [hr] at hok
        cases hok
      | none =>
        rw [hr] at hok
        simp only [List.foldl_cons, hip]
        exact ih (h.put ip _) hok

/-- **The table userspace writes**, when it reports success. -/
theorem populateBlacklist_spec {refuses : (UInt32 → Option UInt8) → UInt32 → Option String}
    {entries : List BlacklistEntry} {map : UInt32 → Option UInt8}
    (hok : populateBlacklist refuses PartialMap.empty entries = (map, .ok ())) (ip : Ipv4Addr) :
    map ip.toU32 = lastAction entries ip :=
  populateBlacklist_agree (fun _ => rfl) hok ip

theorem lastAction_append (entries : List BlacklistEntry) (entry : BlacklistEntry)
    (ip : Ipv4Addr) :
    lastAction (entries ++ [entry]) ip =
      if Ipv4Addr.parse entry.ip = some ip then some (actionCode entry.action)
      else lastAction entries ip := by
  unfold lastAction
  rw [List.foldl_append, List.foldl_cons, List.foldl_nil]
  cases hip : Ipv4Addr.parse entry.ip with
  | none => rfl
  | some ip' =>
    by_cases hsame : ip' = ip
    · subst hsame
      rw [if_pos rfl]
      exact PartialMap.put_self _ _ _
    · rw [if_neg fun h => hsame (Option.some.inj h)]
      exact PartialMap.put_of_ne (Ne.symm hsame) _ _

theorem listed_append (entries : List BlacklistEntry) (entry : BlacklistEntry) (ip : Ipv4Addr)
    (code : UInt8) :
    Listed (entries ++ [entry]) ip code ↔ Listed entries ip code ∨
      Ipv4Addr.parse entry.ip = some ip ∧ actionCode entry.action = code := by
  unfold Listed
  simp only [List.mem_append, List.mem_singleton, or_and_right, exists_or, exists_eq_left]

/-- Listed last is listed; nothing listed last is not listed. -/
theorem lastAction_spec (entries : List BlacklistEntry) (ip : Ipv4Addr) :
    (∀ code, lastAction entries ip = some code → Listed entries ip code) ∧
    (lastAction entries ip = none → ∀ code, ¬ Listed entries ip code) := by
  induction entries using List.reverseRecOn with
  | nil =>
    refine ⟨?_, ?_⟩
    · intro code h
      cases h
    · rintro - code ⟨entry, hmem, -⟩
      cases hmem
  | append_singleton entries entry ih =>
    obtain ⟨ihs, ihn⟩ := ih
    simp only [lastAction_append, listed_append]
    by_cases hip : Ipv4Addr.parse entry.ip = some ip
    · simp only [if_pos hip]
      refine ⟨fun code h => Or.inr ⟨hip, Option.some.inj h⟩, ?_⟩
      intro h
      cases h
    · simp only [if_neg hip]
      refine ⟨fun code h => Or.inl (ihs code h), ?_⟩
      rintro h code (hl | ⟨hl, -⟩)
      · exact ihn h code hl
      · exact hip hl

/-! ## The address the program looks up -/

/-- An IPv4/UDP packet with room for a DNS header, as every query has, with options or without. -/
structure IsDns (f : Frame) : Prop where
  ipv4 : f.slice 12 2 = [0x08, 0x00]
  udp : isUdp f = true
  header : PAYLOAD + 12 ≤ f.length

/-- The source address field. -/
def source (f : Frame) : Ipv4Addr :=
  ⟨f.byte (IP + 12), f.byte (IP + 13), f.byte (IP + 14), f.byte (IP + 15)⟩

/-- **On a little-endian host the reversed address is looked up.** -/
theorem saddr_little (f : Frame) : saddr .little f = (source f).reverse.toU32 := rfl

/-- The firewall drops the packet, and that is what the program does with it. -/
def Dropped (e : Endian) (env : XdpEnv) (m : KernelMaps) (f : Frame) : Prop :=
  firewall e m.blacklist f = some ⟨.drop, f⟩ ∧ titanDnsFilter e env m f = (m, ⟨.drop, f⟩)

/-- The firewall answers REFUSED, and that is what the program does with the packet. -/
def Refused (e : Endian) (env : XdpEnv) (m : KernelMaps) (f : Frame) : Prop :=
  firewall e m.blacklist f = some ⟨.tx, reflectRefused e f⟩ ∧
    titanDnsFilter e env m f = (m, ⟨.tx, reflectRefused e f⟩)

theorem titanDnsFilter_firewall {e : Endian} {env : XdpEnv} {m : KernelMaps} {f : Frame}
    {v : Verdict} (hf : IsDns f) (h : firewall e m.blacklist f = some v) :
    titanDnsFilter e env m f = (m, v) := by
  have hlen := hf.header
  have hp : PAYLOAD + 12 = 54 := rfl
  unfold titanDnsFilter
  rw [if_neg (by rw [ETH_LEN]; omega), if_neg (fun hne => hne hf.ipv4),
    if_neg (by rw [ETH_LEN, IP_LEN]; omega), h]

/-- **The rule of the address decides on a query**: 1 drops it, 2 refuses it, no other does. -/
theorem firewall_dns {e : Endian} {blacklist : UInt32 → Option UInt8} {f : Frame} (hf : IsDns f) :
    firewall e blacklist f =
      if blacklist (saddr e f) = some 1 then some ⟨.drop, f⟩
      else if blacklist (saddr e f) = some 2 then some ⟨.tx, reflectRefused e f⟩ else none := by
  unfold firewall
  cases blacklist (saddr e f) with
  | none => rfl
  | some rule =>
    have hquery : isUdp f = true ∧ PAYLOAD ≤ f.length ∧ PAYLOAD + 12 ≤ f.length :=
      ⟨hf.udp, Nat.le_of_add_right_le hf.header, hf.header⟩
    simp only [Option.some.injEq, if_pos hquery]

theorem dropped_iff {e : Endian} {env : XdpEnv} {m : KernelMaps} {f : Frame} (hf : IsDns f) :
    Dropped e env m f ↔ m.blacklist (saddr e f) = some 1 := by
  constructor
  · rintro ⟨hfw, -⟩
    rw [firewall_dns hf] at hfw
    split at hfw
    · assumption
    · split at hfw <;> cases hfw
  · intro hrule
    have hfw : firewall e m.blacklist f = some ⟨.drop, f⟩ := by
      rw [firewall_dns hf, if_pos hrule]
    exact ⟨hfw, titanDnsFilter_firewall hf hfw⟩

theorem refused_iff {e : Endian} {env : XdpEnv} {m : KernelMaps} {f : Frame} (hf : IsDns f) :
    Refused e env m f ↔ m.blacklist (saddr e f) = some 2 := by
  constructor
  · rintro ⟨hfw, -⟩
    rw [firewall_dns hf] at hfw
    split at hfw
    · cases hfw
    · split at hfw
      · assumption
      · cases hfw
  · intro hrule
    have hfw : firewall e m.blacklist f = some ⟨.tx, reflectRefused e f⟩ := by
      rw [firewall_dns hf, hrule, if_neg (by decide), if_pos rfl]
    exact ⟨hfw, titanDnsFilter_firewall hf hfw⟩

/-! ## Addressing -/

/-- The list says of `ip` what it says last of its reversal: every action listed for `ip` is the
last one listed for the reversal, and `ip` is listed if the reversal is. -/
structure ReversalAgrees (entries : List BlacklistEntry) (ip : Ipv4Addr) : Prop where
  action : ∀ code, Listed entries ip code → lastAction entries ip.reverse = some code
  listed : (∃ code, Listed entries ip.reverse code) → ∃ code, Listed entries ip code

/-- **Exactly when the firewall obeys the list.** -/
theorem blacklist_addressing_iff {refuses : (UInt32 → Option UInt8) → UInt32 → Option String}
    {entries : List BlacklistEntry} {m : KernelMaps} (env : XdpEnv) {f : Frame}
    (hok : populateBlacklist refuses PartialMap.empty entries = (m.blacklist, .ok ()))
    (hf : IsDns f) :
    ((Dropped .little env m f ↔ Listed entries (source f) 1) ∧
      (Refused .little env m f ↔ Listed entries (source f) 2)) ↔
    ReversalAgrees entries (source f) := by
  rw [dropped_iff hf, refused_iff hf, saddr_little, populateBlacklist_spec hok]
  obtain ⟨hsome, hnone⟩ := lastAction_spec entries (source f).reverse
  have hcode : ∀ ip code, Listed entries ip code → code = 1 ∨ code = 2 := by
    rintro ip code ⟨entry, -, -, rfl⟩
    exact actionCode_cases _
  constructor
  · rintro ⟨hdrop, hrefuse⟩
    have hact : ∀ code, lastAction entries (source f).reverse = some code ↔
        Listed entries (source f) code := by
      intro code
      constructor
      · intro h
        rcases hcode _ _ (hsome code h) with rfl | rfl
        · exact hdrop.mp h
        · exact hrefuse.mp h
      · intro h
        rcases hcode _ _ h with rfl | rfl
        · exact hdrop.mpr h
        · exact hrefuse.mpr h
    refine ⟨fun code h => (hact code).mpr h, ?_⟩
    rintro ⟨code, hl⟩
    cases hlast : lastAction entries (source f).reverse with
    | none => exact absurd hl (hnone hlast code)
    | some code' => exact ⟨code', (hact code').mp hlast⟩
  · intro hagree
    have hact : ∀ code, lastAction entries (source f).reverse = some code ↔
        Listed entries (source f) code := by
      intro code
      refine ⟨?_, hagree.action code⟩
      intro h
      obtain ⟨code', hl⟩ := hagree.listed ⟨code, hsome code h⟩
      have hsame := hagree.action code' hl
      rw [h, Option.some.injEq] at hsame
      rw [hsame]
      exact hl
    exact ⟨hact 1, hact 2⟩

theorem queryFrame_isDns (src : Ipv4Addr) (id0 id1 : UInt8) (q : Question) :
    IsDns (queryFrame src id0 id1 q) := by
  constructor
  · rfl
  · rfl
  · have hpay := congrArg List.length (queryFrame_payload src id0 id1 q)
    rw [List.length_drop, List.length_append] at hpay
    have : [id0, id1, 1, 0, 0, 1, 0, 0, 0, 0, 0, (0 : UInt8)].length = 12 := rfl
    omega

/-- The maps after writing one rule. -/
def oneRule (entry : BlacklistEntry) : KernelMaps :=
  { KernelMaps.empty with
    blacklist := (populateBlacklist (fun _ _ => none) PartialMap.empty [entry]).1 }

/-- A client whose address reads the same backwards. -/
theorem blacklist_addressing_palindrome :
    ((Dropped .little ⟨0, true, true⟩ (oneRule ⟨"127.0.0.127", "drop"⟩)
          (queryFrame ⟨127, 0, 0, 127⟩ 7 7 exampleQuestion) ↔
        Listed [⟨"127.0.0.127", "drop"⟩] ⟨127, 0, 0, 127⟩ 1) ∧
      (Refused .little ⟨0, true, true⟩ (oneRule ⟨"127.0.0.127", "drop"⟩)
          (queryFrame ⟨127, 0, 0, 127⟩ 7 7 exampleQuestion) ↔
        Listed [⟨"127.0.0.127", "drop"⟩] ⟨127, 0, 0, 127⟩ 2)) ↔
    ReversalAgrees [⟨"127.0.0.127", "drop"⟩] ⟨127, 0, 0, 127⟩ :=
  @blacklist_addressing_iff (fun _ _ => none) [⟨"127.0.0.127", "drop"⟩]
    (oneRule ⟨"127.0.0.127", "drop"⟩) ⟨0, true, true⟩ _ rfl (queryFrame_isDns _ _ _ _)

/-- A listed client is let through; the client with the reversed address is dropped instead. -/
theorem blacklist_addressing_fails :
    Listed [⟨"192.168.1.10", "drop"⟩] ⟨192, 168, 1, 10⟩ 1 ∧
    ¬ Dropped .little ⟨0, true, true⟩ (oneRule ⟨"192.168.1.10", "drop"⟩)
      (queryFrame ⟨192, 168, 1, 10⟩ 7 7 exampleQuestion) ∧
    Dropped .little ⟨0, true, true⟩ (oneRule ⟨"192.168.1.10", "drop"⟩)
      (queryFrame ⟨10, 1, 168, 192⟩ 7 7 exampleQuestion) ∧
    ¬ Listed [⟨"192.168.1.10", "drop"⟩] ⟨10, 1, 168, 192⟩ 1 := by
  rw [dropped_iff (queryFrame_isDns _ _ _ _), dropped_iff (queryFrame_isDns _ _ _ _)]
  decide +kernel

end TitanDns.Bpf
