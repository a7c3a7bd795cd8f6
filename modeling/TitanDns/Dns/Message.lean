import TitanDns.Dns.Name

/-!
# Addresses, records and messages

* `Ipv4Addr`, `Ipv6Addr`, `IpAddr` — addresses by value, with the standard library's parser and
  integer conversion of an IPv4 address.
* `RData`, `Record`, `Message` — the message type of the protocol library, as far as the program
  reads or writes it.
* `Codec` — **what the program takes from that library**: encoding and decoding of messages, the
  text of a name and the name of a text.  `Codec.Lawful`, `Codec.ReadsBack` state what is relied
  on; `Codec.ofTable` is the library on the messages and names of a table.
-/

namespace TitanDns

/-! ## Addresses -/

/-- An IPv4 address by its octets. -/
structure Ipv4Addr where
  a : UInt8
  b : UInt8
  c : UInt8
  d : UInt8
  deriving DecidableEq, Repr

/-- An IPv6 address by its two halves. -/
structure Ipv6Addr where
  high : UInt64
  low : UInt64
  deriving DecidableEq, Repr

inductive IpAddr where
  | v4 (ip : Ipv4Addr)
  | v6 (ip : Ipv6Addr)
  deriving DecidableEq, Repr

/-- One octet in decimal: one to three digits, no leading zero, at most 255. -/
def parseOctet (cs : List Char) : Option UInt8 :=
  if cs.length < 1 ∨ 3 < cs.length ∨ cs.any (fun c => !c.isDigit) then none
  else if 1 < cs.length ∧ cs.head? = some '0' then none
  else
    let n := cs.foldl (fun n c => 10 * n + (c.toNat - '0'.toNat)) 0
    if 255 < n then none else some (UInt8.ofNat n)

/-- `str::parse::<Ipv4Addr>`: four dot-separated octets. -/
def Ipv4Addr.parse (text : String) : Option Ipv4Addr :=
  match (text.toList.splitOn '.').map parseOctet with
  | [some a, some b, some c, some d] => some ⟨a, b, c, d⟩
  | _ => none

/-- `u32::from(ip)`: the first octet is the most significant one. -/
def Ipv4Addr.toU32 (ip : Ipv4Addr) : UInt32 :=
  UInt32.ofNat (ip.d.toNat + 256 * (ip.c.toNat + 256 * (ip.b.toNat + 256 * ip.a.toNat)))

/-- The octets in the opposite order. -/
def Ipv4Addr.reverse (ip : Ipv4Addr) : Ipv4Addr := ⟨ip.d, ip.c, ip.b, ip.a⟩

theorem Ipv4Addr.toU32_toNat (ip : Ipv4Addr) :
    ip.toU32.toNat = ip.d.toNat + 256 * (ip.c.toNat + 256 * (ip.b.toNat + 256 * ip.a.toNat)) := by
  have ha := ip.a.toNat_lt
  have hb := ip.b.toNat_lt
  have hc := ip.c.toNat_lt
  have hd := ip.d.toNat_lt
  exact UInt32.toNat_ofNat_of_lt' (by simp only [UInt32.size]; omega)

theorem Ipv4Addr.toU32_injective {x y : Ipv4Addr} (h : x.toU32 = y.toU32) : x = y := by
  have hn := congrArg UInt32.toNat h
  rw [toU32_toNat, toU32_toNat] at hn
  have hx := And.intro x.a.toNat_lt (And.intro x.b.toNat_lt (And.intro x.c.toNat_lt x.d.toNat_lt))
  have hy := And.intro y.a.toNat_lt (And.intro y.b.toNat_lt (And.intro y.c.toNat_lt y.d.toNat_lt))
  have hd : x.d = y.d := UInt8.toNat_inj.mp (by omega)
  have hc : x.c = y.c := UInt8.toNat_inj.mp (by omega)
  have hb : x.b = y.b := UInt8.toNat_inj.mp (by omega)
  have ha : x.a = y.a := UInt8.toNat_inj.mp (by omega)
  cases x
  cases y
  simp_all

/-! ## Records -/

/-- `RecordType::A`. -/
def TYPE_A : UInt16 := 1

/-- `RecordType::CNAME`. -/
def TYPE_CNAME : UInt16 := 5

/-- `RecordType::SOA`. -/
def TYPE_SOA : UInt16 := 6

/-- `RecordType::AAAA`. -/
def TYPE_AAAA : UInt16 := 28

/-- `DNSClass::IN`. -/
def CLASS_IN : UInt16 := 1

inductive RData where
  | a (ip : Ipv4Addr)
  | ns (host : Name)
  | cname (target : Name)
  | soa (mname rname : Name) (serial refresh retry expire minimum : UInt32)
  | aaaa (ip : Ipv6Addr)
  | other (rtype : UInt16) (bytes : List UInt8)
  deriving DecidableEq

/-- `RData::record_type`. -/
def RData.recordType : RData → UInt16
  | .a _ => TYPE_A
  | .ns _ => 2
  | .cname _ => TYPE_CNAME
  | .soa .. => TYPE_SOA
  | .aaaa _ => TYPE_AAAA
  | .other rtype _ => rtype

/-- The address of an A or AAAA record. -/
def RData.ip : RData → Option IpAddr
  | .a ip => some (.v4 ip)
  | .aaaa ip => some (.v6 ip)
  | _ => none

structure Record where
  name : Name
  dnsClass : UInt16
  ttl : UInt32
  data : RData
  deriving DecidableEq

namespace Record

def recordType (r : Record) : UInt16 := r.data.recordType

/-- `Record::from_rdata`: class IN. -/
def fromRdata (name : Name) (ttl : UInt32) (data : RData) : Record := ⟨name, CLASS_IN, ttl, data⟩

/-- `matches!(record_type, A | AAAA)`. -/
def isAddress (r : Record) : Bool := r.recordType == TYPE_A || r.recordType == TYPE_AAAA

end Record

/-! ## Messages -/

inductive MessageType where
  | query
  | response
  deriving DecidableEq, Repr

inductive ResponseCode where
  | noError
  | formErr
  | servFail
  | nxDomain
  | notImp
  | refused
  | other (code : UInt16)
  deriving DecidableEq, Repr

/-- `ResponseCode::from(0, low)`: the low four bits. -/
def ResponseCode.ofLow (low : UInt8) : ResponseCode :=
  match low &&& 0x0F with
  | 0 => .noError
  | 1 => .formErr
  | 2 => .servFail
  | 3 => .nxDomain
  | 4 => .notImp
  | 5 => .refused
  | n => .other n.toUInt16

/-- The client subnet option. -/
structure ClientSubnet where
  address : IpAddr
  sourcePrefix : UInt8
  scopePrefix : UInt8
  deriving DecidableEq

structure Edns where
  maxPayload : UInt16 := 512
  version : UInt8 := 0
  subnet : Option ClientSubnet := none
  deriving DecidableEq

/-- `Message`; the defaults are those of `Message::new()`. -/
structure Message where
  id : UInt16 := 0
  messageType : MessageType := .query
  opCode : UInt8 := 0
  authoritative : Bool := false
  truncated : Bool := false
  recursionDesired : Bool := false
  recursionAvailable : Bool := false
  authenticData : Bool := false
  checkingDisabled : Bool := false
  responseCode : ResponseCode := .noError
  queries : List Question := []
  answers : List Record := []
  nameServers : List Record := []
  additionals : List Record := []
  edns : Option Edns := none
  deriving DecidableEq

namespace Message

/-- `Message::query`: the first question. -/
def query (m : Message) : Option Question := m.queries.head?

end Message

/-! ## The protocol library -/

/-- What the program takes from the protocol library; an error is `none`. -/
structure Codec where
  /-- `Message::to_vec` -/
  toVec : Message → Option (List UInt8)
  /-- `Message::from_vec` -/
  fromVec : List UInt8 → Option Message
  /-- `Name::to_string` -/
  display : Name → String
  /-- `Name::from_ascii`, `Name::from_str` -/
  fromAscii : String → Option Name

/-- A message is encoded with its twelve-byte header, ID first, and decoding an encoding, under
whatever ID, gives the questions back. -/
structure Codec.Lawful (codec : Codec) : Prop where
  header : ∀ m bytes, codec.toVec m = some bytes → 12 ≤ bytes.length
  questions : ∀ m bytes id, codec.toVec m = some bytes →
    ∃ m', codec.fromVec (be16 id ++ bytes.drop 2) = some m' ∧ m'.queries = m.queries

/-- Decoding gives no answer a TTL that the message did not have, under whatever ID. -/
def Codec.KeepsTtls (codec : Codec) : Prop :=
  ∀ m bytes bytes' m', codec.toVec m = some bytes → bytes'.drop 2 = bytes.drop 2 →
    codec.fromVec bytes' = some m' → ∀ r' ∈ m'.answers, ∃ r ∈ m.answers, r'.ttl = r.ttl

/-- A message has a header, and its ID stands in the first two bytes. -/
structure Codec.Headed (codec : Codec) : Prop where
  encodeId : ∀ m id, codec.toVec { m with id := id } = (codec.toVec m).map (be16 id ++ ·.drop 2)
  decodeId : ∀ bytes id, (codec.fromVec (be16 id ++ bytes.drop 2)).map (·.answers) =
    (codec.fromVec bytes).map (·.answers)
  decoded : ∀ bytes m, codec.fromVec bytes = some m → 12 ≤ bytes.length
  encoded : ∀ m bytes, codec.toVec m = some bytes → bytes.length ≤ 65535

/-- The text of the name is read back as that name, up to case. -/
def Codec.ReadsBack (codec : Codec) (name : Name) : Prop :=
  ∃ name', codec.fromAscii (codec.display name) = some name' ∧ name'.Same name

/-! ## Tables -/

/-- The part of the library on finitely many messages and names: each message with its encoding
under some ID, each name with its text. -/
def Codec.ofTable (messages : List (Message × List UInt8)) (names : List (Name × String)) :
    Codec where
  toVec m := (messages.find? (·.1 == { m with id := 0 })).map fun e => be16 m.id ++ e.2.drop 2
  fromVec bytes := (messages.find? (·.2.drop 2 == bytes.drop 2)).map (·.1)
  display name := ((names.find? (·.1 == name)).map (·.2)).getD ""
  fromAscii text := (names.find? (·.2 == text)).map (·.1)

/-- What is encoded stands in the table, and reading its bytes back, whatever their ID, finds an
entry. -/
theorem Codec.ofTable_encoded {messages : List (Message × List UInt8)}
    {names : List (Name × String)} {m : Message} {bytes : List UInt8}
    (h : (Codec.ofTable messages names).toVec m = some bytes) :
    ∃ e ∈ messages, e.1 = { m with id := 0 } ∧ bytes = be16 m.id ++ e.2.drop 2 ∧
      ∃ e' ∈ messages, messages.find? (·.2.drop 2 == e.2.drop 2) = some e' ∧
        e'.2.drop 2 = e.2.drop 2 := by
  obtain ⟨e, he, rfl⟩ := Option.map_eq_some_iff.mp h
  have hmem := List.mem_of_find?_eq_some he
  have hm : e.1 = { m with id := 0 } := by simpa using List.find?_some he
  have hfound : (messages.find? (·.2.drop 2 == e.2.drop 2)).isSome := by
    rw [List.find?_isSome]
    exact ⟨e, hmem, by simp⟩
  obtain ⟨e', he'⟩ := Option.isSome_iff_exists.mp hfound
  have htail : e'.2.drop 2 = e.2.drop 2 := by simpa using List.find?_some he'
  exact ⟨e, hmem, hm, rfl, e', List.mem_of_find?_eq_some he', he', htail⟩

theorem Codec.ofTable_lawful {messages : List (Message × List UInt8)}
    {names : List (Name × String)} (hlength : ∀ e ∈ messages, 12 ≤ e.2.length)
    (hqueries : ∀ e ∈ messages, ∀ e' ∈ messages, e.2.drop 2 = e'.2.drop 2 →
      e.1.queries = e'.1.queries) : (Codec.ofTable messages names).Lawful where
  header m bytes h := by
    obtain ⟨e, he, rfl⟩ := Option.map_eq_some_iff.mp h
    have := hlength e (List.mem_of_find?_eq_some he)
    rw [List.length_append, List.length_drop, be16_length]
    omega
  questions m bytes id h := by
    obtain ⟨e, hmem, hm, rfl, e', hmem', he', heq⟩ := Codec.ofTable_encoded h
    have htail : (be16 id ++ (be16 m.id ++ e.2.drop 2).drop 2).drop 2 = e.2.drop 2 := rfl
    refine ⟨e'.1, ?_, ?_⟩
    · show (messages.find? (·.2.drop 2 == _)).map (·.1) = some e'.1
      rw [htail, he']
      rfl
    · rw [hqueries e' hmem' e hmem heq, hm]

theorem Codec.ofTable_keepsTtls {messages : List (Message × List UInt8)}
    {names : List (Name × String)}
    (hanswers : ∀ e ∈ messages, ∀ e' ∈ messages, e.2.drop 2 = e'.2.drop 2 →
      e.1.answers = e'.1.answers) : (Codec.ofTable messages names).KeepsTtls := by
  intro m bytes bytes' m' hto htail hfrom r' hr'
  obtain ⟨e, he, rfl⟩ := Option.map_eq_some_iff.mp hto
  obtain ⟨e', he', rfl⟩ := Option.map_eq_some_iff.mp hfrom
  have hm : e.1 = { m with id := 0 } := by simpa using List.find?_some he
  have hbytes : e'.2.drop 2 = bytes'.drop 2 := by simpa using List.find?_some he'
  have hdrop : (be16 m.id ++ e.2.drop 2).drop 2 = e.2.drop 2 := rfl
  have hsame : e'.1.answers = e.1.answers :=
    hanswers e' (List.mem_of_find?_eq_some he') e (List.mem_of_find?_eq_some he)
      (by rw [hbytes, htail, hdrop])
  refine ⟨r', ?_, rfl⟩
  rw [hsame, hm] at hr'
  exact hr'

theorem Codec.ofTable_headed {messages : List (Message × List UInt8)}
    {names : List (Name × String)}
    (hlength : ∀ e ∈ messages, 12 ≤ e.2.length ∧ e.2.length ≤ 65535) :
    (Codec.ofTable messages names).Headed where
  encodeId m id := by
    show Option.map _ _ = Option.map _ (Option.map _ _)
    rw [Option.map_map]
    rfl
  decodeId bytes id := rfl
  decoded bytes m h := by
    obtain ⟨e, he, rfl⟩ := Option.map_eq_some_iff.mp h
    have hbytes : e.2.drop 2 = bytes.drop 2 := by simpa using List.find?_some he
    have hsame := congrArg List.length hbytes
    have hmem := (hlength e (List.mem_of_find?_eq_some he)).1
    simp only [List.length_drop] at hsame
    omega
  encoded m bytes h := by
    obtain ⟨e, he, rfl⟩ := Option.map_eq_some_iff.mp h
    have hmem := hlength e (List.mem_of_find?_eq_some he)
    rw [List.length_append, List.length_drop, be16_length]
    omega

theorem Codec.ofTable_readsBack {messages : List (Message × List UInt8)}
    {names : List (Name × String)}
    (hnames : ∀ e ∈ names, ∀ e' ∈ names, e.2 = e'.2 → e.1.Same e'.1) {name : Name}
    (h : (Codec.ofTable messages names).display name ≠ "") :
    (Codec.ofTable messages names).ReadsBack name := by
  obtain ⟨e, he⟩ : ∃ e, names.find? (·.1 == name) = some e := by
    cases hfind : names.find? (·.1 == name) with
    | some e => exact ⟨e, rfl⟩
    | none =>
      refine absurd ?_ h
      show ((names.find? (·.1 == name)).map (·.2)).getD "" = ""
      rw [hfind]
      rfl
  have hname : e.1 = name := by simpa using List.find?_some he
  have htext : (Codec.ofTable messages names).display name = e.2 := by
    show ((names.find? (·.1 == name)).map (·.2)).getD "" = e.2
    rw [he]
    rfl
  have hmem := List.mem_of_find?_eq_some he
  have hfound : (names.find? (·.2 == e.2)).isSome := by
    rw [List.find?_isSome]
    exact ⟨e, hmem, by simp⟩
  obtain ⟨e', he'⟩ := Option.isSome_iff_exists.mp hfound
  have heq : e'.2 = e.2 := by simpa using List.find?_some he'
  refine ⟨e'.1, ?_, ?_⟩
  · rw [htext]
    show (names.find? (·.2 == e.2)).map (·.1) = some e'.1
    rw [he']
    rfl
  · rw [← hname]
    exact hnames e' (List.mem_of_find?_eq_some he') e hmem heq

end TitanDns
