import TitanDns.Dns.Message
import TitanDns.Lib.LittleEndian
import TitanDns.Lib.OctetBits

/-!
# Addresses as octets, and the text of an IPv6 address

* `Ipv4Addr.octets`, `Ipv6Addr.octets` — the octets in network order.
* `Ipv6Addr.parse` — the standard library's reader: groups of hexadecimal digits, `::` in place of
  the groups left out, the last two groups possibly as an IPv4 address.
* `parseU8` — the standard library's reader of a decimal number up to 255.
-/

namespace TitanDns

/-! ## Octets -/

/-- `octets()` -/
def Ipv4Addr.octets (ip : Ipv4Addr) : List UInt8 := [ip.a, ip.b, ip.c, ip.d]

/-- `octets()` -/
def Ipv6Addr.octets (ip : Ipv6Addr) : List UInt8 :=
  (leBytes 8 ip.high.toNat).reverse ++ (leBytes 8 ip.low.toNat).reverse

@[simp] theorem Ipv4Addr.octets_length (ip : Ipv4Addr) : ip.octets.length = 4 := rfl

@[simp] theorem Ipv6Addr.octets_length (ip : Ipv6Addr) : ip.octets.length = 16 := by
  simp [Ipv6Addr.octets]

theorem Ipv4Addr.octets_injective {x y : Ipv4Addr} (h : x.octets = y.octets) : x = y := by
  cases x
  cases y
  simpa [Ipv4Addr.octets] using h

/-- The integer of an IPv4 address has its octets. -/
theorem Ipv4Addr.leBytes_toU32 (ip : Ipv4Addr) :
    (leBytes 4 ip.toU32.toNat).reverse = ip.octets := by
  have hb := ip.b.toNat_lt
  have hc := ip.c.toNat_lt
  have hd := ip.d.toNat_lt
  have octet (b : UInt8) (n : Nat) : UInt8.ofNat (b.toNat + 256 * n) = b := by
    apply UInt8.toNat_inj.mp
    have hlt := b.toNat_lt
    rw [UInt8.toNat_ofNat']
    omega
  have above (b : UInt8) (n : Nat) : (b.toNat + 256 * n) / 256 = n := by
    have hlt := b.toNat_lt
    omega
  have last : UInt8.ofNat ip.a.toNat = ip.a := UInt8.ofNat_toNat
  rw [Ipv4Addr.toU32_toNat]
  simp only [leBytes, octet, above, last, Ipv4Addr.octets, List.reverse_cons, List.reverse_nil,
    List.nil_append, List.cons_append]

/-! ## Texts -/

/-- `str::parse::<u8>`: an optional sign `+` and decimal digits. -/
def parseU8 (cs : List Char) : Option UInt8 :=
  let ds := if cs.head? = some '+' then cs.tail else cs
  if ds.isEmpty ∨ ds.any (fun c => !c.isDigit) then none
  else
    let n := ds.foldl (fun n c => 10 * n + (c.toNat - '0'.toNat)) 0
    if 255 < n then none else some (UInt8.ofNat n)

/-- `to_digit(16)` -/
def hexDigit (c : Char) : Option Nat :=
  if c.isDigit then some (c.toNat - '0'.toNat)
  else if 'a' ≤ c ∧ c ≤ 'f' then some (c.toNat - 'a'.toNat + 10)
  else if 'A' ≤ c ∧ c ≤ 'F' then some (c.toNat - 'A'.toNat + 10)
  else none

/-- `read_given_char` -/
def readChar (c : Char) (cs : List Char) : Option (List Char) :=
  match cs with
  | c' :: rest => if c' = c then some rest else none
  | [] => none

/-- `read_number(10, Some(3), false)` into an octet. -/
def readOctet (cs : List Char) : Option (UInt8 × List Char) :=
  (parseOctet (cs.takeWhile Char.isDigit)).map fun b => (b, cs.dropWhile Char.isDigit)

/-- `read_number(16, Some(4), true)`: a fifth digit is an error. -/
def readGroup (cs : List Char) : Option (Nat × List Char) :=
  let ds := (cs.takeWhile fun c => (hexDigit c).isSome).filterMap hexDigit
  if ds.length < 1 ∨ 4 < ds.length then none
  else some (ds.foldl (fun n d => 16 * n + d) 0, cs.dropWhile fun c => (hexDigit c).isSome)

/-- `read_ipv4_addr` -/
def readIpv4 (cs : List Char) : Option (Ipv4Addr × List Char) := do
  let (a, cs) ← readOctet cs
  let (b, cs) ← (readChar '.' cs).bind readOctet
  let (c, cs) ← (readChar '.' cs).bind readOctet
  let (d, cs) ← (readChar '.' cs).bind readOctet
  return (⟨a, b, c, d⟩, cs)

/-- `read_groups`: at most `limit` groups, whether they end in an IPv4 address, and the rest. -/
def readGroups : (limit : Nat) → (first : Bool) → List Char → List Nat × Bool × List Char
  | 0, _, cs => ([], false, cs)
  | limit + 1, first, cs =>
    let rest := if first then some cs else readChar ':' cs
    match if 1 ≤ limit then rest.bind readIpv4 else none with
    | some (ip, cs') =>
      ([256 * ip.a.toNat + ip.b.toNat, 256 * ip.c.toNat + ip.d.toNat], true, cs')
    | none =>
      match rest.bind readGroup with
      | some (group, cs') =>
        let (groups, v4, cs'') := readGroups limit false cs'
        (group :: groups, v4, cs'')
      | none => ([], false, cs)

/-- `Ipv6Addr::from([u16; 8])` -/
def Ipv6Addr.ofGroups (groups : List Nat) : Ipv6Addr :=
  ⟨UInt64.ofNat ((groups.take 4).foldl (fun n g => 65536 * n + g) 0),
    UInt64.ofNat ((groups.drop 4).foldl (fun n g => 65536 * n + g) 0)⟩

/-- `str::parse::<Ipv6Addr>` -/
def Ipv6Addr.parse (text : List Char) : Option Ipv6Addr :=
  let (head, headIpv4, rest) := readGroups 8 true text
  if head.length = 8 then if rest.isEmpty then some (.ofGroups head) else none
  else if headIpv4 then none
  else
    match ((readChar ':' rest).bind (readChar ':')) with
    | none => none
    | some rest =>
      -- `::` stands for at least one group
      let (tail, _, rest) := readGroups (8 - (head.length + 1)) true rest
      if rest.isEmpty then
        some (.ofGroups (head ++ List.replicate (8 - head.length - tail.length) 0 ++ tail))
      else none

example : Ipv6Addr.parse "64:ff9b::192.0.2.33".toList =
    some ⟨0x0064ff9b00000000, 0x00000000c0000221⟩ := by decide

end TitanDns
