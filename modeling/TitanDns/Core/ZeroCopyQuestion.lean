import TitanDns.Core.Checked
import TitanDns.Core.Context

/-!
# The zero-copy question

`ZeroCopyDnsMessage::parse_question` and `find_name_end`, every index and every slice checked.

* `findNameEnd`, `parseQuestion` — the source.
* `IsName`, `IsQuestion` — a complete uncompressed name, and one with a type and a class behind it.
* `Walk` — what the length octets lead to, as the loop reads them; `findNameEnd_eq_iff` — **the loop
  accepts exactly the walks that end within 255 octets**, and no index is out of range.
* `ParsesExactly` — what is said of a message; `WellFormedWalk` — the condition: what the length
  octets lead to is a name.

Principal result: `parsesExactly_iff` — **a message is parsed exactly on that condition.**
-/

namespace TitanDns

/-- `ZeroCopyQuestion` -/
structure ZeroCopyQuestion where
  data : List UInt8
  nameEnd : Nat
  qtype : UInt16
  qclass : UInt16
  deriving DecidableEq

namespace ZeroCopyDnsMessage

/-! ## The source -/

/-- The loop of `find_name_end` from `pos` on. -/
def findNameEndFrom (data : List UInt8) (pos : Nat) : Except Fault (Option Nat) :=
  if data.length ≤ pos then .ok none
  else do
    let len ← indexChecked data pos
    -- a compression pointer
    if len &&& 0xC0 = 0xC0 then return some (pos + 2)
    else if len = 0 then return some (pos + 1)
    else if 255 < pos + (len.toNat + 1) then return none
    else findNameEndFrom data (pos + (len.toNat + 1))
termination_by data.length - pos

/-- `find_name_end` -/
def findNameEnd (data : List UInt8) : Except Fault (Option Nat) := findNameEndFrom data 0

/-- `qdcount`, which `from_bytes` reads. -/
def qdcount (m : ZeroCopyDnsMessage) : UInt16 := readU16 (m.raw.getD 4 0) (m.raw.getD 5 0)

/-- `parse_question` -/
def parseQuestion (m : ZeroCopyDnsMessage) : Except Fault (Option ZeroCopyQuestion) :=
  if m.qdcount = 0 ∨ m.raw.length < 17 then .ok none
  else do
    let data ← sliceChecked m.raw 12 m.raw.length
    match ← findNameEnd data with
    | none => return none
    | some nameEnd =>
      if data.length < nameEnd + 4 then return none
      else
        let t₀ ← indexChecked data nameEnd
        let t₁ ← indexChecked data (nameEnd + 1)
        let c₀ ← indexChecked data (nameEnd + 2)
        let c₁ ← indexChecked data (nameEnd + 3)
        return some ⟨data, nameEnd, readU16 t₀ t₁, readU16 c₀ c₁⟩

end ZeroCopyDnsMessage

/-! ## Names and questions -/

/-- Labels of 1 to `k` octets. -/
def LabelsUpTo (k : Nat) (labels : List (List UInt8)) : Prop :=
  ∀ l ∈ labels, 1 ≤ l.length ∧ l.length ≤ k

/-- The first `n` octets are labels of 1 to 63 octets and a zero octet. -/
def IsName (data : List UInt8) (n : Nat) : Prop :=
  ∃ labels rest, LabelsUpTo 63 labels ∧ data = labelsWire labels ++ 0 :: rest ∧
    n = (labelsWire labels).length + 1

/-- A name with a type and a class behind it, at the start of the data. -/
def IsQuestion (data : List UInt8) (q : ZeroCopyQuestion) : Prop :=
  IsName data q.nameEnd ∧ q.data = data ∧
    ∃ rest, data.drop q.nameEnd = be16 q.qtype ++ be16 q.qclass ++ rest

/-- What the length octets lead to: texts of up to 191 octets, then a zero octet or one with both
top bits set. -/
structure Walk (data : List UInt8) (labels : List (List UInt8)) (stop : UInt8) : Prop where
  labels_le : LabelsUpTo 191 labels
  stops : stop = 0 ∨ 192 ≤ stop.toNat
  data_eq : ∃ rest, data = labelsWire labels ++ stop :: rest

/-- What is said of a message: no index is out of range, and names and questions are found where
they are, and nowhere else. -/
structure ParsesExactly (m : ZeroCopyDnsMessage) : Prop where
  name_safe : ∃ found, ZeroCopyDnsMessage.findNameEnd (m.raw.drop 12) = .ok found
  question_safe : ∃ found, m.parseQuestion = .ok found
  name : ∀ n, ZeroCopyDnsMessage.findNameEnd (m.raw.drop 12) = .ok (some n) ↔
    IsName (m.raw.drop 12) n
  question : ∀ q, m.parseQuestion = .ok (some q) ↔ IsQuestion (m.raw.drop 12) q

/-- The condition: where the length octets come to an end within 255 octets, they are those of a
name; no name is longer; and no question stands where the header announces none. -/
structure WellFormedWalk (m : ZeroCopyDnsMessage) : Prop where
  ends : ∀ labels stop, Walk (m.raw.drop 12) labels stop → (labelsWire labels).length ≤ 255 →
    LabelsUpTo 63 labels ∧ stop = 0
  short : ∀ n, IsName (m.raw.drop 12) n → n ≤ 256
  announced : m.qdcount = 0 → ¬ ∃ q, IsQuestion (m.raw.drop 12) q

/-! ## Walks -/

theorem pointer_iff (b : UInt8) : b &&& 0xC0 = 0xC0 ↔ 192 ≤ b.toNat := by
  have hall : ∀ n < 256, (UInt8.ofNat n &&& 0xC0 = 0xC0 ↔ 192 ≤ n) := by decide +kernel
  have hb := hall b.toNat b.toNat_lt
  rwa [UInt8.ofNat_toNat] at hb

theorem lengthOctet_toNat {l : List UInt8} (h : l.length ≤ 191) :
    (UInt8.ofNat l.length).toNat = l.length := by
  rw [UInt8.toNat_ofNat']
  omega

theorem not_walk_nil {labels : List (List UInt8)} {stop : UInt8} : ¬ Walk [] labels stop := by
  rintro ⟨-, -, rest, h⟩
  simp at h

/-- A walk ends at its first octet, or goes on behind a label. -/
theorem Walk.first {b stop : UInt8} {tail : List UInt8} {labels : List (List UInt8)}
    (h : Walk (b :: tail) labels stop) :
    (labels = [] ∧ stop = b) ∨
      ∃ ls, labels = tail.take b.toNat :: ls ∧ 1 ≤ b.toNat ∧ b.toNat ≤ 191 ∧
        b.toNat ≤ tail.length ∧ Walk (tail.drop b.toNat) ls stop := by
  obtain ⟨hle, hstop, rest, heq⟩ := h
  cases labels with
  | nil =>
    obtain ⟨rfl, -⟩ := List.cons.inj heq
    exact .inl ⟨rfl, rfl⟩
  | cons l ls =>
    obtain ⟨hmin, hmax⟩ := hle l List.mem_cons_self
    rw [labelsWire_cons, List.cons_append, List.cons_append, List.append_assoc] at heq
    obtain ⟨rfl, rfl⟩ := List.cons.inj heq
    rw [lengthOctet_toNat hmax, List.take_left, List.drop_left]
    refine .inr ⟨ls, rfl, hmin, hmax, ?_, fun l' hl' => hle l' (List.mem_cons_of_mem _ hl'), hstop,
      rest, rfl⟩
    rw [List.length_append]
    omega

/-- A label in front of a walk. -/
theorem Walk.cons {b stop : UInt8} {tail : List UInt8} {ls : List (List UInt8)}
    (hmin : 1 ≤ b.toNat) (hmax : b.toNat ≤ 191) (hlen : b.toNat ≤ tail.length)
    (h : Walk (tail.drop b.toNat) ls stop) : Walk (b :: tail) (tail.take b.toNat :: ls) stop := by
  obtain ⟨hle, hstop, rest, heq⟩ := h
  have hlabel : (tail.take b.toNat).length = b.toNat := by
    rw [List.length_take]
    omega
  refine ⟨?_, hstop, rest, ?_⟩
  · intro l hl
    rcases List.mem_cons.mp hl with rfl | hl
    · omega
    · exact hle l hl
  · rw [labelsWire_cons, hlabel, UInt8.ofNat_toNat, List.cons_append, List.cons_append,
      List.append_assoc, ← heq, List.take_append_drop]

/-- **The octets say what the walk is.** -/
theorem Walk.unique {data : List UInt8} {ls ls' : List (List UInt8)} {stop stop' : UInt8}
    (h : Walk data ls stop) (h' : Walk data ls' stop') : ls = ls' ∧ stop = stop' := by
  induction ls generalizing data ls' with
  | nil =>
    obtain ⟨-, hstop, rest, rfl⟩ := h
    rcases h'.first with ⟨rfl, rfl⟩ | ⟨-, -, hmin, hmax, -, -⟩
    · exact ⟨rfl, rfl⟩
    · rcases hstop with rfl | hpointer
      · cases hmin
      · omega
  | cons l ls ih =>
    cases data with
    | nil => exact absurd h not_walk_nil
    | cons b tail =>
      rcases h.first with ⟨hnil, -⟩ | ⟨rest, hcons, hmin, hmax, -, hrest⟩
      · cases hnil
      obtain ⟨rfl, rfl⟩ := List.cons.inj hcons
      rcases h'.first with ⟨rfl, rfl⟩ | ⟨rest', rfl, -, -, -, hrest'⟩
      · rcases h'.stops with rfl | hpointer
        · cases hmin
        · omega
      · obtain ⟨rfl, rfl⟩ := ih hrest hrest'
        exact ⟨rfl, rfl⟩

/-- Behind a walk there is something left to walk. -/
theorem Walk.fits {tail : List UInt8} {k : Nat} {ls : List (List UInt8)} {stop : UInt8}
    (h : Walk (tail.drop k) ls stop) : k ≤ tail.length := by
  by_contra houtside
  rw [List.drop_of_length_le (by omega)] at h
  exact not_walk_nil h

/-- The walks that start with a label are those behind it. -/
theorem walk_label {b : UInt8} {tail : List UInt8} (hmin : 1 ≤ b.toNat) (hmax : b.toNat ≤ 191)
    (ends : Nat → UInt8 → Prop) :
    (∃ labels stop, Walk (b :: tail) labels stop ∧ ends (labelsWire labels).length stop) ↔
      ∃ ls stop, Walk (tail.drop b.toNat) ls stop ∧
        ends (b.toNat + 1 + (labelsWire ls).length) stop := by
  have hlength : b.toNat ≤ tail.length → ∀ ls, (labelsWire (tail.take b.toNat :: ls)).length =
      b.toNat + 1 + (labelsWire ls).length := by
    intro hfits ls
    rw [labelsWire_cons, List.length_append, List.length_cons, List.length_take,
      Nat.min_eq_left hfits]
  constructor
  · rintro ⟨labels, stop, hwalk, hends⟩
    rcases hwalk.first with ⟨rfl, rfl⟩ | ⟨ls, rfl, -, -, hfits, hbehind⟩
    · rcases hwalk.stops with rfl | hbig
      · cases hmin
      · omega
    · rw [hlength hfits] at hends
      exact ⟨ls, stop, hbehind, hends⟩
  · rintro ⟨ls, stop, hwalk, hends⟩
    have hfits := hwalk.fits
    exact ⟨_, stop, hwalk.cons hmin hmax hfits, by rwa [hlength hfits]⟩

/-- Names are walks. -/
theorem isName_iff {data : List UInt8} {n : Nat} :
    IsName data n ↔ ∃ labels, Walk data labels 0 ∧ LabelsUpTo 63 labels ∧
      n = (labelsWire labels).length + 1 := by
  constructor
  · rintro ⟨labels, rest, hle, heq, hn⟩
    refine ⟨labels, ⟨fun l hl => ?_, .inl rfl, rest, heq⟩, hle, hn⟩
    have hl := hle l hl
    omega
  · rintro ⟨labels, ⟨-, -, rest, heq⟩, hle, hn⟩
    exact ⟨labels, rest, hle, heq, hn⟩

/-! ## The loop -/

namespace ZeroCopyDnsMessage

/-- An octet at which the loop stops is a walk of its own. -/
theorem walk_stop {b : UInt8} {tail : List UInt8} (hstop : b = 0 ∨ 192 ≤ b.toNat) (pos n : Nat)
    (hpos : pos ≤ 255) :
    (∃ labels stop, Walk (b :: tail) labels stop ∧ pos + (labelsWire labels).length ≤ 255 ∧
      n = pos + (labelsWire labels).length + if stop = 0 then 1 else 2) ↔
      n = pos + if b = 0 then 1 else 2 := by
  have hself : Walk (b :: tail) [] b :=
    ⟨fun l hl => (by cases hl), hstop, tail, rfl⟩
  constructor
  · rintro ⟨labels, stop, hwalk, -, rfl⟩
    obtain ⟨rfl, rfl⟩ := hwalk.unique hself
    rfl
  · rintro rfl
    exact ⟨[], b, hself, hpos, rfl⟩

/-- **The loop accepts the walks that end within 255 octets**, with no index out of range. -/
theorem findNameEndFrom_spec (data : List UInt8) (pos : Nat) (hpos : pos ≤ 255) :
    ∃ found, findNameEndFrom data pos = .ok found ∧
      ∀ n, found = some n ↔ ∃ labels stop, Walk (data.drop pos) labels stop ∧
        pos + (labelsWire labels).length ≤ 255 ∧
        n = pos + (labelsWire labels).length + if stop = 0 then 1 else 2 := by
  induction hleft : data.length - pos using Nat.strongRecOn generalizing pos with
  | ind left ih =>
  rw [findNameEndFrom]
  by_cases hend : data.length ≤ pos
  · refine ⟨none, if_pos hend, fun n => ⟨fun h => (by cases h), ?_⟩⟩
    rintro ⟨labels, stop, hwalk, -⟩
    rw [List.drop_of_length_le hend] at hwalk
    exact absurd hwalk not_walk_nil
  have hlt : pos < data.length := by omega
  have hdrop : data.drop pos = data[pos] :: data.drop (pos + 1) := List.drop_eq_getElem_cons hlt
  have hindex : indexChecked data pos = .ok data[pos] :=
    indexChecked_eq (List.getElem?_eq_getElem hlt)
  rw [if_neg hend, hindex, hdrop]
  generalize data[pos] = len
  simp only [bind, Except.bind, pure, Except.pure]
  by_cases hpointer : len &&& 0xC0 = 0xC0
  · have hbig := (pointer_iff len).mp hpointer
    have hne : len ≠ 0 := by
      rintro rfl
      cases hbig
    refine ⟨some (pos + 2), if_pos hpointer, fun n => ?_⟩
    rw [walk_stop (.inr hbig) pos n hpos, if_neg hne, Option.some.injEq, eq_comm]
  rw [if_neg hpointer]
  by_cases hzero : len = 0
  · refine ⟨some (pos + 1), if_pos hzero, fun n => ?_⟩
    rw [walk_stop (.inl hzero) pos n hpos, if_pos hzero, Option.some.injEq, eq_comm]
  rw [if_neg hzero]
  have hmax : len.toNat ≤ 191 := by
    have := mt (pointer_iff len).mpr hpointer
    omega
  have hmin : 1 ≤ len.toNat := by
    have : len.toNat ≠ 0 := fun h => hzero (UInt8.toNat_inj.mp h)
    omega
  have hskip : (data.drop (pos + 1)).drop len.toNat = data.drop (pos + (len.toNat + 1)) := by
    rw [List.drop_drop]
    congr 1
    omega
  have hlabel := fun n => @walk_label len (data.drop (pos + 1)) hmin hmax fun length stop =>
    pos + length ≤ 255 ∧ n = pos + length + if stop = 0 then 1 else 2
  rw [hskip] at hlabel
  by_cases hlimit : 255 < pos + (len.toNat + 1)
  · refine ⟨none, if_pos hlimit, fun n => ⟨fun h => (by cases h), fun h => ?_⟩⟩
    obtain ⟨ls, stop, -, hlength, -⟩ := (hlabel n).mp h
    omega
  rw [if_neg hlimit]
  obtain ⟨found, hfound, hspec⟩ := ih (data.length - (pos + (len.toNat + 1))) (by omega)
    (pos + (len.toNat + 1)) (by omega) rfl
  refine ⟨found, hfound, fun n => ?_⟩
  have hsum : ∀ k, pos + (len.toNat + 1) + k = pos + (len.toNat + 1 + k) := fun k => by omega
  simp only [hsum] at hspec
  rw [hspec, hlabel]

theorem findNameEnd_spec (data : List UInt8) :
    ∃ found, findNameEnd data = .ok found ∧
      ∀ n, found = some n ↔ ∃ labels stop, Walk data labels stop ∧
        (labelsWire labels).length ≤ 255 ∧
        n = (labelsWire labels).length + if stop = 0 then 1 else 2 := by
  have hspec := findNameEndFrom_spec data 0 (by omega)
  simp only [List.drop_zero, Nat.zero_add] at hspec
  exact hspec

theorem findNameEnd_eq_iff {data : List UInt8} {n : Nat} :
    findNameEnd data = .ok (some n) ↔ ∃ labels stop, Walk data labels stop ∧
      (labelsWire labels).length ≤ 255 ∧
      n = (labelsWire labels).length + if stop = 0 then 1 else 2 := by
  obtain ⟨found, hfound, hspec⟩ := findNameEnd_spec data
  rw [hfound, Except.ok.injEq, hspec]

/-! ## The question -/

/-- What stands behind the name, when there is enough of it. -/
theorem four_octets {data : List UInt8} {n : Nat} (h : n + 4 ≤ data.length) :
    ∃ t₀ t₁ c₀ c₁ rest, data.drop n = t₀ :: t₁ :: c₀ :: c₁ :: rest := by
  have hlength : 4 ≤ (data.drop n).length := by
    rw [List.length_drop]
    omega
  match data.drop n, hlength with
  | t₀ :: t₁ :: c₀ :: c₁ :: rest, _ => exact ⟨t₀, t₁, c₀, c₁, rest, rfl⟩

/-- A type and a class are four octets. -/
theorem length_of_question {data rest : List UInt8} {n : Nat} {qtype qclass : UInt16}
    (h : data.drop n = be16 qtype ++ be16 qclass ++ rest) : n + 4 ≤ data.length := by
  have hlength := congrArg List.length h
  simp only [List.length_append, be16_length, List.length_drop] at hlength
  omega

/-- The four octets behind the name are a type and a class. -/
theorem question_iff {data rest : List UInt8} {n : Nat} {t₀ t₁ c₀ c₁ : UInt8}
    (hbehind : data.drop n = t₀ :: t₁ :: c₀ :: c₁ :: rest) (q : ZeroCopyQuestion) :
    some ⟨data, n, readU16 t₀ t₁, readU16 c₀ c₁⟩ = some q ↔ n = q.nameEnd ∧ q.data = data ∧
      ∃ rest', data.drop q.nameEnd = be16 q.qtype ++ be16 q.qclass ++ rest' := by
  constructor
  · intro h
    obtain rfl := Option.some.inj h
    refine ⟨rfl, rfl, rest, ?_⟩
    rw [be16_readU16, be16_readU16]
    exact hbehind
  · obtain ⟨qdata, nameEnd, qtype, qclass⟩ := q
    rintro ⟨rfl, rfl, rest', hrest⟩
    have heq : t₀ :: t₁ :: c₀ :: c₁ :: rest = be16 qtype ++ be16 qclass ++ rest' :=
      hbehind.symm.trans hrest
    simp only [be16, List.cons_append, List.nil_append, List.cons.injEq] at heq
    obtain ⟨rfl, rfl, rfl, rfl, -⟩ := heq
    rw [readU16_be16, readU16_be16]

/-- **A question is found where a name is found** and a type and a class stand behind it, when the
header announces one. -/
theorem parseQuestion_spec (m : ZeroCopyDnsMessage) :
    ∃ found, m.parseQuestion = .ok found ∧
      ∀ q, found = some q ↔ m.qdcount ≠ 0 ∧
        findNameEnd (m.raw.drop 12) = .ok (some q.nameEnd) ∧ q.data = m.raw.drop 12 ∧
        ∃ rest, (m.raw.drop 12).drop q.nameEnd = be16 q.qtype ++ be16 q.qclass ++ rest := by
  have hdata : sliceChecked m.raw 12 m.raw.length = .ok (m.raw.drop 12) := by
    rw [sliceChecked_eq m.header (Nat.le_refl _),
      List.take_of_length_le (Nat.le_of_eq List.length_drop)]
  have hlength : (m.raw.drop 12).length = m.raw.length - 12 := List.length_drop
  unfold parseQuestion
  by_cases hskip : m.qdcount = 0 ∨ m.raw.length < 17
  · refine ⟨none, if_pos hskip, fun q => ⟨fun h => (by cases h), ?_⟩⟩
    rintro ⟨hcount, hname, -, rest, hrest⟩
    obtain ⟨labels, stop, -, -, hn⟩ := findNameEnd_eq_iff.mp hname
    have hfour := length_of_question hrest
    have hone : 1 ≤ q.nameEnd := by
      rw [hn]
      split <;> omega
    rcases hskip with hzero | hshort
    · exact absurd hzero hcount
    · omega
  obtain ⟨hcount, -⟩ := not_or.mp hskip
  rw [if_neg hskip, hdata]
  generalize m.raw.drop 12 = data
  obtain ⟨found, hfound, -⟩ := findNameEnd_spec data
  simp only [bind, Except.bind, pure, Except.pure, hfound]
  cases found with
  | none =>
    refine ⟨none, rfl, fun q => ⟨fun h => (by cases h), ?_⟩⟩
    rintro ⟨-, hname, -⟩
    cases hname
  | some n =>
    simp only [Except.ok.injEq, Option.some.injEq]
    by_cases hshort : data.length < n + 4
    · refine ⟨none, if_pos hshort, fun q => ⟨fun h => (by cases h), ?_⟩⟩
      rintro ⟨-, rfl, -, rest, hrest⟩
      have hfour := length_of_question hrest
      omega
    rw [if_neg hshort]
    obtain ⟨t₀, t₁, c₀, c₁, rest, hbehind⟩ := four_octets (Nat.le_of_not_lt hshort)
    have hoctet : ∀ k octet, (data.drop n)[k]? = some octet →
        indexChecked data (n + k) = .ok octet := fun _ _ => indexChecked_drop
    rw [hbehind] at hoctet
    refine ⟨some ⟨data, n, readU16 t₀ t₁, readU16 c₀ c₁⟩, ?_, fun q => ?_⟩
    · rw [← Nat.add_zero n, hoctet 0 t₀ rfl, Nat.add_zero, hoctet 1 t₁ rfl, hoctet 2 c₀ rfl,
        hoctet 3 c₁ rfl]
    · rw [question_iff hbehind q]
      exact (and_iff_right hcount).symm

end ZeroCopyDnsMessage

/-! ## Exactly the names -/

open ZeroCopyDnsMessage

/-- Where the walks are names, the loop finds the names. -/
theorem WellFormedWalk.name {m : ZeroCopyDnsMessage} (h : WellFormedWalk m) (n : Nat) :
    findNameEnd (m.raw.drop 12) = .ok (some n) ↔ IsName (m.raw.drop 12) n := by
  rw [findNameEnd_eq_iff]
  constructor
  · rintro ⟨labels, stop, hwalk, hlength, rfl⟩
    obtain ⟨hle, rfl⟩ := h.ends labels stop hwalk hlength
    exact isName_iff.mpr ⟨labels, hwalk, hle, rfl⟩
  · intro hname
    have hshort := h.short n hname
    obtain ⟨labels, hwalk, -, rfl⟩ := isName_iff.mp hname
    exact ⟨labels, 0, hwalk, by omega, rfl⟩

/-- **A message is parsed exactly** when what its length octets lead to is a name that is not too
long, and no question stands where none is announced. -/
theorem parsesExactly_iff (m : ZeroCopyDnsMessage) : ParsesExactly m ↔ WellFormedWalk m := by
  have hquestion : ∀ q, m.parseQuestion = .ok (some q) ↔ m.qdcount ≠ 0 ∧
      findNameEnd (m.raw.drop 12) = .ok (some q.nameEnd) ∧ q.data = m.raw.drop 12 ∧
      ∃ rest, (m.raw.drop 12).drop q.nameEnd = be16 q.qtype ++ be16 q.qclass ++ rest := by
    obtain ⟨found, hfound, hspec⟩ := parseQuestion_spec m
    intro q
    rw [hfound, Except.ok.injEq, hspec]
  constructor
  · intro h
    refine ⟨fun labels stop hwalk hlength => ?_, fun n hname => ?_, ?_⟩
    · have hfound := findNameEnd_eq_iff.mpr ⟨labels, stop, hwalk, hlength, rfl⟩
      obtain ⟨labels', hwalk', hle, -⟩ := isName_iff.mp ((h.name _).mp hfound)
      obtain ⟨rfl, rfl⟩ := hwalk.unique hwalk'
      exact ⟨hle, rfl⟩
    · obtain ⟨labels, stop, hwalk, hlength, -⟩ := findNameEnd_eq_iff.mp ((h.name n).mpr hname)
      obtain ⟨labels', hwalk', -, rfl⟩ := isName_iff.mp hname
      obtain ⟨rfl, -⟩ := hwalk.unique hwalk'
      omega
    · rintro hzero ⟨q, hq⟩
      exact ((hquestion q).mp ((h.question q).mpr hq)).1 hzero
  · intro h
    obtain ⟨found, hfound, -⟩ := findNameEnd_spec (m.raw.drop 12)
    obtain ⟨parsed, hparsed, -⟩ := parseQuestion_spec m
    refine ⟨⟨found, hfound⟩, ⟨parsed, hparsed⟩, h.name, fun q => ?_⟩
    rw [hquestion, h.name]
    constructor
    · rintro ⟨-, hname, hdata, hrest⟩
      exact ⟨hname, hdata, hrest⟩
    · intro hq
      exact ⟨fun hzero => h.announced hzero ⟨q, hq⟩, hq.1, hq.2.1, hq.2.2⟩

/-- A question whose name is a pointer into the header. -/
def pointerQuestion : ZeroCopyDnsMessage where
  raw := [0, 1, 1, 0, 0, 1, 0, 0, 0, 0, 0, 0, 192, 4, 0, 1, 0, 1]
  header := by decide

theorem pointer_accepted : ¬ ∀ m, ParsesExactly m := by
  intro h
  have hwalk : Walk (pointerQuestion.raw.drop 12) [] 192 :=
    ⟨fun l hl => (by cases hl), .inr (by decide), [4, 0, 1, 0, 1], rfl⟩
  have hfound := findNameEnd_eq_iff.mpr ⟨[], 192, hwalk, by decide, rfl⟩
  obtain ⟨labels, hname, -, -⟩ := isName_iff.mp (((h pointerQuestion).name _).mp hfound)
  have hstop := (hwalk.unique hname).2
  revert hstop
  decide

end TitanDns
