import TitanDns.Plugins.Pipeline
import Mathlib.Algebra.GroupWithZero.Nat

/-!
# What the conditions of a step mean

`check_match` against the meaning of the conditions: names by their labels, clients by their
addresses.

* `Network`, `Network.Contains` — an address block; a single address is one of full length.
* `cutLabels`, `octetsOf`, `Pattern.read` — the labels that a text stands for: cut at the dots that
  no backslash escapes.
* `EndsWith` — a name is a listed one or below it, label by label, whatever the case.
* `Means` — the meaning of a condition; what an entry of `client_ip` stands for, and the octets of a
  label beyond ASCII, are parameters.
* `Missed`, `Overmatched` — what the code does not see, and what it sees by its text alone.

Principal result: `checkMatch_iff_means` — **the code decides the conjunction of the meanings
exactly when some condition fails on both readings, or there are conditions of both kinds, or of
neither.**
-/

namespace TitanDns

/-! ## Addresses -/

structure Network where
  address : IpAddr
  prefixLen : Nat

/-- The address as a number. -/
def IpAddr.value : IpAddr → Nat
  | .v4 ip => ip.toU32.toNat
  | .v6 ip => ip.high.toNat * 2 ^ 64 + ip.low.toNat

/-- The first bits of the block's address are those of this one. -/
def Network.Contains (n : Network) (ip : IpAddr) : Prop :=
  match n.address, ip with
  | .v4 _, .v4 _ =>
    ip.value / 2 ^ (32 - n.prefixLen) = n.address.value / 2 ^ (32 - n.prefixLen)
  | .v6 _, .v6 _ =>
    ip.value / 2 ^ (128 - n.prefixLen) = n.address.value / 2 ^ (128 - n.prefixLen)
  | _, _ => False

/-! ## Names -/

/-- The texts between the dots, `cur` being the one begun.  An escaped character is no dot, and the
last dot begins no label. -/
def cutLabels : List Char → List Char → List (List Char)
  | cur, [] => if cur = [] then [] else [cur]
  | cur, '\\' :: c :: cs => cutLabels (cur ++ ['\\', c]) cs
  | cur, '.' :: cs => cur :: cutLabels [] cs
  | cur, c :: cs => cutLabels (cur ++ [c]) cs

/-- A digit's value. -/
def digit (c : Char) : Nat := c.toNat - '0'.toNat

/-- The octets of a label: a backslash stands before an octet in three digits or before a character
that means itself. -/
def octetsOf : List Char → List UInt8
  | '\\' :: x :: y :: z :: cs =>
    if x.isDigit && y.isDigit && z.isDigit then
      UInt8.ofNat (100 * digit x + 10 * digit y + digit z) :: octetsOf cs
    else String.utf8EncodeChar x ++ octetsOf (y :: z :: cs)
  | '\\' :: x :: cs => String.utf8EncodeChar x ++ octetsOf cs
  | c :: cs => String.utf8EncodeChar c ++ octetsOf cs
  | [] => []

/-- What a listed text stands for: the labels, and whether it begins with a dot, which stands for
names below them only. -/
structure Pattern where
  labels : List (List UInt8)
  below : Bool
  deriving DecidableEq

/-- The pattern of a text; `ace` gives the octets of a label that is not ASCII. -/
def Pattern.read (ace : List Char → List UInt8) (text : String) : Pattern :=
  let octets := fun label : List Char =>
    if label.all fun c => c.toNat < 128 then octetsOf label else ace label
  match cutLabels [] text.toList with
  | [[]] => ⟨[], false⟩
  | [] :: labels => ⟨labels.map octets, true⟩
  | labels => ⟨labels.map octets, false⟩

example : Pattern.read octetsOf ".a\\.b\\046c.com." =
    ⟨[[97, 46, 98, 46, 99], [99, 111, 109]], true⟩ := by
  decide +kernel

/-- The labels of the name are those of the pattern behind others, or behind none where the pattern
does not begin with a dot. -/
def EndsWith (name : List (List UInt8)) (pattern : Pattern) : Prop :=
  ∃ front, name.map (·.map asciiLower) = front ++ pattern.labels.map (·.map asciiLower) ∧
    (pattern.below = true → front ≠ [])

/-- The text of the name ends with the other text. -/
def TextEndsWith (name pattern : String) : Prop := pattern.toList <:+ name.toList

namespace MatchCondition

/-! ## Conditions -/

variable (codec : Codec) (registry : String → Option MatcherPlugin)
  (reads : String → Option Network) (ace : List Char → List UInt8) (ctx : Context)

/-- The labels of the name asked; without a question it is the root. -/
def askedLabels : List (List UInt8) := (ctx.request.query.map (·.name.labels)).getD []

/-- The name asked is listed, or below a listed one. -/
def NameListed (patterns : List String) : Prop :=
  ∃ p ∈ patterns, EndsWith (askedLabels ctx) (.read ace p)

/-- The client is listed, by itself or in a block. -/
def ClientListed (entries : List String) : Prop :=
  ∃ e ∈ entries, ∃ network, reads e = some network ∧ network.Contains ctx.clientIp

/-- The meaning of a condition. -/
def Means : MatchCondition → Prop
  | .byQname patterns => NameListed ace ctx patterns
  | .byQtype types => (ctx.request.query.map (·.qtype)).getD 0 ∈ types
  | .byClientIp entries => ClientListed reads ctx entries
  | .byTag tag invert => if invert then tag ∉ ctx.tags else tag ∈ ctx.tags
  | .byMatcherPlugin name => ∃ m, registry name = some m ∧ m.matchesDomain (ctx.qname codec) = true

/-- Conditions that are met and that the code takes for unmet: a listed client, and a name that is
listed in another spelling. -/
def Missed : MatchCondition → Prop
  | .byQname patterns => NameListed ace ctx patterns ∧
    ¬ ∃ p ∈ patterns, TextEndsWith (ctx.qname codec) p
  | .byClientIp entries => ClientListed reads ctx entries
  | _ => False

/-- Conditions that are not met and that the code takes for met: the text of the name ends with a
pattern, but its labels do not. -/
def Overmatched : MatchCondition → Prop
  | .byQname patterns => (∃ p ∈ patterns, TextEndsWith (ctx.qname codec) p) ∧
    ¬ NameListed ace ctx patterns
  | _ => False

/-- **What the code decides of one condition.** -/
theorem holds_iff (c : MatchCondition) :
    c.holds codec registry ctx = true ↔
      (c.Means codec registry reads ace ctx ∧ ¬ c.Missed codec reads ace ctx) ∨
        c.Overmatched codec ace ctx := by
  cases c with
  | byQname patterns =>
    have htext : (patterns.any fun p => p.toList.isSuffixOf (ctx.qname codec).toList) = true ↔
        ∃ p ∈ patterns, TextEndsWith (ctx.qname codec) p := by
      simp only [List.any_eq_true, List.isSuffixOf_iff_suffix, TextEndsWith]
    simp only [holds, Means, Missed, Overmatched, htext]
    by_cases hends : NameListed ace ctx patterns
    · by_cases h : ∃ p ∈ patterns, TextEndsWith (ctx.qname codec) p
      · simp only [hends, h, not_true_eq_false, and_false, not_false_eq_true, and_true, or_false]
      · simp only [hends, h, not_false_eq_true, and_true, not_true_eq_false, and_false, or_false]
    · by_cases h : ∃ p ∈ patterns, TextEndsWith (ctx.qname codec) p
      · simp only [hends, h, false_and, not_false_eq_true, and_true, false_or]
      · simp only [hends, h, false_and, or_false]
  | byQtype types => simp [holds, Means, Missed, Overmatched]
  | byClientIp entries => simp [holds, Means, Missed, Overmatched]
  | byTag tag invert =>
    cases invert with
    | false => simp [holds, Means, Missed, Overmatched, Context.hasTag]
    | true => simp [holds, Means, Missed, Overmatched, Context.hasTag]
  | byMatcherPlugin name =>
    cases h : registry name with
    | none => simp [holds, Means, Missed, Overmatched, h]
    | some m => simp [holds, Means, Missed, Overmatched, h]

variable {codec registry reads ace ctx}

theorem Missed.means {c : MatchCondition} (h : c.Missed codec reads ace ctx) :
    c.Means codec registry reads ace ctx := by
  cases c with
  | byQname patterns => exact h.1
  | byClientIp entries => exact h
  | _ => exact absurd h id

theorem Overmatched.not_means {c : MatchCondition} (h : c.Overmatched codec ace ctx) :
    ¬ c.Means codec registry reads ace ctx := by
  cases c with
  | byQname patterns => exact h.2
  | _ => exact absurd h id

end MatchCondition

open MatchCondition

/-- The exact condition on a list of conditions. -/
def Balanced (codec : Codec) (registry : String → Option MatcherPlugin)
    (reads : String → Option Network) (ace : List Char → List UInt8) (ctx : Context)
    (conditions : List MatchCondition) : Prop :=
  (∃ c ∈ conditions, ¬ c.Means codec registry reads ace ctx ∧ ¬ c.Overmatched codec ace ctx) ∨
    ((∃ c ∈ conditions, c.Missed codec reads ace ctx) ↔
      ∃ c ∈ conditions, c.Overmatched codec ace ctx)

/-- **The code decides the conjunction of the meanings exactly when some condition fails on both
readings, or there are conditions of both kinds, or of neither.** -/
theorem checkMatch_iff_means (codec : Codec) (registry : String → Option MatcherPlugin)
    (reads : String → Option Network) (ace : List Char → List UInt8) (ctx : Context)
    (conditions : List MatchCondition) :
    (checkMatch codec registry ctx conditions = true ↔
        ∀ c ∈ conditions, c.Means codec registry reads ace ctx) ↔
      Balanced codec registry reads ace ctx conditions := by
  have hcode : checkMatch codec registry ctx conditions = true ↔
      ∀ c ∈ conditions, (c.Means codec registry reads ace ctx ∧ ¬ c.Missed codec reads ace ctx) ∨
        c.Overmatched codec ace ctx := by
    unfold checkMatch
    rw [List.all_eq_true]
    exact forall₂_congr fun c _ => c.holds_iff codec registry reads ace ctx
  rw [hcode]
  by_cases hout : ∃ c ∈ conditions, ¬ c.Means codec registry reads ace ctx ∧
      ¬ c.Overmatched codec ace ctx
  · -- then both readings refuse
    refine iff_of_true ?_ (.inl hout)
    obtain ⟨c, hc, hmeans, hover⟩ := hout
    exact iff_of_false (fun h => (h c hc).elim (fun h => hmeans h.1) hover) fun h => hmeans (h c hc)
  · have hin {c : MatchCondition} (hc : c ∈ conditions)
        (hover : ¬ c.Overmatched codec ace ctx) : c.Means codec registry reads ace ctx := by
      by_contra hmeans
      exact hout ⟨c, hc, hmeans, hover⟩
    have hread : (∀ c ∈ conditions,
        (c.Means codec registry reads ace ctx ∧ ¬ c.Missed codec reads ace ctx) ∨
          c.Overmatched codec ace ctx) ↔ ¬ ∃ c ∈ conditions, c.Missed codec reads ace ctx := by
      constructor
      · rintro h ⟨c, hc, hmissed⟩
        rcases h c hc with h | h
        · exact h.2 hmissed
        · have hmeans : c.Means codec registry reads ace ctx := hmissed.means
          exact h.not_means hmeans
      · intro h c hc
        by_cases hover : c.Overmatched codec ace ctx
        · exact .inr hover
        · exact .inl ⟨hin hc hover, fun hmissed => h ⟨c, hc, hmissed⟩⟩
    have hmeant : (∀ c ∈ conditions, c.Means codec registry reads ace ctx) ↔
        ¬ ∃ c ∈ conditions, c.Overmatched codec ace ctx := by
      constructor
      · rintro h ⟨c, hc, hover⟩
        exact hover.not_means (h c hc)
      · exact fun h c hc => hin hc fun hover => h ⟨c, hc, hover⟩
    rw [hread, hmeant, not_iff_not]
    exact ⟨.inr, fun h => h.resolve_left hout⟩

namespace MatchCondition

def sampleName : Name := ⟨[[101, 120], [99, 111, 109]], by decide, by decide⟩

/-- One label, with a dot in it. -/
def dottedName : Name := ⟨[[97, 46, 99, 111, 109]], by decide, by decide⟩

def sampleCodec : Codec := .ofTable [] [(sampleName, "ex.com."), (dottedName, "a\\.com.")]

/-- The query of a client for an address of the name. -/
def sampleContext (name : Name) : Context :=
  .new { queries := [⟨name, TYPE_A, CLASS_IN⟩] } (.v4 ⟨192, 0, 2, 1⟩)

/-- Addresses without blocks. -/
def readAddress (entry : String) : Option Network :=
  (Ipv4Addr.parse entry).map fun ip => ⟨.v4 ip, 32⟩

/-- A listed client is refused, and so is a name listed without its last dot; a name that ends with
a pattern inside a label is accepted, and so is a single label with an escaped dot. -/
theorem misread :
    ¬ (checkMatch sampleCodec (fun _ => none) (sampleContext sampleName)
        [.byClientIp ["192.0.2.1"]] = true ↔ ∀ c ∈ [byClientIp ["192.0.2.1"]],
      c.Means sampleCodec (fun _ => none) readAddress octetsOf (sampleContext sampleName)) ∧
    ¬ (checkMatch sampleCodec (fun _ => none) (sampleContext sampleName)
        [.byQname ["ex.com"]] = true ↔ ∀ c ∈ [byQname ["ex.com"]],
      c.Means sampleCodec (fun _ => none) readAddress octetsOf (sampleContext sampleName)) ∧
    ¬ (checkMatch sampleCodec (fun _ => none) (sampleContext sampleName)
        [.byQname ["x.com."]] = true ↔ ∀ c ∈ [byQname ["x.com."]],
      c.Means sampleCodec (fun _ => none) readAddress octetsOf (sampleContext sampleName)) ∧
    ¬ (checkMatch sampleCodec (fun _ => none) (sampleContext dottedName)
        [.byQname ["com."]] = true ↔ ∀ c ∈ [byQname ["com."]],
      c.Means sampleCodec (fun _ => none) readAddress octetsOf (sampleContext dottedName)) := by
  have hnever : ∀ (name : Name) (pattern : String) (last : List (List UInt8)),
      (Pattern.read octetsOf pattern).labels.map (·.map asciiLower) = last →
      ¬ last <:+ name.foldedLabels →
      ¬ (byQname [pattern]).Means sampleCodec (fun _ => none) readAddress octetsOf
        (sampleContext name) := by
    rintro name pattern last hlast hsuffix ⟨p, hp, front, hfront, -⟩
    rw [List.mem_singleton.mp hp, hlast] at hfront
    exact hsuffix ⟨front, hfront.symm⟩
  refine ⟨fun h => ?_, fun h => ?_, fun h => ?_, fun h => ?_⟩
  · have hlisted : ClientListed readAddress (sampleContext sampleName) ["192.0.2.1"] :=
      ⟨"192.0.2.1", by simp, ⟨.v4 ⟨192, 0, 2, 1⟩, 32⟩, by rfl, rfl⟩
    have hcode := h.mpr fun c hc => by
      rw [List.mem_singleton.mp hc]
      exact hlisted
    cases hcode
  · have hlisted : NameListed octetsOf (sampleContext sampleName) ["ex.com"] :=
      ⟨"ex.com", by simp, [], by decide +kernel, by decide +kernel⟩
    have hcode := h.mpr fun c hc => by
      rw [List.mem_singleton.mp hc]
      exact hlisted
    exact absurd hcode (by decide +kernel)
  · exact hnever sampleName "x.com." [[120], [99, 111, 109]] (by decide +kernel) (by decide)
      (h.mp (by decide +kernel) _ (by simp))
  · exact hnever dottedName "com." [[99, 111, 109]] (by decide +kernel) (by decide)
      (h.mp (by decide +kernel) _ (by simp))

end MatchCondition

end TitanDns
