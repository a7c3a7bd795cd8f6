import TitanDns.Plugins.SmartForward
import TitanDns.Lib.PartialMap

/-!
# `classify_response` with its caches

The verdicts on addresses are cached twice: by `SmartForwardPlugin`, which may lose an entry at any
time, and by `GeoIpPlugin`, whose own cache holds nothing but what its database says.

* `GeoIp`, `isMatch` — the database and its cache; `isMatch_verdict` — what it answers.
* `scanIp`, `scanSection`, `classify` — the function with the caches before and after.
* `uncachedSection`, `uncached` — the same scan that asks for every address.
* `Agrees` — every cached verdict is the one of the predicate; `scanSection_spec` — what the loop
  keeps.

Principal result: `classify_spec` — **from a cache that agrees, the answer is that of the scan
without a cache, the cache agrees afterwards, and the response is domestic exactly when an address
that counts is.**
-/

namespace TitanDns.Classification

open PartialMap

/-! ## GeoIP -/

/-- The country of an address by its ISO code, where the database has one, and the code looked
for. -/
structure GeoDatabase where
  isoCode : IpAddr → Option String
  countryCode : String

def GeoDatabase.places (d : GeoDatabase) (ip : IpAddr) : Bool :=
  match d.isoCode ip with
  | some isoCode => isoCode.toLower == d.countryCode
  | none => false

/-- `GeoIpPlugin`; what it has cached is right. -/
structure GeoIp where
  database : GeoDatabase
  ipCache : IpAddr → Option Bool
  right : ∀ ip v, ipCache ip = some v → v = database.places ip

namespace GeoIp

/-- `is_match` -/
def isMatch (g : GeoIp) (ip : IpAddr) : Bool × GeoIp :=
  match g.ipCache ip with
  | some cached => (cached, g)
  | none =>
    (g.database.places ip,
      { g with
        ipCache := put g.ipCache ip (g.database.places ip)
        right := by
          intro ip' v h
          rcases put_some h with ⟨rfl, rfl⟩ | ⟨-, h⟩
          · rfl
          · exact g.right ip' v h })

theorem isMatch_verdict (g : GeoIp) (ip : IpAddr) : (g.isMatch ip).1 = g.database.places ip := by
  unfold isMatch
  cases h : g.ipCache ip with
  | none => rfl
  | some cached => exact g.right ip cached h

theorem isMatch_database (g : GeoIp) (ip : IpAddr) : (g.isMatch ip).2.database = g.database := by
  unfold isMatch
  cases g.ipCache ip with
  | none => rfl
  | some cached => rfl

end GeoIp

/-! ## The scan -/

/-- What a scan reads and writes. -/
structure Caches where
  /-- `ip_class_cache` -/
  ipClass : IpAddr → Option Bool
  geoip : GeoIp

/-- Entries of the first cache are lost. -/
def Caches.lose (c : Caches) (lost : IpAddr → Bool) : Caches :=
  { c with ipClass := fun ip => if lost ip then none else c.ipClass ip }

/-- One address: what the cache knows, else the matcher, else GeoIP. -/
def scanIp (ipMatcher : Option (IpAddr → Bool)) (c : Caches) (ip : IpAddr) : Bool × Caches :=
  match c.ipClass ip with
  | some cached => (cached, c)
  | none =>
    if (ipMatcher.map (· ip)).getD false then (true, { c with ipClass := put c.ipClass ip true })
    else
      let (isCn, geoip) := c.geoip.isMatch ip
      (isCn, ⟨put c.ipClass ip isCn, geoip⟩)

/-- The records of a section in turn, up to the first domestic address: whether there was one,
whether there was any address, and the caches afterwards.  Before each address, with so many records
behind it, some entries may be lost. -/
def scanSection (ipMatcher : Option (IpAddr → Bool)) (lost : Nat → IpAddr → Bool) :
    List Record → Caches → Bool → Bool × Bool × Caches
  | [], c, hasIp => (false, hasIp, c)
  | r :: rs, c, hasIp =>
    match r.data.ip with
    | none => scanSection ipMatcher lost rs c hasIp
    | some ip =>
      match scanIp ipMatcher (c.lose (lost rs.length)) ip with
      | (true, c) => (true, true, c)
      | (false, c) => scanSection ipMatcher lost rs c true

/-- `classify_response`: `(is_cn, has_ip)`, and the caches afterwards. -/
def classify (ipMatcher : Option (IpAddr → Bool)) (lost lost' : Nat → IpAddr → Bool)
    (resp : Message) (c : Caches) : (Bool × Bool) × Caches :=
  match scanSection ipMatcher lost resp.answers c false with
  | (isCn, true, c) => ((isCn, true), c)
  | (_, false, c) =>
    let (isCn, hasIp, c) := scanSection ipMatcher lost' resp.additionals c false
    ((isCn, hasIp), c)

/-! ## The scan without a cache -/

/-- An address is CN: the matcher matches it, or GeoIP places it there. -/
def isCn (ipMatcher : Option (IpAddr → Bool)) (database : GeoDatabase) (ip : IpAddr) : Bool :=
  (ipMatcher.map (· ip)).getD false || database.places ip

def uncachedSection (isCn : IpAddr → Bool) : List Record → Bool → Bool × Bool
  | [], hasIp => (false, hasIp)
  | r :: rs, hasIp =>
    match r.data.ip with
    | none => uncachedSection isCn rs hasIp
    | some ip => if isCn ip then (true, true) else uncachedSection isCn rs true

def uncached (isCn : IpAddr → Bool) (resp : Message) : Bool × Bool :=
  match uncachedSection isCn resp.answers false with
  | (isCn, true) => (isCn, true)
  | (_, false) => uncachedSection isCn resp.additionals false

/-- The section holds an address with a property. -/
def HasIp (rs : List Record) (P : IpAddr → Prop) : Prop :=
  ∃ r ∈ rs, ∃ ip, r.data.ip = some ip ∧ P ip

theorem hasIp_cons_none {r : Record} (h : r.data.ip = none) (rs : List Record)
    (P : IpAddr → Prop) : HasIp (r :: rs) P ↔ HasIp rs P := by
  simp [HasIp, h]

theorem hasIp_cons_some {r : Record} {ip : IpAddr} (h : r.data.ip = some ip) (rs : List Record)
    (P : IpAddr → Prop) : HasIp (r :: rs) P ↔ P ip ∨ HasIp rs P := by
  simp [HasIp, h]

theorem uncachedSection_spec (isCn : IpAddr → Bool) (rs : List Record) (hasIp : Bool) :
    ((uncachedSection isCn rs hasIp).1 = true ↔ HasIp rs (isCn · = true)) ∧
      ((uncachedSection isCn rs hasIp).2 = true ↔ hasIp = true ∨ HasIp rs fun _ => True) := by
  induction rs generalizing hasIp with
  | nil => simp [uncachedSection, HasIp]
  | cons r rs ih =>
    cases hr : r.data.ip with
    | none =>
      rw [hasIp_cons_none hr, hasIp_cons_none hr]
      simp only [uncachedSection, hr]
      exact ih hasIp
    | some ip =>
      rw [hasIp_cons_some hr, hasIp_cons_some hr]
      cases hcn : isCn ip with
      | true => simp [uncachedSection, hr, hcn]
      | false =>
        obtain ⟨hdomestic, hany⟩ := ih true
        simp only [uncachedSection, hr, hcn, Bool.false_eq_true, if_false, false_or, true_or,
          or_true, iff_true] at hdomestic hany ⊢
        exact ⟨hdomestic, hany⟩

/-- **The addresses that count are those of the answers, or else the additional ones.** -/
theorem uncached_domestic (isCn : IpAddr → Bool) (resp : Message) :
    (uncached isCn resp).1 = true ↔
      HasIp resp.answers (isCn · = true) ∨
        (¬ HasIp resp.answers fun _ => True) ∧ HasIp resp.additionals (isCn · = true) := by
  obtain ⟨hdomestic, hany⟩ := uncachedSection_spec isCn resp.answers false
  obtain ⟨hdomestic', -⟩ := uncachedSection_spec isCn resp.additionals false
  unfold uncached
  rcases hscan : uncachedSection isCn resp.answers false with ⟨cn, hasIp⟩
  rw [hscan] at hdomestic hany
  cases hasIp with
  | true =>
    have hsome : HasIp resp.answers fun _ => True := (hany.mp rfl).resolve_left Bool.false_ne_true
    simpa [hsome] using hdomestic
  | false =>
    have hnone : ¬ HasIp resp.answers fun _ => True :=
      fun h => Bool.false_ne_true (hany.mpr (.inr h))
    have hnot : ¬ HasIp resp.answers (isCn · = true) :=
      fun ⟨r, hr, ip, hip, _⟩ => hnone ⟨r, hr, ip, hip, trivial⟩
    simpa [hnone, hnot] using hdomestic'

/-! ## The loop keeps the agreement -/

/-- Every cached verdict is the one of the predicate. -/
def Agrees (cache : IpAddr → Option Bool) (isCn : IpAddr → Bool) : Prop :=
  ∀ ip v, cache ip = some v → v = isCn ip

theorem Agrees.lose {c : Caches} {isCn : IpAddr → Bool} (h : Agrees c.ipClass isCn)
    (lost : IpAddr → Bool) : Agrees (c.lose lost).ipClass isCn := by
  intro ip v hv
  change (if lost ip then none else c.ipClass ip) = some v at hv
  split at hv
  · cases hv
  · exact h ip v hv

theorem Agrees.put {cache : IpAddr → Option Bool} {isCn : IpAddr → Bool} (h : Agrees cache isCn)
    {ip : IpAddr} {v : Bool} (hv : v = isCn ip) : Agrees (PartialMap.put cache ip v) isCn := by
  intro ip' v' hv'
  rcases put_some hv' with ⟨rfl, rfl⟩ | ⟨-, hv'⟩
  · exact hv
  · exact h ip' v' hv'

variable {ipMatcher : Option (IpAddr → Bool)} {database : GeoDatabase}

/-- The caches are right about the predicate. -/
structure Right (ipMatcher : Option (IpAddr → Bool)) (database : GeoDatabase) (c : Caches) :
    Prop where
  same : c.geoip.database = database
  agrees : Agrees c.ipClass (isCn ipMatcher database)

/-- One address. -/
theorem scanIp_spec {c : Caches} (h : Right ipMatcher database c) (ip : IpAddr) :
    (scanIp ipMatcher c ip).1 = isCn ipMatcher database ip ∧
      Right ipMatcher database (scanIp ipMatcher c ip).2 := by
  unfold scanIp
  cases hcached : c.ipClass ip with
  | some cached => exact ⟨h.agrees ip cached hcached, h⟩
  | none =>
    by_cases hmatch : (ipMatcher.map (· ip)).getD false = true
    · have hcn : true = isCn ipMatcher database ip := by rw [isCn, hmatch, Bool.true_or]
      simp only [hmatch, if_true]
      exact ⟨hcn, h.same, h.agrees.put hcn⟩
    · have hcn : (c.geoip.isMatch ip).1 = isCn ipMatcher database ip := by
        rw [isCn, Bool.eq_false_iff.mpr hmatch, Bool.false_or, GeoIp.isMatch_verdict, h.same]
      rw [if_neg hmatch]
      exact ⟨hcn, (GeoIp.isMatch_database c.geoip ip).trans h.same, h.agrees.put hcn⟩

/-- **A section is scanned as without a cache**, whatever is lost on the way. -/
theorem scanSection_spec (lost : Nat → IpAddr → Bool) (rs : List Record) {c : Caches}
    (h : Right ipMatcher database c) (hasIp : Bool) :
    ∃ c', scanSection ipMatcher lost rs c hasIp =
        ((uncachedSection (isCn ipMatcher database) rs hasIp).1,
          (uncachedSection (isCn ipMatcher database) rs hasIp).2, c') ∧
      Right ipMatcher database c' := by
  induction rs generalizing c hasIp with
  | nil => exact ⟨c, rfl, h⟩
  | cons r rs ih =>
    unfold scanSection uncachedSection
    cases r.data.ip with
    | none => exact ih h hasIp
    | some ip =>
      obtain ⟨hverdict, hright⟩ :=
        scanIp_spec (c := c.lose (lost rs.length)) ⟨h.same, h.agrees.lose _⟩ ip
      rcases hscan : scanIp ipMatcher (c.lose (lost rs.length)) ip with ⟨cn, c'⟩
      rw [hscan] at hverdict hright
      cases cn with
      | true =>
        refine ⟨c', ?_, hright⟩
        simp only [hscan, if_pos hverdict.symm]
      | false =>
        simp only [hscan, if_neg (Bool.eq_false_iff.mp hverdict.symm)]
        exact ih hright true

/-! ## The function of the pipeline -/

/-- Nothing is lost, and the plugin asks this database. -/
theorem scanIp_eq (p : SmartForward) {c : Caches} (hgeoip : p.geoip = c.geoip.database.places)
    (ip : IpAddr) :
    (scanIp p.ipMatcher c ip).1 = (p.classifyIp c.ipClass ip).1 ∧
      (scanIp p.ipMatcher c ip).2.ipClass = (p.classifyIp c.ipClass ip).2 ∧
      p.geoip = (scanIp p.ipMatcher c ip).2.geoip.database.places := by
  unfold scanIp SmartForward.classifyIp
  cases c.ipClass ip with
  | some cached => exact ⟨rfl, rfl, hgeoip⟩
  | none =>
    cases hmatch : (p.ipMatcher.map (· ip)).getD false with
    | true => exact ⟨rfl, rfl, hgeoip⟩
    | false =>
      have hverdict : (c.geoip.isMatch ip).1 = p.geoip ip := by
        rw [GeoIp.isMatch_verdict, hgeoip]
      simp only [Bool.false_eq_true, if_false, Bool.false_or]
      refine ⟨hverdict, ?_, ?_⟩
      · show put c.ipClass ip (c.geoip.isMatch ip).1 = _
        rw [hverdict]
        rfl
      · rw [GeoIp.isMatch_database]
        exact hgeoip

theorem scanSection_eq (p : SmartForward) (rs : List Record) {c : Caches}
    (hgeoip : p.geoip = c.geoip.database.places) (hasIp : Bool) :
    ∃ c', scanSection p.ipMatcher (fun _ _ => false) rs c hasIp =
        ((p.classifySection rs c.ipClass hasIp).1, (p.classifySection rs c.ipClass hasIp).2.1, c') ∧
      c'.ipClass = (p.classifySection rs c.ipClass hasIp).2.2 ∧
      p.geoip = c'.geoip.database.places := by
  induction rs generalizing c hasIp with
  | nil => exact ⟨c, rfl, rfl, hgeoip⟩
  | cons r rs ih =>
    unfold scanSection SmartForward.classifySection
    cases r.data.ip with
    | none => exact ih hgeoip hasIp
    | some ip =>
      have hlose : c.lose (fun _ => false) = c := rfl
      obtain ⟨hverdict, hcache, hgeoip'⟩ := scanIp_eq p hgeoip ip
      rcases hscan : scanIp p.ipMatcher c ip with ⟨cn, c'⟩
      rcases hclass : p.classifyIp c.ipClass ip with ⟨cn', cache⟩
      rw [hscan, hclass] at hverdict
      rw [hscan] at hgeoip'
      rw [hscan, hclass] at hcache
      obtain rfl : cn = cn' := hverdict
      obtain rfl : c'.ipClass = cache := hcache
      cases cn with
      | true =>
        refine ⟨c', ?_, ?_, hgeoip'⟩
        · simp only [hlose, hscan, hclass]
        · simp only [hclass]
      | false =>
        simp only [hlose, hscan, hclass]
        exact ih hgeoip' true

/-- **Without losses it is the function of the pipeline**, from any cache. -/
theorem classify_eq (p : SmartForward) (resp : Message) {c : Caches}
    (hgeoip : p.geoip = c.geoip.database.places) :
    (classify p.ipMatcher (fun _ _ => false) (fun _ _ => false) resp c).1 =
      p.classifyResponse c.ipClass resp := by
  obtain ⟨c₁, hscan₁, hcache, hgeoip₁⟩ := scanSection_eq p resp.answers hgeoip false
  obtain ⟨c₂, hscan₂, -, -⟩ := scanSection_eq p resp.additionals hgeoip₁ false
  unfold classify SmartForward.classifyResponse
  rw [hscan₁]
  rcases hsection : p.classifySection resp.answers c.ipClass false with ⟨isCn, hasIp, cache⟩
  rw [hsection] at hcache
  obtain rfl : c₁.ipClass = cache := hcache
  cases hasIp with
  | true => rfl
  | false => simp only [hscan₂]

/-! ## The law -/

/-- **From a cache that agrees the answer is that of the scan without a cache, the cache agrees
afterwards, and the response is domestic exactly when an address that counts is.** -/
theorem classify_spec (ipMatcher : Option (IpAddr → Bool)) (lost lost' : Nat → IpAddr → Bool)
    (resp : Message) (c : Caches)
    (hagrees : Agrees c.ipClass (isCn ipMatcher c.geoip.database)) :
    let cn := isCn ipMatcher c.geoip.database
    (classify ipMatcher lost lost' resp c).1 = uncached cn resp ∧
      Agrees (classify ipMatcher lost lost' resp c).2.ipClass cn ∧
      ((classify ipMatcher lost lost' resp c).1.1 = true ↔
        HasIp resp.answers (cn · = true) ∨
          (¬ HasIp resp.answers fun _ => True) ∧ HasIp resp.additionals (cn · = true)) := by
  intro cn
  have hsame : (classify ipMatcher lost lost' resp c).1 = uncached cn resp ∧
      Agrees (classify ipMatcher lost lost' resp c).2.ipClass cn := by
    obtain ⟨c₁, hscan₁, hright₁⟩ :=
      scanSection_spec (c := c) lost resp.answers ⟨rfl, hagrees⟩ false
    obtain ⟨c₂, hscan₂, hright₂⟩ := scanSection_spec lost' resp.additionals hright₁ false
    unfold classify uncached
    rw [hscan₁]
    rcases huncached : uncachedSection (isCn ipMatcher c.geoip.database) resp.answers false with
      ⟨isCn, hasIp⟩
    cases hasIp with
    | true => exact ⟨rfl, hright₁.agrees⟩
    | false =>
      simp only [hscan₂]
      exact ⟨rfl, hright₂.agrees⟩
  rw [hsame.1]
  exact ⟨rfl, hsame.2, uncached_domestic cn resp⟩

/-- One address of the answers is cached as not CN, GeoIP places the next one in CN. -/
def mixed : Caches where
  ipClass := fun ip => if ip = .v4 ⟨192, 0, 2, 1⟩ then some false else none
  geoip :=
    { database := ⟨fun ip => if ip = .v4 ⟨192, 0, 2, 2⟩ then some "CN" else none, "cn"⟩
      ipCache := fun _ => none
      right := fun _ _ h => nomatch h }

def mixedResponse : Message where
  answers := [RData.a ⟨192, 0, 2, 1⟩, .a ⟨192, 0, 2, 2⟩, .a ⟨192, 0, 2, 3⟩].map
    (.fromRdata ⟨[], by decide, by decide⟩ 60)

theorem classify_spec_mixed :
    Agrees mixed.ipClass (isCn none mixed.geoip.database) ∧
      (classify none (fun _ _ => false) (fun _ _ => false) mixedResponse mixed).1.1 = true := by
  have hagrees : Agrees mixed.ipClass (isCn none mixed.geoip.database) := by
    intro ip v hv
    unfold mixed at hv
    simp only at hv
    split at hv
    · rename_i hip
      subst hip
      cases hv
      decide
    · cases hv
  refine ⟨hagrees, (classify_spec none _ _ mixedResponse mixed hagrees).2.2.mpr (.inl ?_)⟩
  exact ⟨_, List.mem_cons_of_mem _ List.mem_cons_self, .v4 ⟨192, 0, 2, 2⟩, rfl, by decide +kernel⟩

end TitanDns.Classification
