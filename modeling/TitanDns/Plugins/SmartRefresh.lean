import TitanDns.Lib.Cooldown
import TitanDns.Plugins.Cache

/-!
# Smart refresh

`SmartRefreshManager` scans the cache and asks again for what expires soon.  A scan takes the
entries one by one; at each of them the configuration and the clock are read anew, and the table of
recent refreshes outlives the scan.

* `remainingPercentage`, `shouldRefreshWithTtl` — when an entry expires soon.
* `triggerRefresh`, `scanEntry`, `scanAndRefresh` — the refresh of a triple, one entry, and a scan;
  `scanAndRefresh_stats` — **what a scan reports.**
* `step` — scans, and calls of `trigger_refresh` between them; `gate_run` — **a history is one run
  of a cooldown by name.**
* `CoversExpiring` — what is said of a history.
* `Unshadowed` — the condition: a name refreshed less than ten seconds ago was refreshed for the
  type and class of the entry.

Principal results: `coversExpiring_iff` — **the expiring entries are covered exactly in the
histories that meet the condition**; `coversExpiring_of_one_type` — among them are those in which
the clock does not go back and every name comes with one type and class.
-/

namespace TitanDns

open Run Cooldown

/-! ## When an entry expires soon -/

/-- `RefreshConfig`, as far as it decides what is refreshed. -/
structure RefreshConfig where
  ttlThreshold : Nat := 60
  ttlPercentage : UInt8 := 20

/-- `(remaining_ttl as f64 / original_ttl as f64 * 100.0) as u8`, of values of a `u64`. -/
def remainingPercentage (remainingTtl originalTtl : Nat) : UInt8 :=
  (UInt64.toFloat (.ofNat remainingTtl) / UInt64.toFloat (.ofNat originalTtl) * 100.0).toUInt8

/-- `should_refresh_with_ttl` -/
def RefreshConfig.shouldRefreshWithTtl (config : RefreshConfig) (remainingTtl originalTtl : Nat) :
    Bool :=
  if remainingTtl < config.ttlThreshold then true
  else if 0 < originalTtl then
    decide (remainingPercentage remainingTtl originalTtl < config.ttlPercentage)
  else false

-- 29 of 100 seconds are 28 percent: the quotient is rounded before the product
example : remainingPercentage 29 100 = 28 := by decide +kernel

/-! ## The manager -/

/-- What is asked for again. -/
structure RefreshKey where
  domain : String
  qtype : UInt16
  qclass : UInt16
  deriving DecidableEq

structure RefreshStats where
  scanned : Nat := 0
  refreshed : Nat := 0
  skipped : Nat := 0
  deriving DecidableEq

/-- `SmartRefreshManager`, with the history of the refreshes issued, the newest first. -/
structure SmartRefreshManager where
  refreshing : Table String Nat
  stats : RefreshStats
  issued : List (RefreshKey × Nat)

/-- An entry of the scan, the configuration that `should_refresh_with_ttl` reads for it, and what
`trigger_refresh` then reads from the clock. -/
structure Visit where
  entry : CachedEntry
  config : RefreshConfig
  clock : Nat

namespace SmartRefreshManager

def new : SmartRefreshManager := ⟨∅, {}, []⟩

/-- `trigger_refresh` -/
def triggerRefresh (m : SmartRefreshManager) (key : RefreshKey) (now : Nat) :
    SmartRefreshManager :=
  match m.refreshing.get key.domain with
  | some lastRefresh =>
    if now < lastRefresh + 10 then m
    else { m with refreshing := m.refreshing.put key.domain now, issued := (key, now) :: m.issued }
  | none =>
    { m with refreshing := m.refreshing.put key.domain now, issued := (key, now) :: m.issued }

/-- The scan under way. -/
structure Scan where
  manager : SmartRefreshManager
  stats : RefreshStats

variable (codec : Codec)

/-- One turn of the loop of `scan_and_refresh`. -/
def scanEntry (now : Nat) (s : Scan) (v : Visit) : Scan :=
  let stats := { s.stats with scanned := s.stats.scanned + 1 }
  let elapsed := now - v.entry.timestamp
  let remainingTtl := v.entry.ttl - elapsed
  match v.entry.message.query with
  | none => ⟨s.manager, { stats with skipped := stats.skipped + 1 }⟩
  | some query =>
    let key := ⟨codec.display query.name, query.qtype, query.qclass⟩
    if v.config.shouldRefreshWithTtl remainingTtl v.entry.ttl then
      ⟨s.manager.triggerRefresh key v.clock, { stats with refreshed := stats.refreshed + 1 }⟩
    else ⟨s.manager, { stats with skipped := stats.skipped + 1 }⟩

/-- `scan_and_refresh`, on the entries of the snapshot. -/
def scanAndRefresh (now : Nat) (m : SmartRefreshManager) (visits : List Visit) :
    SmartRefreshManager × RefreshStats :=
  let s := visits.foldl (scanEntry codec now) ⟨m, {}⟩
  ({ s.manager with stats := s.stats }, s.stats)

inductive Event where
  /-- A scan that reads `now` at its start. -/
  | scan (now : Nat) (visits : List Visit)
  /-- A call of `trigger_refresh` that reads `now`. -/
  | trigger (key : RefreshKey) (now : Nat)

def step (m : SmartRefreshManager) : Event → SmartRefreshManager
  | .scan now visits => (m.scanAndRefresh codec now visits).1
  | .trigger key now => m.triggerRefresh key now

end SmartRefreshManager

/-! ## What is said of a history -/

namespace Visit

/-- The question of the entry. -/
def key (codec : Codec) (v : Visit) : Option RefreshKey :=
  v.entry.message.query.map fun q => ⟨codec.display q.name, q.qtype, q.qclass⟩

/-- `should_refresh_with_ttl` holds for the entry in a scan that has read `now`. -/
def due (now : Nat) (v : Visit) : Bool :=
  v.config.shouldRefreshWithTtl (v.entry.ttl - (now - v.entry.timestamp)) v.entry.ttl

/-- The entry has a question and expires soon. -/
def expires (codec : Codec) (now : Nat) (v : Visit) : Bool := (v.key codec).isSome && v.due now

end Visit

namespace SmartRefreshManager

variable (codec : Codec)

/-- A refresh of the triple was issued within the ten seconds before `now`. -/
def RecentlyIssued (m : SmartRefreshManager) (key : RefreshKey) (now : Nat) : Prop :=
  ∃ r ∈ m.issued, r.1 = key ∧ r.2 ≤ now ∧ now < r.2 + 10

/-- An entry that expires soon gets a refresh for its triple, unless one was issued recently. -/
def EntryCovered (now : Nat) (s : Scan) (v : Visit) : Prop :=
  ∀ key, v.key codec = some key → v.due now = true →
    (scanEntry codec now s v).manager.issued = (key, v.clock) :: s.manager.issued ∨
      s.manager.RecentlyIssued key v.clock

/-- In a scan every entry is covered. -/
def Covers (m : SmartRefreshManager) : Event → Prop
  | .scan now visits => Meets (scanEntry codec now) (EntryCovered codec now) ⟨m, {}⟩ visits
  | .trigger _ _ => True

/-- In every scan of the history every entry is covered. -/
def CoversExpiring (es : List Event) : Prop := Meets (step codec) (Covers codec) new es

/-- If a refresh of the name was issued, for whatever type and class, that is not yet ten seconds
old, then a refresh of the triple was issued within the last ten seconds. -/
def Unshadowed (m : SmartRefreshManager) (key : RefreshKey) (now : Nat) : Prop :=
  (∃ r ∈ m.issued, r.1.domain = key.domain ∧ now < r.2 + 10) → m.RecentlyIssued key now

/-- No entry of the scan that expires soon is shadowed at its turn. -/
def ScanUnshadowed (m : SmartRefreshManager) : Event → Prop
  | .scan now visits =>
    Meets (scanEntry codec now)
      (fun s v => ∀ key, v.key codec = some key → v.due now = true →
        s.manager.Unshadowed key v.clock) ⟨m, {}⟩ visits
  | .trigger _ _ => True

/-! ## The counters -/

/-- **An entry is counted once**, as refreshed or as skipped. -/
theorem stats_scanEntry (now : Nat) (s : Scan) (v : Visit) :
    (scanEntry codec now s v).stats =
      if v.expires codec now then
        { s.stats with scanned := s.stats.scanned + 1, refreshed := s.stats.refreshed + 1 }
      else { s.stats with scanned := s.stats.scanned + 1, skipped := s.stats.skipped + 1 } := by
  unfold scanEntry Visit.expires Visit.key Visit.due
  cases v.entry.message.query with
  | none => rfl
  | some query =>
    simp only [Option.map_some, Option.isSome_some, Bool.true_and]
    split <;> rfl

theorem stats_scan (now : Nat) (s : Scan) (visits : List Visit) :
    (visits.foldl (scanEntry codec now) s).stats =
      ⟨s.stats.scanned + visits.length,
        s.stats.refreshed + visits.countP (Visit.expires codec now),
        s.stats.skipped + visits.countP fun v => !v.expires codec now⟩ := by
  induction visits generalizing s with
  | nil => rfl
  | cons v visits ih =>
    rw [List.foldl_cons, ih, stats_scanEntry]
    cases hexpires : v.expires codec now with
    | true =>
      rw [List.countP_cons_of_pos hexpires, List.countP_cons_of_neg (by rw [hexpires]; decide)]
      simp only [if_true, List.length_cons, RefreshStats.mk.injEq, and_true]
      omega
    | false =>
      rw [List.countP_cons_of_neg (by rw [hexpires]; decide),
        List.countP_cons_of_pos (by rw [hexpires]; rfl)]
      simp only [Bool.false_eq_true, if_false, List.length_cons, RefreshStats.mk.injEq, true_and]
      omega

/-- **What a scan reports**: the entries of the snapshot, those that expire soon, and the others. -/
theorem scanAndRefresh_stats (now : Nat) (m : SmartRefreshManager) (visits : List Visit) :
    (m.scanAndRefresh codec now visits).2 =
      ⟨visits.length, visits.countP (Visit.expires codec now),
        visits.countP fun v => !v.expires codec now⟩ := by
  show (visits.foldl (scanEntry codec now) ⟨m, {}⟩).stats = _
  rw [stats_scan]
  simp only [Nat.zero_add]

/-! ## The table as a cooldown -/

/-- The table with the history: a cooldown of ten seconds by name. -/
def gate (m : SmartRefreshManager) : Gate RefreshKey String := ⟨m.refreshing, m.issued⟩

/-- **A refresh passes the cooldown of its name.** -/
theorem gate_triggerRefresh (m : SmartRefreshManager) (key : RefreshKey) (now : Nat) :
    (m.triggerRefresh key now).gate = m.gate.offer RefreshKey.domain 10 (key, now) := by
  unfold triggerRefresh Gate.offer Gate.refuses gate
  cases m.refreshing.get key.domain with
  | none => rfl
  | some lastRefresh =>
    simp only [Option.any_some, decide_eq_true_eq]
    split <;> rfl

/-- What a turn of the scan asks for. -/
def asks (now : Nat) (v : Visit) : List (RefreshKey × Nat) :=
  if v.due now then ((v.key codec).map (·, v.clock)).toList else []

/-- The calls of `trigger_refresh` that an event makes. -/
def calls : Event → List (RefreshKey × Nat)
  | .scan now visits => visits.flatMap (asks codec now)
  | .trigger key now => [(key, now)]

theorem asks_of_due {now : Nat} {v : Visit} {key : RefreshKey} (hkey : v.key codec = some key)
    (hdue : v.due now = true) : asks codec now v = [(key, v.clock)] := by
  unfold asks
  rw [if_pos hdue, hkey]
  rfl

theorem gate_scanEntry (now : Nat) (s : Scan) (v : Visit) :
    (scanEntry codec now s v).manager.gate =
      run (Gate.offer RefreshKey.domain 10) s.manager.gate (asks codec now v) := by
  unfold scanEntry asks Visit.key Visit.due
  cases v.entry.message.query with
  | none => simp only [Option.map_none, Option.toList_none, ite_self, run_nil]
  | some query =>
    simp only [Option.map_some, Option.toList_some]
    split
    · exact gate_triggerRefresh _ _ _
    · rfl

theorem gate_scan (now : Nat) (s : Scan) (visits : List Visit) :
    (run (scanEntry codec now) s visits).manager.gate =
      run (Gate.offer RefreshKey.domain 10) s.manager.gate (visits.flatMap (asks codec now)) := by
  induction visits generalizing s with
  | nil => rfl
  | cons v visits ih => rw [run_cons, ih, gate_scanEntry, List.flatMap_cons, run_append]

theorem gate_step (m : SmartRefreshManager) (e : Event) :
    (m.step codec e).gate = run (Gate.offer RefreshKey.domain 10) m.gate (calls codec e) := by
  cases e with
  | scan now visits => exact gate_scan codec now ⟨m, {}⟩ visits
  | trigger key now => exact gate_triggerRefresh m key now

/-- **A history is one run of the cooldown.** -/
theorem gate_run (m : SmartRefreshManager) (es : List Event) :
    (run (step codec) m es).gate =
      run (Gate.offer RefreshKey.domain 10) m.gate (es.flatMap (calls codec)) := by
  induction es generalizing m with
  | nil => rfl
  | cons e es ih => rw [run_cons, ih, gate_step, List.flatMap_cons, run_append]

/-! ## Who is covered -/

/-- **An entry is covered exactly when it is not shadowed.** -/
theorem entryCovered_iff {now : Nat} {s : Scan} (hinv : s.manager.gate.Inv RefreshKey.domain)
    (v : Visit) :
    EntryCovered codec now s v ↔ ∀ key, v.key codec = some key → v.due now = true →
      s.manager.Unshadowed key v.clock := by
  refine forall_congr' fun key => forall_congr' fun hkey => forall_congr' fun hdue => ?_
  have hgate : (scanEntry codec now s v).manager.gate =
      s.manager.gate.offer RefreshKey.domain 10 (key, v.clock) := by
    rw [gate_scanEntry, asks_of_due codec hkey hdue, run_cons, run_nil]
  have hissued : (s.manager.gate.offer RefreshKey.domain 10 (key, v.clock)).passed =
      (key, v.clock) :: s.manager.gate.passed ↔
        ¬ s.manager.gate.Cooling RefreshKey.domain 10 key.domain v.clock :=
    Gate.passed_iff hinv (key, v.clock)
  rw [← hgate] at hissued
  show (scanEntry codec now s v).manager.gate.passed = (key, v.clock) :: s.manager.gate.passed ∨ _ ↔
    _
  rw [hissued, ← imp_iff_not_or]
  rfl

theorem covers_iff {m : SmartRefreshManager} (hinv : m.gate.Inv RefreshKey.domain) (e : Event) :
    m.Covers codec e ↔ m.ScanUnshadowed codec e := by
  cases e with
  | trigger key now => exact Iff.rfl
  | scan now visits =>
    have hkept : ∀ (s : Scan) v, s.manager.gate.Inv RefreshKey.domain →
        (scanEntry codec now s v).manager.gate.Inv RefreshKey.domain := by
      intro s v h
      rw [gate_scanEntry]
      exact Gate.run_inv h _
    exact Meets.congr_under hkept (fun s v h => entryCovered_iff codec h v) hinv visits

/-- **The expiring entries are covered exactly where no name shadows one of its types.** -/
theorem coversExpiring_iff (es : List Event) :
    CoversExpiring codec es ↔ Meets (step codec) (ScanUnshadowed codec) new es := by
  have hkept : ∀ (m : SmartRefreshManager) e, m.gate.Inv RefreshKey.domain →
      (m.step codec e).gate.Inv RefreshKey.domain := by
    intro m e h
    rw [gate_step]
    exact Gate.run_inv h _
  exact Meets.congr_under hkept (fun m e h => covers_iff codec h e) Gate.new_inv es

def dualStackName : Name := ⟨[[98], [111, 114, 103]], by decide, by decide⟩

def dualStackCodec : Codec := .ofTable [] [(dualStackName, "b.org.")]

/-- An entry for the name, of 60 seconds from the 100th second on, and its turn in the 150th. -/
def dualStackVisit (qtype : UInt16) : Visit :=
  ⟨⟨{ queries := [⟨dualStackName, qtype, CLASS_IN⟩] }, none, 100, 60⟩, {}, 150⟩

/-- The A and AAAA entries of a name expire together, and only the first one is refreshed. -/
theorem aaaa_not_refreshed : ¬ ∀ (codec : Codec) (es : List Event), CoversExpiring codec es := by
  intro h
  have hscan : new.Covers dualStackCodec
      (.scan 150 [dualStackVisit TYPE_A, dualStackVisit TYPE_AAAA]) := (h dualStackCodec [_]).1
  rcases hscan.2.1 ⟨"b.org.", TYPE_AAAA, CLASS_IN⟩ (by decide) (by decide) with hissued | hrecent
  · exact absurd hissued (by decide)
  · obtain ⟨r, hr, hkey, -⟩ := hrecent
    have hfirst : r = (⟨"b.org.", TYPE_A, CLASS_IN⟩, 150) := List.mem_singleton.mp hr
    rw [hfirst] at hkey
    exact absurd hkey (by decide)

/-! ## Names with one type and class -/

/-- What was issued before a turn of a scan was asked for before it. -/
theorem issued_before (before : List Event) (now : Nat) (visits : List Visit)
    {r : RefreshKey × Nat}
    (h : r ∈ (run (scanEntry codec now) ⟨run (step codec) new before, {}⟩ visits).manager.issued) :
    r ∈ before.flatMap (calls codec) ++ visits.flatMap (asks codec now) := by
  change r ∈ (run (scanEntry codec now) ⟨run (step codec) new before, {}⟩
    visits).manager.gate.passed at h
  rw [gate_scan, gate_run, ← run_append] at h
  exact Gate.mem_passed h

/-- **The expiring entries are covered in every history** in which the clock does not go back and
every name comes with one type and class. -/
theorem coversExpiring_of_one_type {es : List Event}
    (hclock : (es.flatMap (calls codec)).Pairwise fun a b => a.2 ≤ b.2)
    (htype : (es.flatMap (calls codec)).Pairwise fun a b => a.1.domain = b.1.domain → a.1 = b.1) :
    CoversExpiring codec es := by
  have hboth := hclock.and htype
  refine meets_of_cuts fun before e rest hes => ?_
  cases e with
  | trigger key now => trivial
  | scan now visits =>
    refine meets_of_cuts fun turns v others hvisits => ?_
    have hinv : (run (scanEntry codec now) ⟨run (step codec) new before, {}⟩
        turns).manager.gate.Inv RefreshKey.domain := by
      rw [gate_scan, gate_run]
      exact Gate.run_inv (Gate.run_inv Gate.new_inv _) _
    refine (entryCovered_iff codec hinv v).mpr fun key hkey hdue => ?_
    have hagree : ∀ r ∈ (run (scanEntry codec now) ⟨run (step codec) new before, {}⟩
        turns).manager.issued, r.1.domain = key.domain → v.clock < r.2 + 10 →
          r.1 = key ∧ r.2 ≤ v.clock := by
      intro r hr hname _
      -- the call of this turn comes after all those that were issued
      have hcalls : es.flatMap (calls codec) =
          (before.flatMap (calls codec) ++ turns.flatMap (asks codec now)) ++
            (key, v.clock) :: (others.flatMap (asks codec now) ++ rest.flatMap (calls codec)) := by
        rw [hes, hvisits]
        simp [calls, asks_of_due codec hkey hdue]
      rw [hcalls] at hboth
      obtain ⟨hle, hsame⟩ := (List.pairwise_append.mp hboth).2.2 r
        (issued_before codec before now turns hr) (key, v.clock) List.mem_cons_self
      exact ⟨hsame hname, hle⟩
    exact Gate.passed_recently (g := gate _) hagree

end SmartRefreshManager

end TitanDns
