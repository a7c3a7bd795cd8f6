import TitanDns.Autopilot.HotDomains
import TitanDns.Autopilot.MemoryBounds

/-!
# The state file of the autopilot

The two memories and the hot domains are written to a file every five minutes and at the end, and
read at the start.  An entry is written with its age in whole seconds, and dated back by it.

* `DomainMemorySnapshot`, `DomainStatsSnapshot`, `AutopilotSnapshot` — what is written.
* `SnapshotCodec` — the serializer: what it prints it parses, but for the order of the maps.
* `Restored` — an entry and what becomes of it.

Principal result: `restart_restores` — **after a restart every entry is there with its upstream, its
latency and its counts, its age goes on from whole seconds as if there had been no time between, and
it has the same time left**; the start fails only if an age is longer than the clock can go back.
-/

namespace TitanDns.Autopilot

open Table

structure DomainMemorySnapshot where
  bestUpstream : String
  avgLatency : Nat
  successCount : UInt32
  ageSecs : Nat

structure DomainStatsSnapshot where
  accessCount : Nat
  hourlyCounts : Fin 24 → Nat
  ageSecs : Nat

structure AutopilotSnapshot where
  domainMemory : Table String DomainMemorySnapshot
  clientDomainMemory : Table String DomainMemorySnapshot
  hotDomains : Table String DomainStatsSnapshot

/-- The same entries in every map. -/
def AutopilotSnapshot.Same (a b : AutopilotSnapshot) : Prop :=
  (∀ k, a.domainMemory.get k = b.domainMemory.get k) ∧
    (∀ k, a.clientDomainMemory.get k = b.clientDomainMemory.get k) ∧
    ∀ k, a.hotDomains.get k = b.hotDomains.get k

/-- `serde_json`: `to_string_pretty` and `from_str`. -/
structure SnapshotCodec (Text : Type) where
  print : AutopilotSnapshot → Text
  parse : Text → Option AutopilotSnapshot
  parse_print : ∀ snapshot, ∃ snapshot', parse (print snapshot) = some snapshot' ∧
    snapshot'.Same snapshot

variable {Text : Type}

/-- `Instant::now() - Duration::from_secs(secs)`, which may lie before the boot: it panics where
the clock has no such instant. -/
def Instant.datedBack (now : Instant) (secs : Nat) : Except Fault Instant :=
  if h : -HORIZON ≤ now.nanos - (secs * SECOND : Nat) then
    .ok ⟨now.nanos - (secs * SECOND : Nat), h, Int.lt_of_le_of_lt (by omega) now.latest⟩
  else .error .overflow

/-- `elapsed().as_secs()` -/
def Instant.ageSecs (now : Instant) (earlier : Int) : Nat :=
  (now.nanos - earlier).toNat / SECOND

def DomainMemory.toSnapshot (m : DomainMemory) (now : Instant) : DomainMemorySnapshot :=
  ⟨m.bestUpstream, m.avgLatency, m.successCount, now.ageSecs m.lastUpdate.nanos⟩

def DomainMemory.fromSnapshot (snapshot : DomainMemorySnapshot) (now : Instant) :
    Except Fault DomainMemory := do
  let lastUpdate ← now.datedBack snapshot.ageSecs
  return ⟨snapshot.bestUpstream, snapshot.avgLatency, snapshot.successCount, lastUpdate⟩

def DomainStats.toSnapshot (stats : DomainStats) (now : Instant) : DomainStatsSnapshot :=
  ⟨stats.accessCount, stats.hourlyCounts, now.ageSecs stats.lastAccess⟩

def DomainStats.fromSnapshot (domain : String) (snapshot : DomainStatsSnapshot) (now : Instant) :
    Except Fault DomainStats := do
  let lastAccess ← now.datedBack snapshot.ageSecs
  return ⟨domain, snapshot.accessCount, snapshot.hourlyCounts, lastAccess.nanos⟩

/-- What is kept in the file. -/
structure Remembered where
  domains : MemoryTable
  clients : MemoryTable
  hot : HotTable

/-- The times at which a pass looks at the entries of each table. -/
structure PassClock where
  domains : String → Instant
  clients : String → Instant
  hot : String → Instant

/-- `build_autopilot_snapshot` -/
def buildAutopilotSnapshot (s : Remembered) (clock : PassClock) : AutopilotSnapshot where
  domainMemory := s.domains.mapValues fun k m => m.toSnapshot (clock.domains k)
  clientDomainMemory := s.clients.mapValues fun k m => m.toSnapshot (clock.clients k)
  hotDomains := s.hot.mapValues fun k stats => stats.toSnapshot (clock.hot k)

/-- `apply_autopilot_snapshot`: the tables are cleared first. -/
def applyAutopilotSnapshot (snapshot : AutopilotSnapshot) (clock : PassClock) :
    Except Fault Remembered := do
  let domains ← collectM (fun k e => DomainMemory.fromSnapshot e (clock.domains k))
    snapshot.domainMemory.entries ∅
  let clients ← collectM (fun k e => DomainMemory.fromSnapshot e (clock.clients k))
    snapshot.clientDomainMemory.entries ∅
  let hot ← collectM (fun k e => DomainStats.fromSnapshot k e (clock.hot k))
    snapshot.hotDomains.entries ∅
  return ⟨domains, clients, hot⟩

/-- `save_autopilot_snapshot`: what the file contains then. -/
def saveAutopilotSnapshot (codec : SnapshotCodec Text) (s : Remembered) (clock : PassClock) :
    Text :=
  codec.print (buildAutopilotSnapshot s clock)

/-- `start_autopilot`, with what `read_to_string` returns; without a readable snapshot the tables
stay as they are. -/
def startAutopilot (codec : SnapshotCodec Text) (s : Remembered) (content : Option Text)
    (clock : PassClock) : Except Fault Remembered :=
  match content.bind codec.parse with
  | some snapshot => applyAutopilotSnapshot snapshot clock
  | none => .ok s

/-! ## Entries -/

/-- An entry that was last touched at `touched` and written at `saved`, dated `restored` at
`loaded`: its age goes on from its whole seconds. -/
def AgeGoesOn (touched : Int) (saved : Instant) (restored : Int) (loaded : Instant) : Prop :=
  ∀ now, now - restored = now - loaded.nanos + (saved.ageSecs touched * SECOND : Nat)

/-- The age that an entry was written with is longer than the clock goes back at the start. -/
def TooOld (touched : Int) (saved loaded : Instant) : Prop :=
  HORIZON + loaded.nanos < (saved.ageSecs touched * SECOND : Nat)

/-- What becomes of an entry of a memory. -/
structure Restored (m : DomainMemory) (saved : Instant) (r : DomainMemory) (loaded : Instant) :
    Prop where
  bestUpstream : r.bestUpstream = m.bestUpstream
  avgLatency : r.avgLatency = m.avgLatency
  successCount : r.successCount = m.successCount
  age : AgeGoesOn m.lastUpdate.nanos saved r.lastUpdate.nanos loaded
  /-- It has as many seconds left as it had. -/
  remaining : ∀ boost, r.remainingTtl boost loaded = m.remainingTtl boost saved
  /-- It is expired if it was, but for the fraction of a second that its age lost. -/
  expired : ∀ boost, r.lifetime boost ≠ saved.ageSecs m.lastUpdate.nanos →
    r.isExpired boost loaded = m.isExpired boost saved

/-- What becomes of a hot domain. -/
structure RestoredStats (domain : String) (stats : DomainStats) (saved : Instant) (r : DomainStats)
    (loaded : Instant) : Prop where
  domain : r.domain = domain
  accessCount : r.accessCount = stats.accessCount
  hourlyCounts : r.hourlyCounts = stats.hourlyCounts
  age : AgeGoesOn stats.lastAccess saved r.lastAccess loaded

theorem datedBack_cases (now : Instant) (secs : Nat) :
    (∃ r, now.datedBack secs = .ok r ∧ r.nanos + (secs * SECOND : Nat) = now.nanos) ∨
      now.datedBack secs = .error .overflow ∧ HORIZON + now.nanos < (secs * SECOND : Nat) := by
  unfold Instant.datedBack
  split
  · exact .inl ⟨_, rfl, by simp⟩
  · exact .inr ⟨rfl, by omega⟩

/-- Whole units that are not the limit are beyond it exactly when the age is. -/
theorem limit_lt_floor {limit age unit : Nat} (hunit : 0 < unit) (hne : limit ≠ age / unit) :
    limit * unit < age / unit * unit ↔ limit * unit < age := by
  constructor
  · intro hlt
    exact Nat.lt_of_lt_of_le hlt (Nat.div_mul_le_self age unit)
  · intro hlt
    have hle : limit ≤ age / unit := (Nat.le_div_iff_mul_le hunit).mpr (Nat.le_of_lt hlt)
    exact Nat.mul_lt_mul_of_pos_right (Nat.lt_of_le_of_ne hle hne) hunit

theorem since_secs (now earlier : Instant) :
    now.since earlier / SECOND = now.ageSecs earlier.nanos := rfl

theorem ageGoesOn {touched : Int} {saved loaded date : Instant}
    (h : date.nanos + (saved.ageSecs touched * SECOND : Nat) = loaded.nanos) :
    AgeGoesOn touched saved date.nanos loaded := by
  unfold AgeGoesOn
  generalize saved.ageSecs touched * SECOND = back at h ⊢
  intro now
  omega

theorem Restored.redated (m : DomainMemory) {saved loaded date : Instant}
    (h : date.nanos + (saved.ageSecs m.lastUpdate.nanos * SECOND : Nat) = loaded.nanos) :
    Restored m saved { m with lastUpdate := date } loaded := by
  have hage := ageGoesOn h
  have hsince : loaded.since date = saved.ageSecs m.lastUpdate.nanos * SECOND := by
    rw [Instant.since, hage loaded.nanos, Int.sub_self, Int.zero_add, Int.toNat_natCast]
  have hlife : ∀ boost, ({ m with lastUpdate := date } : DomainMemory).lifetime boost =
      m.lifetime boost := fun _ => rfl
  refine ⟨rfl, rfl, rfl, hage, fun boost => ?_, fun boost hne => ?_⟩
  · rw [DomainMemory.remainingTtl_eq, DomainMemory.remainingTtl_eq, hlife, hsince,
      Nat.mul_div_cancel _ second_pos, since_secs]
  · rw [hlife] at hne
    rw [DomainMemory.isExpired_eq, DomainMemory.isExpired_eq, hlife, hsince, ← since_secs]
    rw [← since_secs] at hne
    exact congrArg _ (decide_eq_decide.mpr (limit_lt_floor second_pos hne))

/-- A memory that is read back. -/
theorem memory_readBack {m r : DomainMemory} {saved loaded : Instant}
    (h : DomainMemory.fromSnapshot (m.toSnapshot saved) loaded = .ok r) :
    Restored m saved r loaded := by
  unfold DomainMemory.fromSnapshot DomainMemory.toSnapshot at h
  rcases datedBack_cases loaded (saved.ageSecs m.lastUpdate.nanos) with
    ⟨date, hdate, hback⟩ | ⟨hdate, -⟩
  · rw [hdate] at h
    cases h
    exact Restored.redated m hback
  · rw [hdate] at h
    cases h

theorem memory_lost {m : DomainMemory} {saved loaded : Instant} {fault : Fault}
    (h : DomainMemory.fromSnapshot (m.toSnapshot saved) loaded = .error fault) :
    TooOld m.lastUpdate.nanos saved loaded := by
  unfold DomainMemory.fromSnapshot DomainMemory.toSnapshot at h
  rcases datedBack_cases loaded (saved.ageSecs m.lastUpdate.nanos) with
    ⟨date, hdate, -⟩ | ⟨-, hold⟩
  · rw [hdate] at h
    cases h
  · exact hold

theorem stats_readBack {domain : String} {stats r : DomainStats} {saved loaded : Instant}
    (h : DomainStats.fromSnapshot domain (stats.toSnapshot saved) loaded = .ok r) :
    RestoredStats domain stats saved r loaded := by
  unfold DomainStats.fromSnapshot DomainStats.toSnapshot at h
  rcases datedBack_cases loaded (saved.ageSecs stats.lastAccess) with
    ⟨date, hdate, hback⟩ | ⟨hdate, -⟩
  · rw [hdate] at h
    cases h
    exact ⟨rfl, rfl, rfl, ageGoesOn hback⟩
  · rw [hdate] at h
    cases h

theorem stats_lost {domain : String} {stats : DomainStats} {saved loaded : Instant} {fault : Fault}
    (h : DomainStats.fromSnapshot domain (stats.toSnapshot saved) loaded = .error fault) :
    TooOld stats.lastAccess saved loaded := by
  unfold DomainStats.fromSnapshot DomainStats.toSnapshot at h
  rcases datedBack_cases loaded (saved.ageSecs stats.lastAccess) with
    ⟨date, hdate, -⟩ | ⟨-, hold⟩
  · rw [hdate] at h
    cases h
  · exact hold

/-! ## Restarts -/

/-- An entry that is too old to be dated back. -/
def SomeTooOld {V : Type} (touched : V → Int) (t : Table String V)
    (saved loaded : String → Instant) : Prop :=
  ∃ k v, t.get k = some v ∧ TooOld (touched v) (saved k) (loaded k)

/-- What the three tables are after a restart. -/
structure Restarted (s : Remembered) (saved : PassClock) (s' : Remembered) (loaded : PassClock) :
    Prop where
  domains : ∀ k, Option.Rel (fun m r => Restored m (saved.domains k) r (loaded.domains k))
    (s.domains.get k) (s'.domains.get k)
  clients : ∀ k, Option.Rel (fun m r => Restored m (saved.clients k) r (loaded.clients k))
    (s.clients.get k) (s'.clients.get k)
  hot : ∀ k, Option.Rel (fun stats r => RestoredStats k stats (saved.hot k) r (loaded.hot k))
    (s.hot.get k) (s'.hot.get k)

section Tables

variable {saved loaded : String → Instant}

theorem memories_readBack {t : MemoryTable} {written : Table String DomainMemorySnapshot}
    (hwritten : ∀ k, written.get k = (t.mapValues fun k m => m.toSnapshot (saved k)).get k) :
    (∀ t', collectM (fun k e => DomainMemory.fromSnapshot e (loaded k)) written.entries ∅ = .ok t' →
        ∀ k, Option.Rel (fun m r => Restored m (saved k) r (loaded k)) (t.get k) (t'.get k)) ∧
      ∀ fault, collectM (fun k e => DomainMemory.fromSnapshot e (loaded k)) written.entries ∅ =
        .error fault → SomeTooOld (·.lastUpdate.nanos) t saved loaded :=
  collectM_roundTrip hwritten (fun _ _ _ h => memory_readBack h) fun _ _ _ h => memory_lost h

theorem hot_readBack {t : HotTable} {written : Table String DomainStatsSnapshot}
    (hwritten : ∀ k,
      written.get k = (t.mapValues fun k stats => stats.toSnapshot (saved k)).get k) :
    (∀ t', collectM (fun k e => DomainStats.fromSnapshot k e (loaded k)) written.entries ∅ =
        .ok t' →
        ∀ k, Option.Rel (fun stats r => RestoredStats k stats (saved k) r (loaded k)) (t.get k)
          (t'.get k)) ∧
      ∀ fault, collectM (fun k e => DomainStats.fromSnapshot k e (loaded k)) written.entries ∅ =
        .error fault → SomeTooOld (·.lastAccess) t saved loaded :=
  collectM_roundTrip hwritten (fun _ _ _ h => stats_readBack h) fun _ _ _ h => stats_lost h

end Tables

/-- **After a restart every table has the entries it had, restored, and no others**, whatever it had
at the start; the start fails only over an entry that is too old. -/
theorem restart_restores (codec : SnapshotCodec Text) (s fresh : Remembered)
    (saved loaded : PassClock) :
    match startAutopilot codec fresh (some (saveAutopilotSnapshot codec s saved)) loaded with
    | .ok s' => Restarted s saved s' loaded
    | .error _ =>
      SomeTooOld (·.lastUpdate.nanos) s.domains saved.domains loaded.domains ∨
        SomeTooOld (·.lastUpdate.nanos) s.clients saved.clients loaded.clients ∨
        SomeTooOld (·.lastAccess) s.hot saved.hot loaded.hot := by
  obtain ⟨snapshot, hparse, hdomains, hclients, hhot⟩ :=
    codec.parse_print (buildAutopilotSnapshot s saved)
  have hstart : startAutopilot codec fresh (some (saveAutopilotSnapshot codec s saved)) loaded =
      applyAutopilotSnapshot snapshot loaded := by
    simp [startAutopilot, saveAutopilotSnapshot, hparse]
  rw [hstart]
  unfold applyAutopilotSnapshot
  cases hd : collectM (fun k e => DomainMemory.fromSnapshot e (loaded.domains k))
      snapshot.domainMemory.entries ∅ with
  | error fault => exact .inl ((memories_readBack hdomains).2 fault hd)
  | ok domains =>
    cases hc : collectM (fun k e => DomainMemory.fromSnapshot e (loaded.clients k))
        snapshot.clientDomainMemory.entries ∅ with
    | error fault => exact .inr (.inl ((memories_readBack hclients).2 fault hc))
    | ok clients =>
      cases hh : collectM (fun k e => DomainStats.fromSnapshot k e (loaded.hot k))
          snapshot.hotDomains.entries ∅ with
      | error fault => exact .inr (.inr ((hot_readBack hhot).2 fault hh))
      | ok hot =>
        exact ⟨(memories_readBack hdomains).1 domains hd, (memories_readBack hclients).1 clients hc,
          (hot_readBack hhot).1 hot hh⟩

/-- After a boot no entry is too old that was touched after the boot before. -/
theorem no_tooOld {V : Type} {touched : V → Int} {t : Table String V}
    {saved loaded : String → Instant} (hbooted : ∀ k, 0 ≤ (loaded k).nanos)
    (htouched : ∀ e ∈ t.entries, 0 ≤ touched e.2) :
    ¬SomeTooOld touched t saved loaded := by
  rintro ⟨k, v, hget, hold⟩
  have hlater : 0 ≤ touched v := htouched _ (mem_entries.mpr hget)
  have hlatest := (saved k).latest
  have hstart := hbooted k
  have hpos : 0 < HORIZON := by decide
  have hfloor := Nat.div_mul_le_self ((saved k).nanos - touched v).toNat SECOND
  unfold TooOld Instant.ageSecs at hold
  generalize ((saved k).nanos - touched v).toNat / SECOND * SECOND = age at hfloor hold
  omega

/-- The entries in the opposite order. -/
def turned {V : Type} (t : Table String V) : Table String V :=
  ⟨t.entries.reverse, (List.perm_nodupKeys (List.reverse_perm _)).mpr t.nodupKeys⟩

theorem get_turned {V : Type} (t : Table String V) (k : String) : (turned t).get k = t.get k :=
  AList.perm_lookup (List.reverse_perm _)

/-- A serializer that reads the maps in the opposite order. -/
def turning : SnapshotCodec AutopilotSnapshot where
  print := id
  parse snapshot := some ⟨turned snapshot.domainMemory, turned snapshot.clientDomainMemory,
    turned snapshot.hotDomains⟩
  parse_print _ := ⟨_, rfl, get_turned _, get_turned _, get_turned _⟩

/-- So many seconds after the boot. -/
def uptime (secs : Fin 1000000) : Instant :=
  ⟨secs * SECOND, by unfold HORIZON SECOND; omega, by unfold HORIZON SECOND; omega⟩

def allAt (now : Instant) : PassClock := ⟨fun _ => now, fun _ => now, fun _ => now⟩

/-- Two domains, the first of which one client has asked for. -/
def twoDomains : Remembered where
  domains := ((∅ : MemoryTable).put "a" (.new (uptime 1000) "9.9.9.9" 20)).put "b"
    (.new (uptime 700000) "8.8.8.8" 30)
  clients := (∅ : MemoryTable).put "a@192.0" (.new (uptime 1000) "9.9.9.9" 20)
  hot := (∅ : HotTable).put "a" ((DomainStats.new "a" 0).recordAccess 7 (1000 * SECOND))

theorem restart_restores_reboot :
    ∃ s', startAutopilot turning ⟨∅, ∅, ∅⟩
        (some (saveAutopilotSnapshot turning twoDomains (allAt (uptime 800000))))
        (allAt (uptime 5)) = .ok s' ∧
      Restarted twoDomains (allAt (uptime 800000)) s' (allAt (uptime 5)) := by
  have h := restart_restores turning twoDomains ⟨∅, ∅, ∅⟩ (allAt (uptime 800000))
    (allAt (uptime 5))
  split at h
  · rename_i s' hs'
    exact ⟨s', hs', h⟩
  · have hbooted : ∀ _ : String, 0 ≤ (uptime 5).nanos := fun _ => by decide
    rcases h with h | h | h
    · exact absurd h (no_tooOld hbooted (by decide))
    · exact absurd h (no_tooOld hbooted (by decide))
    · exact absurd h (no_tooOld hbooted (by decide))

end TitanDns.Autopilot
