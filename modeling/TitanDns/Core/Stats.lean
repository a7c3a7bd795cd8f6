import TitanDns.Lib.ShardedTable
import TitanDns.Lib.Ring
import TitanDns.Lib.Run

/-!
# Query statistics and the query log

`DnsStats::record_query`, run by any number of threads at once, and the ring buffer of
`query_log.rs`.

* `DnsStats`, `step` — each thread goes through `record_query` from one shared access to the next,
  in any interleaving.  `len` and `clear` of a `DashMap` go shard by shard, and the others come in
  between; a table that has grown too large is cleared by whoever sees it.
* `Sound` — the invariant: each table counts what was recorded since the key's shard was last
  cleared, and is over its limit by no more than the threads that are not through with its shards.
* `topTen` — the lists of `snapshot`, which goes shard by shard too.
* `QueryLog` — the log, whose capacity `init_query_log` may set at any time.

Principal results: `counts_exact` — **the counts are exact since the last clear, the tables stay
within their limits up to one entry for each thread under way, and the latencies are the newest
thousand**; `top_dominates` — no domain outside the top ten had a higher count than one inside when
their shards were read; `recent_logs_exact` — **the log shows the newest entries, newest first.**
-/

namespace TitanDns.Stats

open Run Tally Table ShardedTable

structure DnsStats where
  totalQueries : Nat
  latencySamples : List Nat
  /-- By shards. -/
  domainCounts : Nat → Table String Nat
  clientCounts : Nat → Table String Nat

def DnsStats.new : DnsStats := ⟨0, [], fun _ => ∅, fun _ => ∅⟩

/-- The shards of the two maps, each with a hasher of its own. -/
structure Setup where
  domains : Layout String
  clients : Layout String

/-- Where a thread stands in `record_query`: what it does next. -/
inductive Phase where
  | idle
  | countDomain (domain clientIp : String) (latencyUs : Nat)
  | countClient (clientIp : String) (latencyUs : Nat)
  | sample (latencyUs : Nat)
  /-- `domain_counts.len()`, before shard `i`; and so on. -/
  | lenDomains (i sum : Nat)
  | clearDomains (i : Nat)
  | lenClients (i sum : Nat)
  | clearClients (i : Nat)

def maxSamples : Nat := 1000
def maxDomains : Nat := 50000
def maxClients : Nat := 10000

structure State (C : Type) where
  stats : DnsStats
  thread : C → Phase
  /-- History: what was counted and not cleared since, and how much was cleared. -/
  domains : List String
  clearedDomains : Nat
  clients : List String
  clearedClients : Nat
  /-- History: every latency that was pushed. -/
  samples : List Nat

def State.init (C : Type) : State C where
  stats := .new
  thread _ := .idle
  domains := []
  clearedDomains := 0
  clients := []
  clearedClients := 0
  samples := []

inductive Event (C : Type) where
  /-- `record_query`, up to the count of all queries. -/
  | recordQuery (c : C) (domain clientIp : String) (latencyUs : Nat)
  /-- A thread goes on; `locked` if it gets the lock of the samples. -/
  | go (c : C) (locked : Bool)

variable {C : Type} [DecidableEq C] (setup : Setup)

def State.setThread (s : State C) (c : C) (p : Phase) : State C :=
  { s with thread := Function.update s.thread c p }

/-- A thread goes on. -/
def State.go (s : State C) (c : C) (locked : Bool) : State C :=
  match s.thread c with
  | .idle => s
  | .countDomain domain clientIp latencyUs =>
    { s with
      stats := { s.stats with domainCounts := setup.domains.countUp s.stats.domainCounts domain }
      domains := domain :: s.domains }.setThread c (.countClient clientIp latencyUs)
  | .countClient clientIp latencyUs =>
    { s with
      stats := { s.stats with clientCounts := setup.clients.countUp s.stats.clientCounts clientIp }
      clients := clientIp :: s.clients }.setThread c (.sample latencyUs)
  | .sample latencyUs =>
    if locked then
      { s with
        stats := { s.stats with
          latencySamples := Ring.push maxSamples s.stats.latencySamples latencyUs }
        samples := s.samples ++ [latencyUs] }.setThread c (.lenDomains 0 0)
    else s.setThread c (.lenDomains 0 0)
  | .lenDomains i sum =>
    if i < setup.domains.shards then
      s.setThread c (.lenDomains (i + 1) (sum + (s.stats.domainCounts i).size))
    else s.setThread c (if maxDomains < sum then .clearDomains 0 else .lenClients 0 0)
  | .clearDomains i =>
    if i < setup.domains.shards then
      { s with
        stats := { s.stats with domainCounts := Layout.clearShard s.stats.domainCounts i }
        domains := s.domains.filter fun d => setup.domains.of d ≠ i
        clearedDomains := s.clearedDomains + (s.domains.filter (setup.domains.of · = i)).length
        }.setThread c (.clearDomains (i + 1))
    else s.setThread c (.lenClients 0 0)
  | .lenClients i sum =>
    if i < setup.clients.shards then
      s.setThread c (.lenClients (i + 1) (sum + (s.stats.clientCounts i).size))
    else s.setThread c (if maxClients < sum then .clearClients 0 else .idle)
  | .clearClients i =>
    if i < setup.clients.shards then
      { s with
        stats := { s.stats with clientCounts := Layout.clearShard s.stats.clientCounts i }
        clients := s.clients.filter fun ip => setup.clients.of ip ≠ i
        clearedClients := s.clearedClients + (s.clients.filter (setup.clients.of · = i)).length
        }.setThread c (.clearClients (i + 1))
    else s.setThread c .idle

def step (s : State C) : Event C → State C
  | .recordQuery c domain clientIp latencyUs =>
    match s.thread c with
    | .idle =>
      { s with stats := { s.stats with totalQueries := s.stats.totalQueries + 1 } }.setThread c
        (.countDomain domain clientIp latencyUs)
    | _ => s
  | .go c locked => s.go setup c locked

/-- The state after the events `es`, taken in order from the start. -/
def after (es : List (Event C)) : State C := run (step setup) (.init C) es

/-! ## The invariant -/

/-- Counted as a query, and not by its domain. -/
def Phase.owesDomain : Phase → Nat
  | .countDomain _ _ _ => 1
  | _ => 0

/-- Counted as a query, and not by its client. -/
def Phase.owesClient : Phase → Nat
  | .countDomain _ _ _ | .countClient _ _ => 1
  | _ => 0

/-- How far a thread is with the table of domains. -/
def Phase.domainSweep : Phase → Sweep
  | .countClient _ _ | .sample _ => .owing
  | .lenDomains i sum => .walking i sum
  | .clearDomains i => .walking i 0
  | _ => .away

/-- The same for the clients. -/
def Phase.clientSweep : Phase → Sweep
  | .sample _ | .lenDomains _ _ | .clearDomains _ => .owing
  | .lenClients i sum => .walking i sum
  | .clearClients i => .walking i 0
  | _ => .away

variable [Fintype C]

structure Sound (s : State C) : Prop where
  domains : setup.domains.Counts s.stats.domainCounts s.domains
  clients : setup.clients.Counts s.stats.clientCounts s.clients
  domainTotal :
    s.domains.length + s.clearedDomains + tally Phase.owesDomain s.thread = s.stats.totalQueries
  clientTotal :
    s.clients.length + s.clearedClients + tally Phase.owesClient s.thread = s.stats.totalQueries
  domainSize : Within setup.domains maxDomains s.stats.domainCounts (Phase.domainSweep ∘ s.thread)
  clientSize : Within setup.clients maxClients s.stats.clientCounts (Phase.clientSweep ∘ s.thread)
  newest : s.stats.latencySamples <:+ s.samples
  samples : s.stats.latencySamples.length = min s.samples.length maxSamples

variable {setup} {s : State C}

omit [DecidableEq C] in
theorem sound_init : Sound setup (State.init C) where
  domains := .empty
  clients := .empty
  domainTotal := by simp [State.init, DnsStats.new, tally, Phase.owesDomain]
  clientTotal := by simp [State.init, DnsStats.new, tally, Phase.owesClient]
  domainSize := .empty
  clientSize := .empty
  newest := by simp [State.init, DnsStats.new]
  samples := by simp [State.init, DnsStats.new]

omit [DecidableEq C] [Fintype C] in
theorem sweep_at {c : C} {q : Phase} (hphase : s.thread c = q) (g : Phase → Sweep) :
    (g ∘ s.thread) c = g q := by
  rw [Function.comp_apply, hphase]

/-- One thread moves, and the tables move by the difference of what it owes them. -/
theorem Sound.move {s' : State C} (h : Sound setup s) {c : C} {q p : Phase}
    (hphase : s.thread c = q) (hthread : s'.thread = Function.update s.thread c p)
    (hdomains : setup.domains.Counts s'.stats.domainCounts s'.domains)
    (hclients : setup.clients.Counts s'.stats.clientCounts s'.clients)
    (hdomainTotal : s'.domains.length + s'.clearedDomains + p.owesDomain + s.stats.totalQueries =
      s.domains.length + s.clearedDomains + q.owesDomain + s'.stats.totalQueries)
    (hclientTotal : s'.clients.length + s'.clearedClients + p.owesClient + s.stats.totalQueries =
      s.clients.length + s.clearedClients + q.owesClient + s'.stats.totalQueries)
    (hdomainSize : Within setup.domains maxDomains s'.stats.domainCounts
      (Function.update (Phase.domainSweep ∘ s.thread) c p.domainSweep))
    (hclientSize : Within setup.clients maxClients s'.stats.clientCounts
      (Function.update (Phase.clientSweep ∘ s.thread) c p.clientSweep))
    (hnewest : s'.stats.latencySamples <:+ s'.samples)
    (hsamples : s'.stats.latencySamples.length = min s'.samples.length maxSamples) :
    Sound setup s' := by
  subst hphase
  have hsums : ∀ g : Phase → Nat,
      tally g s'.thread + g (s.thread c) = tally g s.thread + g p := by
    intro g
    rw [hthread]
    exact tally_update g s.thread c p
  refine ⟨hdomains, hclients, ?_, ?_, ?_, ?_, hnewest, hsamples⟩
  · have hsum := hsums Phase.owesDomain
    have htotal := h.domainTotal
    omega
  · have hsum := hsums Phase.owesClient
    have htotal := h.clientTotal
    omega
  · rw [hthread, Function.comp_update]
    exact hdomainSize
  · rw [hthread, Function.comp_update]
    exact hclientSize

/-- A thread that only goes on, where it owes the totals nothing. -/
theorem Sound.pass (h : Sound setup s) {c : C} {q p : Phase} (hphase : s.thread c = q)
    (hdomain : p.owesDomain = q.owesDomain) (hclient : p.owesClient = q.owesClient)
    (hdomainSize : Within setup.domains maxDomains s.stats.domainCounts
      (Function.update (Phase.domainSweep ∘ s.thread) c p.domainSweep))
    (hclientSize : Within setup.clients maxClients s.stats.clientCounts
      (Function.update (Phase.clientSweep ∘ s.thread) c p.clientSweep)) :
    Sound setup (s.setThread c p) := by
  refine h.move hphase rfl h.domains h.clients ?_ ?_ hdomainSize hclientSize h.newest h.samples
  · simp [State.setThread, hdomain]
  · simp [State.setThread, hclient]

theorem Sound.recordQuery (h : Sound setup s) {c : C} (hphase : s.thread c = .idle)
    (domain clientIp : String) (latencyUs : Nat) :
    Sound setup ({ s with
      stats := { s.stats with totalQueries := s.stats.totalQueries + 1 } }.setThread c
        (.countDomain domain clientIp latencyUs)) := by
  refine h.move hphase rfl h.domains h.clients ?_ ?_ (h.domainSize.same (sweep_at hphase _))
    (h.clientSize.same (sweep_at hphase _)) h.newest h.samples
  · simp only [State.setThread, Phase.owesDomain]
    omega
  · simp only [State.setThread, Phase.owesClient]
    omega

/-- `domain_counts.len()` and the decision after it. -/
theorem Sound.lenDomains (h : Sound setup s) {c : C} {i sum : Nat}
    (hphase : s.thread c = .lenDomains i sum) :
    Sound setup (if i < setup.domains.shards then
      s.setThread c (.lenDomains (i + 1) (sum + (s.stats.domainCounts i).size))
    else s.setThread c (if maxDomains < sum then .clearDomains 0 else .lenClients 0 0)) := by
  have hwalk : (Phase.domainSweep ∘ s.thread) c = .walking i sum := sweep_at hphase _
  have howing : (Phase.clientSweep ∘ s.thread) c = .owing := sweep_at hphase _
  split
  · rename_i hi
    exact h.pass hphase rfl rfl (h.domainSize.look hwalk hi) (h.clientSize.same howing)
  · rename_i hi
    split
    · exact h.pass hphase rfl rfl (h.domainSize.begin (hwalk ▸ Sweep.noConfusion))
        (h.clientSize.same howing)
    · exact h.pass hphase rfl rfl (h.domainSize.leave hwalk (by omega) (by omega))
        (h.clientSize.begin (howing ▸ Sweep.noConfusion))

/-- `client_counts.len()` and the decision after it. -/
theorem Sound.lenClients (h : Sound setup s) {c : C} {i sum : Nat}
    (hphase : s.thread c = .lenClients i sum) :
    Sound setup (if i < setup.clients.shards then
      s.setThread c (.lenClients (i + 1) (sum + (s.stats.clientCounts i).size))
    else s.setThread c (if maxClients < sum then .clearClients 0 else .idle)) := by
  have hwalk : (Phase.clientSweep ∘ s.thread) c = .walking i sum := sweep_at hphase _
  have haway : (Phase.domainSweep ∘ s.thread) c = .away := sweep_at hphase _
  split
  · rename_i hi
    exact h.pass hphase rfl rfl (h.domainSize.same haway) (h.clientSize.look hwalk hi)
  · rename_i hi
    split
    · exact h.pass hphase rfl rfl (h.domainSize.same haway)
        (h.clientSize.begin (hwalk ▸ Sweep.noConfusion))
    · exact h.pass hphase rfl rfl (h.domainSize.same haway)
        (h.clientSize.leave hwalk (by omega) (by omega))

/-- What is cleared is counted as cleared. -/
theorem length_filter_shard (l : List String) (of : String → Nat) (i : Nat) :
    (l.filter fun k => of k ≠ i).length + (l.filter (of · = i)).length = l.length := by
  have hsplit := List.length_eq_length_filter_add (l := l) fun k => decide (of k = i)
  have hneg : (l.filter fun k => of k ≠ i) = l.filter fun k => !decide (of k = i) := by
    refine List.filter_congr fun k _ => ?_
    simp
  rw [hneg]
  omega

theorem Sound.go (h : Sound setup s) (c : C) (locked : Bool) :
    Sound setup (s.go setup c locked) := by
  unfold State.go
  split
  · exact h
  · rename_i domain clientIp latencyUs hphase
    refine h.move hphase rfl (h.domains.countUp domain) h.clients ?_ ?_
      (h.domainSize.countUp (sweep_at hphase _) domain) (h.clientSize.same (sweep_at hphase _))
      h.newest h.samples
    · simp only [State.setThread, Phase.owesDomain, List.length_cons]
      omega
    · simp only [State.setThread, Phase.owesClient]
  · rename_i clientIp latencyUs hphase
    refine h.move hphase rfl h.domains (h.clients.countUp clientIp) ?_ ?_
      (h.domainSize.same (sweep_at hphase _)) (h.clientSize.countUp (sweep_at hphase _) clientIp)
      h.newest h.samples
    · simp only [State.setThread, Phase.owesDomain]
    · simp only [State.setThread, Phase.owesClient, List.length_cons]
      omega
  · rename_i latencyUs hphase
    have howing : (Phase.domainSweep ∘ s.thread) c = .owing := sweep_at hphase _
    have hpass : Sound setup (s.setThread c (.lenDomains 0 0)) :=
      h.pass hphase rfl rfl (h.domainSize.begin (howing ▸ Sweep.noConfusion))
        (h.clientSize.same (sweep_at hphase _))
    split
    · -- the samples are nobody else's business
      refine ⟨hpass.domains, hpass.clients, hpass.domainTotal, hpass.clientTotal,
        hpass.domainSize, hpass.clientSize, Ring.push_suffix h.newest, ?_⟩
      have hcap : max 1 maxSamples = maxSamples := rfl
      have hlen : (Ring.push maxSamples s.stats.latencySamples latencyUs).length =
          min (s.samples.length + 1) (max 1 maxSamples) := Ring.push_length_min h.samples
      rw [hcap] at hlen
      simpa [State.setThread] using hlen
    · exact hpass
  · rename_i i sum hphase
    exact h.lenDomains hphase
  · rename_i i hphase
    have hwalk : (Phase.domainSweep ∘ s.thread) c = .walking i 0 := sweep_at hphase _
    have howing : (Phase.clientSweep ∘ s.thread) c = .owing := sweep_at hphase _
    split
    · rename_i hi
      have hlen := length_filter_shard s.domains setup.domains.of i
      refine h.move hphase rfl (h.domains.clearShard i) h.clients ?_ ?_
        (h.domainSize.clear hwalk hi) (h.clientSize.same howing) h.newest h.samples
      · simp only [State.setThread, Phase.owesDomain]
        omega
      · simp only [State.setThread, Phase.owesClient]
    · exact h.pass hphase rfl rfl (h.domainSize.leave hwalk (by omega) (Nat.zero_le _))
        (h.clientSize.begin (howing ▸ Sweep.noConfusion))
  · rename_i i sum hphase
    exact h.lenClients hphase
  · rename_i i hphase
    have hwalk : (Phase.clientSweep ∘ s.thread) c = .walking i 0 := sweep_at hphase _
    have haway : (Phase.domainSweep ∘ s.thread) c = .away := sweep_at hphase _
    split
    · rename_i hi
      have hlen := length_filter_shard s.clients setup.clients.of i
      refine h.move hphase rfl h.domains (h.clients.clearShard i) ?_ ?_
        (h.domainSize.same haway) (h.clientSize.clear hwalk hi) h.newest h.samples
      · simp only [State.setThread, Phase.owesDomain]
      · simp only [State.setThread, Phase.owesClient]
        omega
    · exact h.pass hphase rfl rfl (h.domainSize.same haway)
        (h.clientSize.leave hwalk (by omega) (Nat.zero_le _))

theorem sound_after (es : List (Event C)) : Sound setup (after setup es) := by
  have hstep : ∀ (s : State C) (e : Event C), Sound setup s → Sound setup (step setup s e) := by
    intro s e h
    cases e with
    | recordQuery c domain clientIp latencyUs =>
      simp only [step]
      split
      · rename_i hphase
        exact h.recordQuery hphase domain clientIp latencyUs
      · exact h
    | go c locked => exact h.go c locked
  exact invariant_run hstep sound_init es

/-- Has counted a domain, and is not through with the shards since. -/
def Phase.unchecked (p : Phase) : Nat := p.domainSweep.owes

/-- The same for the clients. -/
def Phase.uncheckedClient (p : Phase) : Nat := p.clientSweep.owes

variable (setup)

/-- **The counts are exact since the key's shard was last cleared, and the tables stay within their
limits** up to one entry for each thread that has counted and is not through with the shards; with
no thread under way every query is counted in both tables or was cleared from them, and the limits
hold as they are. -/
theorem counts_exact (es : List (Event C)) :
    setup.domains.Counts (after setup es).stats.domainCounts (after setup es).domains ∧
      setup.clients.Counts (after setup es).stats.clientCounts (after setup es).clients ∧
      setup.domains.size (after setup es).stats.domainCounts ≤
        maxDomains + tally Phase.unchecked (after setup es).thread ∧
      setup.clients.size (after setup es).stats.clientCounts ≤
        maxClients + tally Phase.uncheckedClient (after setup es).thread ∧
      (after setup es).stats.latencySamples =
        (after setup es).samples.drop ((after setup es).samples.length - maxSamples) ∧
      ((∀ c, (after setup es).thread c = .idle) →
        (after setup es).domains.length + (after setup es).clearedDomains =
            (after setup es).stats.totalQueries ∧
          (after setup es).clients.length + (after setup es).clearedClients =
            (after setup es).stats.totalQueries ∧
          setup.domains.size (after setup es).stats.domainCounts ≤ maxDomains ∧
          setup.clients.size (after setup es).stats.clientCounts ≤ maxClients) := by
  have h : Sound setup (after setup es) := sound_after es
  generalize after setup es = s at h ⊢
  have hdomainSize : setup.domains.size s.stats.domainCounts ≤
      maxDomains + tally Phase.unchecked s.thread := h.domainSize.size_le
  have hclientSize : setup.clients.size s.stats.clientCounts ≤
      maxClients + tally Phase.uncheckedClient s.thread := h.clientSize.size_le
  refine ⟨h.domains, h.clients, hdomainSize, hclientSize, ?_, fun hidle => ?_⟩
  · have hdrop := List.suffix_iff_eq_drop.mp h.newest
    have hlen : s.samples.length - s.stats.latencySamples.length =
        s.samples.length - maxSamples := by
      have hsamples := h.samples
      omega
    rw [hlen] at hdrop
    exact hdrop
  · have hzero : ∀ g : Phase → Nat, g .idle = 0 → tally g s.thread = 0 := fun g hg =>
      tally_eq_zero fun c => by rw [hidle c, hg]
    have htotal := h.domainTotal
    have htotal' := h.clientTotal
    rw [hzero _ rfl] at htotal htotal' hdomainSize hclientSize
    omega

/-! ## The snapshot -/

/-- `domains.sort_by(|a, b| b.1.cmp(&a.1)); domains.truncate(10)`, and the same for the clients;
the entries come in any order. -/
def topTen (entries : List (String × Nat)) : List (String × Nat) :=
  (entries.mergeSort fun a b => b.2 ≤ a.2).take 10

/-- The entries of all shards, in some order. -/
def Iterates (layout : Layout String) (entries : List (String × Nat))
    (t : Nat → Table String Nat) : Prop :=
  entries.Perm ((List.range layout.shards).flatMap fun i => (t i).entries.map fun e => (e.1, e.2))

instance (layout : Layout String) (entries : List (String × Nat)) (t : Nat → Table String Nat) :
    Decidable (Iterates layout entries t) := inferInstanceAs (Decidable (List.Perm _ _))

/-- Every shard counts a list of its own: what there was when it was read. -/
def CountsEach (layout : Layout String) (t : Nat → Table String Nat) (l : Nat → List String) :
    Prop :=
  ∀ i, (t i).Counts ((l i).filter (layout.of · = i))

/-- A list of the keys with the highest counts. -/
structure Dominates (top : List (String × Nat)) (size : Nat) (count : String → Nat) : Prop where
  length : top.length = min 10 size
  distinct : (top.map Prod.fst).Nodup
  falling : top.Pairwise fun a b => b.2 ≤ a.2
  exact : ∀ e ∈ top, 0 < e.2 ∧ e.2 = count e.1
  largest : ∀ k, (∀ n, (k, n) ∉ top) → ∀ e ∈ top, count k ≤ e.2

theorem mem_shard {t : Table String Nat} {k : String} {n : Nat} :
    (k, n) ∈ t.entries.map (fun e => (e.1, e.2)) ↔ t.get k = some n := by
  rw [← mem_entries]
  constructor
  · intro hmem
    obtain ⟨e, he, heq⟩ := List.mem_map.mp hmem
    cases heq
    exact he
  · exact fun hmem => List.mem_map.mpr ⟨_, hmem, rfl⟩

/-- The sorted list does not rise. -/
theorem pairwise_sorted (entries : List (String × Nat)) :
    (entries.mergeSort fun a b => decide (b.2 ≤ a.2)).Pairwise fun a b => b.2 ≤ a.2 := by
  have hsorted : (entries.mergeSort fun a b => decide (b.2 ≤ a.2)).Pairwise
      fun a b => decide (b.2 ≤ a.2) = true := List.pairwise_mergeSort
    (fun a b c hab hbc => by simp only [decide_eq_true_eq] at *; omega)
    (fun a b => by simp only [Bool.or_eq_true, decide_eq_true_eq]; omega) entries
  exact hsorted.imp fun hle => by simpa using hle

section
variable {layout : Layout String} {t : Nat → Table String Nat} {l : Nat → List String}
  {entries : List (String × Nat)}

theorem mem_iterates (h : Iterates layout entries t) (hcounts : CountsEach layout t l)
    {k : String} {n : Nat} :
    (k, n) ∈ entries ↔ k ∈ l (layout.of k) ∧ n = (l (layout.of k)).count k := by
  rw [h.mem_iff, List.mem_flatMap]
  constructor
  · rintro ⟨i, -, hmem⟩
    have hget := mem_shard.mp hmem
    rw [Layout.get_of_counts (hcounts i)] at hget
    split at hget
    · rename_i hin
      obtain ⟨hin, rfl⟩ := hin
      exact ⟨hin, (Option.some.inj hget).symm⟩
    · cases hget
  · rintro ⟨hin, rfl⟩
    refine ⟨layout.of k, List.mem_range.mpr (layout.of_lt k), mem_shard.mpr ?_⟩
    rw [Layout.get_of_counts (hcounts _), if_pos ⟨hin, rfl⟩]

/-- No key comes twice. -/
theorem nodup_iterates (h : Iterates layout entries t) (hcounts : CountsEach layout t l) :
    (entries.map Prod.fst).Nodup := by
  have hkeys : ((List.range layout.shards).flatMap fun i => (t i).entries.map fun e =>
      (e.1, e.2)).map Prod.fst = (List.range layout.shards).flatMap fun i => (t i).keys := by
    rw [List.map_flatMap]
    congr 1
    funext i
    simp [AList.keys, List.keys]
  rw [(h.map Prod.fst).nodup_iff, hkeys, List.nodup_flatMap]
  have hhome : ∀ i k, k ∈ (t i).keys → layout.of k = i := by
    intro i k hk
    obtain ⟨n, hn⟩ := Option.isSome_iff_exists.mp (AList.lookup_isSome.mpr hk)
    have hget := Layout.get_of_counts (hcounts i) k
    rw [show (t i).get k = some n from hn] at hget
    split at hget
    · rename_i hin
      exact hin.2
    · cases hget
  refine ⟨fun i _ => (t i).keys_nodup, ?_⟩
  refine List.nodup_range.imp fun {i j} hne => ?_
  exact fun k hi hj => hne ((hhome i k hi).symm.trans (hhome j k hj))

/-- **The ten highest counts**, whatever the order of the entries. -/
theorem topTen_dominates (h : Iterates layout entries t) (hcounts : CountsEach layout t l) :
    Dominates (topTen entries) (layout.size t) fun k => (l (layout.of k)).count k := by
  have hperm := List.mergeSort_perm entries fun a b => decide (b.2 ≤ a.2)
  have hsorted := pairwise_sorted entries
  have hmem : ∀ e, e ∈ topTen entries → e ∈ entries := fun e he =>
    hperm.mem_iff.mp (List.mem_of_mem_take he)
  refine ⟨?_, ?_, hsorted.sublist (List.take_sublist _ _), fun e he => ?_, fun k hout e he => ?_⟩
  · have hlen := h.length_eq
    have hsize : ((List.range layout.shards).flatMap fun i => (t i).entries.map fun e =>
        (e.1, e.2)).length = layout.size t := by
      simp only [List.length_flatMap, List.length_map, ← size_eq_length]
      rw [Layout.size, Layout.sizeFrom, ← Finset.range_eq_Ico]
      rfl
    simp only [topTen, List.length_take, List.length_mergeSort]
    omega
  · have hnodup := (hperm.map Prod.fst).nodup_iff.mpr (nodup_iterates h hcounts)
    exact hnodup.sublist ((List.take_sublist _ _).map Prod.fst)
  · obtain ⟨hin, hn⟩ := (mem_iterates h hcounts).mp (hmem e he)
    exact ⟨hn ▸ List.count_pos_iff.mpr hin, hn⟩
  · by_cases hin : k ∈ l (layout.of k)
    · have hlisted := hperm.mem_iff.mpr ((mem_iterates h hcounts).mpr ⟨hin, rfl⟩)
      have hsplit := List.take_append_drop 10 (entries.mergeSort fun a b => decide (b.2 ≤ a.2))
      rw [← hsplit] at hlisted hsorted
      rcases List.mem_append.mp hlisted with hlisted | hlisted
      · exact absurd hlisted (hout _)
      · exact (List.pairwise_append.mp hsorted).2.2 e he _ hlisted
    · rw [List.count_eq_zero.mpr hin]
      omega

end

/-- **The top lists of a snapshot**, which reads the shards one after the other while queries are
recorded, shard `i` after the events `es i`: the keys with the highest counts, each with the count
it had when its shard was read. -/
theorem top_dominates (es : Nat → List (Event C)) (domains clients : List (String × Nat))
    (hdomains : Iterates setup.domains domains
      fun i => (after setup (es i)).stats.domainCounts i)
    (hclients : Iterates setup.clients clients
      fun i => (after setup (es i)).stats.clientCounts i) :
    Dominates (topTen domains)
        (setup.domains.size fun i => (after setup (es i)).stats.domainCounts i)
        (fun k => (after setup (es (setup.domains.of k))).domains.count k) ∧
      Dominates (topTen clients)
        (setup.clients.size fun i => (after setup (es i)).stats.clientCounts i)
        fun k => (after setup (es (setup.clients.of k))).clients.count k :=
  ⟨topTen_dominates hdomains fun i => (sound_after (es i)).domains i,
    topTen_dominates hclients fun i => (sound_after (es i)).clients i⟩

/-- Two shards, by the first letter. -/
def letters : Layout String := ⟨2, fun k => k.front.toNat % 2, fun _ => Nat.mod_lt _ (by decide)⟩

/-- The first `n` of thirteen threads count: twelve domains, the last thread one of them again. -/
def counted (n : Nat) : List (Event (Fin 13)) :=
  (((List.finRange 13).zip ["a.", "b.", "c.", "d.", "e.", "f.", "g.", "h.", "i.", "j.", "k.", "l.",
    "k."]).take n).flatMap fun e =>
      [.recordQuery e.1 e.2 "192.0.2.1" 5, .go e.1 true, .go e.1 true]

/-- What a snapshot finds that reads the first shard before the last thread has counted, and the
second one after it. -/
def twelve : List (String × Nat) :=
  [("l.", 1), ("j.", 1), ("h.", 1), ("f.", 1), ("d.", 1), ("b.", 1),
    ("k.", 2), ("i.", 1), ("g.", 1), ("e.", 1), ("c.", 1), ("a.", 1)]

/-- Two domains are left out, and the one that was counted twice leads. -/
theorem top_dominates_twelve :
    topTen twelve = [("k.", 2), ("l.", 1), ("j.", 1), ("h.", 1), ("f.", 1), ("d.", 1), ("b.", 1),
        ("i.", 1), ("g.", 1), ("e.", 1)] ∧
      Dominates (topTen twelve) 12 fun k =>
        (after ⟨letters, letters⟩ (counted (12 + letters.of k))).domains.count k := by
  refine ⟨by simp [topTen, twelve, List.mergeSort], ?_⟩
  have h := top_dominates ⟨letters, letters⟩ (fun i => counted (12 + i)) twelve [("192.0.2.1", 13)]
    (by decide +kernel) (by decide +kernel)
  have hsize : letters.size (fun i =>
      (after ⟨letters, letters⟩ (counted (12 + i))).stats.domainCounts i) = 12 := by decide +kernel
  rw [← hsize]
  exact h.1

/-! ## The query log -/

structure QueryLogEntry where
  timestamp : String
  clientIp : String
  domain : String
  qtype : String
  strategy : String
  upstream : Option String
  latencyMs : Nat
  rcode : String

structure QueryLog where
  maxLogSize : Nat
  logEnabled : Bool
  buffer : List QueryLogEntry
  /-- The requests that wait for the lock, with the capacity they have read. -/
  waiting : List (QueryLogEntry × Nat)
  /-- History: the requests that found the log enabled, and those that got the lock, in turn. -/
  accepted : List QueryLogEntry
  appended : List (QueryLogEntry × Nat)

def QueryLog.new : QueryLog := ⟨5000, true, [], [], [], []⟩

inductive LogEvent where
  /-- `init_query_log` -/
  | init (enabled : Bool) (maxSize : Nat)
  /-- `log_request`, up to the lock. -/
  | request (entry : QueryLogEntry)
  /-- The lock goes to one of those who wait. -/
  | lock (i : Nat)

def QueryLog.step (log : QueryLog) : LogEvent → QueryLog
  | .init enabled maxSize => { log with logEnabled := enabled, maxLogSize := maxSize }
  | .request entry =>
    if log.logEnabled then
      { log with
        waiting := log.waiting ++ [(entry, log.maxLogSize)]
        accepted := log.accepted ++ [entry] }
    else log
  | .lock i =>
    match log.waiting[i]? with
    | some (entry, maxSize) =>
      { log with
        buffer := Ring.push maxSize log.buffer entry
        waiting := log.waiting.eraseIdx i
        appended := log.appended ++ [(entry, maxSize)] }
    | none => log

/-- The log after the events `es`, taken in order from the start. -/
def logAfter (es : List LogEvent) : QueryLog := run QueryLog.step .new es

/-- `get_recent_logs` -/
def QueryLog.getRecentLogs (log : QueryLog) (limit : Nat) : List QueryLogEntry :=
  if log.logEnabled then log.buffer.reverse.take limit else []

/-- The buffer is what the requests made of it, and every request is appended once. -/
structure QueryLog.Sound (log : QueryLog) : Prop where
  buffer : log.buffer = Ring.pushes log.appended
  once : (log.appended ++ log.waiting).map Prod.fst |>.Perm log.accepted

theorem QueryLog.Sound.step {log : QueryLog} (h : log.Sound) (e : LogEvent) :
    (log.step e).Sound := by
  cases e with
  | init enabled maxSize => exact ⟨h.buffer, h.once⟩
  | request entry =>
    simp only [QueryLog.step]
    split
    · refine ⟨h.buffer, ?_⟩
      have hmore := h.once.append_right [entry]
      simpa using hmore
    · exact h
  | lock i =>
    simp only [QueryLog.step]
    split
    · rename_i entry maxSize hi
      refine ⟨by simp [h.buffer], ?_⟩
      have hlt : i < log.waiting.length := (List.getElem?_eq_some_iff.mp hi).1
      have hget : log.waiting[i] = (entry, maxSize) := (List.getElem?_eq_some_iff.mp hi).2
      have hone : log.waiting.Perm ((entry, maxSize) :: log.waiting.eraseIdx i) := by
        rw [← hget]
        exact (List.getElem_cons_eraseIdx_perm hlt).symm
      have hall : (log.appended ++ log.waiting).Perm
          (log.appended ++ [(entry, maxSize)] ++ log.waiting.eraseIdx i) := by
        rw [List.append_assoc]
        exact hone.append_left log.appended
      exact (hall.map Prod.fst).symm.trans h.once
    · exact h

theorem QueryLog.sound_run (es : List LogEvent) : (logAfter es).Sound := by
  have hstep : ∀ (log : QueryLog) (e : LogEvent), log.Sound → (log.step e).Sound :=
    fun log e h => h.step e
  exact invariant_run hstep ⟨rfl, by simp [QueryLog.new]⟩ es

/-- **The log shows the newest entries, newest first**, and each request once, whatever the order in
which the lock is given and however the capacity is changed on the way: no more entries are kept
than the largest capacity that was met, and as many as fit into the smallest. -/
theorem recent_logs_exact (es : List LogEvent) (limit : Nat) :
    (∃ kept,
      (logAfter es).getRecentLogs limit = (if (logAfter es).logEnabled then
        ((logAfter es).appended.map Prod.fst).reverse.take (min limit kept) else []) ∧
      (∀ largest, (∀ e ∈ (logAfter es).appended, e.2 ≤ largest) → kept ≤ max 1 largest) ∧
      ∀ smallest, (∀ e ∈ (logAfter es).appended, smallest ≤ e.2) →
        min (logAfter es).appended.length (max 1 smallest) ≤ kept) ∧
      (((logAfter es).appended ++ (logAfter es).waiting).map Prod.fst).Perm
        (logAfter es).accepted := by
  have h := QueryLog.sound_run es
  generalize logAfter es = log at h ⊢
  refine ⟨⟨log.buffer.length, ?_, fun largest hall => ?_, fun smallest hall => ?_⟩, h.once⟩
  · have hsuffix := Ring.pushes_suffix log.appended
    rw [← h.buffer] at hsuffix
    rw [QueryLog.getRecentLogs, Ring.take_reverse hsuffix]
  · rw [h.buffer]
    exact Ring.pushes_length_le hall
  · rw [h.buffer]
    exact Ring.le_pushes_length hall

end TitanDns.Stats
