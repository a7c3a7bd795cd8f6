import TitanDns.Autopilot.Registry

/-!
# Detection of blocked UDP

After each round of probes the health loop counts how many checks in a row found every UDP upstream
unhealthy, and raises a flag at the third.

* `checkUdpBlocking` — the check; its counter is a `u32` that wraps.
* `Watch`, `step` — registrations, outcomes and checks in any order.
* `RowCounted` — the invariant: the counter is the length of the latest row of bad checks, and a
  registry that has had a UDP upstream keeps one, so that no flag is left behind.

Principal result: `udp_blocked_iff` — **the flag is up exactly when the last three checks found
every UDP upstream unhealthy, and at least one registered.**
-/

namespace TitanDns.Autopilot

open Run UpstreamMetrics AutoPilot

/-- The upstreams a check counts. -/
def udpUpstreams (a : AutoPilot) : List UpstreamMetrics :=
  a.upstreams.filter fun m => startsWithText m.label "udp://"

/-- There is a UDP upstream, and all of them are unhealthy. -/
def allUdpDown (a : AutoPilot) : Bool :=
  let udpTotal := (udpUpstreams a).length
  let udpUnhealthy := ((udpUpstreams a).filter fun m => !m.healthy).length
  decide (0 < udpTotal ∧ udpUnhealthy = udpTotal)

/-- `check_udp_blocking`: the counter and `UDP_BLOCKED` after it. -/
def checkUdpBlocking (a : AutoPilot) (counter : Nat) (blocked : Bool) : Nat × Bool :=
  let udpTotal := (udpUpstreams a).length
  let udpUnhealthy := ((udpUpstreams a).filter fun m => !m.healthy).length
  if 0 < udpTotal ∧ udpUnhealthy = udpTotal then
    let counter := (counter + 1) % 2 ^ 32
    (counter, if 3 ≤ counter then true else blocked)
  else (0, if 0 < counter ∧ udpUnhealthy < udpTotal then false else blocked)

/-- A UDP upstream is registered. -/
def HasUdp (a : AutoPilot) : Prop := ∃ m ∈ a.upstreams, startsWithText m.label "udp://" = true

theorem allUdpDown_iff (a : AutoPilot) :
    allUdpDown a = true ↔ HasUdp a ∧
      ∀ m ∈ a.upstreams, startsWithText m.label "udp://" = true → m.healthy = false := by
  have hall : ((udpUpstreams a).filter fun m => !m.healthy).length = (udpUpstreams a).length ↔
      ∀ m ∈ udpUpstreams a, (!m.healthy) = true := List.length_filter_eq_length_iff
  have hpos : 0 < (udpUpstreams a).length ↔ HasUdp a := by
    rw [List.length_pos_iff_exists_mem]
    simp [udpUpstreams, HasUdp]
  simp only [allUdpDown, decide_eq_true_eq, hall, hpos]
  simp [udpUpstreams]

/-! ## The health loop -/

structure Watch where
  autopilot : AutoPilot
  udpBlockCounter : Nat
  udpBlocked : Bool
  /-- History: what the checks found, the latest first. -/
  verdicts : List Bool

def Watch.init : Watch := ⟨.empty, 0, false, []⟩

inductive WatchEvent where
  | register (now : Nat) (label : String)
  | record (now : Nat) (label : String) (latency : Option Nat)
  | check

def Watch.step (s : Watch) : WatchEvent → Watch
  | .register now label => { s with autopilot := s.autopilot.register now label }
  | .record now label latency => { s with autopilot := s.autopilot.record now label latency }
  | .check =>
    let r := checkUdpBlocking s.autopilot s.udpBlockCounter s.udpBlocked
    { s with
      udpBlockCounter := r.1
      udpBlocked := r.2
      verdicts := allUdpDown s.autopilot :: s.verdicts }

/-- The state after the events `es`, taken in order from the start. -/
def watched (es : List WatchEvent) : Watch := run Watch.step .init es

/-- How many of the latest checks in a row were bad. -/
def row (verdicts : List Bool) : Nat := (verdicts.takeWhile id).length

structure RowCounted (s : Watch) : Prop where
  counter : s.udpBlockCounter = row s.verdicts
  flag : s.udpBlocked = true ↔ 3 ≤ row s.verdicts
  known : 0 < row s.verdicts → HasUdp s.autopilot

theorem row_le (verdicts : List Bool) : row verdicts ≤ verdicts.length :=
  (List.takeWhile_prefix id).length_le

/-- What is registered stays. -/
theorem HasUdp.register {a : AutoPilot} (h : HasUdp a) (now : Nat) (label : String) :
    HasUdp (a.register now label) := by
  obtain ⟨m, hm, hudp⟩ := h
  refine ⟨m, ?_, hudp⟩
  unfold AutoPilot.register
  split
  · exact hm
  · exact List.mem_append_left _ hm

theorem HasUdp.record {a : AutoPilot} (h : HasUdp a) (now : Nat) (label : String)
    (latency : Option Nat) : HasUdp (a.record now label latency) := by
  obtain ⟨m, hm, hudp⟩ := h
  exact ⟨_, List.mem_map_of_mem hm, by rw [recordIn_label]; exact hudp⟩

theorem RowCounted.check {s : Watch} (h : RowCounted s) (hfew : s.verdicts.length < 2 ^ 32 - 1) :
    RowCounted (s.step .check) := by
  have hrow := row_le s.verdicts
  have hcounter := h.counter
  cases hdown : allUdpDown s.autopilot with
  | true =>
    have hcond := hdown
    simp only [allUdpDown, decide_eq_true_eq] at hcond
    have hnext : row (true :: s.verdicts) = row s.verdicts + 1 := by simp [row]
    have hnowrap : (s.udpBlockCounter + 1) % 2 ^ 32 = row s.verdicts + 1 := by
      rw [hcounter, Nat.mod_eq_of_lt (by omega)]
    refine ⟨?_, ?_, fun _ => ?_⟩
    · simp only [Watch.step, checkUdpBlocking, hdown, hcond, and_self, if_true, hnowrap, hnext]
    · have hflag := h.flag
      simp only [Watch.step, checkUdpBlocking, hdown, hcond, and_self, if_true, hnowrap, hnext]
      split
      · simpa using ‹3 ≤ row s.verdicts + 1›
      · rw [hflag]
        omega
    · exact ((allUdpDown_iff _).mp hdown).1
  | false =>
    have hcond : ¬ (0 < (udpUpstreams s.autopilot).length ∧
        ((udpUpstreams s.autopilot).filter fun m => !m.healthy).length =
          (udpUpstreams s.autopilot).length) := by
      simpa only [allUdpDown, decide_eq_false_iff_not] using hdown
    have hnext : row (false :: s.verdicts) = 0 := by simp [row]
    refine ⟨?_, ?_, fun hpos => ?_⟩
    · simp only [Watch.step, checkUdpBlocking, hdown, hcond, if_false, hnext]
    · simp only [Watch.step, checkUdpBlocking, hdown, hcond, if_false, hnext]
      by_cases hpos : 0 < s.udpBlockCounter
      · -- a bad check found a UDP upstream, and the registry only grows
        rw [hcounter] at hpos
        have hudp : 0 < (udpUpstreams s.autopilot).length := by
          obtain ⟨m, hm, hlabel⟩ := h.known hpos
          exact List.length_pos_of_mem (List.mem_filter.mpr ⟨hm, hlabel⟩)
        have hle : ((udpUpstreams s.autopilot).filter fun m => !m.healthy).length ≤
            (udpUpstreams s.autopilot).length := List.length_filter_le _ _
        have hlt : ((udpUpstreams s.autopilot).filter fun m => !m.healthy).length <
            (udpUpstreams s.autopilot).length := by omega
        simp [hcounter, hpos, hlt]
      · have hflag := h.flag
        simp only [hpos, false_and, if_false, hflag]
        omega
    · simp only [Watch.step, hdown, hnext] at hpos
      omega

theorem RowCounted.step {s : Watch} (h : RowCounted s) (e : WatchEvent)
    (hfew : s.verdicts.length < 2 ^ 32 - 1) : RowCounted (s.step e) := by
  cases e with
  | register now label => exact ⟨h.counter, h.flag, fun hpos => (h.known hpos).register now label⟩
  | record now label latency =>
    exact ⟨h.counter, h.flag, fun hpos => (h.known hpos).record now label latency⟩
  | check => exact h.check hfew

theorem verdicts_length (s : Watch) (es : List WatchEvent) :
    (run Watch.step s es).verdicts.length ≤ s.verdicts.length + es.length := by
  induction es generalizing s with
  | nil => simp
  | cons e es ih =>
    have hrest := ih (s.step e)
    have hone : (s.step e).verdicts.length ≤ s.verdicts.length + 1 := by
      cases e <;> simp [Watch.step]
    simp only [run_cons, List.length_cons]
    omega

theorem rowCounted_run (es : List WatchEvent) (hfew : es.length < 2 ^ 32) :
    RowCounted (watched es) := by
  induction es using List.reverseRecOn with
  | nil => exact ⟨rfl, by simp [watched, Watch.init, row], by simp [watched, Watch.init, row]⟩
  | append_singleton es e ih =>
    have hlen : es.length + 1 < 2 ^ 32 := by simpa using hfew
    have hverdicts : (watched es).verdicts.length ≤ 0 + es.length := verdicts_length .init es
    have hshort : (watched es).verdicts.length < 2 ^ 32 - 1 := by omega
    have hstep := (ih (by omega)).step e hshort
    rw [watched, run_append]
    exact hstep

theorem row_three (verdicts : List Bool) :
    3 ≤ row verdicts ↔ verdicts.take 3 = [true, true, true] := by
  unfold row
  match verdicts with
  | [] => simp
  | [a] => cases a <;> simp
  | [a, b] => cases a <;> cases b <;> simp
  | a :: b :: c :: rest => cases a <;> cases b <;> cases c <;> simp

/-- **The flag is up exactly when the last three checks found every UDP upstream unhealthy**, over
every run of fewer than 2³² events. -/
theorem udp_blocked_iff (es : List WatchEvent) (hfew : es.length < 2 ^ 32) :
    (watched es).udpBlocked = true ↔ (watched es).verdicts.take 3 = [true, true, true] := by
  rw [(rowCounted_run es hfew).flag]
  exact row_three _

/-- One upstream that fails three times, and three checks. -/
theorem udp_blocked_after_three :
    (watched ([.register 0 "udp://192.0.2.1:53", .record 1 "udp://192.0.2.1:53" none,
      .record 2 "udp://192.0.2.1:53" none, .record 3 "udp://192.0.2.1:53" none, .check, .check,
      .check] : List WatchEvent)).udpBlocked = true :=
  (udp_blocked_iff _ (by decide)).mpr (by decide)

end TitanDns.Autopilot
