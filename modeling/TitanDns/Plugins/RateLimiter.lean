import TitanDns.Plugins.Blockers
import TitanDns.Lib.Run
import TitanDns.Lib.PartialMap
import Mathlib.Algebra.GroupWithZero.Nat
import Mathlib.Data.List.Induction

/-!
# The rate limiter over a history of queries

`should_limit` and `cleanup` of `RateLimitPlugin`, with the table of all clients.

* `shouldLimit`, `cleanup`, `step` — the table, one event at a time; `decisions` — what the queries
  of a run are told.
* `window` — the current window of a client, from its queries alone: the first query opens one, and
  so does the first after its end.
* `Kept` — what the table holds of a client: the start and the size of its window, or nothing, and
  then the window is over.
* `decided` — **a query is refused exactly when more than `max_queries` of its client are in its
  window.**

Principal result: `limited` — **at most `max_queries` are admitted in a window and twice as many in
any interval of its length, none is refused without cause, and neither other clients nor cleanup
change a decision.**
-/

namespace TitanDns.RateLimit

open PartialMap Run

/-! ## The limiter -/

/-- `RateLimitEntry`; times in nanoseconds. -/
structure RateLimitEntry where
  count : UInt32
  windowStart : Nat
  deriving DecidableEq

structure Limiter where
  maxQueries : UInt32
  windowSecs : UInt64

/-- `limits` -/
abbrev Limits := IpAddr → Option RateLimitEntry

structure LimitEvent where
  time : Nat
  /-- The client that asks; `none` is a `cleanup`. -/
  client : Option IpAddr

/-- What a query is told. -/
structure Decision where
  client : IpAddr
  time : Nat
  refused : Bool
  deriving DecidableEq

namespace Limiter

variable (p : Limiter)

/-- `window_duration` -/
def windowDuration : Nat := 1000000000 * p.windowSecs.toNat

/-- `should_limit` -/
def shouldLimit (s : Limits) (clientIp : IpAddr) (now : Nat) : Bool × Limits :=
  match s clientIp with
  | some e =>
    if p.windowDuration ≤ now - e.windowStart then (false, put s clientIp ⟨1, now⟩)
    else
      (decide (p.maxQueries < e.count + 1), put s clientIp { e with count := e.count + 1 })
  | none => (false, put s clientIp ⟨1, now⟩)

/-- `cleanup`.  Where twice the window is no `Duration`, the closure panics at the first entry, and
none is removed. -/
def cleanup (s : Limits) (now : Nat) : Limits :=
  if p.windowSecs.toNat * 2 < 2 ^ 64 then fun ip =>
    (s ip).filter fun e => now - e.windowStart < p.windowDuration * 2
  else s

def step (s : Limits) (e : LimitEvent) : Limits :=
  match e.client with
  | some clientIp => (p.shouldLimit s clientIp e.time).2
  | none => p.cleanup s e.time

/-- The decision of one event. -/
def told (s : Limits) (e : LimitEvent) : List Decision :=
  match e.client with
  | some clientIp => [⟨clientIp, e.time, (p.shouldLimit s clientIp e.time).1⟩]
  | none => []

/-- The decisions of a run from the empty table. -/
def decisions (es : List LimitEvent) : List Decision := trace p.step p.told empty es

/-- Those on one client. -/
def decisionsOn (client : IpAddr) (es : List LimitEvent) : List Decision :=
  (p.decisions es).filter (·.client = client)

/-! ## Windows -/

/-- One more query: in the current window, or the first of a new one. -/
def windowStep (cur : List Decision) (d : Decision) : List Decision :=
  match cur with
  | [] => [d]
  | first :: rest =>
    if d.time - first.time < p.windowDuration then first :: rest ++ [d] else [d]

/-- The current window after the queries of a client. -/
def window (ds : List Decision) : List Decision := run p.windowStep [] ds

end Limiter

/-- The queries admitted among some. -/
def admitted (ds : List Decision) : Nat := ds.countP (!·.refused)

/-! ## What a client is to expect -/

namespace Limiter

variable {p : Limiter}

/-- The verdict on a query, from the earlier queries of its client. -/
def verdict (p : Limiter) (ds : List Decision) (t : Nat) : Bool :=
  match p.window ds with
  | [] => false
  | first :: rest =>
    decide (t - first.time < p.windowDuration) &&
      decide (p.maxQueries < UInt32.ofNat (rest.length + 2))

/-- The decisions on a client that asks at some times. -/
def expected (p : Limiter) (client : IpAddr) (ts : List Nat) : List Decision :=
  ts.foldl (fun ds t => ds ++ [⟨client, t, p.verdict ds t⟩]) []

/-- The times at which a client asks. -/
def asksAt (client : IpAddr) (es : List LimitEvent) : List Nat :=
  (es.filter (·.client = some client)).map (·.time)

theorem expected_append (client : IpAddr) (ts : List Nat) (t : Nat) :
    p.expected client (ts ++ [t]) =
      p.expected client ts ++ [⟨client, t, p.verdict (p.expected client ts) t⟩] := by
  unfold expected
  rw [List.foldl_append]
  rfl

theorem window_append (ds : List Decision) (d : Decision) :
    p.window (ds ++ [d]) = p.windowStep (p.window ds) d := by
  unfold window
  rw [run_append]
  rfl

theorem window_same {ds : List Decision} {first : Decision} {rest : List Decision}
    (hwindow : p.window ds = first :: rest) {d : Decision}
    (h : d.time - first.time < p.windowDuration) :
    p.window (ds ++ [d]) = first :: (rest ++ [d]) := by
  rw [window_append, hwindow]
  exact if_pos h

/-- A query is in the current window, or opens a new one. -/
theorem windowStep_cases (cur : List Decision) (d : Decision) :
    (∃ first rest, cur = first :: rest ∧ d.time - first.time < p.windowDuration ∧
      p.windowStep cur d = first :: rest ++ [d]) ∨
    (p.windowStep cur d = [d] ∧
      ∀ first rest, cur = first :: rest → p.windowDuration ≤ d.time - first.time) := by
  unfold windowStep
  cases cur with
  | nil => exact .inr ⟨rfl, fun _ _ h => nomatch h⟩
  | cons first rest =>
    by_cases h : d.time - first.time < p.windowDuration
    · exact .inl ⟨first, rest, rfl, h, if_pos h⟩
    · refine .inr ⟨if_neg h, fun first' rest' heq => ?_⟩
      cases heq
      omega

/-! ## The table -/

/-- What the table holds of a client after some decisions on it: nothing before the first, and then
the start and the size of the window, unless that is over and the entry was removed. -/
def Kept (p : Limiter) (entry : Option RateLimitEntry) (ds : List Decision) (now : Nat) : Prop :=
  (p.window ds = [] ∧ entry = none) ∨
    ∃ first rest, p.window ds = first :: rest ∧
      (entry = some ⟨UInt32.ofNat (rest.length + 1), first.time⟩ ∨
        entry = none ∧ p.windowDuration ≤ now - first.time)

theorem Kept.later {entry : Option RateLimitEntry} {ds : List Decision} {now now' : Nat}
    (h : p.Kept entry ds now) (hle : now ≤ now') : p.Kept entry ds now' := by
  rcases h with h | ⟨first, rest, hwindow, h | ⟨hnone, hover⟩⟩
  · exact .inl h
  · exact .inr ⟨first, rest, hwindow, .inl h⟩
  · exact .inr ⟨first, rest, hwindow, .inr ⟨hnone, by omega⟩⟩

/-- **A query is told what its client is to expect**, and the table keeps up. -/
theorem Kept.query {s : Limits} {client : IpAddr} {ds : List Decision} {now : Nat}
    (h : p.Kept (s client) ds now) :
    (p.shouldLimit s client now).1 = p.verdict ds now ∧
      p.Kept ((p.shouldLimit s client now).2 client)
        (ds ++ [⟨client, now, p.verdict ds now⟩]) now := by
  have hnew {refused : Bool} (hover : ∀ first rest, p.window ds = first :: rest →
      p.windowDuration ≤ now - first.time) :
      p.Kept (some ⟨1, now⟩) (ds ++ [⟨client, now, refused⟩]) now := by
    refine .inr ⟨⟨client, now, refused⟩, [], ?_, .inl rfl⟩
    rw [window_append]
    rcases windowStep_cases (p := p) (p.window ds) ⟨client, now, refused⟩ with
      ⟨first, rest, hcur, hlt, -⟩ | ⟨hstep, -⟩
    · have := hover first rest hcur
      simp only at hlt
      omega
    · exact hstep
  unfold shouldLimit verdict
  rcases h with ⟨hwindow, hnone⟩ | ⟨first, rest, hwindow, hsome | ⟨hnone, hover⟩⟩
  · rw [hnone, hwindow]
    refine ⟨rfl, ?_⟩
    simp only [put_self]
    exact hnew fun first rest heq => by rw [hwindow] at heq; cases heq
  · rw [hsome, hwindow]
    simp only
    by_cases hover : p.windowDuration ≤ now - first.time
    · rw [if_pos hover]
      refine ⟨?_, ?_⟩
      · rw [decide_eq_false (by omega), Bool.false_and]
      · simp only [put_self]
        exact hnew fun first' rest' heq => by rw [hwindow] at heq; cases heq; exact hover
    · rw [if_neg hover]
      have hcount : UInt32.ofNat (rest.length + 1) + 1 = UInt32.ofNat (rest.length + 2) := by
        rw [← UInt32.ofNat_one, ← UInt32.ofNat_add]
      have hin : now - first.time < p.windowDuration := by omega
      refine ⟨?_, .inr ⟨first, _, window_same hwindow hin, .inl ?_⟩⟩
      · rw [decide_eq_true hin, Bool.true_and, hcount]
      · simp only [put_self, hcount, List.length_append, List.length_singleton]
  · rw [hnone, hwindow]
    simp only
    refine ⟨?_, ?_⟩
    · rw [decide_eq_false (by omega), Bool.false_and]
    · simp only [put_self]
      exact hnew fun first' rest' heq => by rw [hwindow] at heq; cases heq; exact hover

/-- Cleanup removes an entry only when its window is over. -/
theorem Kept.cleanup {s : Limits} {client : IpAddr} {ds : List Decision} {now : Nat}
    (h : p.Kept (s client) ds now) : p.Kept (p.cleanup s now client) ds now := by
  unfold Limiter.cleanup
  split
  · show p.Kept ((s client).filter _) ds now
    rcases h with ⟨hwindow, hnone⟩ | ⟨first, rest, hwindow, hsome | ⟨hnone, hover⟩⟩
    · exact .inl ⟨hwindow, by rw [hnone]; rfl⟩
    · refine .inr ⟨first, rest, hwindow, ?_⟩
      rw [hsome]
      by_cases hyoung : now - first.time < p.windowDuration * 2
      · exact .inl (Option.filter_some_pos (decide_eq_true hyoung))
      · exact .inr ⟨Option.filter_some_neg (by simpa using hyoung), by omega⟩
    · exact .inr ⟨first, rest, hwindow, .inr ⟨by rw [hnone]; rfl, hover⟩⟩
  · exact h

/-! ## The run -/

/-- What another client does leaves the entry alone. -/
theorem shouldLimit_other {client other : IpAddr} (h : client ≠ other) (s : Limits) (now : Nat) :
    (p.shouldLimit s other now).2 client = s client := by
  unfold shouldLimit
  cases s other with
  | none => exact put_of_ne h s _
  | some e =>
    simp only
    split
    · exact put_of_ne h s _
    · exact put_of_ne h s _

theorem decisionsOn_append (client : IpAddr) (es : List LimitEvent) (e : LimitEvent) :
    p.decisionsOn client (es ++ [e]) =
      p.decisionsOn client es ++ (p.told (run p.step empty es) e).filter (·.client = client) := by
  have htrace {s : Limits} : trace p.step p.told s (es ++ [e]) =
      trace p.step p.told s es ++ p.told (run p.step s es) e := by
    induction es generalizing s with
    | nil => simp [trace]
    | cons e' es ih => simp [trace, ih]
  rw [decisionsOn, decisions, htrace, List.filter_append]
  rfl

theorem asksAt_append (client : IpAddr) (es : List LimitEvent) (e : LimitEvent) :
    asksAt client (es ++ [e]) =
      asksAt client es ++ if e.client = some client then [e.time] else [] := by
  unfold asksAt
  rw [List.filter_append, List.map_append]
  by_cases h : e.client = some client
  · rw [List.filter_cons_of_pos (by simpa using h), if_pos h]
    rfl
  · rw [List.filter_cons_of_neg (by simpa using h), if_neg h]
    rfl

/-- **Every decision of a run is the one its client is to expect.** -/
theorem decisionsOn_eq (client : IpAddr) {es : List LimitEvent}
    (hmono : es.Pairwise (·.time ≤ ·.time)) :
    p.decisionsOn client es = p.expected client (asksAt client es) ∧
      ∀ now, (∀ e ∈ es, e.time ≤ now) →
        p.Kept (run p.step empty es client) (p.decisionsOn client es) now := by
  induction es using List.reverseRecOn with
  | nil => exact ⟨rfl, fun _ _ => .inl ⟨rfl, rfl⟩⟩
  | append_singleton es e ih =>
    obtain ⟨hes, -, hlast⟩ := List.pairwise_append.mp hmono
    obtain ⟨heq, hkept⟩ := ih hes
    have hnow : p.Kept (run p.step empty es client) (p.decisionsOn client es) e.time :=
      hkept e.time fun e' he' => hlast e' he' e (List.mem_singleton_self e)
    have hstep : p.decisionsOn client (es ++ [e]) = p.expected client (asksAt client (es ++ [e])) ∧
        p.Kept (run p.step empty (es ++ [e]) client) (p.decisionsOn client (es ++ [e])) e.time := by
      rw [decisionsOn_append, asksAt_append, run_append]
      show _ ∧ p.Kept (p.step (run p.step empty es) e client) _ _
      generalize run p.step empty es = s at hnow
      unfold told step
      rcases hclient : e.client with _ | other
      · simp only [List.filter_nil, List.append_nil, reduceCtorEq, if_false]
        exact ⟨heq, hnow.cleanup⟩
      · by_cases h : other = client
        · subst h
          obtain ⟨hverdict, hnext⟩ := hnow.query
          rw [if_pos rfl, List.filter_cons_of_pos (by simp), List.filter_nil, hverdict,
            expected_append, ← heq]
          exact ⟨rfl, hnext⟩
        · rw [if_neg (by simpa using h), List.filter_cons_of_neg (by simpa using h),
            List.filter_nil, List.append_nil, List.append_nil]
          refine ⟨heq, ?_⟩
          simp only
          rw [shouldLimit_other (fun hc => h hc.symm)]
          exact hnow
    refine ⟨hstep.1, fun now hall => hstep.2.later (hall e (by simp))⟩

theorem prefix_expected {client : IpAddr} {ts : List Nat} {ds : List Decision}
    (h : ds <+: p.expected client ts) : ∃ ts', ts' <+: ts ∧ ds = p.expected client ts' := by
  induction ts using List.reverseRecOn with
  | nil => exact ⟨[], List.prefix_rfl, List.prefix_nil.mp h⟩
  | append_singleton ts t ih =>
    rw [expected_append] at h
    rcases List.prefix_concat_iff.mp h with rfl | h
    · exact ⟨ts ++ [t], List.prefix_rfl, (expected_append client ts t).symm⟩
    · obtain ⟨ts', hts', rfl⟩ := ih h
      exact ⟨ts', hts'.trans (List.prefix_append ts [t]), rfl⟩

/-- A query of the decisions is told its verdict. -/
theorem refused_eq {client : IpAddr} {ts : List Nat} {ds : List Decision} {d : Decision}
    (h : ds ++ [d] <+: p.expected client ts) : d.refused = p.verdict ds d.time := by
  obtain ⟨ts', -, heq⟩ := prefix_expected h
  rcases List.eq_nil_or_concat ts' with rfl | ⟨ts'', t, rfl⟩
  · exact absurd heq (by simp [expected])
  · rw [List.concat_eq_append, expected_append] at heq
    obtain ⟨rfl, hd⟩ := List.append_inj' heq rfl
    obtain rfl : d = _ := List.singleton_inj.mp hd
    rfl

/-! ## Within one window -/

/-- The client asks fewer than 2³² times in each of its windows. -/
def Fits (p : Limiter) (ds : List Decision) : Prop :=
  ∀ before, before <+: ds → (p.window before).length < 2 ^ 32

theorem length_window_le (ds : List Decision) : (p.window ds).length ≤ ds.length := by
  induction ds using List.reverseRecOn with
  | nil => exact Nat.le_refl _
  | append_singleton ds d ih =>
    rw [window_append, List.length_append, List.length_singleton]
    rcases windowStep_cases (p := p) (p.window ds) d with ⟨first, rest, hcur, -, hstep⟩ | ⟨hstep, -⟩
    · rw [hstep, ← hcur, List.length_append, List.length_singleton]
      exact Nat.succ_le_succ ih
    · rw [hstep, List.length_singleton]
      exact Nat.le_add_left 1 _

theorem Fits.of_prefix {ds ds' : List Decision} (h : p.Fits ds) (hpre : ds' <+: ds) : p.Fits ds' :=
  fun before hb => h before (hb.trans hpre)

/-- **A query is refused exactly when, with it, more than `max_queries` are in its window.** -/
theorem decided (hmax : 1 ≤ p.maxQueries) {ds : List Decision} {d : Decision}
    (hfits : p.Fits (ds ++ [d])) :
    p.verdict ds d.time = true ↔ p.maxQueries.toNat < (p.window (ds ++ [d])).length := by
  have hone : 1 ≤ p.maxQueries.toNat := UInt32.le_iff_toNat_le.mp hmax
  have hlength := hfits _ List.prefix_rfl
  unfold verdict
  rw [window_append] at hlength ⊢
  unfold windowStep at hlength ⊢
  generalize p.window ds = cur at hlength ⊢
  cases cur with
  | nil => exact iff_of_false Bool.false_ne_true (by simp only [List.length_singleton]; omega)
  | cons first rest =>
    simp only [Bool.and_eq_true, decide_eq_true_eq]
    by_cases hin : d.time - first.time < p.windowDuration
    · simp only [if_pos hin, List.length_append, List.length_cons, List.length_nil] at hlength ⊢
      have hsize : rest.length + 2 < UInt32.size := by simp only [UInt32.size]; omega
      rw [and_iff_right hin, UInt32.lt_iff_toNat_lt, UInt32.toNat_ofNat_of_lt' hsize]
    · simp only [if_neg hin, List.length_singleton]
      exact iff_of_false (fun h => hin h.1) (by omega)

theorem admitted_append (ds : List Decision) (d : Decision) :
    admitted (ds ++ [d]) = admitted ds + if d.refused then 0 else 1 := by
  unfold admitted
  rw [List.countP_append, List.countP_singleton]
  cases d.refused with
  | true => rfl
  | false => rfl

/-- **The first `max_queries` of a window are admitted, and no other.** -/
theorem admitted_window (hmax : 1 ≤ p.maxQueries) {client : IpAddr} {ts : List Nat}
    (hfits : p.Fits (p.expected client ts)) :
    admitted (p.window (p.expected client ts)) =
      min p.maxQueries.toNat (p.window (p.expected client ts)).length := by
  induction ts using List.reverseRecOn with
  | nil => simp [expected, window, admitted]
  | append_singleton ts t ih =>
    rw [expected_append] at hfits ⊢
    have hfits' := hfits.of_prefix (List.prefix_append _ _)
    have hdecided := decided hmax hfits
    have hone : 1 ≤ p.maxQueries.toNat := UInt32.le_iff_toNat_le.mp hmax
    have hih := ih hfits'
    rw [window_append] at hdecided ⊢
    generalize p.verdict (p.expected client ts) t = refused at hdecided ⊢
    rcases windowStep_cases (p := p) (p.window (p.expected client ts)) ⟨client, t, refused⟩ with
      ⟨first, rest, hcur, -, hstep⟩ | ⟨hstep, -⟩
    · rw [hstep, ← hcur, List.length_append, List.length_singleton] at hdecided
      rw [hstep, ← hcur, admitted_append, hih, List.length_append, List.length_singleton]
      cases refused with
      | true =>
        have := hdecided.mp rfl
        simp only [if_true]
        omega
      | false =>
        have := mt hdecided.mpr Bool.false_ne_true
        simp only [Bool.false_eq_true, if_false]
        omega
    · rw [hstep, List.length_singleton] at hdecided
      cases refused with
      | true =>
        have := hdecided.mp rfl
        omega
      | false =>
        rw [hstep, List.length_singleton, Nat.min_eq_right hone]
        rfl

/-! ## In an interval -/

/-- The times of an interval of the window's length: its end is part of it, unless the window is
empty. -/
def Within (p : Limiter) (start t : Nat) : Prop :=
  0 < p.windowDuration ∧ start ≤ t ∧ t ≤ start + p.windowDuration

instance (start t : Nat) : Decidable (p.Within start t) := inferInstanceAs (Decidable (_ ∧ _))

/-- The queries admitted in the interval. -/
def admittedIn (p : Limiter) (start : Nat) (ds : List Decision) : Nat :=
  admitted (ds.filter fun d => p.Within start d.time)

theorem admittedIn_append (start : Nat) (ds : List Decision) (d : Decision) :
    p.admittedIn start (ds ++ [d]) =
      p.admittedIn start ds + if p.Within start d.time ∧ d.refused = false then 1 else 0 := by
  unfold admittedIn
  rw [List.filter_append]
  by_cases hin : p.Within start d.time
  · rw [List.filter_cons_of_pos (by simpa using hin), List.filter_nil, admitted_append]
    cases d.refused with
    | true => simp
    | false => simp [hin]
  · rw [List.filter_cons_of_neg (by simpa using hin), List.filter_nil, List.append_nil]
    simp [hin]

theorem admittedIn_le (start : Nat) (ds : List Decision) : p.admittedIn start ds ≤ admitted ds :=
  List.Sublist.countP_le List.filter_sublist

/-- How the admitted queries of an interval spread over the windows of a client, the last of which
began at `first`: none before that window if it began before the interval, one window full if it
began in the interval, and two at most. -/
structure Spread (p : Limiter) (start : Nat) (ds : List Decision) (first : Nat) : Prop where
  running : ∀ d ∈ ds, d.time < first + p.windowDuration
  before : first ≤ start → p.admittedIn start ds ≤ p.admittedIn start (p.window ds)
  inside : first ≤ start + p.windowDuration →
    p.admittedIn start ds ≤ p.maxQueries.toNat + p.admittedIn start (p.window ds)
  all : p.admittedIn start ds ≤ 2 * p.maxQueries.toNat

theorem admittedIn_none {start : Nat} {ds : List Decision} (h : ∀ d ∈ ds, d.time < start) :
    p.admittedIn start ds = 0 := by
  unfold admittedIn
  rw [List.filter_eq_nil_iff.mpr ?_]
  · rfl
  · intro d hd
    have := h d hd
    rw [decide_eq_true_eq]
    rintro ⟨-, hstart, -⟩
    omega

theorem mem_of_mem_window {ds : List Decision} {d : Decision} (h : d ∈ p.window ds) : d ∈ ds := by
  induction ds using List.reverseRecOn with
  | nil => exact h
  | append_singleton ds d' ih =>
    rw [window_append] at h
    rcases windowStep_cases (p := p) (p.window ds) d' with
      ⟨first, rest, hcur, -, hstep⟩ | ⟨hstep, -⟩
    · rw [hstep, ← hcur] at h
      rcases List.mem_append.mp h with h | h
      · exact List.mem_append_left _ (ih h)
      · exact List.mem_append_right _ h
    · rw [hstep] at h
      exact List.mem_append_right _ h

/-- A query in the last window. -/
theorem Spread.stays {start : Nat} {ds rest : List Decision} {d d' : Decision}
    (h : p.Spread start ds d'.time) (hmono : d'.time ≤ d.time) (hwindow : p.window ds = d' :: rest)
    (hin : d.time - d'.time < p.windowDuration)
    (hfull : admitted (p.window (ds ++ [d])) ≤ p.maxQueries.toNat) :
    p.Spread start (ds ++ [d]) d'.time := by
  have hsame : p.window (ds ++ [d]) = p.window ds ++ [d] := by
    rw [window_same hwindow hin, hwindow]
    rfl
  have hle := p.admittedIn_le start (p.window (ds ++ [d]))
  refine ⟨?_, fun hbefore => ?_, fun hinside => ?_, ?_⟩
  · intro x hx
    rcases List.mem_append.mp hx with hx | hx
    · exact h.running x hx
    · rw [List.mem_singleton.mp hx]
      omega
  · rw [hsame, admittedIn_append, admittedIn_append]
    have := h.before hbefore
    omega
  · rw [hsame, admittedIn_append, admittedIn_append]
    have := h.inside hinside
    omega
  · rw [hsame, admittedIn_append] at hle
    rw [admittedIn_append]
    by_cases hd : p.Within start d.time ∧ d.refused = false
    · -- then the window began before the end of the interval
      have hend := hd.1.2.2
      have := h.inside (by omega)
      rw [if_pos hd] at hle ⊢
      rw [hsame] at hfull
      omega
    · rw [if_neg hd]
      exact h.all

/-- A query that begins a window. -/
theorem Spread.opens {start first : Nat} {ds : List Decision} {d : Decision}
    (h : p.Spread start ds first) (hpos : 0 < p.windowDuration)
    (hafter : first + p.windowDuration ≤ d.time) (hnew : p.window (ds ++ [d]) = [] ++ [d])
    (hmax : 1 ≤ p.maxQueries.toNat) (hfull : admitted (p.window ds) ≤ p.maxQueries.toNat) :
    p.Spread start (ds ++ [d]) d.time := by
  have hle := p.admittedIn_le start (p.window ds)
  have hinside (hd : d.time ≤ start + p.windowDuration) :
      p.admittedIn start ds ≤ p.maxQueries.toNat := by
    have := h.before (by omega)
    omega
  refine ⟨?_, fun hbefore => ?_, fun hd => ?_, ?_⟩
  · intro x hx
    rcases List.mem_append.mp hx with hx | hx
    · have := h.running x hx
      omega
    · rw [List.mem_singleton.mp hx]
      omega
  · have hnone : p.admittedIn start ds = 0 := admittedIn_none fun x hx => by
      have := h.running x hx
      omega
    rw [hnew, admittedIn_append, admittedIn_append, hnone]
    exact Nat.add_le_add_right (Nat.zero_le _) _
  · have := hinside hd
    rw [hnew, admittedIn_append, admittedIn_append]
    omega
  · rw [admittedIn_append]
    by_cases hd : p.Within start d.time ∧ d.refused = false
    · have := hinside hd.1.2.2
      rw [if_pos hd]
      omega
    · rw [if_neg hd]
      exact h.all

/-- **One more query keeps the spread.** -/
theorem Spread.step {start : Nat} {ds : List Decision} {first : Nat} {d : Decision}
    (h : p.Spread start ds first) (hmono : ∀ d' ∈ ds, d'.time ≤ d.time)
    (hpos : 0 < p.windowDuration) (hfirst : ∃ d' rest, p.window ds = d' :: rest ∧ d'.time = first)
    (hmax : 1 ≤ p.maxQueries.toNat) (hfull : admitted (p.window ds) ≤ p.maxQueries.toNat)
    (hfull' : admitted (p.window (ds ++ [d])) ≤ p.maxQueries.toNat) :
    ∃ first', (∃ d' rest, p.window (ds ++ [d]) = d' :: rest ∧ d'.time = first') ∧
      p.Spread start (ds ++ [d]) first' := by
  obtain ⟨d', rest, hwindow, rfl⟩ := hfirst
  have hmem : d' ∈ ds := mem_of_mem_window (hwindow ▸ List.mem_cons_self)
  by_cases hin : d.time - d'.time < p.windowDuration
  · exact ⟨d'.time, ⟨d', rest ++ [d], window_same hwindow hin, rfl⟩,
      h.stays (hmono d' hmem) hwindow hin hfull'⟩
  · have hnew : p.window (ds ++ [d]) = [] ++ [d] := by
      rw [window_append, hwindow]
      exact if_neg hin
    exact ⟨d.time, ⟨d, [], hnew, rfl⟩, h.opens hpos (by omega) hnew hmax hfull⟩

/-- The first query of a client. -/
theorem Spread.single (start : Nat) (d : Decision) (hpos : 0 < p.windowDuration)
    (hmax : 1 ≤ p.maxQueries.toNat) : p.Spread start [d] d.time := by
  have hone : p.admittedIn start [d] ≤ 1 :=
    Nat.le_trans (p.admittedIn_le start [d]) List.countP_le_length
  refine ⟨fun x hx => ?_, fun _ => Nat.le_refl _, fun _ => Nat.le_add_left _ _, by omega⟩
  rw [List.mem_singleton.mp hx]
  omega

theorem time_of_mem {client : IpAddr} {ts : List Nat} {d : Decision}
    (h : d ∈ p.expected client ts) : d.time ∈ ts := by
  induction ts using List.reverseRecOn with
  | nil => cases h
  | append_singleton ts t ih =>
    rw [expected_append] at h
    rcases List.mem_append.mp h with h | h
    · exact List.mem_append_left _ (ih h)
    · rw [List.mem_singleton.mp h]
      exact List.mem_append_right _ (List.mem_singleton_self t)

/-- **The spread of what a client is to expect.** -/
theorem spread_expected (hmax : 1 ≤ p.maxQueries) {client : IpAddr} {ts : List Nat}
    (hfits : p.Fits (p.expected client ts)) (hmono : ts.Pairwise (· ≤ ·)) (start : Nat) :
    p.admittedIn start (p.expected client ts) ≤ 2 * p.maxQueries.toNat := by
  have hone : 1 ≤ p.maxQueries.toNat := UInt32.le_iff_toNat_le.mp hmax
  by_cases hpos : 0 < p.windowDuration
  · suffices h : p.expected client ts = [] ∨ ∃ first,
        (∃ d rest, p.window (p.expected client ts) = d :: rest ∧ d.time = first) ∧
          p.Spread start (p.expected client ts) first by
      rcases h with h | ⟨first, -, h⟩
      · rw [h]
        exact Nat.zero_le _
      · exact h.all
    have hfull {ts : List Nat} (h : p.Fits (p.expected client ts)) :
        admitted (p.window (p.expected client ts)) ≤ p.maxQueries.toNat := by
      rw [admitted_window hmax h]
      exact Nat.min_le_left _ _
    induction ts using List.reverseRecOn with
    | nil => exact .inl rfl
    | append_singleton ts t ih =>
      obtain ⟨hts, -, hlast⟩ := List.pairwise_append.mp hmono
      have hnow := hfull hfits
      rw [expected_append] at hfits hnow ⊢
      have hfits' := hfits.of_prefix (List.prefix_append _ _)
      right
      rcases ih hfits' hts with hnil | ⟨first, hfirst, hspread⟩
      · rw [hnil]
        exact ⟨t, ⟨_, [], rfl, rfl⟩, Spread.single start _ hpos hone⟩
      · exact hspread.step (fun d hd => hlast d.time (time_of_mem hd) t (List.mem_singleton_self t))
          hpos hfirst hone (hfull hfits') hnow
  · have hnone : ∀ d ∈ p.expected client ts, ¬ p.Within start d.time := fun d _ h => hpos h.1
    unfold admittedIn
    rw [List.filter_eq_nil_iff.mpr fun d hd => by simpa using hnone d hd]
    exact Nat.zero_le _

/-! ## The law -/

/-- **At most `max_queries` are admitted in a window and twice as many in any interval of its
length, a query is refused only in a window where so many were admitted, and neither other clients
nor cleanup change a decision.** -/
theorem limited (p : Limiter) (hmax : 1 ≤ p.maxQueries) (client : IpAddr) (es : List LimitEvent)
    (hmono : es.Pairwise (·.time ≤ ·.time)) (hfits : p.Fits (p.decisionsOn client es)) :
    (∀ ds, ds <+: p.decisionsOn client es → admitted (p.window ds) ≤ p.maxQueries.toNat) ∧
      (∀ start, p.admittedIn start (p.decisionsOn client es) ≤ 2 * p.maxQueries.toNat) ∧
      (∀ ds d, ds ++ [d] <+: p.decisionsOn client es → d.refused = true →
        p.window (ds ++ [d]) = p.window ds ++ [d] ∧
          admitted (p.window ds) = p.maxQueries.toNat) ∧
      ∀ es', es'.Pairwise (·.time ≤ ·.time) → asksAt client es' = asksAt client es →
        p.decisionsOn client es' = p.decisionsOn client es := by
  have hone : 1 ≤ p.maxQueries.toNat := UInt32.le_iff_toNat_le.mp hmax
  obtain ⟨heq, -⟩ := decisionsOn_eq (p := p) client hmono
  have hwindow {ds : List Decision} (h : ds <+: p.decisionsOn client es) :
      admitted (p.window ds) = min p.maxQueries.toNat (p.window ds).length := by
    have hfits' := hfits.of_prefix h
    rw [heq] at h
    obtain ⟨ts, -, rfl⟩ := prefix_expected h
    exact admitted_window hmax hfits'
  refine ⟨fun ds h => ?_, fun start => ?_, fun ds d h hrefused => ?_, fun es' hmono' hasks => ?_⟩
  · rw [hwindow h]
    exact Nat.min_le_left _ _
  · have hts : (asksAt client es).Pairwise (· ≤ ·) :=
      List.pairwise_map.mpr (hmono.sublist List.filter_sublist)
    rw [heq] at hfits ⊢
    exact spread_expected hmax hfits hts start
  · have hverdict : p.verdict ds d.time = true := (refused_eq (heq ▸ h)).symm.trans hrefused
    have hmany := (decided hmax (hfits.of_prefix h)).mp hverdict
    have hds := hwindow ((List.prefix_append ds [d]).trans h)
    rw [window_append] at hmany ⊢
    rcases windowStep_cases (p := p) (p.window ds) d with ⟨first, rest, hcur, -, hstep⟩ | ⟨hstep, -⟩
    · rw [hstep, ← hcur] at hmany ⊢
      rw [List.length_append, List.length_singleton] at hmany
      exact ⟨rfl, by omega⟩
    · rw [hstep, List.length_singleton] at hmany
      omega
  · rw [heq, (decisionsOn_eq client hmono').1, hasks]

/-- Three queries at once, and a cleanup between them. -/
def burst : List LimitEvent :=
  [⟨0, some (.v4 ⟨192, 0, 2, 1⟩)⟩, ⟨1, none⟩, ⟨2, some (.v4 ⟨192, 0, 2, 1⟩)⟩,
    ⟨3, some (.v4 ⟨192, 0, 2, 1⟩)⟩]

theorem limited_burst :
    (decisionsOn ⟨2, 1⟩ (.v4 ⟨192, 0, 2, 1⟩) burst).map (·.refused) = [false, false, true] ∧
      admitted (window ⟨2, 1⟩ (decisionsOn ⟨2, 1⟩ (.v4 ⟨192, 0, 2, 1⟩) burst)) ≤ 2 := by
  have hfits : Fits ⟨2, 1⟩ (decisionsOn ⟨2, 1⟩ (.v4 ⟨192, 0, 2, 1⟩) burst) := by
    intro before hb
    have hlength : (decisionsOn ⟨2, 1⟩ (.v4 ⟨192, 0, 2, 1⟩) burst).length = 3 := by decide
    have := length_window_le (p := ⟨2, 1⟩) before
    have := hb.length_le
    omega
  exact ⟨by decide, (limited ⟨2, 1⟩ (by decide) (.v4 ⟨192, 0, 2, 1⟩) burst
    (by simp [burst]) hfits).1 _ List.prefix_rfl⟩

end Limiter

end TitanDns.RateLimit
