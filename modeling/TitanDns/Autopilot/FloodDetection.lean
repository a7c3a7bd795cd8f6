import TitanDns.Autopilot.Metrics
import TitanDns.Lib.Decay
import TitanDns.Lib.PartialMap
import TitanDns.Lib.Run
import TitanDns.Plugins.Responders
import Mathlib.Data.Rat.Cast.Order
import Mathlib.Tactic.NormNum

/-!
# Flood detection

`analyze_client_behavior` and what becomes of a client's score over a whole run.  The numbers are a
parameter: `Float` is the arithmetic of the code, `ℚ` the exact one.  Times are nanoseconds on the
monotonic clock.

* `ClientStats`, `analyzeClientBehavior` — the statistics of one client, and one call.
* `Evaluation` — the rate and the share of NXDOMAIN answers that a call computes; `raised` — the
  score with what it adds, before the score decays.
* `evaluationsOf`, `HasBlocked` — the evaluations of a client in a run; whether a call refused it.
* `hasBlocked_iff` — **a client is blocked exactly when its evaluations reach the level.**

Principal results: `floodDetected_iff` — **in exact arithmetic a flood is detected exactly when
enough of its evaluations are NXDOMAIN floods**: what a high rate alone brings is what the decay
takes away; `rate_blocks_binary64` — **in the arithmetic of the code, a high rate alone is blocked
by its 160th evaluation**, where the decayed score is rounded up.
-/

set_option linter.unusedSectionVars false

namespace TitanDns.Autopilot

open Run

/-- `as f64` -/
class AsF64 (K : Type) where
  asF64 : Nat → K

open AsF64 (asF64)

instance : AsF64 Float := ⟨Float.ofNat⟩

instance : AsF64 ℚ := ⟨fun n => n⟩

/-- A call of `analyze_client_behavior` and its time. -/
structure ClientQuery where
  clientIp : IpAddr
  isNxdomain : Bool
  now : Nat

section
variable {K : Type} [Add K] [Mul K] [Div K] [LE K] [LT K] [DecidableLE K] [DecidableLT K]
  [OfScientific K] [AsF64 K]

/-! ## One client -/

/-- `ClientStats` -/
structure ClientStats (K : Type) where
  totalQueries : Nat
  nxdomainCount : Nat
  startTime : Nat
  lastQuery : Nat
  suspicionScore : K
  isBlocked : Bool

/-- What an evaluation computes. -/
structure Evaluation (K : Type) where
  qps : K
  nxRatio : K

/-- The score with what the evaluation adds: rule 1 and rule 2. -/
def Evaluation.raised (e : Evaluation K) (score : K) : K :=
  let score := if 10.0 < e.qps ∧ 0.8 < e.nxRatio then score + 50.0 else score
  if 100.0 < e.qps then score + 20.0 else score

namespace ClientStats

/-- The entry of a client that is new. -/
def new (q : ClientQuery) : ClientStats K :=
  ⟨1, if q.isNxdomain then 1 else 0, q.now, q.now, 0.0, false⟩

/-- Blocked, and the five minutes are not over. -/
def barred (s : ClientStats K) (now : Nat) : Bool :=
  s.isBlocked && !decide (300 * SECOND < now - s.lastQuery)

/-- The query is counted, after a block has run out. -/
def counted (s : ClientStats K) (q : ClientQuery) : ClientStats K :=
  let s := if s.isBlocked then
      { s with
        isBlocked := false
        totalQueries := 0
        nxdomainCount := 0
        startTime := q.now
        suspicionScore := 0.0 }
    else s
  { s with
    totalQueries := s.totalQueries + 1
    nxdomainCount := s.nxdomainCount + if q.isNxdomain then 1 else 0
    lastQuery := q.now }

/-- Every fiftieth query, and every twentieth NXDOMAIN. -/
def due (s : ClientStats K) (isNxdomain : Bool) : Bool :=
  s.totalQueries % 50 == 0 || (isNxdomain && s.nxdomainCount % 20 == 0)

/-- The seconds since the window began, by `as_secs_f64`. -/
def duration (s : ClientStats K) (now : Nat) : K :=
  asF64 ((now - s.startTime) / SECOND) + asF64 ((now - s.startTime) % SECOND) / asF64 SECOND

/-- The evaluation after the query is counted; none within the first second. -/
def evaluation (s : ClientStats K) (q : ClientQuery) : Option (Evaluation K) :=
  if s.due q.isNxdomain then
    if s.duration q.now < 1.0 then none
    else some ⟨asF64 s.totalQueries / s.duration q.now,
      asF64 s.nxdomainCount / asF64 s.totalQueries⟩
  else none

/-- The score against the level; below it the score decays. -/
def judged (s : ClientStats K) (e : Evaluation K) : ClientStats K × Bool :=
  let score := e.raised s.suspicionScore
  if 100.0 ≤ score then ({ s with suspicionScore := score, isBlocked := true }, true)
  else ({ s with suspicionScore := score * 0.8 }, false)

/-- The window starts anew after ten minutes. -/
def rewound (s : ClientStats K) (now : Nat) : ClientStats K :=
  if 600.0 < s.duration now then
    { s with totalQueries := 0, nxdomainCount := 0, startTime := now }
  else s

/-- The closure of `and_modify`, and `should_block`. -/
def query (s : ClientStats K) (q : ClientQuery) : ClientStats K × Bool :=
  if s.barred q.now then ({ s with lastQuery := q.now }, true)
  else
    let s := s.counted q
    match s.evaluation q with
    | none => (s, false)
    | some e => ((s.judged e).1.rewound q.now, (s.judged e).2)

/-- The evaluation of one query. -/
def evaluates (s : ClientStats K) (q : ClientQuery) : Option (Evaluation K) :=
  if s.barred q.now then none else (s.counted q).evaluation q

end ClientStats

/-- `analyze_client_behavior` -/
def analyzeClientBehavior (stats : IpAddr → Option (ClientStats K)) (q : ClientQuery) :
    (IpAddr → Option (ClientStats K)) × Bool :=
  if EcsPlugin.isLoopback q.clientIp then (stats, false)
  else match stats q.clientIp with
    | some s => (PartialMap.put stats q.clientIp (s.query q).1, (s.query q).2)
    | none => (PartialMap.put stats q.clientIp (.new q), false)

/-! ## Runs -/

/-- One call. -/
def call (stats : IpAddr → Option (ClientStats K)) (q : ClientQuery) :
    IpAddr → Option (ClientStats K) :=
  (analyzeClientBehavior stats q).1

/-- What one call evaluates of a client. -/
def evaluates (ip : IpAddr) (stats : IpAddr → Option (ClientStats K)) (q : ClientQuery) :
    List (Evaluation K) :=
  if q.clientIp = ip ∧ EcsPlugin.isLoopback ip = false then
    ((stats ip).bind fun s => s.evaluates q).toList
  else []

/-- What one call answers about a client. -/
def verdict (ip : IpAddr) (stats : IpAddr → Option (ClientStats K)) (q : ClientQuery) :
    List Bool :=
  if q.clientIp = ip then [(analyzeClientBehavior stats q).2] else []

variable (K) in
/-- The evaluations of a client, in order. -/
def evaluationsOf (ip : IpAddr) (calls : List ClientQuery) : List (Evaluation K) :=
  trace call (evaluates ip) PartialMap.empty calls

variable (K) in
/-- A call of the run has refused the client. -/
def HasBlocked (ip : IpAddr) (calls : List ClientQuery) : Prop :=
  true ∈ trace call (verdict ip) (PartialMap.empty : IpAddr → Option (ClientStats K)) calls

/-- The score after evaluations that did not reach the level. -/
def scoreOf (es : List (Evaluation K)) : K := es.foldl (fun score e => e.raised score * 0.8) 0.0

/-- At some evaluation the level is reached. -/
def Reaches (es : List (Evaluation K)) : Prop :=
  ∃ before e after, es = before ++ e :: after ∧ 100.0 ≤ e.raised (scoreOf before)

theorem scoreOf_concat (es : List (Evaluation K)) (e : Evaluation K) :
    scoreOf (es ++ [e]) = e.raised (scoreOf es) * 0.8 := by
  rw [scoreOf, List.foldl_append]
  rfl

/-- The level is reached before or at the last evaluation. -/
theorem reaches_concat (es : List (Evaluation K)) (e : Evaluation K) :
    Reaches (es ++ [e]) ↔ Reaches es ∨ 100.0 ≤ e.raised (scoreOf es) := by
  constructor
  · rintro ⟨before, e', after, heq, h⟩
    rcases List.eq_nil_or_concat after with rfl | ⟨after, e'', rfl⟩
    · obtain ⟨rfl, hlast⟩ := List.append_inj' heq rfl
      cases hlast
      exact Or.inr h
    · rw [List.concat_eq_append, ← List.cons_append, ← List.append_assoc] at heq
      obtain ⟨rfl, -⟩ := List.append_inj' heq rfl
      exact Or.inl ⟨before, e', after, rfl, h⟩
  · rintro (⟨before, e', after, rfl, h⟩ | h)
    · exact ⟨before, e', after ++ [e], by rw [List.append_assoc]; rfl, h⟩
    · exact ⟨es, e, [], rfl, h⟩

/-- What was reached stays reached. -/
theorem Reaches.append {es : List (Evaluation K)} (h : Reaches es) (later : List (Evaluation K)) :
    Reaches (es ++ later) := by
  obtain ⟨before, e, after, rfl, hle⟩ := h
  exact ⟨before, e, after ++ later, by rw [List.append_assoc]; rfl, hle⟩

/-! ## The score of a client that is not blocked -/

/-- The client is not blocked and its score is that of its evaluations. -/
def Tracks (es : List (Evaluation K)) : Option (ClientStats K) → Prop
  | none => es = []
  | some s => s.isBlocked = false ∧ s.suspicionScore = scoreOf es

namespace ClientStats

variable {s : ClientStats K} {q : ClientQuery}

theorem rewound_isBlocked (s : ClientStats K) (now : Nat) :
    (s.rewound now).isBlocked = s.isBlocked := by
  unfold rewound
  split <;> rfl

theorem rewound_suspicionScore (s : ClientStats K) (now : Nat) :
    (s.rewound now).suspicionScore = s.suspicionScore := by
  unfold rewound
  split <;> rfl

theorem barred_of_not (h : s.isBlocked = false) (now : Nat) : s.barred now = false := by
  rw [barred, h, Bool.false_and]

theorem counted_of_not (h : s.isBlocked = false) (q : ClientQuery) :
    s.counted q = { s with
      totalQueries := s.totalQueries + 1
      nxdomainCount := s.nxdomainCount + if q.isNxdomain then 1 else 0
      lastQuery := q.now } := by
  unfold counted
  rw [if_neg (by rw [h]; decide)]

/-- The verdict leaves the window alone. -/
theorem judged_window (s : ClientStats K) (e : Evaluation K) :
    (s.judged e).1.totalQueries = s.totalQueries ∧
      (s.judged e).1.nxdomainCount = s.nxdomainCount ∧
      (s.judged e).1.startTime = s.startTime := by
  unfold judged
  dsimp only
  split <;> exact ⟨rfl, rfl, rfl⟩

/-- A query that evaluates nothing is counted. -/
theorem query_of_none (h : s.isBlocked = false) (heval : s.evaluates q = none) :
    s.query q = (s.counted q, false) := by
  have hbarred := barred_of_not h q.now
  rw [evaluates, hbarred, if_neg (by decide)] at heval
  unfold query
  simp only [hbarred, heval, Bool.false_eq_true, if_false]

/-- A query with an evaluation is counted and judged. -/
theorem query_of_some (h : s.isBlocked = false) {e : Evaluation K}
    (heval : s.evaluates q = some e) :
    s.query q = ((((s.counted q).judged e).1).rewound q.now, ((s.counted q).judged e).2) := by
  have hbarred := barred_of_not h q.now
  rw [evaluates, hbarred, if_neg (by decide)] at heval
  unfold query
  simp only [hbarred, heval, Bool.false_eq_true, if_false]

end ClientStats

variable {ip : IpAddr} {stats : IpAddr → Option (ClientStats K)} {q : ClientQuery}

/-- A call that is not about the client. -/
theorem call_of_ne (h : q.clientIp ≠ ip) : call stats q ip = stats ip := by
  unfold call analyzeClientBehavior
  split
  · rfl
  · split
    · exact PartialMap.put_of_ne (Ne.symm h) _ _
    · exact PartialMap.put_of_ne (Ne.symm h) _ _

/-- Loopback is never looked at. -/
theorem analyze_loopback (h : EcsPlugin.isLoopback q.clientIp = true) :
    analyzeClientBehavior stats q = (stats, false) := if_pos h

theorem analyze_new (h : EcsPlugin.isLoopback q.clientIp = false)
    (hnone : stats q.clientIp = none) :
    analyzeClientBehavior stats q = (PartialMap.put stats q.clientIp (.new q), false) := by
  unfold analyzeClientBehavior
  rw [if_neg (by rw [h]; decide), hnone]

theorem analyze_known (h : EcsPlugin.isLoopback q.clientIp = false) {s : ClientStats K}
    (hsome : stats q.clientIp = some s) :
    analyzeClientBehavior stats q =
      (PartialMap.put stats q.clientIp (s.query q).1, (s.query q).2) := by
  unfold analyzeClientBehavior
  rw [if_neg (by rw [h]; decide), hsome]

theorem evaluates_known (h : EcsPlugin.isLoopback q.clientIp = false) {s : ClientStats K}
    (hsome : stats q.clientIp = some s) :
    evaluates q.clientIp stats q = (s.evaluates q).toList := by
  unfold evaluates
  rw [if_pos ⟨rfl, h⟩, hsome, Option.bind_some]

theorem call_new (h : EcsPlugin.isLoopback q.clientIp = false) (hnone : stats q.clientIp = none) :
    call stats q q.clientIp = some (.new q) := by
  rw [call, analyze_new h hnone]
  exact PartialMap.put_self _ _ _

theorem call_known (h : EcsPlugin.isLoopback q.clientIp = false) {s : ClientStats K}
    (hsome : stats q.clientIp = some s) : call stats q q.clientIp = some (s.query q).1 := by
  rw [call, analyze_known h hsome]
  exact PartialMap.put_self _ _ _

/-- **What one query does to a client that is not blocked**: its evaluation brings it to the level
and it is refused, or it does not and its score goes on. -/
theorem query_tracks {s : ClientStats K} {es : List (Evaluation K)} (h : Tracks es (some s))
    (hnot : ¬ Reaches es) (q : ClientQuery) :
    ((s.query q).2 = true ∧ Reaches (es ++ (s.evaluates q).toList)) ∨
      ((s.query q).2 = false ∧ ¬ Reaches (es ++ (s.evaluates q).toList) ∧
        Tracks (es ++ (s.evaluates q).toList) (some (s.query q).1)) := by
  obtain ⟨hblocked, hscore⟩ := h
  have hcounted := ClientStats.counted_of_not hblocked q
  cases heval : s.evaluates q with
  | none =>
    right
    rw [ClientStats.query_of_none hblocked heval, hcounted, Option.toList_none, List.append_nil]
    exact ⟨rfl, hnot, hblocked, hscore⟩
  | some e =>
    rw [ClientStats.query_of_some hblocked heval, hcounted, Option.toList_some, reaches_concat,
      ← hscore]
    unfold ClientStats.judged
    by_cases hlevel : 100.0 ≤ e.raised s.suspicionScore
    · rw [if_pos hlevel]
      exact Or.inl ⟨rfl, Or.inr hlevel⟩
    · right
      rw [if_neg hlevel]
      refine ⟨rfl, fun hreach => hreach.elim hnot hlevel, ?_, ?_⟩
      · rw [ClientStats.rewound_isBlocked]
        exact hblocked
      · rw [ClientStats.rewound_suspicionScore, scoreOf_concat, ← hscore]

/-- The same of a call, whoever it is about. -/
theorem call_tracks {es : List (Evaluation K)} (h : Tracks es (stats ip)) (hnot : ¬ Reaches es)
    (q : ClientQuery) :
    (true ∈ verdict ip stats q ∧ Reaches (es ++ evaluates ip stats q)) ∨
      (true ∉ verdict ip stats q ∧ ¬ Reaches (es ++ evaluates ip stats q) ∧
        Tracks (es ++ evaluates ip stats q) (call stats q ip)) := by
  unfold verdict
  by_cases hip : q.clientIp = ip
  · subst hip
    rw [if_pos rfl, List.mem_singleton]
    cases hloop : EcsPlugin.isLoopback q.clientIp with
    | true =>
      right
      have hsame : call stats q = stats := by rw [call, analyze_loopback hloop]
      have hpass : (analyzeClientBehavior stats q).2 = false := by rw [analyze_loopback hloop]
      rw [evaluates, if_neg (by simp [hloop]), List.append_nil, hsame, hpass]
      exact ⟨by decide, hnot, h⟩
    | false =>
      cases hstats : stats q.clientIp with
      | none =>
        right
        rw [hstats] at h
        have hempty : es = [] := h
        subst hempty
        have hpass : (analyzeClientBehavior stats q).2 = false := by
          rw [analyze_new hloop hstats]
        have hnone : evaluates q.clientIp stats q = [] := by
          rw [evaluates, if_pos ⟨rfl, hloop⟩, hstats]
          rfl
        rw [call_new hloop hstats, hpass, hnone]
        exact ⟨by decide, hnot, rfl, rfl⟩
      | some s =>
        rw [hstats] at h
        have hanswer : (analyzeClientBehavior stats q).2 = (s.query q).2 := by
          rw [analyze_known hloop hstats]
        rw [call_known hloop hstats, hanswer, evaluates_known hloop hstats]
        rcases query_tracks h hnot q with ⟨hrefused, hlevel⟩ | ⟨hpass, hlevel, hnext⟩
        · exact Or.inl ⟨hrefused.symm, hlevel⟩
        · exact Or.inr ⟨by rw [hpass]; decide, hlevel, hnext⟩
  · right
    rw [evaluates, if_neg hip, if_neg fun h => hip h.1, List.append_nil, call_of_ne hip]
    exact ⟨List.not_mem_nil, hnot, h⟩

theorem evaluationsOf_concat (ip : IpAddr) (calls : List ClientQuery) (q : ClientQuery) :
    evaluationsOf K ip (calls ++ [q]) =
      evaluationsOf K ip calls ++ evaluates ip (run call PartialMap.empty calls) q := by
  rw [evaluationsOf, trace_append, trace, trace, List.append_nil]
  rfl

theorem hasBlocked_concat (ip : IpAddr) (calls : List ClientQuery) (q : ClientQuery) :
    HasBlocked K ip (calls ++ [q]) ↔ HasBlocked K ip calls ∨
      true ∈ verdict ip
        (run call (PartialMap.empty : IpAddr → Option (ClientStats K)) calls) q := by
  unfold HasBlocked
  rw [trace_append, List.mem_append, trace, trace, List.append_nil]

/-- After any run the client has been blocked by its score, or the score goes on. -/
theorem run_tracks (ip : IpAddr) (calls : List ClientQuery) :
    (HasBlocked K ip calls ∧ Reaches (evaluationsOf K ip calls)) ∨
      (¬ HasBlocked K ip calls ∧ ¬ Reaches (evaluationsOf K ip calls) ∧
        Tracks (evaluationsOf K ip calls) (run call PartialMap.empty calls ip)) := by
  induction calls using List.reverseRecOn with
  | nil =>
    refine Or.inr ⟨List.not_mem_nil, ?_, rfl⟩
    rintro ⟨before, e, after, heq, -⟩
    exact absurd heq (by simp [evaluationsOf, trace])
  | append_singleton calls q ih =>
    rw [hasBlocked_concat, evaluationsOf_concat, run_append]
    rcases ih with ⟨hblocked, hreaches⟩ | ⟨hblocked, hreaches, htracks⟩
    · exact Or.inl ⟨Or.inl hblocked, hreaches.append _⟩
    · rcases call_tracks htracks hreaches q with ⟨hverdict, hlevel⟩ | ⟨hverdict, hlevel, hnext⟩
      · exact Or.inl ⟨Or.inr hverdict, hlevel⟩
      · exact Or.inr ⟨fun h => h.elim hblocked hverdict, hlevel, hnext⟩

/-- **A client is blocked exactly when its evaluations reach the level.** -/
theorem hasBlocked_iff (ip : IpAddr) (calls : List ClientQuery) :
    HasBlocked K ip calls ↔ Reaches (evaluationsOf K ip calls) := by
  rcases run_tracks (K := K) ip calls with ⟨hblocked, hreaches⟩ | ⟨hblocked, hreaches, -⟩
  · exact ⟨fun _ => hreaches, fun _ => hblocked⟩
  · exact ⟨fun h => absurd h hblocked, fun h => absurd h hreaches⟩

/-! ## Streams of calls -/

/-- The rate exceeds the threshold of a rule: 100 queries a second, or 10 where most of the answers
are NXDOMAIN. -/
def Evaluation.Exceeds (e : Evaluation K) : Prop :=
  100.0 < e.qps ∨ (10.0 < e.qps ∧ 0.8 < e.nxRatio)

/-- A high rate without an NXDOMAIN flood. -/
theorem Evaluation.raised_of_rate {e : Evaluation K} (hqps : 100.0 < e.qps)
    (hnx : ¬ 0.8 < e.nxRatio) (score : K) : e.raised score = score + 20.0 := by
  have hnot : ¬ (10.0 < e.qps ∧ 0.8 < e.nxRatio) := fun hboth => hnx hboth.2
  unfold raised
  simp only [if_neg hnot, if_pos hqps]

/-- The first calls of a stream. -/
def firstCalls (calls : ℕ → ClientQuery) (m : ℕ) : List ClientQuery := (List.range m).map calls

variable (K) in
/-- The client exceeds the threshold at every one of its evaluations. -/
def Flooding (ip : IpAddr) (calls : ℕ → ClientQuery) : Prop :=
  ∀ m, ∀ e ∈ evaluationsOf K ip (firstCalls calls m), e.Exceeds

variable (K) in
/-- The client exceeds the threshold at none of its evaluations. -/
def Quiet (ip : IpAddr) (calls : ℕ → ClientQuery) : Prop :=
  ∀ m, ∀ e ∈ evaluationsOf K ip (firstCalls calls m), ¬ e.Exceeds

variable (K) in
/-- A flood is blocked by some evaluation at the latest, and a quiet client never. -/
def FloodDetected (ip : IpAddr) (calls : ℕ → ClientQuery) : Prop :=
  (Flooding K ip calls → ∃ n, ∀ m, n ≤ (evaluationsOf K ip (firstCalls calls m)).length →
    HasBlocked K ip (firstCalls calls m)) ∧
  (Quiet K ip calls → ∀ m, ¬ HasBlocked K ip (firstCalls calls m))

variable (K) in
/-- The client is evaluated again and again. -/
def EvaluatedForever (ip : IpAddr) (calls : ℕ → ClientQuery) : Prop :=
  ∀ n, ∃ m, n ≤ (evaluationsOf K ip (firstCalls calls m)).length

theorem firstCalls_succ (calls : ℕ → ClientQuery) (m : ℕ) :
    firstCalls calls (m + 1) = firstCalls calls m ++ [calls m] := by
  rw [firstCalls, List.range_succ, List.map_append]
  rfl

variable (K) in
/-- The evaluations only grow. -/
theorem evaluationsOf_le (ip : IpAddr) (calls : ℕ → ClientQuery) {m m' : ℕ} (h : m ≤ m') :
    evaluationsOf K ip (firstCalls calls m) <+: evaluationsOf K ip (firstCalls calls m') := by
  induction h with
  | refl => exact List.prefix_refl _
  | step _ ih =>
    rw [firstCalls_succ, evaluationsOf_concat]
    exact ih.trans (List.prefix_append _ _)

theorem hasBlocked_mono {ip : IpAddr} {calls : ℕ → ClientQuery} {m m' : ℕ} (h : m ≤ m')
    (hblocked : HasBlocked K ip (firstCalls calls m)) :
    HasBlocked K ip (firstCalls calls m') := by
  rw [hasBlocked_iff] at hblocked ⊢
  obtain ⟨later, hlater⟩ := evaluationsOf_le K ip calls h
  rw [← hlater]
  exact hblocked.append _

/-- A client once blocked had been blocked by the number of evaluations it had then. -/
theorem blocked_by_then {ip : IpAddr} {calls : ℕ → ClientQuery} {m m' : ℕ}
    (hblocked : HasBlocked K ip (firstCalls calls m))
    (hcount : (evaluationsOf K ip (firstCalls calls m)).length ≤
      (evaluationsOf K ip (firstCalls calls m')).length) :
    HasBlocked K ip (firstCalls calls m') := by
  rcases Nat.le_total m m' with h | h
  · exact hasBlocked_mono h hblocked
  · have hsame := (evaluationsOf_le K ip calls h).eq_of_length_le hcount
    rw [hasBlocked_iff] at hblocked ⊢
    rwa [hsame]

end

/-! ## The arithmetic of the code -/

/-- A high rate alone, evaluation after evaluation, comes to the level in `n` evaluations. -/
def rateReaches : ℕ → Float → Bool
  | 0, _ => false
  | n + 1, score => decide (100.0 ≤ score + 20.0) || rateReaches n ((score + 20.0) * 0.8)

theorem reaches_of_rateReaches {n : ℕ} {before es : List (Evaluation Float)}
    (h : rateReaches n (scoreOf before) = true) (hlength : n ≤ es.length)
    (hrate : ∀ e ∈ es, 100.0 < e.qps ∧ ¬ 0.8 < e.nxRatio) : Reaches (before ++ es) := by
  induction n generalizing before es with
  | zero => cases h
  | succ n ih =>
    cases es with
    | nil => cases hlength
    | cons e es =>
      obtain ⟨hqps, hnx⟩ := hrate e List.mem_cons_self
      have hraised (score : Float) : e.raised score = score + 20.0 :=
        Evaluation.raised_of_rate hqps hnx score
      rw [rateReaches, Bool.or_eq_true, decide_eq_true_eq] at h
      rcases h with h | h
      · exact ⟨before, e, es, rfl, by rw [hraised]; exact h⟩
      · have hnext : rateReaches n (scoreOf (before ++ [e])) = true := by
          rw [scoreOf_concat, hraised]
          exact h
        have hrest := ih hnext (Nat.le_of_succ_le_succ hlength)
          fun e' he' => hrate e' (List.mem_cons_of_mem _ he')
        rwa [List.append_assoc] at hrest

/-- The decayed score is rounded up to 80 in the end. -/
theorem rateReaches_160 : rateReaches 160 0.0 = true := by decide +kernel

/-- **A high rate alone is blocked by its 160th evaluation.** -/
theorem rate_blocks_binary64 {ip : IpAddr} {calls : List ClientQuery}
    (hrate : ∀ e ∈ evaluationsOf Float ip calls, 100.0 < e.qps ∧ ¬ 0.8 < e.nxRatio)
    (hmany : 160 ≤ (evaluationsOf Float ip calls).length) : HasBlocked Float ip calls := by
  rw [hasBlocked_iff]
  exact @reaches_of_rateReaches 160 [] _ rateReaches_160 hmany hrate

/-! ## Exact arithmetic -/

namespace Evaluation

variable {e : Evaluation ℚ}

/-- What an evaluation adds to the score. -/
def points (e : Evaluation ℚ) : ℚ :=
  (if 10 < e.qps ∧ 4 / 5 < e.nxRatio then 50 else 0) + if 100 < e.qps then 20 else 0

theorem raised_eq (e : Evaluation ℚ) (score : ℚ) : e.raised score = score + e.points := by
  have hten : (10.0 : ℚ) = 10 := by norm_num
  have hshare : (0.8 : ℚ) = 4 / 5 := by norm_num
  have hhundred : (100.0 : ℚ) = 100 := by norm_num
  unfold raised points
  rw [hten, hshare, hhundred]
  dsimp only
  split
  · split <;> norm_num [add_assoc]
  · split <;> norm_num

theorem exceeds_iff : e.Exceeds ↔ 100 < e.qps ∨ (10 < e.qps ∧ 4 / 5 < e.nxRatio) := by
  unfold Exceeds
  norm_num

/-- What an NXDOMAIN flood brings beyond what the decay takes away. -/
def nxWeight (e : Evaluation ℚ) : ℚ :=
  if 4 / 5 < e.nxRatio then if 100 < e.qps then 50 else 30 else 0

/-- At the level the decay takes away 20 points. -/
theorem leak_eq : Decay.leak (4 / 5 : ℚ) 100 = 20 := by norm_num [Decay.leak]

/-- **A rate over the threshold is worth the leak, and an NXDOMAIN flood more.** -/
theorem points_of_exceeds (h : e.Exceeds) : e.points - 20 = e.nxWeight := by
  rw [exceeds_iff] at h
  unfold points nxWeight
  by_cases hrate : 100 < e.qps
  · have hten : 10 < e.qps := by linarith
    by_cases hnx : 4 / 5 < e.nxRatio
    · rw [if_pos ⟨hten, hnx⟩, if_pos hrate, if_pos hnx, if_pos hrate]
      norm_num
    · rw [if_neg fun h => hnx h.2, if_pos hrate, if_neg hnx]
      norm_num
  · obtain ⟨hten, hnx⟩ := h.resolve_left hrate
    rw [if_pos ⟨hten, hnx⟩, if_neg hrate, if_pos hnx, if_neg hrate]
    norm_num

theorem points_of_not_exceeds (h : ¬ e.Exceeds) : e.points = 0 := by
  rw [exceeds_iff] at h
  unfold points
  rw [if_neg fun hnx => h (Or.inr hnx), if_neg fun hrate => h (Or.inl hrate), add_zero]

/-- A rate alone never brings more than the leak. -/
theorem points_le_leak (h : ¬ 4 / 5 < e.nxRatio) : e.points ≤ 20 := by
  unfold points
  rw [if_neg fun hnx => h hnx.2, zero_add]
  split
  · exact le_refl 20
  · norm_num

theorem nxWeight_nonneg (e : Evaluation ℚ) : 0 ≤ e.nxWeight := by
  unfold nxWeight
  split
  · split <;> norm_num
  · exact le_refl 0

end Evaluation

/-- What the evaluations of a client brought. -/
def pointsOf (ip : IpAddr) (calls : List ClientQuery) : List ℚ :=
  (evaluationsOf ℚ ip calls).map Evaluation.points

theorem scoreOf_eq (es : List (Evaluation ℚ)) :
    scoreOf es = Decay.score (4 / 5) (es.map Evaluation.points) := by
  have hdecay : (0.8 : ℚ) = 4 / 5 := by norm_num
  induction es using List.reverseRecOn with
  | nil =>
    show (0.0 : ℚ) = 0
    norm_num
  | append_singleton es e ih =>
    rw [scoreOf_concat, List.map_append, List.map_singleton, Decay.score_concat, ih,
      Evaluation.raised_eq, hdecay, mul_comm]

theorem reaches_iff (es : List (Evaluation ℚ)) :
    Reaches es ↔ Decay.Reaches (4 / 5) 100 (es.map Evaluation.points) := by
  have hlevel : (100.0 : ℚ) = 100 := by norm_num
  induction es using List.reverseRecOn with
  | nil =>
    constructor
    · rintro ⟨before, e, after, heq, -⟩
      exact absurd heq (by simp)
    · rintro ⟨before, a, after, heq, -⟩
      exact absurd heq (by simp)
  | append_singleton es e ih =>
    rw [reaches_concat, List.map_append, List.map_singleton, Decay.reaches_concat,
      Evaluation.raised_eq, scoreOf_eq, hlevel]
    exact or_congr_left ih

theorem hasBlocked_iff_points (ip : IpAddr) (calls : List ClientQuery) :
    HasBlocked ℚ ip calls ↔ Decay.Reaches (4 / 5) 100 (pointsOf ip calls) := by
  rw [hasBlocked_iff, reaches_iff, pointsOf]

/-- **Without an evaluation where most of the answers are NXDOMAIN nobody is blocked**, whatever the
rate. -/
theorem rate_never_blocks {ip : IpAddr} {calls : List ClientQuery}
    (h : ∀ e ∈ evaluationsOf ℚ ip calls, ¬ 4 / 5 < e.nxRatio) : ¬ HasBlocked ℚ ip calls := by
  rw [hasBlocked_iff_points]
  apply Decay.not_reaches (by norm_num) (by norm_num)
  intro a ha
  obtain ⟨e, he, rfl⟩ := List.mem_map.mp ha
  rw [Evaluation.leak_eq]
  exact Evaluation.points_le_leak (h e he)

/-- The weighted NXDOMAIN floods among the evaluations, the later ones with more weight. -/
def nxSurplus (evaluations : List (Evaluation ℚ)) : ℚ :=
  Decay.series (5 / 4) (evaluations.map Evaluation.nxWeight)

/-- **A client that exceeds the threshold throughout is blocked exactly when its NXDOMAIN floods
weigh 80.** -/
theorem hasBlocked_of_exceeds {ip : IpAddr} {calls : List ClientQuery}
    (h : ∀ e ∈ evaluationsOf ℚ ip calls, e.Exceeds) :
    HasBlocked ℚ ip calls ↔ 80 ≤ nxSurplus (evaluationsOf ℚ ip calls) := by
  have hleak : ∀ a ∈ pointsOf ip calls, Decay.leak (4 / 5 : ℚ) 100 ≤ a := by
    intro a ha
    obtain ⟨e, he, rfl⟩ := List.mem_map.mp ha
    have hpoints := Evaluation.points_of_exceeds (h e he)
    have hweight := e.nxWeight_nonneg
    rw [Evaluation.leak_eq]
    linarith
  have hsurplus : Decay.surplus (4 / 5 : ℚ) 100 (pointsOf ip calls) =
      nxSurplus (evaluationsOf ℚ ip calls) := by
    have hratio : ((4 : ℚ) / 5)⁻¹ = 5 / 4 := by norm_num
    unfold Decay.surplus nxSurplus pointsOf
    rw [hratio, List.map_map, Evaluation.leak_eq]
    congr 1
    exact List.map_congr_left fun e he => Evaluation.points_of_exceeds (h e he)
  have hlevel : (4 : ℚ) / 5 * 100 = 80 := by norm_num
  rw [hasBlocked_iff_points, Decay.reaches_iff (by norm_num) (by norm_num) hleak, hsurplus, hlevel]

/-- **A client that never exceeds the threshold is never blocked.** -/
theorem quiet_never_blocked {ip : IpAddr} {calls : ℕ → ClientQuery} (h : Quiet ℚ ip calls)
    (m : ℕ) : ¬ HasBlocked ℚ ip (firstCalls calls m) := by
  rw [hasBlocked_iff_points]
  apply Decay.not_reaches (by norm_num) (by norm_num)
  intro a ha
  obtain ⟨e, he, rfl⟩ := List.mem_map.mp ha
  rw [Evaluation.leak_eq, Evaluation.points_of_not_exceeds (h m e he)]
  norm_num

/-- **A flood is detected exactly when its NXDOMAIN floods come to weigh 80.** -/
theorem floodDetected_iff (ip : IpAddr) (calls : ℕ → ClientQuery) :
    FloodDetected ℚ ip calls ↔ ¬ Flooding ℚ ip calls ∨ ¬ EvaluatedForever ℚ ip calls ∨
      ∃ m, 80 ≤ nxSurplus (evaluationsOf ℚ ip (firstCalls calls m)) := by
  constructor
  · rintro ⟨hdetected, -⟩
    by_contra hnot
    have hflooding : Flooding ℚ ip calls := by
      by_contra h
      exact hnot (Or.inl h)
    have hforever : EvaluatedForever ℚ ip calls := by
      by_contra h
      exact hnot (Or.inr (Or.inl h))
    obtain ⟨n, hn⟩ := hdetected hflooding
    obtain ⟨m, hm⟩ := hforever n
    have hweight := (hasBlocked_of_exceeds (hflooding m)).mp (hn m hm)
    exact hnot (Or.inr (Or.inr ⟨m, hweight⟩))
  · intro h
    refine ⟨fun hflooding => ?_, quiet_never_blocked⟩
    rcases h with h | h | ⟨m, hm⟩
    · exact absurd hflooding h
    · unfold EvaluatedForever at h
      push Not at h
      obtain ⟨n, hn⟩ := h
      exact ⟨n, fun m hm => absurd hm (Nat.not_le.mpr (hn m))⟩
    · have hblocked := (hasBlocked_of_exceeds (hflooding m)).mpr hm
      exact ⟨_, fun m' hm' => blocked_by_then hblocked hm'⟩

/-- **One NXDOMAIN flood after five evaluations is enough.** -/
theorem nx_flood_blocks {ip : IpAddr} {calls : List ClientQuery}
    (h : ∀ e ∈ evaluationsOf ℚ ip calls, e.Exceeds) {before after : List (Evaluation ℚ)}
    {e : Evaluation ℚ}
    (hsplit : evaluationsOf ℚ ip calls = before ++ e :: after) (hlate : 5 ≤ before.length)
    (hnx : 4 / 5 < e.nxRatio) : HasBlocked ℚ ip calls := by
  have hnonneg : ∀ es : List (Evaluation ℚ), 0 ≤ nxSurplus es := fun es => by
    apply Decay.series_nonneg (by norm_num)
    intro a ha
    obtain ⟨e, -, rfl⟩ := List.mem_map.mp ha
    exact e.nxWeight_nonneg
  have hweight : 30 ≤ e.nxWeight := by
    unfold Evaluation.nxWeight
    rw [if_pos hnx]
    split <;> norm_num
  have hpow : ((5 : ℚ) / 4) ^ 5 ≤ (5 / 4) ^ before.length :=
    pow_le_pow_right₀ (by norm_num) hlate
  have htail : 30 ≤ e.nxWeight + 5 / 4 * nxSurplus after := by
    have := hnonneg after
    linarith
  have hproduct : ((5 : ℚ) / 4) ^ 5 * 30 ≤
      (5 / 4) ^ before.length * (e.nxWeight + 5 / 4 * nxSurplus after) :=
    mul_le_mul hpow htail (by norm_num) (by positivity)
  have hsurplus : nxSurplus (before ++ e :: after) = nxSurplus before +
      (5 / 4) ^ before.length * (e.nxWeight + 5 / 4 * nxSurplus after) := by
    unfold nxSurplus
    rw [List.map_append, Decay.series_append, List.length_map, List.map_cons, Decay.series]
  rw [hasBlocked_of_exceeds h, hsplit, hsurplus]
  have hfirst := hnonneg before
  norm_num at hproduct
  linarith

/-! ## A steady stream -/

/-- A query of `192.0.2.1` every five milliseconds, none of them NXDOMAIN. -/
def steadyCalls (k : ℕ) : ClientQuery := ⟨.v4 ⟨192, 0, 2, 1⟩, false, 5000000 * k⟩

/-- The window began with call `k` and has counted every call since. -/
def SteadyWindow (m : ℕ) (s : ClientStats ℚ) : Prop :=
  s.nxdomainCount = 0 ∧ ∃ k, s.startTime = 5000000 * k ∧ k < m ∧ m ≤ s.totalQueries + 1 + k

namespace ClientStats

variable {s : ClientStats ℚ} {m k : ℕ}

theorem duration_eq (s : ClientStats ℚ) (now : ℕ) :
    s.duration now = ((now - s.startTime : ℕ) : ℚ) / SECOND := by
  have hsplit : ((now - s.startTime : ℕ) : ℚ) =
      SECOND * ((now - s.startTime) / SECOND : ℕ) + ((now - s.startTime) % SECOND : ℕ) := by
    exact_mod_cast (Nat.div_add_mod (now - s.startTime) SECOND).symm
  have hsecond : ((SECOND : ℕ) : ℚ) ≠ 0 := by norm_num [SECOND]
  show (((now - s.startTime) / SECOND : ℕ) : ℚ) +
    (((now - s.startTime) % SECOND : ℕ) : ℚ) / (SECOND : ℕ) = _
  rw [hsplit, add_div, mul_div_cancel_left₀ _ hsecond]

theorem evaluation_eq (s : ClientStats ℚ) (q : ClientQuery) :
    s.evaluation q =
      if s.due q.isNxdomain then
        if s.duration q.now < 1 then none
        else some ⟨s.totalQueries / s.duration q.now, s.nxdomainCount / s.totalQueries⟩
      else none := by
  have hone : (1.0 : ℚ) = 1 := by norm_num
  unfold evaluation
  rw [hone]
  rfl

theorem steady_duration (h : s.startTime = 5000000 * k) :
    s.duration (5000000 * m) = ((m - k : ℕ) : ℚ) / 200 := by
  have hspan : 5000000 * m - s.startTime = 5000000 * (m - k) := by
    rw [h, Nat.mul_sub]
  rw [duration_eq, hspan]
  unfold SECOND
  push_cast
  ring

theorem steady_counted (hblocked : s.isBlocked = false) :
    s.counted (steadyCalls m) =
      { s with totalQueries := s.totalQueries + 1, lastQuery := 5000000 * m } :=
  counted_of_not hblocked _

/-- An evaluation of the steady stream sees 200 queries a second. -/
theorem steady_evaluation (hblocked : s.isBlocked = false) (h : SteadyWindow m s) {e : Evaluation ℚ}
    (heval : s.evaluates (steadyCalls m) = some e) : 100 < e.qps ∧ e.nxRatio = 0 := by
  obtain ⟨hnx, k, hstart, hk, hcount⟩ := h
  have hduration := steady_duration (m := m) hstart
  rw [evaluates, barred_of_not hblocked, if_neg (by decide), steady_counted hblocked,
    evaluation_eq] at heval
  split at heval
  · split at heval
    · cases heval
    · next hlong =>
      cases heval
      have hcalls : ((m - k : ℕ) : ℚ) ≤ (s.totalQueries + 1 : ℕ) := by
        exact_mod_cast (by omega : m - k ≤ s.totalQueries + 1)
      have hsecond : 1 ≤ ((m - k : ℕ) : ℚ) / 200 := hduration ▸ not_lt.mp hlong
      constructor
      · show 100 < ((s.totalQueries + 1 : ℕ) : ℚ) / s.duration (5000000 * m)
        rw [hduration, lt_div_iff₀ (by linarith)]
        linarith
      · show ((s.nxdomainCount : ℕ) : ℚ) / ((s.totalQueries + 1 : ℕ) : ℚ) = 0
        rw [hnx]
        simp
  · cases heval

/-- The fiftieth query of a window that has lasted a second is evaluated. -/
theorem steady_due (hblocked : s.isBlocked = false) (hstart : s.startTime = 5000000 * k)
    (hfifty : (s.totalQueries + 1) % 50 = 0) (hlong : k + 200 ≤ m) :
    ∃ e, s.evaluates (steadyCalls m) = some e := by
  have hduration := steady_duration (m := m) hstart
  have hsecond : ¬ s.duration (5000000 * m) < 1 := by
    have hcalls : (200 : ℚ) ≤ ((m - k : ℕ) : ℚ) := by
      exact_mod_cast (by omega : 200 ≤ m - k)
    rw [hduration, not_lt, le_div_iff₀ (by norm_num)]
    linarith
  rw [evaluates, barred_of_not hblocked, if_neg (by decide), steady_counted hblocked, evaluation_eq,
    if_pos (by simp [due, hfifty])]
  refine ⟨_, if_neg ?_⟩
  exact hsecond

/-- One query of the steady stream keeps the window. -/
theorem steady_query (hblocked : s.isBlocked = false) (h : SteadyWindow m s) :
    SteadyWindow (m + 1) (s.query (steadyCalls m)).1 := by
  obtain ⟨hnx, k, hstart, hk, hcount⟩ := h
  cases heval : s.evaluates (steadyCalls m) with
  | none =>
    rw [query_of_none hblocked heval, steady_counted hblocked]
    refine ⟨hnx, k, hstart, by omega, ?_⟩
    show m + 1 ≤ s.totalQueries + 1 + 1 + k
    omega
  | some e =>
    rw [query_of_some hblocked heval, steady_counted hblocked]
    obtain ⟨htotal, hnxdomain, hbegin⟩ := judged_window
      { s with totalQueries := s.totalQueries + 1, lastQuery := 5000000 * m } e
    unfold rewound
    split
    · exact ⟨rfl, m, rfl, by omega, by omega⟩
    · refine ⟨hnxdomain.trans hnx, k, hbegin.trans hstart, by omega, ?_⟩
      rw [htotal]
      show m + 1 ≤ s.totalQueries + 1 + 1 + k
      omega

end ClientStats

/-- The table after the first calls of the steady stream. -/
def steadyStats (m : ℕ) : Option (ClientStats ℚ) :=
  run call PartialMap.empty (firstCalls steadyCalls m) (.v4 ⟨192, 0, 2, 1⟩)

/-- Its evaluations. -/
def steadyEvaluations (m : ℕ) : List (Evaluation ℚ) :=
  evaluationsOf ℚ (.v4 ⟨192, 0, 2, 1⟩) (firstCalls steadyCalls m)

theorem steadyStats_one : steadyStats 1 = some (.new (steadyCalls 0)) :=
  call_new (q := steadyCalls 0) rfl rfl

theorem steadyStats_succ {m : ℕ} {s : ClientStats ℚ} (h : steadyStats m = some s) :
    steadyStats (m + 1) = some (s.query (steadyCalls m)).1 := by
  unfold steadyStats
  rw [firstCalls_succ, run_append]
  exact call_known (q := steadyCalls m) rfl h

theorem steadyEvaluations_succ {m : ℕ} {s : ClientStats ℚ} (h : steadyStats m = some s) :
    steadyEvaluations (m + 1) = steadyEvaluations m ++ (s.evaluates (steadyCalls m)).toList := by
  unfold steadyEvaluations
  rw [firstCalls_succ, evaluationsOf_concat]
  exact congrArg _ (evaluates_known (q := steadyCalls m) rfl h)

/-- **The steady stream**: it is not blocked, its window counts every call, and its evaluations
see a high rate without an NXDOMAIN. -/
theorem steady (m : ℕ) :
    (∀ e ∈ steadyEvaluations (m + 1), 100 < e.qps ∧ e.nxRatio = 0) ∧
      ∃ s, steadyStats (m + 1) = some s ∧ s.isBlocked = false ∧ SteadyWindow (m + 1) s := by
  induction m with
  | zero =>
    refine ⟨fun e he => ?_, _, steadyStats_one, rfl, rfl, 0, rfl, by decide, by decide⟩
    have hnone : steadyEvaluations 1 = [] := rfl
    rw [hnone] at he
    cases he
  | succ m ih =>
    obtain ⟨hevals, s, hs, hblocked, hwindow⟩ := ih
    have hnext : ∀ e ∈ steadyEvaluations (m + 2), 100 < e.qps ∧ e.nxRatio = 0 := by
      intro e he
      rw [steadyEvaluations_succ hs] at he
      rcases List.mem_append.mp he with he | he
      · exact hevals e he
      · exact ClientStats.steady_evaluation hblocked hwindow (Option.mem_toList.mp he)
    have hnever : ¬ HasBlocked ℚ (.v4 ⟨192, 0, 2, 1⟩) (firstCalls steadyCalls (m + 2)) := by
      apply rate_never_blocks
      intro e he
      rw [(hnext e he).2]
      norm_num
    refine ⟨hnext, _, steadyStats_succ hs, ?_, ClientStats.steady_query hblocked hwindow⟩
    have htracks := run_tracks (K := ℚ) (.v4 ⟨192, 0, 2, 1⟩) (firstCalls steadyCalls (m + 2))
    rcases htracks with h | ⟨-, -, h⟩
    · exact absurd h.1 hnever
    · have hentry : run call PartialMap.empty (firstCalls steadyCalls (m + 2))
          (.v4 ⟨192, 0, 2, 1⟩) = some (s.query (steadyCalls (m + 1))).1 := steadyStats_succ hs
      rw [hentry] at h
      exact h.1

/-- Without another evaluation the window only counts. -/
theorem steady_counts {m k : ℕ} {s : ClientStats ℚ} (hs : steadyStats m = some s)
    (hblocked : s.isBlocked = false) (hstart : s.startTime = 5000000 * k)
    (hnone : ∀ m', (steadyEvaluations m').length ≤ (steadyEvaluations m).length) (j : ℕ) :
    ∃ s', steadyStats (m + j) = some s' ∧ s'.isBlocked = false ∧ s'.startTime = 5000000 * k ∧
      s'.totalQueries = s.totalQueries + j ∧
      (steadyEvaluations (m + j)).length = (steadyEvaluations m).length := by
  induction j with
  | zero => exact ⟨s, hs, hblocked, hstart, rfl, rfl⟩
  | succ j ih =>
    obtain ⟨s', hs', hblocked', hstart', htotal', hlength'⟩ := ih
    have hevals := steadyEvaluations_succ hs'
    cases heval : s'.evaluates (steadyCalls (m + j)) with
    | none =>
      rw [heval, Option.toList_none, List.append_nil] at hevals
      have hnext := steadyStats_succ hs'
      rw [ClientStats.query_of_none hblocked' heval, ClientStats.steady_counted hblocked'] at hnext
      refine ⟨_, hnext, hblocked', hstart', ?_, ?_⟩
      · show s'.totalQueries + 1 = s.totalQueries + (j + 1)
        omega
      · have hsame : steadyEvaluations (m + (j + 1)) = steadyEvaluations (m + j) := hevals
        rw [hsame, hlength']
    | some e =>
      have hbound := hnone (m + j + 1)
      rw [hevals, heval, List.length_append, Option.toList_some, List.length_singleton] at hbound
      omega

/-- **The steady stream is evaluated again and again.** -/
theorem steady_forever : EvaluatedForever ℚ (.v4 ⟨192, 0, 2, 1⟩) steadyCalls := by
  have hmore : ∀ m, ∃ m', (steadyEvaluations (m + 1)).length < (steadyEvaluations m').length := by
    intro m
    by_contra hnot
    push Not at hnot
    obtain ⟨-, s, hs, hblocked, -, k, hstart, -, -⟩ := steady m
    -- it comes to a fiftieth query of a window that has lasted a second
    obtain ⟨j, hlong, hfifty⟩ : ∃ j, 200 + k ≤ j ∧ (s.totalQueries + j + 1) % 50 = 0 :=
      ⟨(200 + k) * 50 + (49 - s.totalQueries % 50), by omega, by omega⟩
    obtain ⟨s', hs', hblocked', hstart', htotal', hlength'⟩ :=
      steady_counts hs hblocked hstart hnot j
    obtain ⟨e, he⟩ := ClientStats.steady_due (m := m + 1 + j) hblocked' hstart'
      (by rw [htotal']; exact hfifty) (by omega)
    have hbound := hnot (m + 1 + j + 1)
    rw [steadyEvaluations_succ hs', he, List.length_append, Option.toList_some,
      List.length_singleton] at hbound
    omega
  intro n
  induction n with
  | zero => exact ⟨0, Nat.zero_le _⟩
  | succ n ih =>
    obtain ⟨m, hm⟩ := ih
    obtain ⟨m', hm'⟩ := hmore m
    have hgrow := (evaluationsOf_le ℚ (.v4 ⟨192, 0, 2, 1⟩) steadyCalls (Nat.le_succ m)).length_le
    exact ⟨m', Nat.lt_of_le_of_lt (hm.trans hgrow) hm'⟩

/-- **Two hundred queries a second for ever, none of them NXDOMAIN, are never blocked.** -/
theorem steady_flood_undetected : ¬ FloodDetected ℚ (.v4 ⟨192, 0, 2, 1⟩) steadyCalls := by
  rintro ⟨hdetected, -⟩
  have hevals : ∀ m, ∀ e ∈ steadyEvaluations m, 100 < e.qps ∧ e.nxRatio = 0 := by
    intro m e he
    have hlater := evaluationsOf_le ℚ (.v4 ⟨192, 0, 2, 1⟩) steadyCalls (Nat.le_succ m)
    exact (steady m).1 e (hlater.subset he)
  obtain ⟨n, hn⟩ := hdetected fun m e he =>
    Evaluation.exceeds_iff.mpr (Or.inl (hevals m e he).1)
  obtain ⟨m, hm⟩ := steady_forever n
  refine rate_never_blocks (fun e he => ?_) (hn m hm)
  rw [(hevals m e he).2]
  norm_num

end TitanDns.Autopilot
