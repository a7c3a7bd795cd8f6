import TitanDns.Lib.PartialMap
import TitanDns.Lib.Run
import TitanDns.Server.BestIps

/-!
# Verdicts on addresses

How the table of address qualities comes about from the results of connections.

* `IpRecord`, `recordSuccess`, `recordFailure` — a record with its counters, which wrap;
  `recordIpQuality` — one result; `tableOf` — what the filters read of it.
* `resultsOf` — the results of one address, the newest first; `reachableAfter` — the verdict on
  them; `run_record` — **the record is that of the results of its address.**
* `Justified` — the last three results are failures, or a majority of at least three.
* `Misjudged` — the address has failed lately, but neither three times in a row nor mostly, and the
  counters reach their bounds all the same.

Principal result: `known_bad_justified_iff` — **a bad verdict is justified exactly when the address
is not misjudged**: the failures are counted in all, a success does not reset them.
-/

namespace TitanDns

open Run

/-! ## Records -/

/-- `IpQuality`, with the counters of `u32`; times in milliseconds. -/
structure IpRecord where
  reachable : Bool
  tcpLatencyMs : Option Nat
  lastCheck : Nat
  checkCount : UInt32
  failCount : UInt32

namespace IpRecord

/-- `IpQuality::new` -/
def new (now : Nat) : IpRecord := ⟨true, none, now, 0, 0⟩

/-- The condition of `record_failure`, on the counters after the failure. -/
def trips (failCount checkCount : UInt32) : Bool :=
  3 ≤ failCount || (3 ≤ checkCount && checkCount < failCount * 2)

/-- `record_success` -/
def recordSuccess (r : IpRecord) (now latencyMs : Nat) : IpRecord :=
  { r with
    reachable := true
    tcpLatencyMs := some latencyMs
    lastCheck := now
    checkCount := r.checkCount + 1 }

/-- `record_failure` -/
def recordFailure (r : IpRecord) (now : Nat) : IpRecord :=
  let r := { r with
    failCount := r.failCount + 1
    checkCount := r.checkCount + 1
    lastCheck := now }
  if trips r.failCount r.checkCount then { r with reachable := false } else r

/-- What the filters read of a record. -/
def entry (r : IpRecord) : IpEntry := ⟨⟨r.reachable, r.tcpLatencyMs⟩, r.lastCheck⟩

end IpRecord

/-- A call of `record_ip_quality` and its time. -/
structure IpResult where
  ip : IpAddr
  now : Nat
  reachable : Bool
  latencyMs : Option Nat

/-- What one result does to a record. -/
def IpRecord.take (r : IpRecord) (e : IpResult) : IpRecord :=
  if e.reachable then r.recordSuccess e.now (e.latencyMs.getD 0) else r.recordFailure e.now

/-- `record_ip_quality` -/
def recordIpQuality (cache : IpAddr → Option IpRecord) (e : IpResult) : IpAddr → Option IpRecord :=
  PartialMap.put cache e.ip <|
    match cache e.ip with
    | some r => r.take e
    | none => (IpRecord.new e.now).take e

/-- The table that the filters read. -/
def tableOf (cache : IpAddr → Option IpRecord) : IpTable := fun ip => (cache ip).map IpRecord.entry

/-! ## Histories -/

/-- The results of an address, the newest first. -/
def resultsOf (ip : IpAddr) (es : List IpResult) : List IpResult :=
  es.reverse.filter fun e => e.ip = ip

/-- Whether each of them was a success. -/
def outcomes (rs : List IpResult) : List Bool := rs.map (·.reachable)

/-- The counters trip at the newest of these outcomes. -/
def Trips (os : List Bool) : Prop :=
  IpRecord.trips (.ofNat (os.count false)) (.ofNat os.length) = true

instance (os : List Bool) : Decidable (Trips os) := inferInstanceAs (Decidable (_ = true))

/-- The verdict: a success restores it, a failure changes it only where the counters trip. -/
def reachableAfter : List Bool → Bool
  | [] => true
  | true :: _ => true
  | false :: os => if Trips (false :: os) then false else reachableAfter os

/-- The record of an address and its results. -/
structure RecordOf (r : IpRecord) (rs : List IpResult) : Prop where
  reachable : r.reachable = reachableAfter (outcomes rs)
  failCount : r.failCount = .ofNat ((outcomes rs).count false)
  checkCount : r.checkCount = .ofNat (outcomes rs).length
  lastCheck : ∀ e rest, rs = e :: rest → r.lastCheck = e.now

theorem new_recordOf (now : Nat) : RecordOf (.new now) [] where
  reachable := rfl
  failCount := rfl
  checkCount := rfl
  lastCheck _ _ h := by cases h

/-- **One result keeps the record that of its results.** -/
theorem RecordOf.take {r : IpRecord} {rs : List IpResult} (h : RecordOf r rs) (e : IpResult) :
    RecordOf (r.take e) (e :: rs) := by
  have hcheck : r.checkCount + 1 = .ofNat ((outcomes rs).length + 1) := by
    rw [h.checkCount, UInt32.ofNat_add]
    rfl
  have hnewest : ∀ e' rest, e :: rs = e' :: rest → e.now = e'.now := by
    intro e' rest heq
    rw [(List.cons.inj heq).1]
  have houtcomes : outcomes (e :: rs) = e.reachable :: outcomes rs := rfl
  unfold IpRecord.take
  cases hreach : e.reachable with
  | true =>
    rw [if_pos rfl]
    constructor
    · rw [houtcomes, hreach]
      rfl
    · rw [houtcomes, hreach, List.count_cons_of_ne (by decide)]
      exact h.failCount
    · rw [houtcomes, List.length_cons]
      exact hcheck
    · exact hnewest
  | false =>
    rw [if_neg (by decide)]
    have hfail : r.failCount + 1 = .ofNat ((outcomes rs).count false + 1) := by
      rw [h.failCount, UInt32.ofNat_add]
      rfl
    have htrips : IpRecord.trips (r.failCount + 1) (r.checkCount + 1) = true ↔
        Trips (false :: outcomes rs) := by
      rw [hfail, hcheck, Trips, List.count_cons_self, List.length_cons]
    by_cases htrip : IpRecord.trips (r.failCount + 1) (r.checkCount + 1) = true
    · have hrecord : r.recordFailure e.now =
          ⟨false, r.tcpLatencyMs, e.now, r.checkCount + 1, r.failCount + 1⟩ := if_pos htrip
      rw [hrecord]
      constructor
      · rw [houtcomes, hreach, reachableAfter, if_pos (htrips.mp htrip)]
      · rw [houtcomes, hreach, List.count_cons_self]
        exact hfail
      · rw [houtcomes, List.length_cons]
        exact hcheck
      · exact hnewest
    · have hrecord : r.recordFailure e.now =
          ⟨r.reachable, r.tcpLatencyMs, e.now, r.checkCount + 1, r.failCount + 1⟩ := if_neg htrip
      rw [hrecord]
      constructor
      · rw [houtcomes, hreach, reachableAfter, if_neg fun ht => htrip (htrips.mpr ht)]
        exact h.reachable
      · rw [houtcomes, hreach, List.count_cons_self]
        exact hfail
      · rw [houtcomes, List.length_cons]
        exact hcheck
      · exact hnewest

/-- The cache against the results so far, the newest first. -/
def Recorded (cache : IpAddr → Option IpRecord) (rs : List IpResult) : Prop :=
  ∀ ip, (cache ip = none ∧ rs.filter (fun e => e.ip = ip) = []) ∨
    ∃ r, cache ip = some r ∧ RecordOf r (rs.filter fun e => e.ip = ip)

theorem step_recorded {cache : IpAddr → Option IpRecord} {rs : List IpResult}
    (h : Recorded cache rs) (e : IpResult) : Recorded (recordIpQuality cache e) (e :: rs) := by
  intro ip
  by_cases hip : e.ip = ip
  · subst hip
    right
    rw [List.filter_cons_of_pos (by simp)]
    unfold recordIpQuality
    rw [PartialMap.put_self]
    rcases h e.ip with ⟨hnone, hempty⟩ | ⟨r, hsome, hrecord⟩
    · rw [hnone, hempty]
      exact ⟨_, rfl, (new_recordOf e.now).take e⟩
    · rw [hsome]
      exact ⟨_, rfl, hrecord.take e⟩
  · have hother : recordIpQuality cache e ip = cache ip := PartialMap.put_of_ne (Ne.symm hip) _ _
    rw [List.filter_cons_of_neg (by simpa using hip), hother]
    exact h ip

/-- **After any run, the record of an address is that of its results.** -/
theorem run_record (es : List IpResult) (ip : IpAddr) :
    (run recordIpQuality PartialMap.empty es ip = none ∧ resultsOf ip es = []) ∨
      ∃ r, run recordIpQuality PartialMap.empty es ip = some r ∧ RecordOf r (resultsOf ip es) := by
  have hstart : Recorded PartialMap.empty [] := fun _ => Or.inl ⟨rfl, rfl⟩
  have hhistory : run (fun rs e => e :: rs) [] es = es.reverse := by
    have hpush : ∀ acc : List IpResult, run (fun rs e => e :: rs) acc es = es.reverse ++ acc := by
      induction es with
      | nil => exact fun _ => rfl
      | cons e es ih =>
        intro acc
        rw [run_cons, ih, List.reverse_cons, List.append_assoc]
        rfl
    rw [hpush, List.append_nil]
  have h := simulation (R := Recorded) (fun _ _ e h => step_recorded h e) hstart es
  rw [hhistory] at h
  exact h ip

/-! ## Justified and misjudged -/

/-- The last three results are failures. -/
def LastThreeFailed (os : List Bool) : Prop := ∃ rest, os = false :: false :: false :: rest

/-- Most of at least three results are failures. -/
def MostlyFailed (os : List Bool) : Prop := 3 ≤ os.length ∧ os.length < 2 * os.count false

/-- The reasons for a bad verdict. -/
def Justified (os : List Bool) : Prop := LastThreeFailed os ∨ MostlyFailed os

/-- The counters trip at the last result or at the one before, both failures. -/
def TripsLately (os : List Bool) : Prop :=
  (∃ rest, os = false :: rest ∧ Trips os) ∨
    ∃ rest, os = false :: false :: rest ∧ Trips (false :: rest)

/-- The last result of the address is at most a minute old. -/
def Recent (ip : IpAddr) (es : List IpResult) (now : Nat) : Prop :=
  ∃ e rest, resultsOf ip es = e :: rest ∧ now - e.now ≤ 60000

/-- The address has failed lately and the counters trip, with no reason for a bad verdict. -/
structure Misjudged (ip : IpAddr) (es : List IpResult) (now : Nat) : Prop where
  recent : Recent ip es now
  trips : TripsLately (outcomes (resultsOf ip es))
  notThree : ¬ LastThreeFailed (outcomes (resultsOf ip es))
  notMost : ¬ MostlyFailed (outcomes (resultsOf ip es))

/-- **Short of three failures in a row, the verdict is that of the last two.** -/
theorem reachableAfter_eq_false_iff {os : List Bool} (h : ¬ LastThreeFailed os) :
    reachableAfter os = false ↔ TripsLately os := by
  constructor
  · intro hbad
    cases os with
    | nil => cases hbad
    | cons last os =>
      cases last with
      | true => cases hbad
      | false =>
        rw [reachableAfter] at hbad
        by_cases hlast : Trips (false :: os)
        · exact Or.inl ⟨os, rfl, hlast⟩
        · rw [if_neg hlast] at hbad
          cases os with
          | nil => cases hbad
          | cons before os =>
            cases before with
            | true => cases hbad
            | false =>
              rw [reachableAfter] at hbad
              by_cases hbefore : Trips (false :: os)
              · exact Or.inr ⟨os, rfl, hbefore⟩
              · rw [if_neg hbefore] at hbad
                cases os with
                | nil => cases hbad
                | cons third os =>
                  cases third with
                  | true => cases hbad
                  | false => exact absurd ⟨os, rfl⟩ h
  · rintro (⟨rest, rfl, htrips⟩ | ⟨rest, rfl, htrips⟩)
    · rw [reachableAfter, if_pos htrips]
    · rw [reachableAfter, reachableAfter, if_pos htrips]
      split <;> rfl

/-- A bad verdict, by the results of the address. -/
theorem isIpKnownBad_iff (es : List IpResult) (ip : IpAddr) (now : Nat) :
    (tableOf (run recordIpQuality PartialMap.empty es)).isIpKnownBad now ip = true ↔
      Recent ip es now ∧ reachableAfter (outcomes (resultsOf ip es)) = false := by
  unfold IpTable.isIpKnownBad tableOf Recent
  rcases run_record es ip with ⟨hnone, hempty⟩ | ⟨r, hsome, hrecord⟩
  · rw [hnone, hempty]
    simp [outcomes, reachableAfter]
  · rw [hsome, ← hrecord.reachable]
    cases hreach : r.reachable with
    | true => simp [IpRecord.entry, hreach]
    | false =>
      have hnonempty : ∃ e rest, resultsOf ip es = e :: rest := by
        cases hresults : resultsOf ip es with
        | nil =>
          have hgood := hrecord.reachable
          rw [hresults, hreach] at hgood
          cases hgood
        | cons e rest => exact ⟨e, rest, rfl⟩
      obtain ⟨e, rest, hresults⟩ := hnonempty
      have hcheck := hrecord.lastCheck e rest hresults
      simp [IpRecord.entry, IpEntry.needsRecheck, hreach, hcheck, hresults]

/-- **A bad verdict is justified exactly when the address is not misjudged.** -/
theorem known_bad_justified_iff (es : List IpResult) (ip : IpAddr) (now : Nat) :
    ((tableOf (run recordIpQuality PartialMap.empty es)).isIpKnownBad now ip = true →
      Justified (outcomes (resultsOf ip es))) ↔ ¬ Misjudged ip es now := by
  rw [isIpKnownBad_iff]
  constructor
  · intro h hmis
    rcases h ⟨hmis.recent, (reachableAfter_eq_false_iff hmis.notThree).mpr hmis.trips⟩ with h | h
    · exact hmis.notThree h
    · exact hmis.notMost h
  · rintro h ⟨hrecent, hbad⟩
    by_contra hnot
    have hthree : ¬ LastThreeFailed (outcomes (resultsOf ip es)) := fun ht => hnot (Or.inl ht)
    exact h ⟨hrecent, (reachableAfter_eq_false_iff hthree).mp hbad, hthree,
      fun hm => hnot (Or.inr hm)⟩

/-! ## Short histories -/

/-- Short of 2³¹ results nothing wraps. -/
theorem trips_iff {os : List Bool} (h : os.length < 2 ^ 31) :
    Trips os ↔ 3 ≤ os.count false ∨ MostlyFailed os := by
  have hcount : os.count false ≤ os.length := List.count_le_length
  have hfail : (UInt32.ofNat (os.count false)).toNat = os.count false :=
    UInt32.toNat_ofNat_of_lt' (by simp only [UInt32.size]; omega)
  have hcheck : (UInt32.ofNat os.length).toNat = os.length :=
    UInt32.toNat_ofNat_of_lt' (by simp only [UInt32.size]; omega)
  have hdouble : (UInt32.ofNat (os.count false) * 2).toNat = 2 * os.count false := by
    rw [UInt32.toNat_mul, hfail]
    have htwo : (2 : UInt32).toNat = 2 := rfl
    rw [htwo]
    omega
  have hthree : (3 : UInt32).toNat = 3 := rfl
  simp only [Trips, IpRecord.trips, MostlyFailed, Bool.or_eq_true, Bool.and_eq_true,
    decide_eq_true_eq, UInt32.le_iff_toNat_le, UInt32.lt_iff_toNat_lt, hfail, hcheck, hdouble,
    hthree]

/-- **Short of 2³¹ results, an address is misjudged when its last result is a recent failure, it has
three failures in all, and there is no reason for a bad verdict.** -/
theorem misjudged_iff {es : List IpResult} {ip : IpAddr} {now : Nat}
    (hlength : (resultsOf ip es).length < 2 ^ 31) :
    Misjudged ip es now ↔ Recent ip es now ∧ (outcomes (resultsOf ip es)).head? = some false ∧
      3 ≤ (outcomes (resultsOf ip es)).count false ∧ ¬ Justified (outcomes (resultsOf ip es)) := by
  have hlen : (outcomes (resultsOf ip es)).length < 2 ^ 31 := by
    rw [outcomes, List.length_map]
    exact hlength
  constructor
  · rintro ⟨hrecent, htrips, hthree, hmost⟩
    have hnot : ¬ Justified (outcomes (resultsOf ip es)) := fun h => h.elim hthree hmost
    rcases htrips with ⟨rest, hos, htrips⟩ | ⟨rest, hos, htrips⟩
    · refine ⟨hrecent, by rw [hos]; rfl, ?_, hnot⟩
      exact ((trips_iff hlen).mp htrips).resolve_right hmost
    · refine ⟨hrecent, by rw [hos]; rfl, ?_, hnot⟩
      rw [hos] at hlen hmost ⊢
      have hshort : (false :: rest).length < 2 ^ 31 := by
        rw [List.length_cons] at hlen
        omega
      rw [List.count_cons_self]
      rcases (trips_iff hshort).mp htrips with hcount | ⟨hsize, hmajority⟩
      · omega
      · -- a majority before the last failure is one after it
        refine absurd ⟨?_, ?_⟩ hmost
        · rw [List.length_cons]
          omega
        · rw [List.length_cons, List.count_cons_self]
          omega
  · rintro ⟨hrecent, hlast, hcount, hnot⟩
    refine ⟨hrecent, Or.inl ?_, fun h => hnot (Or.inl h), fun h => hnot (Or.inr h)⟩
    obtain ⟨rest, hos⟩ := List.head?_eq_some_iff.mp hlast
    exact ⟨rest, hos, (trips_iff hlen).mpr (Or.inl hcount)⟩

/-- A result of `192.0.2.1` every second: a failure wherever the list says `false`. -/
def exampleResults (os : List Bool) : List IpResult :=
  os.zipIdx.map fun x => ⟨.v4 ⟨192, 0, 2, 1⟩, 1000 * x.2, x.1, some 20⟩

/-- **Three failures among ten results, the last one after four successes, make the address known to
be bad.** -/
theorem rare_failures_condemn :
    (tableOf (run recordIpQuality PartialMap.empty (exampleResults
        [false, true, true, true, false, true, true, true, true, false]))).isIpKnownBad 10000
      (.v4 ⟨192, 0, 2, 1⟩) = true ∧
    ¬ ∀ (es : List IpResult) (ip : IpAddr) (now : Nat),
        (tableOf (run recordIpQuality PartialMap.empty es)).isIpKnownBad now ip = true →
          Justified (outcomes (resultsOf ip es)) := by
  have hbad : (tableOf (run recordIpQuality PartialMap.empty (exampleResults
      [false, true, true, true, false, true, true, true, true, false]))).isIpKnownBad 10000
        (.v4 ⟨192, 0, 2, 1⟩) = true := by decide
  have houtcomes : outcomes (resultsOf (.v4 ⟨192, 0, 2, 1⟩) (exampleResults
      [false, true, true, true, false, true, true, true, true, false])) =
        [false, true, true, true, true, false, true, true, true, false] := by decide
  refine ⟨hbad, fun hall => ?_⟩
  have hreason := hall _ _ _ hbad
  rw [houtcomes] at hreason
  rcases hreason with ⟨rest, hthree⟩ | hmost
  · cases hthree
  · exact absurd hmost.2 (by decide)

end TitanDns
