import TitanDns.Plugins.SmartStrategy

/-!
# The outcome of a race

The three functions of `forward.rs` that query several upstreams at once, over the queries in the
order they complete.

* `Completion` — a started query as it ends; `RaceNote` — what the autopilot is told.
* `collect` — the collection loop; it stops at the first address, whose other queries are aborted.
* `raceBranch`, `executeParallelDual`, `executeGraduatedRace` — race, dual and graduated.
* `Completes` — the completions of the started queries, in any order.
* `collectRace_eq` — **what the loop selects, by kind**: an address before anything definitive, that
  before the rest, and of each kind the first.

Principal results: `race_outcome` — **each of the three returns the message of the best kind that
completed first, and an error exactly if every query failed**; `executeRace_outcome`,
`executeSmart_outcome` — the strategies meet the rule, in the order of arrival.
-/

namespace TitanDns.ForwardPlugin

/-- A started query as it ends. -/
structure Completion where
  upstream : Upstream
  result : Exchange
  elapsedMs : Nat
  deriving DecidableEq

/-- What a race tells the autopilot. -/
inductive RaceNote where
  /-- `record_failure` -/
  | failure (label : String)
  /-- `record_domain_result_lower`, `record_domain_result_for_client_lower` -/
  | result (domainLower label : String) (elapsedMs : Nat) (client : Option IpAddr)
  /-- `record_query_sequence_lower` -/
  | sequence (domainLower : String)
  /-- `record_domain_attempt` -/
  | attempt (domain : String) (success : Bool) (attempts : Nat)
  deriving DecidableEq

/-- The collection loop after `attempts` completions; `notes` is what is told of a message. -/
def collect (notes : Nat → Completion → List RaceNote) :
    Nat → List Completion → Option Message → Option Message → Option Message × List RaceNote
  | _, [], bestDefinitive, bestOther => (bestDefinitive <|> bestOther, [])
  | attempts, q :: rest, bestDefinitive, bestOther =>
    match q.result with
    | .ok msg =>
      let told := notes (attempts + 1) q
      if responseHasIp msg then (some msg, told)
      else if responseIsDefinitive msg then
        let (resp, more) :=
          collect notes (attempts + 1) rest (bestDefinitive <|> some msg) bestOther
        (resp, told ++ more)
      else
        let (resp, more) :=
          collect notes (attempts + 1) rest bestDefinitive (bestOther <|> some msg)
        (resp, told ++ more)
    | .timedOut =>
      let (resp, more) := collect notes (attempts + 1) rest bestDefinitive bestOther
      (resp, .failure q.upstream.label :: more)
    | .failed => collect notes (attempts + 1) rest bestDefinitive bestOther
    | .cancelled => collect notes (attempts + 1) rest bestDefinitive bestOther

/-- The result of a race, with what it tells when nothing was selected. -/
def concluded (error : String) (failure : List RaceNote) :
    Option Message × List RaceNote → Except String Message × List RaceNote
  | (some resp, told) => (.ok resp, told)
  | (none, told) => (.error error, told ++ failure)

/-- The upstreams that the race strategy queries: of the first five those the proxy allows. -/
def raceStarted (f : ForwardPlugin) (env : ForwardEnv) : List Upstream :=
  (f.upstreams.take (min f.upstreams.length 5)).filter (proxyAllows env)

/-- The race branch of `execute_with_bytes_internal`. -/
def raceBranch (completions : List Completion) : Except String Message × List RaceNote :=
  concluded "All race upstreams failed" [] (collect (fun _ _ => []) 0 completions none none)

/-- `execute_parallel_dual`. -/
def executeParallelDual (completions : List Completion) : Except String Message × List RaceNote :=
  concluded "Dual-Race: Both upstreams failed" []
    (collect (fun _ _ => []) 0 completions none none)

/-- What the graduated race tells of a message. -/
def graduatedNotes (domain : Option String) (clientIp : Option IpAddr) (attempts : Nat)
    (q : Completion) : List RaceNote :=
  match domain with
  | none => []
  | some d =>
    [.result (normalizeDomainLower d) q.upstream.label q.elapsedMs clientIp,
      .sequence (normalizeDomainLower d), .attempt d true attempts]

/-- `execute_graduated_race`. -/
def executeGraduatedRace (upstreams : List Upstream) (domain : Option String)
    (clientIp : Option IpAddr) (completions : List Completion) :
    Except String Message × List RaceNote :=
  concluded ("Graduated-Race: All " ++ toString upstreams.length ++ " upstreams failed")
    (domain.map (RaceNote.attempt · false upstreams.length)).toList
    (collect (graduatedNotes domain clientIp) 0 completions none none)

/-! ## What the loop selects -/

/-- The messages of the exchanges, in order. -/
def messages (es : List Exchange) : List Message :=
  es.filterMap fun
    | .ok msg => some msg
    | _ => none

/-- The messages in order of completion. -/
def completed (completions : List Completion) : List Message :=
  messages (completions.map (·.result))

theorem mem_completed {completions : List Completion} {msg : Message} :
    msg ∈ completed completions ↔ ∃ q ∈ completions, q.result = .ok msg := by
  unfold completed messages
  rw [List.mem_filterMap]
  constructor
  · rintro ⟨ex, hex, hmsg⟩
    obtain ⟨q, hq, rfl⟩ := List.mem_map.mp hex
    refine ⟨q, hq, ?_⟩
    split at hmsg
    · rename_i hok
      cases hmsg
      exact hok
    · cases hmsg
  · rintro ⟨q, hq, hok⟩
    exact ⟨q.result, List.mem_map_of_mem hq, by rw [hok]⟩

/-- Not definitive. -/
def responseIsOther (resp : Message) : Bool := !responseIsDefinitive resp

/-- A kept candidate stays. -/
theorem kept_orElse (best : Option Message) (msg : Message) (later : Option Message) :
    ((best <|> some msg) <|> later) = (best <|> some msg) := by
  cases best <;> rfl

/-- **What the loop selects**: the first address; else the candidate it holds, or the first
definitive message; else the same of the others. -/
theorem collectRace_eq (es : List Exchange) (bestDefinitive bestOther : Option Message) :
    collectRace es bestDefinitive bestOther =
      ((messages es).find? responseHasIp <|>
        ((bestDefinitive <|> (messages es).find? responseIsDefinitive) <|>
          (bestOther <|> (messages es).find? responseIsOther))) := by
  induction es generalizing bestDefinitive bestOther with
  | nil => cases bestDefinitive <;> cases bestOther <;> rfl
  | cons ex es ih =>
    cases ex with
    | ok msg =>
      have hmessages : messages (.ok msg :: es) = msg :: messages es := rfl
      rw [hmessages, collectRace]
      by_cases hip : responseHasIp msg = true
      · rw [if_pos hip, List.find?_cons_of_pos hip]
        rfl
      · rw [if_neg hip, List.find?_cons_of_neg hip]
        by_cases hdefinitive : responseIsDefinitive msg = true
        · have hother : ¬ responseIsOther msg = true := by simpa [responseIsOther] using hdefinitive
          rw [if_pos hdefinitive, List.find?_cons_of_pos hdefinitive,
            List.find?_cons_of_neg hother, ih, kept_orElse]
        · have hother : responseIsOther msg = true := by simpa [responseIsOther] using hdefinitive
          rw [if_neg hdefinitive, List.find?_cons_of_neg hdefinitive,
            List.find?_cons_of_pos hother, ih, kept_orElse]
    | failed | timedOut | cancelled => exact ih bestDefinitive bestOther

/-- What is told does not matter for what is selected. -/
theorem collect_fst (notes : Nat → Completion → List RaceNote) (attempts : Nat)
    (completions : List Completion) (bestDefinitive bestOther : Option Message) :
    (collect notes attempts completions bestDefinitive bestOther).1 =
      collectRace (completions.map (·.result)) bestDefinitive bestOther := by
  induction completions generalizing attempts bestDefinitive bestOther with
  | nil => rfl
  | cons q rest ih =>
    unfold collect
    rw [List.map_cons]
    cases q.result with
    | ok msg =>
      simp only [collectRace]
      split
      · rfl
      split
      · exact ih _ _ _
      · exact ih _ _ _
    | failed | timedOut | cancelled => exact ih _ _ _

theorem concluded_fst (error : String) (failure : List RaceNote)
    (selected : Option Message × List RaceNote) :
    (concluded error failure selected).1 =
      match selected.1 with
      | some resp => .ok resp
      | none => .error error := by
  obtain ⟨resp, told⟩ := selected
  cases resp <;> rfl

/-! ## What is told -/

/-- Each started query completes once, in any order. -/
def Completes (started : List Upstream) (completions : List Completion) : Prop :=
  (completions.map (·.upstream)).Perm started

/-- The query of the upstream returned this message. -/
def Returned (completions : List Completion) (u : Upstream) (msg : Message) : Prop :=
  ∃ q ∈ completions, q.upstream = u ∧ q.result = .ok msg

/-- The rule of a race. -/
structure Outcome (started : List Upstream) (completions : List Completion)
    (result : Except String Message) : Prop where
  ok_iff : (∃ resp, result = .ok resp) ↔ ∃ u ∈ started, ∃ msg, Returned completions u msg
  address : (∃ msg ∈ completed completions, responseHasIp msg = true) →
    ∃ resp, responseHasIp resp = true ∧ result = .ok resp ∧
      (completed completions).find? responseHasIp = some resp
  definitive : (∀ msg ∈ completed completions, responseHasIp msg = false) →
    (∃ msg ∈ completed completions, responseIsDefinitive msg = true) →
      ∃ resp, result = .ok resp ∧
        (completed completions).find? responseIsDefinitive = some resp
  other : (∀ msg ∈ completed completions, responseHasIp msg = false) →
    (∀ msg ∈ completed completions, responseIsDefinitive msg = false) →
      ∀ resp, (completed completions).head? = some resp → result = .ok resp
  error_iff : (∃ error, result = .error error) ↔
    ∀ u ∈ started, ¬ ∃ msg, Returned completions u msg

section
variable {started : List Upstream} {completions : List Completion}

theorem completed_iff (hcompletes : Completes started completions) :
    completed completions ≠ [] ↔ ∃ u ∈ started, ∃ msg, Returned completions u msg := by
  constructor
  · intro hne
    obtain ⟨msg, hmsg⟩ := List.exists_mem_of_ne_nil _ hne
    obtain ⟨q, hq, hok⟩ := mem_completed.mp hmsg
    exact ⟨q.upstream, hcompletes.subset (List.mem_map_of_mem hq), msg, q, hq, rfl, hok⟩
  · rintro ⟨u, -, msg, q, hq, -, hok⟩
    exact List.ne_nil_of_mem (mem_completed.mpr ⟨q, hq, hok⟩)

theorem find?_none {P : Message → Bool} {msgs : List Message}
    (h : ∀ msg ∈ msgs, P msg = false) : msgs.find? P = none :=
  List.find?_eq_none.mpr fun msg hmsg => by simp [h msg hmsg]

/-- The first of the messages of a kind, if there is one. -/
theorem find?_some {P : Message → Bool} {msgs : List Message}
    (h : ∃ msg ∈ msgs, P msg = true) : ∃ resp, msgs.find? P = some resp :=
  Option.isSome_iff_exists.mp (List.find?_isSome.mpr h)

theorem head?_other {msgs : List Message}
    (h : ∀ msg ∈ msgs, responseIsDefinitive msg = false) :
    msgs.find? responseIsOther = msgs.head? := by
  cases msgs with
  | nil => rfl
  | cons msg msgs =>
    have hother : responseIsOther msg = true := by
      unfold responseIsOther
      rw [h msg List.mem_cons_self]
      rfl
    exact List.find?_cons_of_pos hother

theorem orElse_none {best later : Option Message} :
    (best <|> later) = none ↔ best = none ∧ later = none := by
  cases best <;> simp

/-- What the loop selects of the messages completed. -/
theorem collect_selected (notes : Nat → Completion → List RaceNote) :
    (collect notes 0 completions none none).1 =
      ((completed completions).find? responseHasIp <|>
        ((completed completions).find? responseIsDefinitive <|>
          (completed completions).find? responseIsOther)) := by
  rw [collect_fst, collectRace_eq]
  rfl

theorem collect_none_iff (notes : Nat → Completion → List RaceNote) :
    (collect notes 0 completions none none).1 = none ↔ completed completions = [] := by
  rw [collect_selected]
  constructor
  · intro hnone
    obtain ⟨-, hlater⟩ := orElse_none.mp hnone
    obtain ⟨hdefinitive, hother⟩ := orElse_none.mp hlater
    rw [List.eq_nil_iff_forall_not_mem]
    intro msg hmsg
    have hnot := List.find?_eq_none.mp hdefinitive msg hmsg
    exact List.find?_eq_none.mp hother msg hmsg (by simpa [responseIsOther] using hnot)
  · intro hnil
    rw [hnil]
    rfl

/-- **What follows from the selection**, whatever the texts and what the autopilot is told. -/
theorem outcome (hcompletes : Completes started completions)
    (notes : Nat → Completion → List RaceNote) (error : String) (failure : List RaceNote) :
    Outcome started completions
      (concluded error failure (collect notes 0 completions none none)).1 := by
  have hnone := @collect_none_iff completions notes
  have hreturned := completed_iff hcompletes
  rw [concluded_fst]
  refine ⟨?_, ?_, ?_, ?_, ?_⟩
  · rw [← hreturned, ne_eq, ← hnone]
    cases (collect notes 0 completions none none).1 <;> simp
  · intro haddress
    obtain ⟨resp, hresp⟩ := find?_some haddress
    refine ⟨resp, List.find?_some hresp, ?_, hresp⟩
    rw [collect_selected, hresp]
    rfl
  · intro hno hdefinitive
    obtain ⟨resp, hresp⟩ := find?_some hdefinitive
    refine ⟨resp, ?_, hresp⟩
    rw [collect_selected, find?_none hno, hresp]
    rfl
  · intro hno hnot resp hresp
    rw [collect_selected, find?_none hno, find?_none hnot, head?_other hnot, hresp]
    rfl
  · have herror : (∀ u ∈ started, ¬ ∃ msg, Returned completions u msg) ↔
        completed completions = [] := by
      rw [← not_iff_not, ← ne_eq, hreturned]
      simp only [not_forall, not_not, exists_prop]
    rw [herror, ← hnone]
    cases (collect notes 0 completions none none).1 <;> simp

end

/-- **The outcome of a race**, of each of the three kinds. -/
theorem race_outcome (completions : List Completion) :
    (∀ f env, Completes (raceStarted f env) completions →
      Outcome (raceStarted f env) completions (raceBranch completions).1) ∧
    (∀ u v, Completes [u, v] completions →
      Outcome [u, v] completions (executeParallelDual completions).1) ∧
    (∀ upstreams domain clientIp, Completes upstreams completions →
      Outcome upstreams completions
        (executeGraduatedRace upstreams domain clientIp completions).1) :=
  ⟨fun _ _ h => outcome h _ _ _, fun _ _ h => outcome h _ _ _, fun _ _ _ h => outcome h _ _ _⟩

/-- Two upstreams: a SERVFAIL completes first, then an address. -/
def addressLast : List Completion :=
  [⟨⟨2, "udp://192.0.2.2:53", false⟩, .ok (servFail exampleRequest), 10⟩,
    ⟨⟨1, "udp://192.0.2.1:53", false⟩, .ok exampleAnswer, 20⟩]

/-- All three wait for the address. -/
theorem race_outcome_addressLast :
    (∃ resp, responseHasIp resp = true ∧ (raceBranch addressLast).1 = .ok resp) ∧
      (∃ resp, responseHasIp resp = true ∧ (executeParallelDual addressLast).1 = .ok resp) ∧
      ∃ resp, responseHasIp resp = true ∧
        (executeGraduatedRace twoUpstreams.upstreams (some "www.example.com.") none
          addressLast).1 = .ok resp := by
  have hcompletes : Completes twoUpstreams.upstreams addressLast := .swap _ _ _
  have haddress : ∃ msg ∈ completed addressLast, responseHasIp msg = true :=
    ⟨exampleAnswer, List.mem_cons_of_mem _ List.mem_cons_self, rfl⟩
  obtain ⟨hrace, hdual, hgraduated⟩ := race_outcome addressLast
  obtain ⟨r, hr, hok, -⟩ := (hrace twoUpstreams firstFails hcompletes).address haddress
  obtain ⟨d, hd, hdok, -⟩ := (hdual _ _ hcompletes).address haddress
  obtain ⟨g, hg, hgok, -⟩ := (hgraduated twoUpstreams.upstreams (some "www.example.com.") none
    hcompletes).address haddress
  exact ⟨⟨r, hr, hok⟩, ⟨d, hd, hdok⟩, ⟨g, hg, hgok⟩⟩

/-! ## The strategies -/

section
variable (elapsedMs : Upstream → Nat) (env : ForwardEnv)

/-- The completions of the given upstreams in order of arrival. -/
def arrivalsOf (us : List Upstream) : List Completion :=
  (us.mergeSort fun u v => env.arrivalRank u ≤ env.arrivalRank v).map fun u =>
    ⟨u, env.exchange u, elapsedMs u⟩

theorem arrivalsOf_completes (us : List Upstream) : Completes us (arrivalsOf elapsedMs env us) := by
  unfold Completes arrivalsOf
  rw [List.map_map]
  exact (List.map_id _).symm ▸ List.mergeSort_perm us _

theorem raceAmong_eq (us : List Upstream)
    (notes : Nat → Completion → List RaceNote) (error : String) (failure : List RaceNote) :
    raceAmong env us error =
      (concluded error failure (collect notes 0 (arrivalsOf elapsedMs env us) none none)).1 := by
  have harrivals : (arrivalsOf elapsedMs env us).map (·.result) = arrivals env us := by
    unfold arrivalsOf arrivals
    rw [List.map_map]
    rfl
  rw [concluded_fst, collect_fst, harrivals]
  unfold raceAmong
  cases collectRace (arrivals env us) none none <;> rfl

theorem executeRace_eq (f : ForwardPlugin) :
    executeRace f env = (raceBranch (arrivalsOf elapsedMs env (raceStarted f env))).1 :=
  raceAmong_eq elapsedMs env _ _ _ _

theorem dual_eq (u v : Upstream) :
    raceAmong env [u, v] "Dual-Race: Both upstreams failed" =
      (executeParallelDual (arrivalsOf elapsedMs env [u, v])).1 :=
  raceAmong_eq elapsedMs env _ _ _ _

theorem graduated_eq (upstreams : List Upstream) (domain : Option String)
    (clientIp : Option IpAddr) :
    raceAmong env upstreams
        ("Graduated-Race: All " ++ toString upstreams.length ++ " upstreams failed") =
      (executeGraduatedRace upstreams domain clientIp (arrivalsOf elapsedMs env upstreams)).1 :=
  raceAmong_eq elapsedMs env _ _ _ _

/-- The race strategy meets the rule. -/
theorem executeRace_outcome (f : ForwardPlugin) :
    Outcome (raceStarted f env) (arrivalsOf elapsedMs env (raceStarted f env))
      (executeRace f env) := by
  rw [executeRace_eq elapsedMs]
  exact outcome (arrivalsOf_completes elapsedMs env _) _ _ _

/-- **The smart strategy meets the rule** when it asks several upstreams. -/
theorem executeSmart_outcome {codec : Codec} {f : ForwardPlugin} {req : Message}
    (hdga : ¬ Refused env req) (hbytes : (codec.toVec (injectEcs env req)).isSome = true)
    (hfast : (if req.query.isSome = true then fastLane f env else none) = none)
    (hseveral : 2 ≤ (available f env req.query.isSome).length) :
    Outcome (available f env req.query.isSome)
      (arrivalsOf elapsedMs env (available f env req.query.isSome))
      (executeSmart codec f env req) := by
  obtain ⟨bytes, hbytes⟩ := Option.isSome_iff_exists.mp hbytes
  have hallowed : ¬ (req.query.isSome && env.dga) = true := by simpa [Refused] using hdga
  have hcompletes := arrivalsOf_completes elapsedMs env (available f env req.query.isSome)
  unfold executeSmart
  simp only [Option.isSome_map, if_neg hallowed, hbytes, hfast]
  split
  · rename_i hnil
    rw [hnil] at hseveral
    exact absurd hseveral (by decide)
  · rename_i u hone
    rw [hone] at hseveral
    exact absurd hseveral (Nat.not_succ_le_self 1)
  · rename_i u v htwo
    rw [htwo] at hcompletes ⊢
    rw [dual_eq elapsedMs]
    exact outcome hcompletes _ _ _
  · rw [graduated_eq elapsedMs _ _ none none]
    exact outcome hcompletes _ _ _

end

end TitanDns.ForwardPlugin
