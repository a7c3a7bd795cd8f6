import TitanDns.Core.Context

/-!
# `ForwardPlugin`

The strategies of `forward.rs` over the outcomes of the upstream exchanges.  What the network and
the autopilot answer during one call is the environment `ForwardEnv`; every exchange is already
under its timeout.

* `collectRace` — the collection loop that race, dual and graduated share: the first answer with
  an address wins, then the first definitive one, then the first other one.
* `executeOrder`, `executeRace`, `executeSmart`, `execute` — the strategies.
* `ForwardPlugin.handle` — the plugin: an error of the strategy becomes a SERVFAIL response.

Principal results: `execute_fails` — **when every exchange fails every strategy returns an error**;
`handle_fails` — **and the plugin returns `Ok` with a SERVFAIL it made up**; `execute_meets` — **a
strategy returns nothing but the answer of an exchange.**
-/

namespace TitanDns

/-- An upstream; `ptr` tells apart two upstreams with one label. -/
structure Upstream where
  ptr : Nat
  label : String
  /-- `Upstream::Doh { proxy_enabled: true, .. }` -/
  proxiedDoh : Bool
  deriving DecidableEq

/-- How one exchange under its timeout ends; `cancelled` is a task that did not finish. -/
inductive Exchange where
  | ok (msg : Message)
  | failed
  | timedOut
  | cancelled
  deriving DecidableEq

structure ForwardPlugin where
  name : String
  upstreams : List Upstream
  strategy : Option String

/-- What the world answers during one call. -/
structure ForwardEnv where
  /-- `analyze_client_behavior`: the client is banned. -/
  clientBlocked : Bool
  /-- `proxy_status`, as loaded. -/
  proxyStatus : Option Bool
  exchange : Upstream → Exchange
  /-- Arrival order of concurrent exchanges. -/
  arrivalRank : Upstream → Nat
  /-- `detect_dga_domain_lower` -/
  dga : Bool
  /-- `get_ecs_client_ip` and `get_ecs_prefix_length`. -/
  ecs : Option (IpAddr × UInt8)
  /-- `get_domain_best_upstream_for_client_lower` -/
  bestUpstream : Option String
  /-- The exchange of the fast lane. -/
  fastExchange : Upstream → Exchange
  congestionLevel : Nat
  /-- `get_time_based_recommendation` says `"race"`. -/
  timeRace : Bool
  difficultyBoost : Nat
  /-- `get_ranked_upstreams_for_scope` -/
  ranked : List String
  /-- `is_upstream_degrading` -/
  degrading : String → Bool

namespace ForwardPlugin

/-! ## Collecting concurrent answers -/

def responseHasIp (resp : Message) : Bool := (resp.answers ++ resp.additionals).any Record.isAddress

def responseIsDefinitive (resp : Message) : Bool :=
  resp.responseCode = .noError || resp.responseCode = .nxDomain

/-- The collection loop, over the exchanges in order of arrival. -/
def collectRace : List Exchange → Option Message → Option Message → Option Message
  | [], bestDefinitive, bestOther => bestDefinitive <|> bestOther
  | .ok msg :: rest, bestDefinitive, bestOther =>
    if responseHasIp msg then some msg
    else if responseIsDefinitive msg then collectRace rest (bestDefinitive <|> some msg) bestOther
    else collectRace rest bestDefinitive (bestOther <|> some msg)
  | _ :: rest, bestDefinitive, bestOther => collectRace rest bestDefinitive bestOther

/-- The exchanges of the given upstreams in order of arrival. -/
def arrivals (env : ForwardEnv) (us : List Upstream) : List Exchange :=
  (us.mergeSort fun u v => env.arrivalRank u ≤ env.arrivalRank v).map env.exchange

/-- Query the given upstreams at once. -/
def raceAmong (env : ForwardEnv) (us : List Upstream) (error : String) : Except String Message :=
  match collectRace (arrivals env us) none none with
  | some resp => .ok resp
  | none => .error error

/-- A proxied DoH upstream is skipped while the proxy is down. -/
def proxyAllows (env : ForwardEnv) (u : Upstream) : Bool :=
  !(u.proxiedDoh && env.proxyStatus == some false)

/-! ## Strategies -/

/-- Race: the first five upstreams. -/
def executeRace (f : ForwardPlugin) (env : ForwardEnv) : Except String Message :=
  raceAmong env ((f.upstreams.take (min f.upstreams.length 5)).filter (proxyAllows env))
    "All race upstreams failed"

/-- Order: one upstream after the other. -/
def executeOrder (env : ForwardEnv) : List Upstream → Except String Message
  | [] => .error "All upstreams failed"
  | u :: us =>
    match env.exchange u with
    | .ok resp => .ok resp
    | _ => executeOrder env us

/-- `inject_ecs`. -/
def injectEcs (env : ForwardEnv) (req : Message) : Message :=
  match env.ecs with
  | none => req
  | some (ip, prefixLen) =>
    let edns := req.edns.getD {}
    let subnet := edns.subnet.getD ⟨ip, prefixLen, 0⟩
    { req with edns := some { maxPayload := 1232, version := 0, subnet := some subnet } }

/-- The number of upstreams asked at once, by congestion. -/
def concurrency (f : ForwardPlugin) (env : ForwardEnv) : Nat :=
  let total := f.upstreams.length
  if env.congestionLevel ≤ 2 then 1
  else if env.congestionLevel ≤ 4 then 2
  else if env.congestionLevel ≤ 6 then min 3 total
  else if env.congestionLevel ≤ 8 then max (total / 2) 3
  else total

def finalConcurrency (f : ForwardPlugin) (env : ForwardEnv) (hasDomain : Bool) : Nat :=
  let total := f.upstreams.length
  let n := if env.timeRace then max total (concurrency f env) else concurrency f env
  if hasDomain && 0 < env.difficultyBoost then min (n + env.difficultyBoost) total else n

/-- `upstream_map.get(label)`: of several upstreams with a label the last one. -/
def upstreamByLabel (f : ForwardPlugin) (label : String) : Option Upstream :=
  f.upstreams.reverse.find? (·.label == label)

/-- The upstreams asked, best first. -/
def available (f : ForwardPlugin) (env : ForwardEnv) (hasDomain : Bool) : List Upstream :=
  ((env.ranked.filterMap (upstreamByLabel f)).filter fun u =>
    proxyAllows env u && !env.degrading u.label).take (finalConcurrency f env hasDomain)

/-- The fast lane: the upstream remembered for the domain. -/
def fastLane (f : ForwardPlugin) (env : ForwardEnv) : Option Message :=
  match env.bestUpstream with
  | none => none
  | some label =>
    match f.upstreams.find? (·.label == label) with
    | none => none
    | some u =>
      match env.fastExchange u with
      | .ok resp => some resp
      | _ => none

/-- Smart; with at least three, two or one upstream available the rest of the source function is
not reached. -/
def executeSmart (codec : Codec) (f : ForwardPlugin) (env : ForwardEnv) (req : Message) :
    Except String Message :=
  let domain := req.query.map fun q => codec.display q.name
  if domain.isSome && env.dga then .error ("Blocked DGA Domain: " ++ domain.getD "")
  else
    match codec.toVec (injectEcs env req) with
    | none => .error "encode"
    | some _ =>
      match if domain.isSome then fastLane f env else none with
      | some resp => .ok resp
      | none =>
        match available f env domain.isSome with
        | [] => .error "No available upstreams"
        | [u] =>
          match env.exchange u with
          | .ok resp => .ok resp
          | _ => .error "Single upstream failed"
        | [u, v] => raceAmong env [u, v] "Dual-Race: Both upstreams failed"
        | us =>
          raceAmong env us ("Graduated-Race: All " ++ toString us.length ++ " upstreams failed")

/-- `execute_with_bytes_internal`. -/
def execute (codec : Codec) (f : ForwardPlugin) (env : ForwardEnv) (req : Message)
    (reqBytes : Option (List UInt8)) : Except String Message :=
  let strategy := f.strategy.getD "order"
  if strategy = "smart" then executeSmart codec f env req
  else
    match reqBytes <|> codec.toVec req with
    | none => .error "encode"
    | some _ => if strategy = "race" then executeRace f env else executeOrder env f.upstreams

/-! ## The plugin -/

/-- The response to a banned client. -/
def refused (request : Message) : Message where
  id := request.id
  messageType := .response
  responseCode := .refused
  queries := request.query.toList

/-- The response made when the strategy failed. -/
def servFail (request : Message) : Message where
  id := request.id
  messageType := .response
  opCode := 0
  responseCode := .servFail
  queries := request.query.toList

/-- `ForwardPlugin::handle`. -/
def handle (codec : Codec) (f : ForwardPlugin) (env : ForwardEnv) (ctx : Context) :
    Context × Except String Unit :=
  if env.clientBlocked then (ctx.setResponse (refused ctx.request) true, .ok ())
  else
    match ctx.request.query with
    | none => (ctx, .error "No query")
    | some _ =>
      match execute codec f env ctx.request (ctx.rawRequest.map (·.raw)) with
      | .ok m => (ctx.setResponse { m with id := ctx.request.id } true, .ok ())
      | .error _ => (ctx.setResponse (servFail ctx.request) true, .ok ())

/-! ## When every upstream query fails -/

/-- No exchange of the call succeeds. -/
structure AllFail (f : ForwardPlugin) (env : ForwardEnv) : Prop where
  exchange : ∀ u ∈ f.upstreams, ∀ msg, env.exchange u ≠ .ok msg
  fast : ∀ u ∈ f.upstreams, ∀ msg, env.fastExchange u ≠ .ok msg

theorem collectRace_fails {es : List Exchange} (h : ∀ e ∈ es, ∀ msg, e ≠ .ok msg) :
    collectRace es none none = none := by
  induction es with
  | nil => rfl
  | cons e es ih =>
    have hes := ih fun e' he' => h e' (List.mem_cons_of_mem _ he')
    cases e with
    | ok msg => exact absurd rfl (h _ List.mem_cons_self msg)
    | failed => exact hes
    | timedOut => exact hes
    | cancelled => exact hes

theorem raceAmong_fails {f : ForwardPlugin} {env : ForwardEnv} (h : AllFail f env)
    {us : List Upstream} (hus : ∀ u ∈ us, u ∈ f.upstreams) (error : String) :
    raceAmong env us error = .error error := by
  have hnone : collectRace (arrivals env us) none none = none := by
    apply collectRace_fails
    intro e he
    obtain ⟨u, hu, rfl⟩ := List.mem_map.mp he
    exact h.exchange u (hus u (List.mem_mergeSort.mp hu))
  rw [raceAmong, hnone]

theorem executeOrder_fails {env : ForwardEnv} {us : List Upstream}
    (h : ∀ u ∈ us, ∀ msg, env.exchange u ≠ .ok msg) :
    executeOrder env us = .error "All upstreams failed" := by
  induction us with
  | nil => rfl
  | cons u us ih =>
    have hus := ih fun u' hu' => h u' (List.mem_cons_of_mem _ hu')
    unfold executeOrder
    cases hu : env.exchange u with
    | ok msg => exact absurd hu (h u List.mem_cons_self msg)
    | failed => exact hus
    | timedOut => exact hus
    | cancelled => exact hus

theorem mem_available {f : ForwardPlugin} {env : ForwardEnv} {hasDomain : Bool} {u : Upstream}
    (h : u ∈ available f env hasDomain) : u ∈ f.upstreams := by
  have h := (List.mem_filter.mp (List.mem_of_mem_take h)).1
  obtain ⟨label, -, hlabel⟩ := List.mem_filterMap.mp h
  exact List.mem_reverse.mp (List.mem_of_find?_eq_some hlabel)

theorem fastLane_fails {f : ForwardPlugin} {env : ForwardEnv} (h : AllFail f env) :
    fastLane f env = none := by
  unfold fastLane
  split
  · rfl
  · split
    · rfl
    · rename_i u hu
      split
      · rename_i resp hresp
        exact absurd hresp (h.fast u (List.mem_of_find?_eq_some hu) resp)
      · rfl

theorem executeSmart_fails {codec : Codec} {f : ForwardPlugin} {env : ForwardEnv}
    (h : AllFail f env) (req : Message) : ∃ e, executeSmart codec f env req = .error e := by
  unfold executeSmart
  simp only
  split
  · exact ⟨_, rfl⟩
  split
  · exact ⟨_, rfl⟩
  rw [fastLane_fails h, ite_self]
  simp only
  split
  · exact ⟨_, rfl⟩
  · rename_i u hus
    have hu : u ∈ f.upstreams := mem_available (hus ▸ List.mem_singleton_self u)
    split
    · rename_i resp hresp
      exact absurd hresp (h.exchange u hu resp)
    · exact ⟨_, rfl⟩
  · rename_i u v hus
    exact ⟨_, raceAmong_fails h (fun w hw => mem_available (hus ▸ hw)) _⟩
  · exact ⟨_, raceAmong_fails h (fun w hw => mem_available hw) _⟩

/-- **Every strategy fails when every exchange does.** -/
theorem execute_fails {codec : Codec} {f : ForwardPlugin} {env : ForwardEnv} (h : AllFail f env)
    (req : Message) (reqBytes : Option (List UInt8)) :
    ∃ e, execute codec f env req reqBytes = .error e := by
  unfold execute
  simp only
  split
  · exact executeSmart_fails h req
  split
  · exact ⟨_, rfl⟩
  split
  · have hmem : ∀ u ∈ (f.upstreams.take (min f.upstreams.length 5)).filter (proxyAllows env),
        u ∈ f.upstreams := by
      intro u hu
      exact List.mem_of_mem_take (List.mem_filter.mp hu).1
    exact ⟨_, raceAmong_fails h hmem _⟩
  · exact ⟨_, executeOrder_fails h.exchange⟩

/-- **A failed forward succeeds with a SERVFAIL of its own.** -/
theorem handle_fails {codec : Codec} {f : ForwardPlugin} {env : ForwardEnv} {ctx : Context}
    (h : AllFail f env) (hclient : env.clientBlocked = false)
    (hquery : ctx.request.query.isSome = true) :
    handle codec f env ctx = (ctx.setResponse (servFail ctx.request) true, .ok ()) := by
  obtain ⟨q, hq⟩ := Option.isSome_iff_exists.mp hquery
  obtain ⟨e, he⟩ := @execute_fails codec _ _ h ctx.request (ctx.rawRequest.map (·.raw))
  unfold handle
  rw [hclient, hq, he]
  rfl

/-! ## Where an answer comes from -/

/-- Every answer of an exchange of the call has the property. -/
structure AllMeet (env : ForwardEnv) (P : Message → Prop) : Prop where
  exchange : ∀ u msg, env.exchange u = .ok msg → P msg
  fast : ∀ u msg, env.fastExchange u = .ok msg → P msg

/-- The candidate kept is the old one or the new one. -/
theorem kept_meets {P : Message → Prop} {best next : Option Message}
    (hbest : ∀ msg, best = some msg → P msg) (hnext : ∀ msg, next = some msg → P msg) :
    ∀ msg, (best <|> next) = some msg → P msg := by
  intro msg h
  cases best with
  | none => exact hnext msg h
  | some old => exact hbest msg h

theorem collectRace_meets {P : Message → Prop} {es : List Exchange}
    {bestDefinitive bestOther : Option Message} {resp : Message}
    (hes : ∀ msg, Exchange.ok msg ∈ es → P msg) (hd : ∀ msg, bestDefinitive = some msg → P msg)
    (ho : ∀ msg, bestOther = some msg → P msg)
    (h : collectRace es bestDefinitive bestOther = some resp) : P resp := by
  induction es generalizing bestDefinitive bestOther with
  | nil => exact kept_meets hd ho resp h
  | cons ex es ih =>
    have htail : ∀ msg, Exchange.ok msg ∈ es → P msg :=
      fun msg hmsg => hes msg (List.mem_cons_of_mem _ hmsg)
    cases ex with
    | ok msg =>
      have hmsg : P msg := hes msg List.mem_cons_self
      have hnext : ∀ m, some msg = some m → P m := by
        rintro m ⟨⟩
        exact hmsg
      unfold collectRace at h
      split at h
      · cases h
        exact hmsg
      split at h
      · exact ih htail (kept_meets hd hnext) ho h
      · exact ih htail hd (kept_meets ho hnext) h
    | failed => exact ih htail hd ho h
    | timedOut => exact ih htail hd ho h
    | cancelled => exact ih htail hd ho h

section
variable {codec : Codec} {f : ForwardPlugin} {env : ForwardEnv} {P : Message → Prop}
  {resp : Message}

theorem raceAmong_meets (hP : AllMeet env P) {us : List Upstream} {error : String}
    (h : raceAmong env us error = .ok resp) : P resp := by
  unfold raceAmong at h
  split at h
  · rename_i hrace
    cases h
    have harrived : ∀ msg, Exchange.ok msg ∈ arrivals env us → P msg := by
      intro msg hmsg
      obtain ⟨u, -, hu⟩ := List.mem_map.mp hmsg
      exact hP.exchange u msg hu
    have hnone : ∀ msg, none = some msg → P msg := by
      intro msg h
      cases h
    exact collectRace_meets harrived hnone hnone hrace
  · cases h

theorem executeOrder_meets (hP : AllMeet env P) {us : List Upstream}
    (h : executeOrder env us = .ok resp) : P resp := by
  induction us with
  | nil => cases h
  | cons u us ih =>
    unfold executeOrder at h
    split at h
    · rename_i hu
      cases h
      exact hP.exchange u _ hu
    · exact ih h

theorem fastLane_meets (hP : AllMeet env P) (h : fastLane f env = some resp) : P resp := by
  unfold fastLane at h
  split at h
  · cases h
  split at h
  · cases h
  split at h
  · rename_i hu
    cases h
    exact hP.fast _ _ hu
  · cases h

theorem executeSmart_meets (hP : AllMeet env P) {req : Message}
    (h : executeSmart codec f env req = .ok resp) : P resp := by
  unfold executeSmart at h
  simp only at h
  split at h
  · cases h
  split at h
  · cases h
  split at h
  · rename_i hfast
    cases h
    split at hfast
    · exact fastLane_meets hP hfast
    · cases hfast
  split at h
  · cases h
  · split at h
    · rename_i hu
      cases h
      exact hP.exchange _ _ hu
    · cases h
  · exact raceAmong_meets hP h
  · exact raceAmong_meets hP h

/-- **What a strategy returns is an answer of an exchange.** -/
theorem execute_meets (hP : AllMeet env P) {req : Message} {reqBytes : Option (List UInt8)}
    (h : execute codec f env req reqBytes = .ok resp) : P resp := by
  unfold execute at h
  simp only at h
  split at h
  · exact executeSmart_meets hP h
  split at h
  · cases h
  split at h
  · exact raceAmong_meets hP h
  · exact executeOrder_meets hP h

end

end ForwardPlugin

end TitanDns
