import TitanDns.Plugins.SmartStrategy

/-!
# The proxy gate

* `sentOrder`, `sentRace`, `sentSmart`, `sent` — the upstreams that are sent the query.
* `execute_congr` — **what is not sent the query has no part in the result.**
* `KeepsGate` — while the proxy is down, no proxied DoH upstream is sent the query.

Principal result: `gate_iff` — **the gate holds exactly where it is checked**: never looked at in
order and in the fast lane, it depends there on which upstreams come first, or are remembered.
-/

namespace TitanDns.ForwardPlugin

/-! ## Who is sent the query -/

/-- Order: up to the first that answers. -/
def sentOrder (env : ForwardEnv) : List Upstream → List Upstream
  | [] => []
  | u :: us =>
    match env.exchange u with
    | .ok _ => [u]
    | _ => u :: sentOrder env us

/-- Race: the first five, with the gate. -/
def sentRace (f : ForwardPlugin) (env : ForwardEnv) : List Upstream :=
  (f.upstreams.take (min f.upstreams.length 5)).filter (proxyAllows env)

/-- The fast lane: the remembered upstream. -/
def sentFast (f : ForwardPlugin) (env : ForwardEnv) : List Upstream :=
  match env.bestUpstream with
  | none => []
  | some label => (f.upstreams.find? (·.label == label)).toList

/-- Smart: the fast lane, and `available` if that gives no message. -/
def sentSmart (codec : Codec) (f : ForwardPlugin) (env : ForwardEnv) (req : Message) :
    List Upstream :=
  let hasDomain := req.query.isSome
  if hasDomain && env.dga then []
  else if (codec.toVec (injectEcs env req)).isNone then []
  else
    (if hasDomain then sentFast f env else []) ++
      match if hasDomain then fastLane f env else none with
      | some _ => []
      | none => available f env hasDomain

/-- `execute_with_bytes_internal`. -/
def sent (codec : Codec) (f : ForwardPlugin) (env : ForwardEnv) (req : Message)
    (reqBytes : Option (List UInt8)) : List Upstream :=
  let strategy := f.strategy.getD "order"
  if strategy = "smart" then sentSmart codec f env req
  else
    match reqBytes <|> codec.toVec req with
    | none => []
    | some _ => if strategy = "race" then sentRace f env else sentOrder env f.upstreams

/-! ## What is not sent the query -/

/-- The same call with other outcomes of the exchanges. -/
def withExchanges (env : ForwardEnv) (exchange fastExchange : Upstream → Exchange) : ForwardEnv :=
  { env with exchange := exchange, fastExchange := fastExchange }

section
variable {codec : Codec} {f : ForwardPlugin} {env : ForwardEnv}
  {exchange fastExchange : Upstream → Exchange}

theorem raceAmong_congr {us : List Upstream} (h : ∀ u ∈ us, exchange u = env.exchange u)
    (error : String) :
    raceAmong (withExchanges env exchange fastExchange) us error = raceAmong env us error := by
  have harrivals : arrivals (withExchanges env exchange fastExchange) us = arrivals env us := by
    apply List.map_congr_left
    intro u hu
    exact h u (List.mem_mergeSort.mp hu)
  rw [raceAmong, raceAmong, harrivals]

theorem executeOrder_congr {us : List Upstream}
    (h : ∀ u ∈ sentOrder env us, exchange u = env.exchange u) :
    executeOrder (withExchanges env exchange fastExchange) us = executeOrder env us := by
  induction us with
  | nil => rfl
  | cons u us ih =>
    have hu : exchange u = env.exchange u := by
      apply h
      unfold sentOrder
      split <;> exact List.mem_cons_self
    have hexchange : (withExchanges env exchange fastExchange).exchange u = env.exchange u := hu
    unfold sentOrder at h
    unfold executeOrder
    rw [hexchange]
    cases hx : env.exchange u with
    | ok msg => rfl
    | failed | timedOut | cancelled =>
      rw [hx] at h
      exact ih fun v hv => h v (List.mem_cons_of_mem _ hv)

theorem fastLane_congr (h : ∀ u ∈ sentFast f env, fastExchange u = env.fastExchange u) :
    fastLane f (withExchanges env exchange fastExchange) = fastLane f env := by
  have hbest : (withExchanges env exchange fastExchange).bestUpstream = env.bestUpstream := rfl
  unfold sentFast at h
  unfold fastLane
  rw [hbest]
  cases hlabel : env.bestUpstream with
  | none => rfl
  | some label =>
    rw [hlabel] at h
    simp only at h ⊢
    cases hfound : f.upstreams.find? (·.label == label) with
    | none => rfl
    | some u =>
      have hu : (withExchanges env exchange fastExchange).fastExchange u = env.fastExchange u :=
        h u (by rw [hfound]; exact Option.mem_toList.mpr rfl)
      simp only [hu]

theorem executeSmart_congr {req : Message}
    (h : ∀ u ∈ sentSmart codec f env req,
      exchange u = env.exchange u ∧ fastExchange u = env.fastExchange u) :
    executeSmart codec f (withExchanges env exchange fastExchange) req =
      executeSmart codec f env req := by
  have hdomain : (req.query.map fun q => codec.display q.name).isSome = req.query.isSome :=
    Option.isSome_map
  have hdga : (withExchanges env exchange fastExchange).dga = env.dga := rfl
  have hecs : injectEcs (withExchanges env exchange fastExchange) req = injectEcs env req := rfl
  have havailable : available f (withExchanges env exchange fastExchange) req.query.isSome =
      available f env req.query.isSome := rfl
  unfold sentSmart at h
  simp only at h
  unfold executeSmart
  simp only [hdomain, hdga, hecs, havailable]
  split
  · rfl
  rename_i hallowed
  rw [if_neg hallowed] at h
  cases hbytes : codec.toVec (injectEcs env req) with
  | none => rfl
  | some bytes =>
    rw [hbytes, if_neg (by simp)] at h
    have hfast : (if req.query.isSome = true then
        fastLane f (withExchanges env exchange fastExchange) else none) =
          if req.query.isSome = true then fastLane f env else none := by
      split
      · rename_i hquery
        refine fastLane_congr fun u hu => (h u ?_).2
        rw [if_pos hquery]
        exact List.mem_append_left _ hu
      · rfl
    simp only [hfast]
    split
    · rfl
    · rename_i hnone
      rw [hnone] at h
      have hasked : ∀ u ∈ available f env req.query.isSome,
          (withExchanges env exchange fastExchange).exchange u = env.exchange u :=
        fun u hu => (h u (List.mem_append_right _ hu)).1
      rcases hlist : available f env req.query.isSome with _ | ⟨u, _ | ⟨v, _ | ⟨w, us⟩⟩⟩
      · rfl
      · rw [hlist] at hasked
        simp only [hasked u List.mem_cons_self]
      · rw [hlist] at hasked
        exact raceAmong_congr hasked _
      · rw [hlist] at hasked
        exact raceAmong_congr hasked _

/-- **What is not sent the query has no part in the result.** -/
theorem execute_congr {req : Message} {reqBytes : Option (List UInt8)}
    (h : ∀ u ∈ sent codec f env req reqBytes,
      exchange u = env.exchange u ∧ fastExchange u = env.fastExchange u) :
    execute codec f (withExchanges env exchange fastExchange) req reqBytes =
      execute codec f env req reqBytes := by
  unfold sent at h
  simp only at h
  unfold execute
  simp only
  split
  · rename_i hsmart
    rw [if_pos hsmart] at h
    exact executeSmart_congr h
  rename_i hsmart
  rw [if_neg hsmart] at h
  split
  · rfl
  rename_i bytes hbytes
  rw [hbytes] at h
  simp only at h
  split
  · rename_i hrace
    rw [if_pos hrace] at h
    exact raceAmong_congr (fun u hu => (h u hu).1) _
  · rename_i hrace
    rw [if_neg hrace] at h
    exact executeOrder_congr fun u hu => (h u hu).1

end

/-! ## The gate -/

/-- While the proxy is down, no DoH upstream with the proxy enabled is sent the query. -/
def KeepsGate (codec : Codec) (f : ForwardPlugin) (env : ForwardEnv) (req : Message)
    (reqBytes : Option (List UInt8)) : Prop :=
  env.proxyStatus = some false → ∀ u ∈ sent codec f env req reqBytes, u.proxiedDoh = false

/-- Before each proxied DoH upstream comes one that answers. -/
def AnsweredBefore (env : ForwardEnv) (us : List Upstream) : Prop :=
  ∀ before u rest, us = before ++ u :: rest → u.proxiedDoh = true → ∃ v ∈ before, Answers env v

/-- The upstream remembered for the domain is not a proxied DoH upstream, if the fast lane is
taken at all. -/
def FastLaneDirect (codec : Codec) (f : ForwardPlugin) (env : ForwardEnv) (req : Message) : Prop :=
  req.query.isSome = true → env.dga = false → (codec.toVec (injectEcs env req)).isSome = true →
    ∀ label u, env.bestUpstream = some label → f.upstreams.find? (·.label == label) = some u →
      u.proxiedDoh = false

/-- What the strategies that do not look at the gate rely on. -/
def GateChecked (codec : Codec) (f : ForwardPlugin) (env : ForwardEnv) (req : Message)
    (reqBytes : Option (List UInt8)) : Prop :=
  if f.strategy = some "smart" then FastLaneDirect codec f env req
  else if f.strategy = some "race" then True
  else (reqBytes <|> codec.toVec req).isSome = true → AnsweredBefore env f.upstreams

section
variable {codec : Codec} {f : ForwardPlugin} {env : ForwardEnv}

theorem mem_sentOrder {us : List Upstream} {u : Upstream} :
    u ∈ sentOrder env us ↔
      ∃ before rest, us = before ++ u :: rest ∧ ∀ v ∈ before, ¬ Answers env v := by
  induction us with
  | nil => simp [sentOrder]
  | cons w us ih =>
    unfold sentOrder
    split
    · rename_i msg hok
      rw [List.mem_singleton]
      constructor
      · rintro rfl
        exact ⟨[], us, rfl, fun v hv => (by cases hv)⟩
      · rintro ⟨before, rest, heq, hbefore⟩
        cases before with
        | nil => exact (List.cons.inj heq).1.symm
        | cons v before =>
          obtain ⟨rfl, -⟩ := List.cons.inj heq
          exact absurd ⟨msg, hok⟩ (hbefore w List.mem_cons_self)
    · rename_i hno
      have hw : ¬ Answers env w := fun ⟨msg, hok⟩ => hno msg hok
      rw [List.mem_cons, ih]
      constructor
      · rintro (rfl | ⟨before, rest, rfl, hbefore⟩)
        · exact ⟨[], us, rfl, fun v hv => (by cases hv)⟩
        · refine ⟨w :: before, rest, rfl, fun v hv => ?_⟩
          rcases List.mem_cons.mp hv with rfl | hv
          · exact hw
          · exact hbefore v hv
      · rintro ⟨before, rest, heq, hbefore⟩
        cases before with
        | nil => exact Or.inl (List.cons.inj heq).1.symm
        | cons v before =>
          obtain ⟨rfl, rfl⟩ := List.cons.inj heq
          exact Or.inr ⟨before, rest, rfl, fun v hv => hbefore v (List.mem_cons_of_mem _ hv)⟩

theorem sentOrder_direct (us : List Upstream) :
    (∀ u ∈ sentOrder env us, u.proxiedDoh = false) ↔ AnsweredBefore env us := by
  constructor
  · intro h before u rest heq hproxied
    by_contra hnone
    push Not at hnone
    have := h u (mem_sentOrder.mpr ⟨before, rest, heq, hnone⟩)
    rw [hproxied] at this
    cases this
  · intro h u hu
    obtain ⟨before, rest, heq, hbefore⟩ := mem_sentOrder.mp hu
    by_contra hproxied
    obtain ⟨v, hv, hanswers⟩ := h before u rest heq (by simpa using hproxied)
    exact hbefore v hv hanswers

/-- The gate lets no proxied DoH upstream through while the proxy is down. -/
theorem proxyAllows_direct (hdown : env.proxyStatus = some false) {u : Upstream}
    (h : proxyAllows env u = true) : u.proxiedDoh = false := by
  unfold proxyAllows at h
  rw [hdown] at h
  simpa using h

theorem available_direct (hdown : env.proxyStatus = some false) {hasDomain : Bool} {u : Upstream}
    (h : u ∈ available f env hasDomain) : u.proxiedDoh = false := by
  have hpass := (List.mem_filter.mp (List.mem_of_mem_take h)).2
  simp only [Bool.and_eq_true] at hpass
  exact proxyAllows_direct hdown hpass.1

theorem sentSmart_direct (hdown : env.proxyStatus = some false) (req : Message) :
    (∀ u ∈ sentSmart codec f env req, u.proxiedDoh = false) ↔ FastLaneDirect codec f env req := by
  constructor
  · intro h hquery hdga hbytes label u hbest hfound
    apply h
    unfold sentSmart
    simp only
    rw [if_neg (by simp [hdga]), if_neg (by simpa using Option.isSome_iff_ne_none.mp hbytes),
      if_pos hquery]
    apply List.mem_append_left
    unfold sentFast
    simp [hbest, hfound]
  · intro h u hu
    unfold sentSmart at hu
    simp only at hu
    split at hu
    · cases hu
    rename_i hallowed
    split at hu
    · cases hu
    rename_i hbytes
    rcases List.mem_append.mp hu with hu | hu
    · split at hu
      · rename_i hquery
        have hdga : env.dga = false := by
          by_contra hdga
          exact hallowed (by simp [hquery, hdga])
        unfold sentFast at hu
        split at hu
        · cases hu
        · rename_i label hbest
          have hsome : (codec.toVec (injectEcs env req)).isSome = true :=
            Option.isSome_iff_ne_none.mpr (by simpa using hbytes)
          exact h hquery hdga hsome label u hbest (Option.mem_toList.mp hu)
      · cases hu
    · split at hu
      · cases hu
      · exact available_direct hdown hu

/-- **When the proxy gate holds**: exactly when the proxy is not down, or the strategy is race, or
the remembered upstream is no proxied DoH upstream, or, in order, an upstream before it answers. -/
theorem gate_iff (codec : Codec) (f : ForwardPlugin) (env : ForwardEnv) (req : Message)
    (reqBytes : Option (List UInt8)) :
    KeepsGate codec f env req reqBytes ↔
      (env.proxyStatus = some false → GateChecked codec f env req reqBytes) := by
  refine forall_congr' fun hdown => ?_
  have hstrategy : ∀ s, s ≠ "order" → (f.strategy.getD "order" = s ↔ f.strategy = some s) := by
    intro s hs
    cases f.strategy with
    | none => simp [hs.symm]
    | some t => simp
  unfold sent GateChecked
  simp only
  rw [if_congr (hstrategy "smart" (by decide)) rfl rfl]
  by_cases hsmart : f.strategy = some "smart"
  · rw [if_pos hsmart, if_pos hsmart]
    exact sentSmart_direct hdown req
  rw [if_neg hsmart, if_neg hsmart]
  cases hbytes : reqBytes <|> codec.toVec req with
  | none => simp
  | some bytes =>
    simp only
    rw [if_congr (hstrategy "race" (by decide)) rfl rfl]
    by_cases hrace : f.strategy = some "race"
    · rw [if_pos hrace, if_pos hrace]
      exact ⟨fun _ => trivial, fun _ u hu =>
        proxyAllows_direct hdown (List.mem_filter.mp hu).2⟩
    · rw [if_neg hrace, if_neg hrace]
      simpa using sentOrder_direct f.upstreams

end

/-- A proxied DoH upstream, asked in order. -/
def proxiedForward : ForwardPlugin := ⟨"forward", [⟨1, "https://192.0.2.1/dns-query", true⟩], none⟩

theorem order_ignores_gate :
    ¬ ∀ (codec : Codec) (f : ForwardPlugin) (env : ForwardEnv) (req : Message)
      (reqBytes : Option (List UInt8)), KeepsGate codec f env req reqBytes := by
  intro h
  have hdirect := h exampleCodec proxiedForward
    { ForwardEnv.uniform .timedOut with proxyStatus := some false } exampleRequest none rfl
    ⟨1, "https://192.0.2.1/dns-query", true⟩ (by decide +kernel)
  cases hdirect

end TitanDns.ForwardPlugin
