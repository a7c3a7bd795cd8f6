import TitanDns.Autopilot.Ranking
import TitanDns.Plugins.Forward
import TitanDns.Plugins.Pipeline

/-!
# The smart strategy: who is asked, and when it fails

* `Answers`, `raceAmong_ok_iff` — a set of upstreams asked at once gives a message exactly when one
  of them answers.
* `executeSmart_ok_iff` — **the smart strategy gives a message exactly when the fast lane or one of
  the upstreams in `available` answers.**
* `Healthy`, `Leading` — an upstream that may be asked, and one of the first of these in the
  ranking; `mem_available_iff` — **the leading ones are asked.**
* `networkScope`, `selectionEnv` — the scope of a plugin, and what the autopilot tells it.
* `Selectable` — an upstream that could be asked.

Principal results: `smart_tries_iff` — **when an answering upstream is enough**: only as many lead
as the concurrency of the moment, and the rest are never tried; `selection_iff` —
**when a selectable upstream gets into `available`**: the scope of the plugin is taken from its
name and its upstreams' transports, that of an upstream from its label.
-/

namespace TitanDns.ForwardPlugin

open Autopilot AutoPilot UpstreamMetrics

/-! ## Asking several upstreams -/

/-- The upstream answers the call. -/
def Answers (env : ForwardEnv) (u : Upstream) : Prop := ∃ msg, env.exchange u = .ok msg

theorem collectRace_isSome {es : List Exchange} {bestDefinitive bestOther : Option Message} :
    (collectRace es bestDefinitive bestOther).isSome = true ↔
      bestDefinitive.isSome = true ∨ bestOther.isSome = true ∨ ∃ msg, Exchange.ok msg ∈ es := by
  induction es generalizing bestDefinitive bestOther with
  | nil => cases bestDefinitive <;> simp [collectRace]
  | cons e es ih =>
    cases e with
    | ok msg =>
      have hmem : ∃ m, Exchange.ok m ∈ Exchange.ok msg :: es := ⟨msg, List.mem_cons_self⟩
      unfold collectRace
      split
      · exact ⟨fun _ => Or.inr (Or.inr hmem), fun _ => rfl⟩
      split
      · have hkept : (bestDefinitive <|> some msg).isSome = true := by cases bestDefinitive <;> rfl
        exact ⟨fun _ => Or.inr (Or.inr hmem), fun _ => ih.mpr (Or.inl hkept)⟩
      · have hkept : (bestOther <|> some msg).isSome = true := by cases bestOther <;> rfl
        exact ⟨fun _ => Or.inr (Or.inr hmem), fun _ => ih.mpr (Or.inr (Or.inl hkept))⟩
    | failed | timedOut | cancelled => simpa [collectRace] using ih

theorem raceAmong_ok_iff (env : ForwardEnv) (us : List Upstream) (error : String) :
    (∃ resp, raceAmong env us error = .ok resp) ↔ ∃ u ∈ us, Answers env u := by
  have harrived : (∃ msg, Exchange.ok msg ∈ arrivals env us) ↔ ∃ u ∈ us, Answers env u := by
    constructor
    · rintro ⟨msg, hmsg⟩
      obtain ⟨u, hu, hok⟩ := List.mem_map.mp hmsg
      exact ⟨u, List.mem_mergeSort.mp hu, msg, hok⟩
    · rintro ⟨u, hu, msg, hok⟩
      exact ⟨msg, List.mem_map.mpr ⟨u, List.mem_mergeSort.mpr hu, hok⟩⟩
  have hrace := @collectRace_isSome (arrivals env us) none none
  unfold raceAmong
  rw [← harrived]
  cases h : collectRace (arrivals env us) none none with
  | some resp =>
    rw [h] at hrace
    have hmem : ∃ msg, Exchange.ok msg ∈ arrivals env us := by simpa using hrace.mp rfl
    exact ⟨fun _ => hmem, fun _ => ⟨resp, rfl⟩⟩
  | none =>
    rw [h] at hrace
    refine ⟨fun ⟨resp, hresp⟩ => (by cases hresp), fun hmem => ?_⟩
    have := hrace.mpr (Or.inr (Or.inr hmem))
    cases this

/-! ## When the strategy fails -/

/-- The DGA check refuses the request. -/
def Refused (env : ForwardEnv) (req : Message) : Prop := req.query.isSome = true ∧ env.dga = true

/-- The fast lane gives a message: the upstream remembered for the domain answers. -/
def FastLaneAnswers (f : ForwardPlugin) (env : ForwardEnv) (req : Message) : Prop :=
  req.query.isSome = true ∧ (fastLane f env).isSome = true

/-- **When the smart strategy gives a message.** -/
theorem executeSmart_ok_iff (codec : Codec) (f : ForwardPlugin) (env : ForwardEnv)
    (req : Message) :
    (∃ resp, executeSmart codec f env req = .ok resp) ↔
      ¬ Refused env req ∧ (codec.toVec (injectEcs env req)).isSome = true ∧
        (FastLaneAnswers f env req ∨
          ∃ u ∈ available f env req.query.isSome, Answers env u) := by
  have hdomain : (req.query.map fun q => codec.display q.name).isSome = req.query.isSome :=
    Option.isSome_map
  unfold executeSmart Refused FastLaneAnswers
  simp only [hdomain]
  split
  · rename_i hrefused
    simp only [Bool.and_eq_true] at hrefused
    simp [hrefused]
  rename_i hallowed
  simp only [Bool.and_eq_true] at hallowed
  cases hbytes : codec.toVec (injectEcs env req) with
  | none => simp
  | some bytes =>
    simp only [hallowed, not_false_eq_true, Option.isSome_some, true_and]
    cases hfast : if req.query.isSome = true then fastLane f env else none with
    | some resp =>
      have hlane : req.query.isSome = true ∧ (fastLane f env).isSome = true := by
        split at hfast
        · rename_i hquery
          exact ⟨hquery, by rw [hfast]; rfl⟩
        · cases hfast
      simp [hlane]
    | none =>
      have hlane : ¬ (req.query.isSome = true ∧ (fastLane f env).isSome = true) := by
        rintro ⟨hquery, hsome⟩
        rw [if_pos hquery] at hfast
        rw [hfast] at hsome
        cases hsome
      simp only [hlane, false_or]
      split
      · rename_i hnil
        rw [hnil]
        simp
      · rename_i u hone
        rw [hone]
        unfold Answers
        simp only [List.mem_singleton, exists_eq_left]
        cases env.exchange u with
        | ok msg => simp
        | failed | timedOut | cancelled => simp
      · rename_i u v htwo
        rw [htwo]
        exact raceAmong_ok_iff env [u, v] _
      · exact raceAmong_ok_iff env _ _

theorem upstreamByLabel_some {f : ForwardPlugin} {label : String} {u : Upstream}
    (h : upstreamByLabel f label = some u) : u ∈ f.upstreams ∧ u.label = label :=
  ⟨List.mem_reverse.mp (List.mem_of_find?_eq_some h), by simpa using List.find?_some h⟩

/-- An upstream of the plugin that neither the proxy gate nor degradation disables. -/
def Healthy (f : ForwardPlugin) (env : ForwardEnv) (u : Upstream) : Prop :=
  u ∈ f.upstreams ∧ proxyAllows env u = true ∧ env.degrading u.label = false

/-- The label stands for an upstream of the plugin, a healthy one. -/
def healthyLabel (f : ForwardPlugin) (env : ForwardEnv) (label : String) : Bool :=
  (upstreamByLabel f label).any fun u => proxyAllows env u && !env.degrading u.label

/-- A healthy upstream that stands in the ranking, with fewer healthy ones before it than the
concurrency of the moment. -/
def Leading (f : ForwardPlugin) (env : ForwardEnv) (hasDomain : Bool) (u : Upstream) : Prop :=
  Healthy f env u ∧ ∃ i, env.ranked[i]?.bind (upstreamByLabel f) = some u ∧
    (env.ranked.take i).countP (healthyLabel f env) < finalConcurrency f env hasDomain

/-- The first elements that are found and pass. -/
theorem mem_take_filter {α β : Type} {g : α → Option β} {pass : β → Bool} {l : List α} {n : Nat}
    {b : β} :
    b ∈ ((l.filterMap g).filter pass).take n ↔
      pass b = true ∧ ∃ i, l[i]?.bind g = some b ∧
        (l.take i).countP (fun a => (g a).any pass) < n := by
  induction l generalizing n with
  | nil => simp
  | cons a l ih =>
    have hsplit : (∃ i, (a :: l)[i]?.bind g = some b ∧
          ((a :: l).take i).countP (fun a => (g a).any pass) < n) ↔
        g a = some b ∧ 0 < n ∨ ∃ i, l[i]?.bind g = some b ∧
          (l.take i).countP (fun a => (g a).any pass) + (if (g a).any pass then 1 else 0) < n := by
      constructor
      · rintro ⟨_ | i, hi, hn⟩
        · exact .inl ⟨hi, by simpa using hn⟩
        · exact .inr ⟨i, hi, by rwa [List.take_succ_cons, List.countP_cons] at hn⟩
      · rintro (⟨ha, hn⟩ | ⟨i, hi, hn⟩)
        · exact ⟨0, ha, by simpa using hn⟩
        · exact ⟨i + 1, hi, by rwa [List.take_succ_cons, List.countP_cons]⟩
    rw [hsplit]
    cases ha : g a with
    | none =>
      rw [List.filterMap_cons_none ha, ih]
      simp
    | some b' =>
      rw [List.filterMap_cons_some ha]
      cases hpass : pass b' with
      | false =>
        rw [List.filter_cons_of_neg (by simp [hpass]), ih]
        simp only [Option.any_some, hpass, Bool.false_eq_true, if_false, Nat.add_zero,
          Option.some.injEq]
        constructor
        · exact fun ⟨hb, hi⟩ => ⟨hb, .inr hi⟩
        · rintro ⟨hb, ⟨rfl, -⟩ | hi⟩
          · rw [hpass] at hb
            cases hb
          · exact ⟨hb, hi⟩
      | true =>
        rw [List.filter_cons_of_pos hpass]
        cases n with
        | zero => simp
        | succ n =>
          rw [List.take_succ_cons, List.mem_cons, ih]
          simp only [Option.any_some, hpass, if_true, Option.some.injEq, Nat.add_lt_add_iff_right,
            Nat.zero_lt_succ, and_true]
          constructor
          · rintro (rfl | ⟨hb, hi⟩)
            · exact ⟨hpass, .inl rfl⟩
            · exact ⟨hb, .inr hi⟩
          · rintro ⟨hb, rfl | hi⟩
            · exact .inl rfl
            · exact .inr ⟨hb, hi⟩

/-- **Who is asked**: the leading upstreams. -/
theorem mem_available_iff {f : ForwardPlugin} {env : ForwardEnv} {hasDomain : Bool} {u : Upstream} :
    u ∈ available f env hasDomain ↔ Leading f env hasDomain u := by
  unfold available Leading Healthy
  rw [mem_take_filter]
  simp only [Bool.and_eq_true, Bool.not_eq_true']
  constructor
  · rintro ⟨hpass, i, hi, hn⟩
    obtain ⟨label, -, hfound⟩ := Option.bind_eq_some_iff.mp hi
    exact ⟨⟨(upstreamByLabel_some hfound).1, hpass⟩, i, hi, hn⟩
  · rintro ⟨⟨-, hpass⟩, i, hi, hn⟩
    exact ⟨hpass, i, hi, hn⟩

/-- Some healthy upstream answers, so the strategy gives a message. -/
def TriesEveryUpstream (codec : Codec) (f : ForwardPlugin) (env : ForwardEnv)
    (req : Message) : Prop :=
  (∃ u, Healthy f env u ∧ Answers env u) → ∃ resp, executeSmart codec f env req = .ok resp

/-- **When an answering upstream is enough**: exactly when none answers, or the request can be
encoded and the remembered upstream answers, or one of the first healthy upstreams of the ranking,
as many as the concurrency of the moment. -/
theorem smart_tries_iff (codec : Codec) (f : ForwardPlugin) (env : ForwardEnv) (req : Message)
    (hdga : ¬ Refused env req) :
    TriesEveryUpstream codec f env req ↔
      (¬ ∃ u, Healthy f env u ∧ Answers env u) ∨
        (codec.toVec (injectEcs env req)).isSome = true ∧
          (FastLaneAnswers f env req ∨
            ∃ u, Leading f env req.query.isSome u ∧ Answers env u) := by
  have hok := executeSmart_ok_iff codec f env req
  rw [and_iff_right hdga] at hok
  simp only [mem_available_iff] at hok
  unfold TriesEveryUpstream
  rw [hok]
  exact imp_iff_not_or

/-- Two healthy upstreams in a calm network: the first fails, the second is not asked. -/
def twoUpstreams : ForwardPlugin :=
  ⟨"forward", [⟨1, "udp://192.0.2.1:53", false⟩, ⟨2, "udp://192.0.2.2:53", false⟩], some "smart"⟩

/-- The first upstream fails, the second answers, and both are ranked. -/
def firstFails : ForwardEnv :=
  { ForwardEnv.uniform .failed with
    exchange := fun u => if u.ptr = 2 then .ok exampleAnswer else .failed
    ranked := ["udp://192.0.2.1:53", "udp://192.0.2.2:53"] }

theorem smart_tries_iff_twoUpstreams :
    TriesEveryUpstream exampleCodec twoUpstreams firstFails exampleRequest ↔
      (¬ ∃ u, Healthy twoUpstreams firstFails u ∧ Answers firstFails u) ∨
        (exampleCodec.toVec (injectEcs firstFails exampleRequest)).isSome = true ∧
          (FastLaneAnswers twoUpstreams firstFails exampleRequest ∨
            ∃ u, Leading twoUpstreams firstFails exampleRequest.query.isSome u ∧
              Answers firstFails u) :=
  smart_tries_iff exampleCodec twoUpstreams firstFails exampleRequest fun h => (by cases h.2)

theorem second_upstream_not_tried :
    ¬ ∀ (codec : Codec) (f : ForwardPlugin) (env : ForwardEnv) (req : Message),
      ¬ Refused env req → TriesEveryUpstream codec f env req := by
  intro h
  have hanswer : ∃ u, Healthy twoUpstreams firstFails u ∧ Answers firstFails u :=
    ⟨⟨2, "udp://192.0.2.2:53", false⟩, ⟨by decide, rfl, rfl⟩, exampleAnswer, rfl⟩
  obtain ⟨resp, hresp⟩ := h exampleCodec twoUpstreams firstFails exampleRequest
    (fun h => (by cases h.2)) hanswer
  have hfails : executeSmart exampleCodec twoUpstreams firstFails exampleRequest =
      .error "Single upstream failed" := by decide +kernel
  rw [hfails] at hresp
  cases hresp

/-! ## What the autopilot tells the plugin -/

inductive Transport where
  | udp (socks5 : Bool)
  | tcp (socks5 : Bool)
  | doh (proxyEnabled : Bool)
  | dot
  | doq
  deriving DecidableEq, Repr

/-- `is_foreign_upstream`. -/
def isForeignUpstream : Transport → Bool
  | .doh _ => true
  | .dot => true
  | .doq => true
  | .udp socks5 => socks5
  | .tcp socks5 => socks5

section
variable (transport : Upstream → Transport) (score : UpstreamMetrics → Nat)

/-- `detect_network_scope`. -/
def detectNetworkScope (f : ForwardPlugin) : NetworkScope :=
  if f.upstreams.any fun u => isForeignUpstream (transport u) then .foreign else .domestic

/-- The scope the ranking is asked for: that of the plugin's name, if it tells one. -/
def networkScope (f : ForwardPlugin) : NetworkScope :=
  let nameLower := f.name.toLower
  if containsText nameLower "domestic" || containsText nameLower "local" ||
      containsText nameLower "cn" then .domestic
  else if containsText nameLower "proxy" || containsText nameLower "foreign" then .foreign
  else detectNetworkScope transport f

/-- Every upstream of the plugin is registered before the ranking is asked for. -/
def registerAll (f : ForwardPlugin) (a : AutoPilot) (now : Nat) : AutoPilot :=
  f.upstreams.foldl (fun a u => a.register now u.label) a

/-- The environment of a call at `now`, with the autopilot as it is then. -/
def selectionEnv (f : ForwardPlugin) (a : AutoPilot) (now : Nat) (cached : RankSnapshot)
    (env : ForwardEnv) : ForwardEnv :=
  { env with
    ranked := (getRankedUpstreamsCached score (registerAll f a now) now
      (networkScope transport f) cached).1
    degrading := (registerAll f a now).isUpstreamDegrading }

theorem networkScope_ne_global (f : ForwardPlugin) : networkScope transport f ≠ .global := by
  unfold networkScope detectNetworkScope
  simp only
  split
  · decide
  split
  · decide
  split
  · decide
  · decide

end

/-- Available, not degrading, and not disabled by the proxy gate. -/
structure Selectable (a : AutoPilot) (now : Nat) (env : ForwardEnv) (u : Upstream) : Prop where
  available : ∃ m, a.get u.label = some m ∧ m.isAvailable now = true
  notDegrading : a.isUpstreamDegrading u.label = false
  proxy : proxyAllows env u = true

theorem concurrency_pos {f : ForwardPlugin} (h : f.upstreams ≠ []) (env : ForwardEnv) :
    0 < concurrency f env := by
  have := List.length_pos_iff.mpr h
  unfold concurrency
  simp only
  split
  · omega
  split
  · omega
  split
  · omega
  split
  · omega
  · omega

theorem finalConcurrency_pos {f : ForwardPlugin} (h : f.upstreams ≠ []) (env : ForwardEnv)
    (hasDomain : Bool) : 0 < finalConcurrency f env hasDomain := by
  have hlen := List.length_pos_iff.mpr h
  have hpos := concurrency_pos h env
  unfold finalConcurrency
  simp only
  split
  · split <;> omega
  · split <;> omega

/-- Some upstream of the ranking is the plugin's own and passes the filters. -/
theorem available_ne_nil_iff (f : ForwardPlugin) (env : ForwardEnv) (hasDomain : Bool) :
    available f env hasDomain ≠ [] ↔
      ∃ label ∈ env.ranked, ∃ u, upstreamByLabel f label = some u ∧
        proxyAllows env u = true ∧ env.degrading label = false := by
  unfold available
  rw [← List.length_pos_iff, List.length_take, Nat.lt_min, List.length_pos_iff]
  constructor
  · rintro ⟨-, hne⟩
    obtain ⟨u, hu⟩ := List.exists_mem_of_ne_nil _ hne
    obtain ⟨hu, hpass⟩ := List.mem_filter.mp hu
    obtain ⟨label, hlabel, hfound⟩ := List.mem_filterMap.mp hu
    simp only [Bool.and_eq_true, Bool.not_eq_true'] at hpass
    rw [(upstreamByLabel_some hfound).2] at hpass
    exact ⟨label, hlabel, u, hfound, hpass⟩
  · rintro ⟨label, hlabel, u, hfound, hproxy, hdegrading⟩
    obtain ⟨hmem, hul⟩ := upstreamByLabel_some hfound
    refine ⟨finalConcurrency_pos (List.ne_nil_of_mem hmem) env hasDomain, ?_⟩
    apply List.ne_nil_of_mem
    refine List.mem_filter.mpr ⟨List.mem_filterMap.mpr ⟨label, hlabel, hfound⟩, ?_⟩
    rw [hul, hproxy, hdegrading]
    rfl

section
variable (transport : Upstream → Transport) (score : UpstreamMetrics → Nat) (f : ForwardPlugin)
  (a : AutoPilot) (now : Nat) (cached : RankSnapshot) (env : ForwardEnv)

/-- If an upstream of the plugin is selectable, `available` has one of its upstreams. -/
def SelectsOwn (hasDomain : Bool) : Prop :=
  (∃ u ∈ f.upstreams, Selectable (registerAll f a now) now env u) →
    ∃ u ∈ available f (selectionEnv transport score f a now cached env) hasDomain, u ∈ f.upstreams

/-- An upstream of the plugin passes the filters and is in the ranking: in the snapshot, if that is
reused, else selectable and in the scope of the plugin, unless nothing registered is. -/
def OwnRanked : Prop :=
  if cached.reused (registerAll f a now) now = true then
    ∃ label ∈ cached.ranks, ∃ u, upstreamByLabel f label = some u ∧ proxyAllows env u = true ∧
      (registerAll f a now).isUpstreamDegrading label = false
  else
    ∃ label u, upstreamByLabel f label = some u ∧ Selectable (registerAll f a now) now env u ∧
      (scopeForLabel label = networkScope transport f ∨
        Unscoped (networkScope transport f) (registerAll f a now))

/-- **When a selectable upstream gets into `available`**: exactly when no upstream is selectable, or
one is also in the ranking for the scope of the plugin. -/
theorem selection_iff (hasDomain : Bool) :
    SelectsOwn transport score f a now cached env hasDomain ↔
      (¬ ∃ u ∈ f.upstreams, Selectable (registerAll f a now) now env u) ∨
        OwnRanked transport f a now cached env := by
  have hown : (∃ u ∈ available f (selectionEnv transport score f a now cached env) hasDomain,
      u ∈ f.upstreams) ↔ OwnRanked transport f a now cached env := by
    have hne : (∃ u ∈ available f (selectionEnv transport score f a now cached env) hasDomain,
        u ∈ f.upstreams) ↔
          available f (selectionEnv transport score f a now cached env) hasDomain ≠ [] := by
      constructor
      · rintro ⟨u, hu, -⟩
        exact List.ne_nil_of_mem hu
      · intro hne
        obtain ⟨u, hu⟩ := List.exists_mem_of_ne_nil _ hne
        exact ⟨u, hu, mem_available hu⟩
    rw [hne, available_ne_nil_iff]
    unfold OwnRanked
    split
    · rename_i hreused
      have hranked : (selectionEnv transport score f a now cached env).ranked = cached.ranks :=
        getRanked_reused hreused
      rw [hranked]
      exact Iff.rfl
    · rename_i hstale
      have hranked : (selectionEnv transport score f a now cached env).ranked =
          computeRankedUpstreams score (registerAll f a now) now (networkScope transport f) :=
        getRanked_computed (by simpa using hstale)
      have hscope := networkScope_ne_global transport f
      rw [hranked]
      constructor
      · rintro ⟨label, hlabel, u, hfound, hproxy, hdegrading⟩
        obtain ⟨m, hget, havailable, hin⟩ := (mem_computeRankedUpstreams hscope _ _ _).mp hlabel
        have hul := (upstreamByLabel_some hfound).2
        refine ⟨label, u, hfound, ⟨⟨m, ?_, havailable⟩, ?_, hproxy⟩, hin⟩
        · rw [hul]
          exact hget
        · rw [hul]
          exact hdegrading
      · rintro ⟨label, u, hfound, ⟨⟨m, hget, havailable⟩, hdegrading, hproxy⟩, hin⟩
        have hul := (upstreamByLabel_some hfound).2
        rw [hul] at hget hdegrading
        exact ⟨label, (mem_computeRankedUpstreams hscope _ _ _).mpr ⟨m, hget, havailable, hin⟩, u,
          hfound, hproxy, hdegrading⟩
  unfold SelectsOwn
  rw [hown]
  exact imp_iff_not_or

end

/-- A domestic plugin with a DoH upstream. -/
def domesticDoh : ForwardPlugin :=
  ⟨"forward_domestic", [⟨1, "https://192.0.2.1/dns-query", false⟩], some "smart"⟩

/-- Another plugin registered an upstream over plain UDP. -/
def udpRegistered : AutoPilot := AutoPilot.empty.register 0 "udp://192.0.2.2:53"

theorem domestic_doh_not_selected :
    ¬ ∀ (transport : Upstream → Transport) (score : UpstreamMetrics → Nat) (f : ForwardPlugin)
      (a : AutoPilot) (now : Nat) (cached : RankSnapshot) (env : ForwardEnv) (hasDomain : Bool),
      SelectsOwn transport score f a now cached env hasDomain := by
  intro h
  have hown := h (fun _ => .doh false) (fun _ => 1000) domesticDoh udpRegistered 0 ⟨0, 0, []⟩
    (.uniform (.ok exampleAnswer)) true
  obtain ⟨u, hu, -⟩ := hown ⟨_, List.mem_cons_self,
    ⟨⟨.new "https://192.0.2.1/dns-query" 0, by decide +kernel, rfl⟩, by decide +kernel, rfl⟩⟩
  have hnone : available domesticDoh (selectionEnv (fun _ => .doh false) (fun _ => 1000)
      domesticDoh udpRegistered 0 ⟨0, 0, []⟩ (.uniform (.ok exampleAnswer))) true = [] := by
    decide +kernel
  rw [hnone] at hu
  cases hu

end TitanDns.ForwardPlugin
