import TitanDns.Plugins.LookupBudget
import TitanDns.Plugins.Responders
import Mathlib.Data.List.Sort

/-!
# Answers and their questions

Whether a message that the program puts together still links the question asked to its records:
the trusted and the iterative mode of `RecursiveBackend`, and `SmartResolvePlugin`.

* `LeadsTo`, `Links` — the names that the aliases of a message lead to, and what the message owes to
  a question.
* `concurrentQuery`, `probeAndSort`, `answer` — the response of `SmartResolvePlugin` from the
  responses of its upstreams; `Kept` — which of their records it has.
* `Aliased` — the response that ends the search for the name asked is an alias; `followsAlias_iff` —
  where the servers agree, exactly if the name is one.
* `lookup_answered` — **the message of a lookup is a server's response to the name asked, or, behind
  an alias, to another name.**

Principal result: `links_iff` — **which messages link the question to their records.**
-/

namespace TitanDns

/-! ## Links -/

/-- The names that the aliases among the records lead to. -/
inductive LeadsTo (answers : List Record) (name : Name) : Name → Prop
  | here {owner : Name} (h : owner.Same name) : LeadsTo answers name owner
  | through {r : Record} {target owner : Name} (hr : r ∈ answers) (hdata : r.data = .cname target)
      (hfrom : LeadsTo answers name r.name) (hto : owner.Same target) : LeadsTo answers name owner

def HasType (msg : Message) (qtype : UInt16) : Prop := ∃ r ∈ msg.answers, r.recordType = qtype

/-- If it has records of the type, the message has the question, and its aliases link the name to
the records. -/
def Links (q : Question) (msg : Message) : Prop :=
  HasType msg q.qtype → q ∈ msg.queries ∧
    ∀ r ∈ msg.answers, r.recordType = q.qtype → LeadsTo msg.answers q.name r.name

/-- Without aliases a name leads to itself only. -/
theorem LeadsTo.same {answers : List Record} {name owner : Name} (h : LeadsTo answers name owner)
    (hnone : ∀ r ∈ answers, ∀ target, r.data ≠ .cname target) : owner.Same name := by
  cases h with
  | here h => exact h
  | through hr hdata => exact absurd hdata (hnone _ hr _)

/-! ## `SmartResolvePlugin` -/

namespace SmartResolvePlugin

/-- The records whose address was not seen. -/
def unseen : List IpAddr → List Record → List Record
  | _, [] => []
  | seen, r :: rs =>
    match r.data.ip with
    | none => unseen seen rs
    | some ip => if ip ∈ seen then unseen seen rs else r :: unseen (ip :: seen) rs

/-- `concurrent_query`, on the responses in the order they come in. -/
def concurrentQuery (responses : List Message) : List Record :=
  unseen [] (responses.flatMap fun response => response.answers.filter Record.isAddress)

/-- What probing finds: latencies in milliseconds, the cached ones first, and the order in which the
probes end. -/
structure Probes where
  cached : IpAddr → Option Nat
  latency : IpAddr → Nat
  maxIpsToProbe : Nat
  order : List (Nat × Record) → List (Nat × Record)
  order_perm : ∀ l, (order l).Perm l

/-- `probe_and_sort` -/
def probeAndSort (probes : Probes) (records : List Record) : List Record :=
  let known := records.filterMap fun r =>
    r.data.ip.bind fun ip => (probes.cached ip).map fun latency => (latency, r)
  let unknown := records.filterMap fun r =>
    r.data.ip.bind fun ip =>
      if (probes.cached ip).isNone then some (probes.latency ip, r) else none
  let probed := probes.order (unknown.take (probes.maxIpsToProbe - known.length))
  ((known ++ probed).mergeSort fun x y => x.1 ≤ y.1).map (·.2)

/-- The response that `handle_internal` builds, if there is a record. -/
def answer (request : Message) (probes : Probes) (responses : List Message) : Option Message :=
  if (concurrentQuery responses).isEmpty then none
  else some (buildResponse request (probeAndSort probes (concurrentQuery responses)))

theorem mem_unseen {seen : List IpAddr} {records : List Record} {r : Record}
    (h : r ∈ unseen seen records) : r ∈ records := by
  induction records generalizing seen with
  | nil => exact h
  | cons r' rs ih =>
    unfold unseen at h
    split at h
    · exact List.mem_cons_of_mem _ (ih h)
    · split at h
      · exact List.mem_cons_of_mem _ (ih h)
      · rcases List.mem_cons.mp h with rfl | h
        · exact List.mem_cons_self
        · exact List.mem_cons_of_mem _ (ih h)

/-- A gathered record is an address record of some response. -/
theorem mem_concurrentQuery {responses : List Message} {r : Record}
    (h : r ∈ concurrentQuery responses) :
    r.isAddress = true ∧ ∃ response ∈ responses, r ∈ response.answers := by
  obtain ⟨response, hresponse, hr⟩ := List.mem_flatMap.mp (mem_unseen h)
  obtain ⟨hr, haddress⟩ := List.mem_filter.mp hr
  exact ⟨haddress, response, hresponse, hr⟩

/-- The records whose latency is not cached. -/
def uncached (probes : Probes) (records : List Record) : List Record :=
  records.filter fun r => r.data.ip.any fun ip => (probes.cached ip).isNone

def hasCached (probes : Probes) (r : Record) : Bool :=
  r.data.ip.any fun ip => (probes.cached ip).isSome

/-- A record whose latency is cached, or one of the others, the first of which are probed: as many
as the limit leaves room for beside the cached ones. -/
def Kept (probes : Probes) (records : List Record) (r : Record) : Prop :=
  r ∈ records ∧ hasCached probes r = true ∨
    r ∈ (uncached probes records).take
      (probes.maxIpsToProbe - (records.filter (hasCached probes)).length)

theorem known_records (probes : Probes) (records : List Record) :
    (records.filterMap fun r => r.data.ip.bind fun ip =>
      (probes.cached ip).map fun latency => (latency, r)).map (·.2) =
      records.filter (hasCached probes) := by
  induction records with
  | nil => rfl
  | cons r rs ih =>
    cases hip : r.data.ip with
    | none => simpa [hip, hasCached] using ih
    | some ip => cases hcached : probes.cached ip <;> simpa [hip, hcached, hasCached] using ih

theorem unknown_records (probes : Probes) (records : List Record) :
    (records.filterMap fun r => r.data.ip.bind fun ip =>
      if (probes.cached ip).isNone then some (probes.latency ip, r) else none).map (·.2) =
      uncached probes records := by
  unfold uncached
  induction records with
  | nil => rfl
  | cons r rs ih =>
    cases hip : r.data.ip with
    | none => simpa [hip] using ih
    | some ip => cases hcached : probes.cached ip <;> simpa [hip, hcached] using ih

/-- **What probing keeps.** -/
theorem mem_probeAndSort_iff {probes : Probes} {records : List Record} {r : Record} :
    r ∈ probeAndSort probes records ↔ Kept probes records r := by
  have hknown := known_records probes records
  have hunknown := unknown_records probes records
  have hlen := congrArg List.length hknown
  rw [List.length_map] at hlen
  unfold probeAndSort Kept
  simp only [← hlen]
  rw [← hunknown, ← List.map_take, List.mem_map]
  simp only [List.mem_mergeSort, List.mem_append, (probes.order_perm _).mem_iff]
  rw [← List.mem_filter, ← hknown, List.mem_map, List.mem_map]
  constructor
  · rintro ⟨x, hx | hx, rfl⟩
    · exact .inl ⟨x, hx, rfl⟩
    · exact .inr ⟨x, hx, rfl⟩
  · rintro (⟨x, hx, rfl⟩ | ⟨x, hx, rfl⟩)
    · exact ⟨x, .inl hx, rfl⟩
    · exact ⟨x, .inr hx, rfl⟩

theorem Kept.mem {probes : Probes} {records : List Record} {r : Record}
    (h : Kept probes records r) : r ∈ records := by
  rcases h with h | h
  · exact h.1
  · exact (List.mem_filter.mp (List.mem_of_mem_take h)).1

/-- Of the addresses that the upstreams' responses give, each under the name it comes with first,
one of the type that is kept belongs to another name. -/
def keepsForeign (probes : Probes) (responses : List Message) (q : Question) : Prop :=
  ∃ r, Kept probes (concurrentQuery responses) r ∧ r.recordType = q.qtype ∧ ¬ r.name.Same q.name

/-- If the upstreams link the question, such a record stood behind an alias. -/
theorem foreign_aliased {probes : Probes} {responses : List Message} {q : Question}
    (hlinks : ∀ response ∈ responses, Links q response)
    (h : keepsForeign probes responses q) :
    ∃ response ∈ responses, ∃ r ∈ response.answers, ∃ target, r.data = .cname target := by
  obtain ⟨r, hr, htype, hforeign⟩ := h
  obtain ⟨-, response, hresponse, hmem⟩ := mem_concurrentQuery hr.mem
  have hleads := (hlinks response hresponse ⟨r, hmem, htype⟩).2 r hmem htype
  by_contra hnone
  push Not at hnone
  exact hforeign (hleads.same (hnone response hresponse))

/-- **The response has no aliases**, so it links the question exactly if it keeps no record of
another name. -/
theorem answer_links_iff {request msg : Message} {probes : Probes} {responses : List Message}
    {q : Question} (hq : request.query = some q)
    (h : answer request probes responses = some msg) :
    Links q msg ↔ ¬ keepsForeign probes responses q := by
  unfold answer at h
  split at h
  · cases h
  · cases h
    have hnone : ∀ r ∈ probeAndSort probes (concurrentQuery responses), ∀ target,
        r.data ≠ .cname target := by
      intro r hr target hdata
      have haddress := (mem_concurrentQuery (mem_probeAndSort_iff.mp hr).mem).1
      simp [Record.isAddress, Record.recordType, hdata, RData.recordType, TYPE_A, TYPE_AAAA,
        TYPE_CNAME] at haddress
    constructor
    · rintro hlinks ⟨r, hkept, htype, hforeign⟩
      have hr := mem_probeAndSort_iff.mpr hkept
      exact hforeign (((hlinks ⟨r, hr, htype⟩).2 r hr htype).same hnone)
    · rintro hkept -
      refine ⟨by simp [buildResponse, hq], fun r hr htype => .here ?_⟩
      by_contra hforeign
      exact hkept ⟨r, mem_probeAndSort_iff.mp hr, htype, hforeign⟩

end SmartResolvePlugin

/-! ## Iterative mode -/

namespace RecursiveBackend

/-- Whether an alias ends a level; `next` is what holds if it ends with a referral. -/
def aliasedServers (codec : Codec) (b : RecursiveBackend) (env : ResolverEnv) (lookup : Lookup)
    (name : Name) (qtype : UInt16) (cnameDepth : Nat) (next : List IpAddr → Progress → Bool) :
    List IpAddr → Progress → Bool
  | [], _ => false
  | server :: rest, st =>
    let st' := { st with sent := st.sent + 1 }
    match reply codec qtype
        (env.exchange st.sent server (buildQuery (env.id st.sent) name qtype)) with
    | .silent => aliasedServers codec b env lookup name qtype cnameDepth next rest st'
    | .final _ => false
    | .aliased _ => true
    | .lame => aliasedServers codec b env lookup name qtype cnameDepth next rest st'
    | .glued ips => next (env.shuffle st'.sent ips) st'
    | .glueless nsNames =>
      let resolved := resolveNsIpsIterative b env lookup cnameDepth nsNames [] st'
      if resolved.1.isEmpty then
        aliasedServers codec b env lookup name qtype cnameDepth next rest resolved.2
      else next (env.shuffle resolved.2.sent resolved.1) resolved.2

/-- Whether the response that ends the search for the name is an alias. -/
def Aliased (codec : Codec) (b : RecursiveBackend) (env : ResolverEnv) (name : Name)
    (qtype : UInt16) (cnameDepth : Nat) : Nat → List IpAddr → Progress → Bool
  | 0, _, _ => false
  | depthLeft + 1, nsIps, st =>
    aliasedServers codec b env (nestedLookup codec b env depthLeft) name qtype cnameDepth
      (Aliased codec b env name qtype cnameDepth depthLeft) (nsIps.take 6) st

/-- The search of `lookup_iterative` ends with an alias. -/
def followsAlias (codec : Codec) (b : RecursiveBackend) (env : ResolverEnv) (name : Name)
    (qtype : UInt16) : Bool :=
  Aliased codec b env name qtype MAX_CNAME_DEPTH MAX_DEPTH (env.shuffle 0 b.rootServers)
    ⟨0, [(codec.display name, qtype)]⟩

/-- The message is a server's response to the name, and ends the search. -/
def Answered (env : ResolverEnv) (qtype : UInt16) (msg : Message) (name : Name) : Prop :=
  isFinal msg qtype = true ∧
    ∃ n server, env.exchange n server (buildQuery (env.id n) name qtype) = some msg

/-- A lookup keeps the questions that were visited. -/
def Keeps (lookup : Lookup) : Prop :=
  ∀ name qtype cnameDepth st, st.visited ⊆ (lookup name qtype cnameDepth st).2.visited

section
variable {codec : Codec} {b : RecursiveBackend} {env : ResolverEnv} {lookup : Lookup} {name : Name}
  {qtype : UInt16} {cnameDepth : Nat}

theorem resolveNsIpsIterative_visited (b : RecursiveBackend) (env : ResolverEnv)
    (hkeeps : Keeps lookup) (cnameDepth : Nat) (nsNames : List Name)
    (ips : List IpAddr) (st : Progress) :
    st.visited ⊆ (resolveNsIpsIterative b env lookup cnameDepth nsNames ips st).2.visited := by
  induction nsNames generalizing ips st with
  | nil => exact List.Subset.refl _
  | cons ns rest ih =>
    have hboth := List.Subset.trans (hkeeps ns TYPE_A cnameDepth st)
      (hkeeps ns TYPE_AAAA cnameDepth (lookup ns TYPE_A cnameDepth st).2)
    exact List.Subset.trans hboth (ih _ _)

theorem tryServers_visited (hkeeps : Keeps lookup) {servers : List IpAddr}
    {lastError : Option String} {st st' : Progress} {ended : LevelEnd}
    (h : tryServers codec b env lookup name qtype cnameDepth servers lastError st = (ended, st')) :
    st.visited ⊆ st'.visited := by
  induction servers generalizing lastError st with
  | nil =>
    cases h
    exact List.Subset.refl _
  | cons server rest ih =>
    rw [tryServers_cons] at h
    cases hreply : reply codec qtype
        (env.exchange st.sent server (buildQuery (env.id st.sent) name qtype)) with
    | silent =>
      rw [hreply] at h
      have hrest := ih h
      exact hrest
    | final resp =>
      rw [hreply] at h
      cases h
      exact List.Subset.refl _
    | aliased cname =>
      rw [hreply] at h
      cases h
      exact hkeeps cname qtype (cnameDepth - 1) { st with sent := st.sent + 1 }
    | lame =>
      rw [hreply] at h
      have hrest := ih h
      exact hrest
    | glued ips =>
      rw [hreply] at h
      cases h
      exact List.Subset.refl _
    | glueless nsNames =>
      rw [hreply] at h
      have hresolve := resolveNsIpsIterative_visited b env hkeeps cnameDepth nsNames []
        { st with sent := st.sent + 1 }
      unfold afterReply at h
      dsimp only at h
      split at h
      · exact List.Subset.trans hresolve (ih h)
      · cases h
        exact hresolve

/-- A level that ends with a message: the response to the name, or what the alias leads to. -/
theorem tryServers_answered (hkeeps : Keeps lookup) {msg : Message}
    (hlookup : ∀ t c st st', lookup t qtype c st = (.ok msg, st') →
      ∃ t', (codec.display t', qtype) ∉ st.visited ∧ Answered env qtype msg t')
    (next : List IpAddr → Progress → Bool) {servers : List IpAddr} {lastError : Option String}
    {st st' : Progress}
    (h : tryServers codec b env lookup name qtype cnameDepth servers lastError st =
      (.done (.ok msg), st')) :
    (aliasedServers codec b env lookup name qtype cnameDepth next servers st = false ∧
        Answered env qtype msg name) ∨
      (aliasedServers codec b env lookup name qtype cnameDepth next servers st = true ∧
        ∃ t, (codec.display t, qtype) ∉ st.visited ∧ Answered env qtype msg t) := by
  induction servers generalizing lastError st with
  | nil => cases h
  | cons server rest ih =>
    rw [tryServers_cons] at h
    unfold aliasedServers
    cases hreply : reply codec qtype
        (env.exchange st.sent server (buildQuery (env.id st.sent) name qtype)) with
    | silent =>
      rw [hreply] at h
      exact ih h
    | final resp =>
      rw [hreply] at h
      cases h
      exact .inl ⟨rfl, final_of_reply hreply, _, _, reply_final hreply⟩
    | aliased cname =>
      rw [hreply] at h
      obtain ⟨hmsg, -⟩ := Prod.ext_iff.mp h
      obtain ⟨t, hfresh, hanswered⟩ := hlookup cname (cnameDepth - 1)
        { st with sent := st.sent + 1 } _ (Prod.ext (LevelEnd.done.inj hmsg) rfl)
      exact .inr ⟨rfl, t, hfresh, hanswered⟩
    | lame =>
      rw [hreply] at h
      exact ih h
    | glued ips =>
      rw [hreply] at h
      cases h
    | glueless nsNames =>
      rw [hreply] at h
      unfold afterReply at h
      dsimp only at h ⊢
      split at h
      · rename_i hempty
        rw [if_pos hempty]
        have hresolve := resolveNsIpsIterative_visited b env hkeeps cnameDepth nsNames []
          { st with sent := st.sent + 1 }
        rcases ih h with hfinal | ⟨haliased, t, hfresh, hanswered⟩
        · exact .inl hfinal
        · exact .inr ⟨haliased, t, fun hmem => hfresh (hresolve hmem), hanswered⟩
      · cases h

/-- A level that ends with a referral. -/
theorem tryServers_referred (next : List IpAddr → Progress → Bool) {servers ips : List IpAddr}
    {lastError : Option String} {st st' : Progress}
    (h : tryServers codec b env lookup name qtype cnameDepth servers lastError st =
      (.referred ips, st')) :
    aliasedServers codec b env lookup name qtype cnameDepth next servers st = next ips st' := by
  induction servers generalizing lastError st with
  | nil => cases h
  | cons server rest ih =>
    rw [tryServers_cons] at h
    unfold aliasedServers
    cases hreply : reply codec qtype
        (env.exchange st.sent server (buildQuery (env.id st.sent) name qtype)) with
    | silent =>
      rw [hreply] at h
      exact ih h
    | final resp =>
      rw [hreply] at h
      cases h
    | aliased cname =>
      rw [hreply] at h
      cases h
    | lame =>
      rw [hreply] at h
      exact ih h
    | glued ips' =>
      rw [hreply] at h
      cases h
      rfl
    | glueless nsNames =>
      rw [hreply] at h
      unfold afterReply at h
      dsimp only at h ⊢
      split at h
      · rename_i hempty
        rw [if_pos hempty]
        exact ih h
      · rename_i hempty
        rw [if_neg hempty]
        cases h
        rfl

end

section
variable {codec : Codec} {b : RecursiveBackend} {env : ResolverEnv}

theorem enter_keeps {depthLeft : Nat}
    (hlevel : ∀ name qtype cnameDepth nsIps st,
      st.visited ⊆ (level codec b env depthLeft name qtype cnameDepth nsIps st).2.visited) :
    Keeps (nestedLookup codec b env depthLeft) := by
  intro name qtype cnameDepth st
  unfold nestedLookup enter
  split
  · exact List.Subset.refl _
  · split
    · exact List.Subset.refl _
    · split
      · exact List.Subset.refl _
      · have h := hlevel name qtype cnameDepth (env.shuffle st.sent b.rootServers)
          { st with visited := (codec.display name, qtype) :: st.visited }
        exact List.Subset.trans (List.subset_cons_self _ _) h

theorem level_visited (depthLeft : Nat) (name : Name) (qtype : UInt16) (cnameDepth : Nat)
    (nsIps : List IpAddr) (st : Progress) :
    st.visited ⊆ (level codec b env depthLeft name qtype cnameDepth nsIps st).2.visited := by
  induction depthLeft generalizing name qtype cnameDepth nsIps st with
  | zero => exact List.Subset.refl _
  | succ depthLeft ih =>
    rcases level_succ_cases codec b env depthLeft name qtype cnameDepth nsIps st with
      ⟨res, st₁, hend, hlevel⟩ | ⟨ips, st₁, hend, hlevel⟩
    · rw [hlevel]
      exact tryServers_visited (enter_keeps ih) hend
    · rw [hlevel]
      exact List.Subset.trans (tryServers_visited (enter_keeps ih) hend)
        (ih name qtype cnameDepth ips st₁)

theorem nestedLookup_keeps (codec : Codec) (b : RecursiveBackend) (env : ResolverEnv)
    (depthLeft : Nat) : Keeps (nestedLookup codec b env depthLeft) :=
  enter_keeps (level_visited depthLeft)

theorem nestedLookup_ok {depthLeft : Nat} {name : Name} {qtype : UInt16} {cnameDepth : Nat}
    {st st' : Progress} {msg : Message}
    (h : nestedLookup codec b env depthLeft name qtype cnameDepth st = (.ok msg, st')) :
    (codec.display name, qtype) ∉ st.visited ∧
      level codec b env depthLeft name qtype cnameDepth (env.shuffle st.sent b.rootServers)
        { st with visited := (codec.display name, qtype) :: st.visited } = (.ok msg, st') := by
  unfold nestedLookup enter at h
  split at h
  · cases h
  · split at h
    · cases h
    · split at h
      · cases h
      · rename_i hfresh
        exact ⟨by simpa using hfresh, h⟩

/-- **The message of a lookup is the response to the name asked, or, behind an alias, to a name that
was not visited.** -/
theorem level_answered {depthLeft : Nat} {name : Name} {qtype : UInt16} {cnameDepth : Nat}
    {nsIps : List IpAddr} {st st' : Progress} {msg : Message}
    (h : level codec b env depthLeft name qtype cnameDepth nsIps st = (.ok msg, st')) :
    (Aliased codec b env name qtype cnameDepth depthLeft nsIps st = false ∧
        Answered env qtype msg name) ∨
      (Aliased codec b env name qtype cnameDepth depthLeft nsIps st = true ∧
        ∃ t, (codec.display t, qtype) ∉ st.visited ∧ Answered env qtype msg t) := by
  induction depthLeft generalizing name cnameDepth nsIps st st' with
  | zero => cases h
  | succ depthLeft ih =>
    have hkeeps := nestedLookup_keeps codec b env depthLeft
    have hlookup : ∀ t c st st', nestedLookup codec b env depthLeft t qtype c st =
        (.ok msg, st') → ∃ t', (codec.display t', qtype) ∉ st.visited ∧
          Answered env qtype msg t' := by
      intro t c st st' hfound
      obtain ⟨hfresh, hfound⟩ := nestedLookup_ok hfound
      rcases ih hfound with ⟨-, hanswered⟩ | ⟨-, t', hfresh', hanswered⟩
      · exact ⟨t, hfresh, hanswered⟩
      · exact ⟨t', fun hmem => hfresh' (List.mem_cons_of_mem _ hmem), hanswered⟩
    rcases level_succ_cases codec b env depthLeft name qtype cnameDepth nsIps st with
      ⟨res, st₁, hend, hlevel⟩ | ⟨ips, st₁, hend, hlevel⟩
    · rw [hlevel] at h
      cases h
      exact tryServers_answered hkeeps hlookup _ hend
    · rw [hlevel] at h
      unfold Aliased
      rw [tryServers_referred _ hend]
      have hvisited := tryServers_visited hkeeps hend
      rcases ih h with hfinal | ⟨haliased, t, hfresh, hanswered⟩
      · exact .inl hfinal
      · exact .inr ⟨haliased, t, fun hmem => hfresh (hvisited hmem), hanswered⟩

end

/-- Where no server answers with an alias, none is followed. -/
theorem aliasedServers_of_noAlias {codec : Codec} {b : RecursiveBackend} {env : ResolverEnv}
    {lookup : Lookup} {name : Name} {qtype : UInt16} {cnameDepth : Nat}
    {next : List IpAddr → Progress → Bool} (hno : NoAlias env name qtype)
    (hnext : ∀ ips st, next ips st = false) (servers : List IpAddr) (st : Progress) :
    aliasedServers codec b env lookup name qtype cnameDepth next servers st = false := by
  induction servers generalizing st with
  | nil => rfl
  | cons server rest ih =>
    unfold aliasedServers
    dsimp only
    split
    · exact ih _
    · rfl
    · rename_i cname hreply
      obtain ⟨resp, hresp, hfinal, hcname⟩ := reply_aliased hreply
      rcases hno _ _ _ resp hresp with hend | hnone
      · rw [hfinal] at hend
        cases hend
      · rw [hcname] at hnone
        cases hnone
    · exact ih _
    · exact hnext _ _
    · split
      · exact ih _
      · exact hnext _ _

theorem aliased_of_noAlias {codec : Codec} {b : RecursiveBackend} {env : ResolverEnv} {name : Name}
    {qtype : UInt16} (hno : NoAlias env name qtype) {cnameDepth depthLeft : Nat}
    {nsIps : List IpAddr} {st : Progress} :
    Aliased codec b env name qtype cnameDepth depthLeft nsIps st = false := by
  induction depthLeft generalizing nsIps st with
  | zero => rfl
  | succ depthLeft ih => exact aliasedServers_of_noAlias hno (fun _ _ => ih) _ _

/-- `lookup_iterative`: the response to the name asked, or to another name. -/
theorem lookupIterative_answered {codec : Codec} {b : RecursiveBackend} {env : ResolverEnv}
    {nameStr : String} {name : Name} {qtype : UInt16} {msg : Message}
    (hname : codec.fromAscii nameStr = some name)
    (h : lookupIterative codec b env nameStr qtype = .ok msg) :
    (followsAlias codec b env name qtype = false ∧ Answered env qtype msg name) ∨
      (followsAlias codec b env name qtype = true ∧ ∃ t, t ≠ name ∧ Answered env qtype msg t) := by
  unfold lookupIterative at h
  rw [hname] at h
  have hfound : nestedLookup codec b env MAX_DEPTH name qtype MAX_CNAME_DEPTH ⟨0, []⟩ =
      (.ok msg, (nestedLookup codec b env MAX_DEPTH name qtype MAX_CNAME_DEPTH ⟨0, []⟩).2) :=
    Prod.ext h rfl
  obtain ⟨-, hlevel⟩ := nestedLookup_ok hfound
  rcases level_answered hlevel with hfinal | ⟨haliased, t, hfresh, hanswered⟩
  · exact .inl hfinal
  · refine .inr ⟨haliased, t, ?_, hanswered⟩
    rintro rfl
    exact hfresh List.mem_cons_self

/-- The servers echo the question, and link it to the records they give. -/
structure Linking (env : ResolverEnv) : Prop where
  echoes : Echoes env
  links : ∀ n server query resp, env.exchange n server query = some resp →
    ∀ q ∈ query.queries, Links q resp

/-- **A message of the iterative mode links the question to its records exactly when no alias was
followed, or there is none.** -/
theorem lookupIterative_links_iff {codec : Codec} {b : RecursiveBackend} {env : ResolverEnv}
    (hlinking : Linking env) {nameStr : String} {name : Name} {qtype : UInt16} {msg : Message}
    (hname : codec.fromAscii nameStr = some name)
    (h : lookupIterative codec b env nameStr qtype = .ok msg) :
    Links ⟨name, qtype, CLASS_IN⟩ msg ↔
      ¬ (followsAlias codec b env name qtype = true ∧ HasType msg qtype) := by
  rcases lookupIterative_answered hname h with ⟨hnone, -, n, server, hresp⟩ |
    ⟨halias, t, hne, -, n, server, hresp⟩
  · have hlinks := hlinking.links n server _ msg hresp ⟨name, qtype, CLASS_IN⟩
      (List.mem_singleton_self _)
    simp [hnone, hlinks]
  · have hqueries : msg.queries = [⟨t, qtype, CLASS_IN⟩] := hlinking.echoes n server _ msg hresp
    constructor
    · rintro hlinks ⟨-, htype⟩
      have hmem := (hlinks htype).1
      rw [hqueries, List.mem_singleton] at hmem
      exact hne (congrArg Question.name hmem).symm
    · intro hno htype
      exact absurd ⟨halias, htype⟩ hno

/-- Every server that answers the question answers it with an alias, or refers elsewhere. -/
def AlwaysAlias (env : ResolverEnv) (name : Name) (qtype : UInt16) : Prop :=
  ∀ n server id resp, env.exchange n server (buildQuery id name qtype) = some resp →
    isFinal resp qtype = false

/-- **Where the servers agree whether the name is an alias**, an alias is followed exactly if it is
one. -/
theorem followsAlias_iff {codec : Codec} {b : RecursiveBackend} {env : ResolverEnv}
    {nameStr : String} {name : Name} {qtype : UInt16} {msg : Message}
    (hname : codec.fromAscii nameStr = some name)
    (h : lookupIterative codec b env nameStr qtype = .ok msg)
    (hagree : NoAlias env name qtype ∨ AlwaysAlias env name qtype) :
    followsAlias codec b env name qtype = true ↔ AlwaysAlias env name qtype := by
  constructor
  · intro hfollows
    rcases hagree with hno | halways
    · rw [followsAlias, aliased_of_noAlias hno] at hfollows
      cases hfollows
    · exact halways
  · intro halways
    rcases lookupIterative_answered hname h with ⟨-, hfinal, n, server, hresp⟩ | ⟨hfollows, -⟩
    · rw [halways n server _ msg hresp] at hfinal
      cases hfinal
    · exact hfollows

/-- **A message of the trusted mode links the question only to nothing.** -/
theorem lookupTrusted_links_iff {codec : Codec} {b : RecursiveBackend} {env : ResolverEnv}
    {nameStr : String} {q : Question} {msg : Message}
    (h : lookupTrusted codec b env nameStr q.qtype = .ok msg) :
    Links q msg ↔ ¬ HasType msg q.qtype := by
  have hqueries := lookupTrusted_queries h
  constructor
  · intro hlinks htype
    have hmem := (hlinks htype).1
    rw [hqueries] at hmem
    exact absurd hmem (List.not_mem_nil)
  · exact fun hno htype => absurd htype hno

/-- What makes a message lose the question: it comes from the library, or from behind an alias. -/
def losesQuestion (codec : Codec) (b : RecursiveBackend) (env : ResolverEnv) (nameStr : String)
    (name : Name) (qtype : UInt16) : Prop :=
  UsesIterative codec b env nameStr qtype → followsAlias codec b env name qtype = true

/-- `lookup`, in each mode. -/
theorem lookup_links_iff {codec : Codec} {b : RecursiveBackend} {env : ResolverEnv}
    (hlinking : Linking env) {nameStr : String} {name : Name} {qtype : UInt16} {msg : Message}
    (hname : codec.fromAscii nameStr = some name)
    (h : lookup codec b env nameStr qtype = .ok msg) :
    Links ⟨name, qtype, CLASS_IN⟩ msg ↔
      ¬ (losesQuestion codec b env nameStr name qtype ∧ HasType msg qtype) := by
  have htrusted (hno : ¬ UsesIterative codec b env nameStr qtype)
      (hmsg : lookupTrusted codec b env nameStr qtype = .ok msg) :
      Links ⟨name, qtype, CLASS_IN⟩ msg ↔
        ¬ (losesQuestion codec b env nameStr name qtype ∧ HasType msg qtype) := by
    rw [lookupTrusted_links_iff (q := ⟨name, qtype, CLASS_IN⟩) hmsg]
    simp [losesQuestion, hno]
  have hiterative (huses : UsesIterative codec b env nameStr qtype)
      (hmsg : lookupIterative codec b env nameStr qtype = .ok msg) :
      Links ⟨name, qtype, CLASS_IN⟩ msg ↔
        ¬ (losesQuestion codec b env nameStr name qtype ∧ HasType msg qtype) := by
    rw [lookupIterative_links_iff hlinking hname hmsg]
    simp [losesQuestion, huses]
  unfold lookup at h
  cases hmode : b.mode with
  | trusted =>
    rw [hmode] at h
    exact htrusted (by simp [UsesIterative, hmode]) h
  | iterative =>
    rw [hmode] at h
    exact hiterative (by simp [UsesIterative, hmode]) h
  | hybrid =>
    rw [hmode] at h
    dsimp only at h
    split at h
    · rename_i hdomestic
      exact htrusted (by simp [UsesIterative, hmode, hdomestic]) h
    · rename_i hforeign
      cases hfound : lookupIterative codec b env nameStr qtype with
      | ok msg' =>
        rw [hfound] at h
        cases h
        exact hiterative (by simp [UsesIterative, hmode, hforeign, hfound]) hfound
      | error e =>
        rw [hfound] at h
        exact htrusted (by simp [UsesIterative, hmode, hfound]) h

end RecursiveBackend

open RecursiveBackend

/-- **Which messages link the question to their records**, if the servers' responses do: those of
`lookup_iterative` and of `lookup` without an alias and without the library, and those of
`SmartResolvePlugin` with records of the name asked only. -/
theorem links_iff (codec : Codec) (b : RecursiveBackend) {env : ResolverEnv}
    (hlinking : Linking env) :
    (∀ nameStr name qtype msg, codec.fromAscii nameStr = some name →
      lookupIterative codec b env nameStr qtype = .ok msg →
        (Links ⟨name, qtype, CLASS_IN⟩ msg ↔
          ¬ (followsAlias codec b env name qtype = true ∧ HasType msg qtype))) ∧
      (∀ nameStr name qtype msg, codec.fromAscii nameStr = some name →
        lookup codec b env nameStr qtype = .ok msg →
          (Links ⟨name, qtype, CLASS_IN⟩ msg ↔
            ¬ (losesQuestion codec b env nameStr name qtype ∧ HasType msg qtype))) ∧
      ∀ request q probes responses msg, request.query = some q →
        SmartResolvePlugin.answer request probes responses = some msg →
          (Links q msg ↔ ¬ SmartResolvePlugin.keepsForeign probes responses q) :=
  ⟨fun _ _ _ _ hname h => lookupIterative_links_iff hlinking hname h,
    fun _ _ _ _ hname h => lookup_links_iff hlinking hname h,
    fun _ _ _ _ _ hq h => SmartResolvePlugin.answer_links_iff hq h⟩

namespace RecursiveBackend

def targetName : Name := ⟨[[98], [99, 111, 109]], by decide, by decide⟩

def aliasCodec : Codec := .ofTable [] [(askedName, "a.com."), (targetName, "b.com.")]

def aliasBackend : RecursiveBackend := ⟨.iterative, false, [.v4 ⟨198, 41, 0, 4⟩]⟩

/-- `a.com` is an alias of `b.com`, which has an address. -/
def aliasWorld : ResolverEnv where
  id _ := 0
  exchange _ _ query :=
    if query.queries = [⟨askedName, TYPE_A, CLASS_IN⟩] then
      some { query with
        messageType := .response
        answers := [.fromRdata askedName 60 (.cname targetName)] }
    else if query.queries = [⟨targetName, TYPE_A, CLASS_IN⟩] then
      some { query with
        messageType := .response
        answers := [.fromRdata targetName 60 (.a ⟨192, 0, 2, 1⟩)] }
    else none
  trusted _ _ := none
  shuffle _ ips := ips

/-- The response to `b.com`. -/
def aliasAnswer : Message :=
  { buildQuery 0 targetName TYPE_A with
    messageType := .response
    answers := [.fromRdata targetName 60 (.a ⟨192, 0, 2, 1⟩)] }

theorem aliasWorld_linking : Linking aliasWorld where
  echoes n server query resp h := by
    unfold aliasWorld at h
    dsimp only at h
    split at h
    · cases h
      rfl
    · split at h
      · cases h
        rfl
      · cases h
  links n server query resp h q hq := by
    unfold aliasWorld at h
    dsimp only at h
    split at h
    · rename_i hquery
      cases h
      rw [hquery, List.mem_singleton] at hq
      subst hq
      rintro ⟨r, hr, htype⟩
      obtain rfl := List.mem_singleton.mp hr
      exact absurd htype (by decide)
    · split at h
      · rename_i hquery
        cases h
        rw [hquery, List.mem_singleton] at hq
        subst hq
        refine fun _ => ⟨by simp [hquery], fun r hr _ => ?_⟩
        obtain rfl := List.mem_singleton.mp hr
        exact .here (Name.Same.refl _)
      · cases h

/-- The name without an alias. -/
theorem links_target : Links ⟨targetName, TYPE_A, CLASS_IN⟩ aliasAnswer :=
  ((links_iff aliasCodec aliasBackend aliasWorld_linking).1 "b.com." targetName TYPE_A aliasAnswer
    (by decide) (by rfl)).mpr fun h => absurd h.1 (by decide)

/-- **Behind an alias the question is lost**: the message for `a.com` asks for `b.com`. -/
theorem alias_unlinked :
    Linking aliasWorld ∧
      lookup aliasCodec aliasBackend aliasWorld "a.com." TYPE_A = .ok aliasAnswer ∧
      ¬ Links ⟨askedName, TYPE_A, CLASS_IN⟩ aliasAnswer := by
  refine ⟨aliasWorld_linking, by rfl, fun hlinks => ?_⟩
  have hmem := (hlinks ⟨_, List.mem_singleton_self _, rfl⟩).1
  exact absurd hmem (by decide)

end RecursiveBackend

end TitanDns
