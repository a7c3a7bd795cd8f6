import TitanDns.Plugins.RecursiveBackend
import Mathlib.Order.Bounds.Basic

/-!
# What an iterative lookup spends

`lookup_iterative_internal` with what the model of `RecursiveBackend` leaves out: both transports,
the number of queries, subtractions that can fail, a bound on the rounds of the loop and one on the
nested calls.

* `Reply`, `tryServers_cons` — the cases of a response, and one step of a level by them.
* `Upstreams`, `Spending`, `Checked.lookupIterative` — the machine; `Fault` — what can go wrong.
* `Agrees` — a run without a fault that ends as the model does and sends at most so many queries.
* `Referrals` — the sizes of the referrals without glue that the servers give.

Principal results: `lookupIterative_ends` — **sixteen nested calls, with sixteen rounds each, are
enough, and no subtraction underflows**; `queries_bounded_iff` — **the number of queries is bounded
exactly over the worlds whose referrals without glue name a bounded number of servers.**
-/

namespace TitanDns

namespace RecursiveBackend

/-! ## Replies -/

/-- What a level makes of the response of a server. -/
inductive Reply where
  | silent
  | final (resp : Message)
  | aliased (cname : Name)
  | lame
  | glued (ips : List IpAddr)
  | glueless (nsNames : List Name)

def reply (codec : Codec) (qtype : UInt16) : Option Message → Reply
  | none => .silent
  | some resp =>
    if isFinal resp qtype then .final resp
    else
      match extractCnameTarget resp.answers with
      | some cname => .aliased cname
      | none =>
        if (extractNsNames resp.nameServers).isEmpty then .lame
        else if (glue codec resp (extractNsNames resp.nameServers)).isEmpty then
          .glueless (extractNsNames resp.nameServers)
        else .glued (glue codec resp (extractNsNames resp.nameServers))

section
variable (codec : Codec) {qtype : UInt16} {resp : Message}

theorem reply_of_final (hfinal : isFinal resp qtype = true) :
    reply codec qtype (some resp) = .final resp := by
  simp [reply, hfinal]

theorem reply_of_alias (hfinal : isFinal resp qtype = false) {cname : Name}
    (hcname : extractCnameTarget resp.answers = some cname) :
    reply codec qtype (some resp) = .aliased cname := by
  simp [reply, hfinal, hcname]

theorem reply_of_referral (hfinal : isFinal resp qtype = false)
    (hcname : extractCnameTarget resp.answers = none)
    (hnames : extractNsNames resp.nameServers ≠ []) :
    reply codec qtype (some resp) =
      if (glue codec resp (extractNsNames resp.nameServers)).isEmpty then
        .glueless (extractNsNames resp.nameServers)
      else .glued (glue codec resp (extractNsNames resp.nameServers)) := by
  simp [reply, hfinal, hcname, hnames]

end

theorem reply_final {codec : Codec} {qtype : UInt16} {answer : Option Message} {resp : Message}
    (h : reply codec qtype answer = .final resp) : answer = some resp := by
  cases answer with
  | none => cases h
  | some resp' =>
    unfold reply at h
    cases hfinal : isFinal resp' qtype with
    | true =>
      simp only [hfinal, if_true] at h
      cases h
      rfl
    | false =>
      cases hcname : extractCnameTarget resp'.answers with
      | some cname => simp [hfinal, hcname] at h
      | none =>
        simp only [hfinal, hcname, Bool.false_eq_true, if_false] at h
        split at h
        · cases h
        · split at h
          · cases h
          · cases h

/-- A response that ends the search. -/
theorem final_of_reply {codec : Codec} {qtype : UInt16} {answer : Option Message} {resp : Message}
    (h : reply codec qtype answer = .final resp) : isFinal resp qtype = true := by
  obtain rfl := reply_final h
  cases hfinal : isFinal resp qtype with
  | true => rfl
  | false =>
    cases hcname : extractCnameTarget resp.answers with
    | some cname => simp [reply, hfinal, hcname] at h
    | none =>
      simp only [reply, hfinal, hcname, Bool.false_eq_true, if_false] at h
      split at h
      · cases h
      · split at h
        · cases h
        · cases h

theorem reply_aliased {codec : Codec} {qtype : UInt16} {answer : Option Message} {cname : Name}
    (h : reply codec qtype answer = .aliased cname) :
    ∃ resp, answer = some resp ∧ isFinal resp qtype = false ∧
      extractCnameTarget resp.answers = some cname := by
  cases answer with
  | none => cases h
  | some resp =>
    cases hfinal : isFinal resp qtype with
    | true => simp [reply, hfinal] at h
    | false =>
      cases hcname : extractCnameTarget resp.answers with
      | some cname' =>
        simp only [reply, hfinal, hcname, Bool.false_eq_true, if_false, Reply.aliased.injEq] at h
        subst h
        exact ⟨resp, rfl, hfinal, hcname⟩
      | none =>
        simp only [reply, hfinal, hcname, Bool.false_eq_true, if_false] at h
        split at h
        · cases h
        · split at h
          · cases h
          · cases h

theorem reply_glueless {codec : Codec} {qtype : UInt16} {resp : Message} {nsNames : List Name}
    (h : reply codec qtype (some resp) = .glueless nsNames) :
    nsNames = extractNsNames resp.nameServers := by
  unfold reply at h
  cases hfinal : isFinal resp qtype with
  | true => simp [hfinal] at h
  | false =>
    cases hcname : extractCnameTarget resp.answers with
    | some cname => simp [hfinal, hcname] at h
    | none =>
      simp only [hfinal, hcname, Bool.false_eq_true, if_false] at h
      by_cases hnames : (extractNsNames resp.nameServers).isEmpty
      · rw [if_pos hnames] at h
        cases h
      · rw [if_neg hnames] at h
        by_cases hglue : (glue codec resp (extractNsNames resp.nameServers)).isEmpty
        · rw [if_pos hglue] at h
          cases h
          rfl
        · rw [if_neg hglue] at h
          cases h

/-- What follows the reply of the first server: an end, or the servers after it. -/
def afterReply (b : RecursiveBackend) (env : ResolverEnv) (lookup : Lookup) (qtype : UInt16)
    (cnameDepth : Nat) (servers : Option String → Progress → LevelEnd × Progress)
    (lastError : Option String) (st : Progress) : Reply → LevelEnd × Progress
  | .silent => servers (some "exchange") st
  | .final resp => (.done (.ok resp), st)
  | .aliased cname => ((.done (lookup cname qtype (cnameDepth - 1) st).1),
      (lookup cname qtype (cnameDepth - 1) st).2)
  | .lame => servers lastError st
  | .glued ips => (.referred (env.shuffle st.sent ips), st)
  | .glueless nsNames =>
    let resolved := resolveNsIpsIterative b env lookup cnameDepth nsNames [] st
    if resolved.1.isEmpty then servers lastError resolved.2
    else (.referred (env.shuffle resolved.2.sent resolved.1), resolved.2)

/-- **One step of a level.** -/
theorem tryServers_cons (codec : Codec) (b : RecursiveBackend) (env : ResolverEnv)
    (lookup : Lookup) (name : Name) (qtype : UInt16) (cnameDepth : Nat) (server : IpAddr)
    (rest : List IpAddr) (lastError : Option String) (st : Progress) :
    tryServers codec b env lookup name qtype cnameDepth (server :: rest) lastError st =
      afterReply b env lookup qtype cnameDepth
        (tryServers codec b env lookup name qtype cnameDepth rest) lastError
        { st with sent := st.sent + 1 }
        (reply codec qtype
          (env.exchange st.sent server (buildQuery (env.id st.sent) name qtype))) := by
  rw [tryServers]
  cases env.exchange st.sent server (buildQuery (env.id st.sent) name qtype) with
  | none => rfl
  | some resp =>
    simp only [reply]
    split
    · rfl
    · cases extractCnameTarget resp.answers with
      | some cname => rfl
      | none =>
        simp only
        split
        · rfl
        · split
          · rfl
          · rfl

/-- The lookup that a level with this depth nests. -/
def nestedLookup (codec : Codec) (b : RecursiveBackend) (env : ResolverEnv) (depthLeft : Nat) :
    Lookup :=
  enter codec b env depthLeft (level codec b env depthLeft)

/-- **One level**: it ends the search, or hands it to the servers of a referral. -/
theorem level_succ_cases (codec : Codec) (b : RecursiveBackend) (env : ResolverEnv)
    (depthLeft : Nat) (name : Name) (qtype : UInt16) (cnameDepth : Nat) (nsIps : List IpAddr)
    (st : Progress) :
    (∃ res st₁, tryServers codec b env (nestedLookup codec b env depthLeft) name qtype cnameDepth
          (nsIps.take 6) none st = (.done res, st₁) ∧
        level codec b env (depthLeft + 1) name qtype cnameDepth nsIps st = (res, st₁)) ∨
      ∃ ips st₁, tryServers codec b env (nestedLookup codec b env depthLeft) name qtype cnameDepth
          (nsIps.take 6) none st = (.referred ips, st₁) ∧
        level codec b env (depthLeft + 1) name qtype cnameDepth nsIps st =
          level codec b env depthLeft name qtype cnameDepth ips st₁ := by
  rw [level]
  unfold nestedLookup
  dsimp only
  rcases tryServers codec b env (enter codec b env depthLeft (level codec b env depthLeft)) name
    qtype cnameDepth (nsIps.take 6) none st with ⟨res | ips, st₁⟩
  · exact .inl ⟨res, st₁, rfl, rfl⟩
  · exact .inr ⟨ips, st₁, rfl, rfl⟩

/-! ## The machine -/

/-- The servers, over both transports, and the resolver library. -/
structure Upstreams where
  id : Nat → UInt16
  udp : Nat → IpAddr → Message → Option Message
  tcp : Nat → IpAddr → Message → Option Message
  trusted : Name → UInt16 → Option (List Record)
  shuffle : Nat → List IpAddr → List IpAddr

/-- The exchanges as one. -/
def Upstreams.env (w : Upstreams) : ResolverEnv where
  id := w.id
  exchange n server query :=
    match w.udp n server query with
    | none => none
    | some resp => if resp.truncated then w.tcp n server query else some resp
  trusted := w.trusted
  shuffle := w.shuffle

/-- What would be wrong: a subtraction below zero, one nested call or one round too many. -/
inductive Fault where
  | underflow
  | nested
  | endless
  deriving DecidableEq

/-- The state of the run, with the queries sent. -/
structure Spending extends Progress where
  queries : Nat

/-- A nested call, with its two budgets. -/
abbrev Call :=
  Name → UInt16 → Nat → Nat → Spending → Except Fault (Except String Message × Spending)

def minusOne : Nat → Except Fault Nat
  | 0 => .error .underflow
  | n + 1 => .ok n

/-- `send_udp_query`: a truncated response is asked for again over TCP. -/
def sendUdpQuery (w : Upstreams) (server : IpAddr) (query : Message) (st : Spending) :
    Option Message × Spending :=
  match w.udp st.sent server query with
  | none => (none, { st with sent := st.sent + 1, queries := st.queries + 1 })
  | some resp =>
    if resp.truncated then
      (w.tcp st.sent server query, { st with sent := st.sent + 1, queries := st.queries + 2 })
    else (some resp, { st with sent := st.sent + 1, queries := st.queries + 1 })

/-- The two lookups of the library. -/
def askTrusted (b : RecursiveBackend) (st : Spending) : Spending :=
  if b.hasTrusted then { st with queries := st.queries + 2 } else st

namespace Checked

/-- `resolve_ns_ips_iterative` -/
def resolveNsIpsIterative (b : RecursiveBackend) (w : Upstreams) (call : Call)
    (depthLeft cnameDepth : Nat) :
    List Name → List IpAddr → Spending → Except Fault (List IpAddr × Spending)
  | [], ips, st => .ok (ips, st)
  | ns :: rest, ips, st => do
    let v4 ← call ns TYPE_A depthLeft cnameDepth st
    let v6 ← call ns TYPE_AAAA depthLeft cnameDepth v4.2
    let ips := ips ++ okIps v4.1 ++ okIps v6.1
    if ips.isEmpty then
      resolveNsIpsIterative b w call depthLeft cnameDepth rest (trustedIps b w.env ns)
        (askTrusted b v6.2)
    else resolveNsIpsIterative b w call depthLeft cnameDepth rest ips v6.2

/-- The `for` loop over the servers of one level. -/
def tryServers (codec : Codec) (b : RecursiveBackend) (w : Upstreams) (call : Call) (name : Name)
    (qtype : UInt16) (depthLeft cnameDepth : Nat) :
    List IpAddr → Option String → Spending → Except Fault (LevelEnd × Spending)
  | [], lastError, st =>
    .ok (.done (.error
      (lastError.getD "Iterative lookup failed: no responsive nameserver")), st)
  | server :: rest, lastError, st =>
    let answer := sendUdpQuery w server (buildQuery (w.id st.sent) name qtype) st
    match reply codec qtype answer.1 with
    | .silent =>
      tryServers codec b w call name qtype depthLeft cnameDepth rest (some "exchange") answer.2
    | .final resp => .ok (.done (.ok resp), answer.2)
    | .aliased cname => do
      let cnameDepth ← minusOne cnameDepth
      let depthLeft ← minusOne depthLeft
      let found ← call cname qtype depthLeft cnameDepth answer.2
      .ok (.done found.1, found.2)
    | .lame => tryServers codec b w call name qtype depthLeft cnameDepth rest lastError answer.2
    | .glued ips => .ok (.referred (w.shuffle answer.2.sent ips), answer.2)
    | .glueless nsNames => do
      let depthLeft' ← minusOne depthLeft
      let resolved ←
        resolveNsIpsIterative b w call depthLeft' cnameDepth nsNames [] answer.2
      if resolved.1.isEmpty then
        tryServers codec b w call name qtype depthLeft cnameDepth rest lastError resolved.2
      else .ok (.referred (w.shuffle resolved.2.sent resolved.1), resolved.2)

/-- The `loop`, for so many rounds. -/
def descend (codec : Codec) (b : RecursiveBackend) (w : Upstreams) (call : Call) (name : Name)
    (qtype : UInt16) (cnameDepth : Nat) :
    Nat → Nat → List IpAddr → Spending → Except Fault (Except String Message × Spending)
  | 0, _, _, _ => .error .endless
  | rounds + 1, depthLeft, nsIps, st =>
    if depthLeft = 0 then .ok (.error "Iterative depth exceeded", st)
    else do
      let ended ← tryServers codec b w call name qtype depthLeft cnameDepth (nsIps.take 6) none st
      match ended.1 with
      | .done res => .ok (res, ended.2)
      | .referred ips => do
        let depthLeft ← minusOne depthLeft
        descend codec b w call name qtype cnameDepth rounds depthLeft ips ended.2

/-- `lookup_iterative_internal`, with so many calls nested at most. -/
def lookupIterativeInternal (codec : Codec) (b : RecursiveBackend) (w : Upstreams) (rounds : Nat) :
    Nat → Call
  | 0 => fun _ _ _ _ _ => .error .nested
  | frames + 1 => fun name qtype depthLeft cnameDepth st =>
    if depthLeft = 0 then .ok (.error "Iterative depth exceeded", st)
    else if cnameDepth = 0 then .ok (.error "CNAME chain too deep", st)
    else if st.visited.contains (codec.display name, qtype) then
      .ok (.error "Iterative loop detected", st)
    else
      descend codec b w (lookupIterativeInternal codec b w rounds frames) name qtype cnameDepth
        rounds depthLeft (w.shuffle st.sent b.rootServers)
        { st with visited := (codec.display name, qtype) :: st.visited }

/-- `lookup_iterative`, with the number of queries sent. -/
def lookupIterative (codec : Codec) (b : RecursiveBackend) (w : Upstreams) (rounds frames : Nat)
    (nameStr : String) (qtype : UInt16) : Except Fault (Except String Message × Nat) :=
  match codec.fromAscii nameStr with
  | none => .ok (.error "name", 0)
  | some name => do
    let found ← lookupIterativeInternal codec b w rounds frames name qtype MAX_DEPTH
      MAX_CNAME_DEPTH ⟨⟨0, []⟩, 0⟩
    .ok (found.1, found.2.queries)

end Checked

/-! ## Agreement with the model -/

/-- The sizes of the referrals without glue that the servers answer a question with. -/
def Referrals (codec : Codec) (w : Upstreams) (sizes : Set Nat) : Prop :=
  ∀ n server query, ∀ q ∈ query.queries, ∀ nsNames,
    reply codec q.qtype (w.env.exchange n server query) = .glueless nsNames →
      nsNames.length ∈ sizes

/-- From the one state to the other at least one query was sent for each exchange. -/
structure Later (st st' : Spending) : Prop where
  queries : st.queries ≤ st'.queries
  exchanges : st.queries + st'.sent ≤ st'.queries + st.sent

theorem Later.refl (st : Spending) : Later st st := ⟨Nat.le_refl _, Nat.le_refl _⟩

theorem Later.trans {st st₁ st₂ : Spending} (h₁ : Later st st₁) (h₂ : Later st₁ st₂) :
    Later st st₂ := by
  obtain ⟨hqueries₁, hexchanges₁⟩ := h₁
  obtain ⟨hqueries₂, hexchanges₂⟩ := h₂
  exact ⟨by omega, by omega⟩

/-- The run has no fault and ends as the model does; if `few` holds, it sends at most `k`
queries. -/
def Agrees {α : Type} (few : Prop) (k : Nat) (st : Spending) (run : Except Fault (α × Spending))
    (model : α × Progress) : Prop :=
  ∃ st' : Spending, run = .ok (model.1, st') ∧ st'.toProgress = model.2 ∧
    Later st st' ∧ (few → st'.queries ≤ st.queries + k)

section
variable {α β : Type} {few : Prop} {j k l : Nat} {st : Spending}

theorem Agrees.ok (st : Spending) (a : α) : Agrees few 0 st (.ok (a, st)) (a, st.toProgress) :=
  ⟨st, rfl, rfl, .refl st, fun _ => Nat.le_refl _⟩

theorem Agrees.mono {run : Except Fault (α × Spending)} {model : α × Progress}
    (h : Agrees few k st run model) (hkl : few → k ≤ l) : Agrees few l st run model := by
  obtain ⟨st', hrun, hmodel, hlater, hbound⟩ := h
  exact ⟨st', hrun, hmodel, hlater, fun hfew =>
    Nat.le_trans (hbound hfew) (Nat.add_le_add_left (hkl hfew) _)⟩

/-- What was sent before counts. -/
theorem Agrees.ahead {st₁ : Spending} {run : Except Fault (α × Spending)} {model : α × Progress}
    (h : Agrees few k st₁ run model) (hlater : Later st st₁)
    (hbound : st₁.queries ≤ st.queries + j) : Agrees few (j + k) st run model := by
  obtain ⟨st', hrun, hmodel, hlater', hbound'⟩ := h
  refine ⟨st', hrun, hmodel, hlater.trans hlater', fun hfew => ?_⟩
  have := hbound' hfew
  omega

theorem Agrees.bind {run : Except Fault (α × Spending)} {model : α × Progress}
    {f : α × Spending → Except Fault (β × Spending)} {model' : β × Progress}
    (h : Agrees few k st run model)
    (hf : ∀ st', st'.toProgress = model.2 → Agrees few l st' (f (model.1, st')) model') :
    Agrees few (k + l) st (run >>= f) model' := by
  obtain ⟨st₁, rfl, hmodel, hlater, hbound⟩ := h
  obtain ⟨st₂, hrun, hmodel', hlater', hbound'⟩ := hf st₁ hmodel
  refine ⟨st₂, hrun, hmodel', hlater.trans hlater', fun hfew => ?_⟩
  have h₁ := hbound hfew
  have h₂ := hbound' hfew
  omega

end

/-- The nested calls agree with the nested lookups of the model. -/
def CallAgrees (few : Prop) (k : Nat) (call : Call) (depthLeft : Nat) (lookup : Lookup) : Prop :=
  ∀ name qtype cnameDepth (st : Spending), Agrees few k st (call name qtype depthLeft cnameDepth st)
    (lookup name qtype cnameDepth st.toProgress)

section
variable {codec : Codec} {b : RecursiveBackend} {w : Upstreams} {few : Prop} {N k : Nat}
  {call : Call} {depthLeft : Nat} {lookup : Lookup}

theorem sendUdpQuery_spec (w : Upstreams) (server : IpAddr) (query : Message) (st : Spending) :
    (sendUdpQuery w server query st).1 = w.env.exchange st.sent server query ∧
      (sendUdpQuery w server query st).2.toProgress = { st.toProgress with sent := st.sent + 1 } ∧
      Later st (sendUdpQuery w server query st).2 ∧
      (sendUdpQuery w server query st).2.queries ≤ st.queries + 2 := by
  unfold sendUdpQuery Upstreams.env
  cases hudp : w.udp st.sent server query with
  | none => exact ⟨by simp [hudp], rfl, ⟨by simp, by simp; omega⟩, by simp⟩
  | some resp =>
    by_cases htruncated : resp.truncated
    · simp only [hudp, htruncated, if_true]
      exact ⟨trivial, trivial, ⟨by simp, by simp; omega⟩, Nat.le_refl _⟩
    · simp only [hudp, htruncated, Bool.false_eq_true, if_false]
      exact ⟨trivial, trivial, ⟨by simp, by simp; omega⟩, by simp⟩

theorem askTrusted_spec (b : RecursiveBackend) (st : Spending) :
    (askTrusted b st).toProgress = st.toProgress ∧ Later st (askTrusted b st) ∧
      (askTrusted b st).queries ≤ st.queries + 2 := by
  unfold askTrusted
  split
  · exact ⟨rfl, ⟨by simp, by simp⟩, Nat.le_refl _⟩
  · exact ⟨rfl, .refl st, by simp⟩

/-- Two lookups for each name server, and two of the library. -/
theorem resolveNsIpsIterative_agrees (b : RecursiveBackend) (w : Upstreams)
    (hcall : CallAgrees few k call depthLeft lookup)
    (cnameDepth : Nat) (nsNames : List Name) (ips : List IpAddr) (st : Spending) :
    Agrees few (nsNames.length * (2 * k + 2)) st
      (Checked.resolveNsIpsIterative b w call depthLeft cnameDepth nsNames ips st)
      (resolveNsIpsIterative b w.env lookup cnameDepth nsNames ips st.toProgress) := by
  induction nsNames generalizing ips st with
  | nil => exact (Agrees.ok st ips).mono fun _ => Nat.zero_le _
  | cons ns rest ih =>
    unfold Checked.resolveNsIpsIterative resolveNsIpsIterative
    have hcost : k + (k + (2 + rest.length * (2 * k + 2))) ≤
        (ns :: rest).length * (2 * k + 2) := by
      rw [List.length_cons, Nat.add_mul]
      omega
    refine ((hcall ns TYPE_A cnameDepth st).bind fun st₁ hst₁ => ?_).mono fun _ => hcost
    dsimp only
    rw [← hst₁]
    refine (hcall ns TYPE_AAAA cnameDepth st₁).bind fun st₂ hst₂ => ?_
    dsimp only
    rw [← hst₂]
    split
    · obtain ⟨hprogress, hlater, hbound⟩ := askTrusted_spec b st₂
      have h := ih (trustedIps b w.env ns) (askTrusted b st₂)
      rw [hprogress] at h
      exact h.ahead hlater hbound
    · exact (ih _ st₂).mono fun _ => Nat.le_add_left _ _

/-- Each server costs two queries and the name servers of one referral; an alias ends the level. -/
theorem tryServers_agrees (b : RecursiveBackend) (hcall : CallAgrees few k call depthLeft lookup)
    (hfew : few → Referrals codec w (Set.Iic N)) (name : Name) (qtype : UInt16) (cnameDepth : Nat)
    (servers : List IpAddr) (lastError : Option String) (st : Spending) :
    Agrees few (servers.length * (2 + N * (2 * k + 2)) + k) st
      (Checked.tryServers codec b w call name qtype (depthLeft + 1) (cnameDepth + 1) servers
        lastError st)
      (tryServers codec b w.env lookup name qtype (cnameDepth + 1) servers lastError
        st.toProgress) := by
  induction servers generalizing lastError st with
  | nil =>
    unfold Checked.tryServers tryServers
    exact (Agrees.ok st _).mono fun _ => Nat.zero_le _
  | cons server rest ih =>
    unfold Checked.tryServers
    rw [tryServers_cons]
    obtain ⟨hanswer, hprogress, hlater, hbound⟩ :=
      sendUdpQuery_spec w server (buildQuery (w.id st.sent) name qtype) st
    have hreferral := fun nsNames (h : reply codec qtype (w.env.exchange st.sent server
        (buildQuery (w.id st.sent) name qtype)) = .glueless nsNames) hf =>
      hfew hf st.sent server (buildQuery (w.id st.sent) name qtype) ⟨name, qtype, CLASS_IN⟩
        (List.mem_singleton_self _) nsNames h
    have henv : w.env.id st.sent = w.id st.sent := rfl
    rw [henv, ← hanswer, ← hprogress]
    rw [← hanswer] at hreferral
    generalize sendUdpQuery w server (buildQuery (w.id st.sent) name qtype) st = answer at *
    have hcost : 2 + (N * (2 * k + 2) + (rest.length * (2 + N * (2 * k + 2)) + k)) =
        (server :: rest).length * (2 + N * (2 * k + 2)) + k := by
      rw [List.length_cons, Nat.add_mul]
      omega
    rw [← hcost]
    dsimp only
    cases hreply : reply codec qtype answer.1 with
    | silent =>
      exact ((ih (some "exchange") answer.2).mono fun _ => Nat.le_add_left _ _).ahead hlater hbound
    | final resp =>
      exact ((Agrees.ok answer.2 _).mono fun _ => Nat.zero_le _).ahead hlater hbound
    | aliased cname =>
      have h : Agrees few (k + 0) answer.2
          (call cname qtype depthLeft cnameDepth answer.2 >>= fun found =>
            .ok (LevelEnd.done found.1, found.2))
          (LevelEnd.done (lookup cname qtype cnameDepth answer.2.toProgress).1,
            (lookup cname qtype cnameDepth answer.2.toProgress).2) :=
        (hcall cname qtype cnameDepth answer.2).bind fun st' hst' => by
          rw [← hst']
          exact Agrees.ok st' _
      exact (h.mono fun _ => by omega).ahead hlater hbound
    | lame =>
      exact ((ih lastError answer.2).mono fun _ => Nat.le_add_left _ _).ahead hlater hbound
    | glued ips => exact ((Agrees.ok answer.2 _).mono fun _ => Nat.zero_le _).ahead hlater hbound
    | glueless nsNames =>
      have hsize (hf : few) : nsNames.length * (2 * k + 2) ≤ N * (2 * k + 2) :=
        Nat.mul_le_mul_right _ (hreferral nsNames hreply hf)
      have hresolved := (resolveNsIpsIterative_agrees b w hcall (cnameDepth + 1) nsNames []
        answer.2).mono hsize
      refine (hresolved.bind fun st' hst' => ?_).ahead hlater hbound
      unfold afterReply
      dsimp only
      rw [← hst']
      split
      · exact ih lastError st'
      · exact (Agrees.ok st' _).mono fun _ => Nat.zero_le _

end

/-- The queries of a lookup with this depth, if a referral without glue names `N` servers. -/
def queryBound (N : Nat) : Nat → Nat
  | 0 => 0
  | depthLeft + 1 => 6 * (2 + N * (2 * queryBound N depthLeft + 2)) + queryBound N depthLeft +
      queryBound N depthLeft

section
variable {codec : Codec} {b : RecursiveBackend} {w : Upstreams} {few : Prop} {N : Nat}

/-- The loop: one round for each unit of depth, and one that finds none left. -/
theorem descend_agrees {call : Call} {depthLeft rounds : Nat}
    (hcall : ∀ d < depthLeft, CallAgrees few (queryBound N d) call d (nestedLookup codec b w.env d))
    (hfew : few → Referrals codec w (Set.Iic N)) (hrounds : depthLeft < rounds) (name : Name)
    (qtype : UInt16) (cnameDepth : Nat) (nsIps : List IpAddr) (st : Spending) :
    Agrees few (queryBound N depthLeft) st
      (Checked.descend codec b w call name qtype (cnameDepth + 1) rounds depthLeft nsIps st)
      (level codec b w.env depthLeft name qtype (cnameDepth + 1) nsIps st.toProgress) := by
  induction depthLeft generalizing rounds nsIps st with
  | zero =>
    obtain ⟨rounds, rfl⟩ := Nat.exists_eq_add_of_lt hrounds
    exact Agrees.ok st _
  | succ depthLeft ih =>
    obtain ⟨rounds, rfl⟩ : ∃ r, rounds = r + 1 := ⟨rounds - 1, by omega⟩
    unfold Checked.descend level
    rw [if_neg (Nat.succ_ne_zero _)]
    have hservers := tryServers_agrees b (hcall depthLeft (Nat.lt_succ_self _)) hfew name qtype
      cnameDepth (nsIps.take 6) none st
    have hsix : (nsIps.take 6).length * (2 + N * (2 * queryBound N depthLeft + 2)) ≤
        6 * (2 + N * (2 * queryBound N depthLeft + 2)) :=
      Nat.mul_le_mul_right _ (List.length_take_le _ _)
    have hcost : (nsIps.take 6).length * (2 + N * (2 * queryBound N depthLeft + 2)) +
        queryBound N depthLeft + queryBound N depthLeft ≤ queryBound N (depthLeft + 1) :=
      Nat.add_le_add_right (Nat.add_le_add_right hsix _) _
    refine (hservers.bind fun st' hst' => ?_).mono fun _ => hcost
    unfold nestedLookup at *
    dsimp only
    generalize tryServers codec b w.env _ name qtype _ _ none st.toProgress = ended at *
    obtain ⟨ended, st₁⟩ := ended
    obtain rfl := hst'
    cases ended with
    | done res => exact (Agrees.ok st' res).mono fun _ => Nat.zero_le _
    | referred ips =>
      exact ih (fun d hd => hcall d (Nat.lt_succ_of_lt hd)) (by omega) ips st'

/-- **As many nested calls as there is depth, and one more, are enough.** -/
theorem lookupIterativeInternal_agrees (codec : Codec) (b : RecursiveBackend) (w : Upstreams)
    (few : Prop) (N : Nat) (hfew : few → Referrals codec w (Set.Iic N))
    {rounds frames depthLeft : Nat} (hrounds : depthLeft < rounds)
    (hframes : depthLeft < frames) :
    CallAgrees few (queryBound N depthLeft)
      (Checked.lookupIterativeInternal codec b w rounds frames) depthLeft
      (nestedLookup codec b w.env depthLeft) := by
  induction frames generalizing depthLeft with
  | zero => exact absurd hframes (Nat.not_lt_zero _)
  | succ frames ih =>
    intro name qtype cnameDepth st
    unfold Checked.lookupIterativeInternal nestedLookup enter
    split
    · exact (Agrees.ok st _).mono fun _ => Nat.zero_le _
    · split
      · exact (Agrees.ok st _).mono fun _ => Nat.zero_le _
      · rename_i hdepth hcname
        split
        · exact (Agrees.ok st _).mono fun _ => Nat.zero_le _
        · obtain ⟨cnameDepth, rfl⟩ := Nat.exists_eq_succ_of_ne_zero hcname
          have h := descend_agrees (fun d hd => ih (by omega) (by omega)) hfew hrounds name qtype
            cnameDepth (w.shuffle st.sent b.rootServers)
            { st with visited := (codec.display name, qtype) :: st.visited }
          have hlater : Later st { st with visited := (codec.display name, qtype) :: st.visited } :=
            ⟨Nat.le_refl _, Nat.le_refl _⟩
          exact (h.ahead hlater (Nat.le_refl st.queries)).mono fun _ =>
            Nat.le_of_eq (Nat.zero_add _)

theorem lookupIterative_agrees (codec : Codec) (b : RecursiveBackend) (w : Upstreams)
    (nameStr : String) (qtype : UInt16) (N : Nat) :
    ∃ queries, Checked.lookupIterative codec b w (MAX_DEPTH + 1) (MAX_DEPTH + 1) nameStr qtype =
        .ok (lookupIterative codec b w.env nameStr qtype, queries) ∧
      (Referrals codec w (Set.Iic N) → queries ≤ queryBound N MAX_DEPTH) := by
  unfold Checked.lookupIterative lookupIterative
  cases codec.fromAscii nameStr with
  | none => exact ⟨0, rfl, fun _ => Nat.zero_le _⟩
  | some name =>
    have hagrees := lookupIterativeInternal_agrees codec b w _ N id (Nat.lt_add_one MAX_DEPTH)
      (Nat.lt_add_one MAX_DEPTH) name qtype MAX_CNAME_DEPTH ⟨⟨0, []⟩, 0⟩
    obtain ⟨st', hrun, -, -, hbound⟩ := hagrees
    refine ⟨st'.queries, ?_, fun h => by simpa using hbound h⟩
    dsimp only
    rw [hrun]
    rfl

end

/-- The queries sent during a call of `lookup_iterative`. -/
def queriesSent (codec : Codec) (b : RecursiveBackend) (w : Upstreams) (nameStr : String)
    (qtype : UInt16) : Nat :=
  match Checked.lookupIterative codec b w (MAX_DEPTH + 1) (MAX_DEPTH + 1) nameStr qtype with
  | .ok found => found.2
  | .error _ => 0

/-! ## A flood -/

/-- The first server refers to these name servers, without glue; then nobody answers. -/
def flood (nsNames : List Name) : Upstreams where
  id _ := 0
  udp n _ query :=
    if n = 0 then
      some { query with
        messageType := .response
        nameServers := nsNames.map fun ns => .fromRdata ns 60 (.ns ns) }
    else none
  tcp _ _ _ := none
  trusted _ _ := none
  shuffle _ ips := ips

section
variable {codec : Codec} {b : RecursiveBackend} {nsNames : List Name}

theorem flood_silent (nsNames : List Name) (n : Nat) (hn : n ≠ 0) (server : IpAddr)
    (query : Message) : (flood nsNames).env.exchange n server query = none := by
  simp [Upstreams.env, flood, hn]

theorem flood_names (nsNames : List Name) :
    extractNsNames (nsNames.map fun ns => .fromRdata ns 60 (.ns ns)) = nsNames := by
  unfold extractNsNames
  rw [List.filterMap_map]
  exact List.filterMap_some

theorem flood_first (codec : Codec) (hne : nsNames ≠ []) (server : IpAddr) (name : Name)
    (qtype : UInt16) :
    reply codec qtype ((flood nsNames).env.exchange 0 server (buildQuery 0 name qtype)) =
      .glueless nsNames := by
  have hnames := flood_names nsNames
  have hsoa : (nsNames.map fun ns => Record.fromRdata ns 60 (.ns ns)).any
      (·.recordType == TYPE_SOA) = false := by
    simp [Record.recordType, Record.fromRdata, RData.recordType, TYPE_SOA]
  simp only [Upstreams.env, flood, if_true, buildQuery, Bool.false_eq_true, if_false, reply,
    isFinal, isNodata, hasAnswerType, hsoa, List.any_nil, extractCnameTarget, List.findSome?_nil,
    hnames, glue, List.filter_nil, extractIpsFromRecords, List.filterMap_nil]
  simp [hne]

theorem silent_servers (codec : Codec) (b : RecursiveBackend) {env : ResolverEnv}
    (hsilent : ∀ n, n ≠ 0 → ∀ server query, env.exchange n server query = none)
    (lookup : Lookup) (name : Name) (qtype : UInt16) (cnameDepth : Nat) (servers : List IpAddr)
    (lastError : Option String) (st : Progress) (hsent : st.sent ≠ 0) :
    ∃ e, tryServers codec b env lookup name qtype cnameDepth servers lastError st =
      (.done (.error e), { st with sent := st.sent + servers.length }) := by
  induction servers generalizing lastError st with
  | nil => exact ⟨_, rfl⟩
  | cons server rest ih =>
    rw [tryServers_cons, hsilent _ hsent]
    obtain ⟨e, h⟩ := ih (some "exchange") { st with sent := st.sent + 1 } (Nat.succ_ne_zero _)
    refine ⟨e, ?_⟩
    rw [List.length_cons, Nat.add_comm rest.length, ← Nat.add_assoc]
    exact h

/-- Once nobody answers, a lookup finds nothing; it is refused, or asks the first roots. -/
theorem silent_lookup (codec : Codec) (b : RecursiveBackend) {env : ResolverEnv}
    (hsilent : ∀ n, n ≠ 0 → ∀ server query, env.exchange n server query = none)
    (hshuffle : ∀ n ips, env.shuffle n ips = ips) (depthLeft : Nat) (name : Name) (qtype : UInt16)
    (cnameDepth : Nat) (st : Progress) (hsent : st.sent ≠ 0) :
    ∃ e, nestedLookup codec b env (depthLeft + 1) name qtype (cnameDepth + 1) st =
      (.error e,
        if (codec.display name, qtype) ∈ st.visited then st
        else ⟨st.sent + (b.rootServers.take 6).length,
          (codec.display name, qtype) :: st.visited⟩) := by
  unfold nestedLookup enter
  rw [if_neg (Nat.succ_ne_zero _), if_neg (Nat.succ_ne_zero _), hshuffle]
  by_cases hvisited : (codec.display name, qtype) ∈ st.visited
  · rw [if_pos (by simpa using hvisited), if_pos hvisited]
    exact ⟨_, rfl⟩
  · rw [if_neg (by simpa using hvisited), if_neg hvisited]
    obtain ⟨e, h⟩ := silent_servers codec b hsilent
      (enter codec b env depthLeft (level codec b env depthLeft)) name qtype (cnameDepth + 1)
      (b.rootServers.take 6) none
      { st with visited := (codec.display name, qtype) :: st.visited } hsent
    refine ⟨e, ?_⟩
    unfold level
    dsimp only
    rw [h]

section
variable {few : Prop} {k : Nat} {call : Call} {depthLeft : Nat}

theorem flood_call
    (hcall : CallAgrees few k call (depthLeft + 1)
      (nestedLookup codec b (flood nsNames).env (depthLeft + 1))) (ns : Name) (qtype : UInt16)
    (cnameDepth : Nat) (st : Spending) (hsent : st.sent ≠ 0) :
    ∃ e st', call ns qtype (depthLeft + 1) (cnameDepth + 1) st = .ok (.error e, st') ∧
      Later st st' ∧ st'.toProgress =
        if (codec.display ns, qtype) ∈ st.visited then st.toProgress
        else ⟨st.sent + (b.rootServers.take 6).length,
          (codec.display ns, qtype) :: st.visited⟩ := by
  obtain ⟨e, hlookup⟩ := silent_lookup codec b (flood_silent nsNames) (fun _ _ => rfl) depthLeft ns
    qtype cnameDepth st.toProgress hsent
  obtain ⟨st', hrun, hprogress, hlater, -⟩ := hcall ns qtype (cnameDepth + 1) st
  rw [hlookup] at hrun hprogress
  exact ⟨e, st', hrun, hlater, hprogress⟩

theorem flood_sent {st st' : Spending} {key : String × UInt16} {n : Nat} (hsent : st.sent ≠ 0)
    (hprogress : st'.toProgress =
      if key ∈ st.visited then st.toProgress else ⟨st.sent + n, key :: st.visited⟩) :
    st'.sent ≠ 0 := by
  split at hprogress
  · rwa [hprogress]
  · rw [hprogress]
    dsimp only
    omega

theorem flood_resolve_cons (ns : Name) (rest : List Name) (cnameDepth : Nat) {e₄ e₆ : String}
    {st st₁ st₂ : Spending} (h₄ : call ns TYPE_A depthLeft cnameDepth st = .ok (.error e₄, st₁))
    (h₆ : call ns TYPE_AAAA depthLeft cnameDepth st₁ = .ok (.error e₆, st₂)) :
    Checked.resolveNsIpsIterative b (flood nsNames) call depthLeft cnameDepth (ns :: rest) [] st =
      Checked.resolveNsIpsIterative b (flood nsNames) call depthLeft cnameDepth rest []
        (askTrusted b st₂) := by
  have hnone : trustedIps b (flood nsNames).env ns = [] := by
    simp [trustedIps, Upstreams.env, flood, extractIpsFromRecords]
  simp only [Checked.resolveNsIpsIterative, h₄, h₆, bind, Except.bind, okIps, List.append_nil,
    List.isEmpty_nil, if_true, hnone]

/-- The two lookups of a name server. -/
theorem flood_server
    (hcall : CallAgrees few k call (depthLeft + 1)
      (nestedLookup codec b (flood nsNames).env (depthLeft + 1))) (ns : Name) (rest : List Name)
    (cnameDepth : Nat) (st : Spending) (hsent : st.sent ≠ 0) :
    ∃ st₁ st₂ : Spending, Checked.resolveNsIpsIterative b (flood nsNames) call (depthLeft + 1)
        (cnameDepth + 1) (ns :: rest) [] st =
          Checked.resolveNsIpsIterative b (flood nsNames) call (depthLeft + 1) (cnameDepth + 1)
            rest [] (askTrusted b st₂) ∧
      Later st st₂ ∧ st₂.sent ≠ 0 ∧
      st₁.toProgress = (if (codec.display ns, TYPE_A) ∈ st.visited then st.toProgress
        else ⟨st.sent + (b.rootServers.take 6).length, (codec.display ns, TYPE_A) :: st.visited⟩) ∧
      st₂.toProgress = (if (codec.display ns, TYPE_AAAA) ∈ st₁.visited then st₁.toProgress
        else ⟨st₁.sent + (b.rootServers.take 6).length,
          (codec.display ns, TYPE_AAAA) :: st₁.visited⟩) := by
  obtain ⟨e₄, st₁, h₄, hlater₁, hst₁⟩ := flood_call hcall ns TYPE_A cnameDepth st hsent
  have hsent₁ := flood_sent hsent hst₁
  obtain ⟨e₆, st₂, h₆, hlater₂, hst₂⟩ := flood_call hcall ns TYPE_AAAA cnameDepth st₁ hsent₁
  exact ⟨st₁, st₂, flood_resolve_cons ns rest (cnameDepth + 1) h₄ h₆, hlater₁.trans hlater₂,
    flood_sent hsent₁ hst₂, hst₁, hst₂⟩

/-- Each name server costs two lookups of the library. -/
theorem flood_resolve_trusted (htrusted : b.hasTrusted = true)
    (hcall : CallAgrees few k call (depthLeft + 1)
      (nestedLookup codec b (flood nsNames).env (depthLeft + 1))) (cnameDepth : Nat)
    (names : List Name) (st : Spending) (hsent : st.sent ≠ 0) :
    ∃ st', Checked.resolveNsIpsIterative b (flood nsNames) call (depthLeft + 1) (cnameDepth + 1)
        names [] st = .ok ([], st') ∧ st'.sent ≠ 0 ∧
      st.queries + 2 * names.length ≤ st'.queries := by
  induction names generalizing st with
  | nil => exact ⟨st, rfl, hsent, Nat.le_refl _⟩
  | cons ns rest ih =>
    obtain ⟨-, st₂, hresolve, hlater, hsent₂, -, -⟩ :=
      flood_server hcall ns rest cnameDepth st hsent
    have hasked : askTrusted b st₂ = { st₂ with queries := st₂.queries + 2 } := if_pos htrusted
    obtain ⟨st₃, h₃, hsent₃, hle₃⟩ := ih { st₂ with queries := st₂.queries + 2 } hsent₂
    refine ⟨st₃, ?_, hsent₃, ?_⟩
    · rw [hresolve, hasked, h₃]
    · have hle := hlater.queries
      rw [List.length_cons]
      dsimp only at hle₃
      omega

/-- A name server that was not asked for costs twelve exchanges. -/
theorem flood_fresh (hroots : 6 ≤ b.rootServers.length)
    (hcall : CallAgrees few k call (depthLeft + 1)
      (nestedLookup codec b (flood nsNames).env (depthLeft + 1))) (ns : Name) (rest : List Name)
    (cnameDepth : Nat) (st : Spending) (hfresh : ∀ qtype, (codec.display ns, qtype) ∉ st.visited)
    (hsent : st.sent ≠ 0) :
    ∃ st₂ : Spending, Checked.resolveNsIpsIterative b (flood nsNames) call (depthLeft + 1)
        (cnameDepth + 1) (ns :: rest) [] st =
          Checked.resolveNsIpsIterative b (flood nsNames) call (depthLeft + 1) (cnameDepth + 1)
            rest [] (askTrusted b st₂) ∧
      Later st st₂ ∧ st₂.toProgress = ⟨st.sent + 12,
        (codec.display ns, TYPE_AAAA) :: (codec.display ns, TYPE_A) :: st.visited⟩ := by
  have hsix : (b.rootServers.take 6).length = 6 := by
    rw [List.length_take]
    omega
  obtain ⟨st₁, st₂, hresolve, hlater, -, hst₁, hst₂⟩ :=
    flood_server hcall ns rest cnameDepth st hsent
  rw [if_neg (hfresh TYPE_A), hsix] at hst₁
  have hfresh₁ : (codec.display ns, TYPE_AAAA) ∉ st₁.visited := by
    rw [hst₁]
    intro h
    rcases List.mem_cons.mp h with h | h
    · have htypes : TYPE_AAAA = TYPE_A := congrArg Prod.snd h
      exact absurd htypes (by decide)
    · exact hfresh TYPE_AAAA h
  rw [if_neg hfresh₁, hsix, hst₁] at hst₂
  exact ⟨st₂, hresolve, hlater, hst₂⟩

/-- Each name server that was not asked for costs two lookups, and these ask six roots. -/
theorem flood_resolve_distinct (hroots : 6 ≤ b.rootServers.length)
    (hcall : CallAgrees few k call (depthLeft + 1)
      (nestedLookup codec b (flood nsNames).env (depthLeft + 1))) (cnameDepth : Nat)
    (names : List Name) (hnodup : (names.map codec.display).Nodup) (st : Spending)
    (hfresh : ∀ ns ∈ names, ∀ qtype, (codec.display ns, qtype) ∉ st.visited)
    (hsent : st.sent ≠ 0) :
    ∃ st', Checked.resolveNsIpsIterative b (flood nsNames) call (depthLeft + 1) (cnameDepth + 1)
        names [] st = .ok ([], st') ∧ st'.sent ≠ 0 ∧
      st.queries + 12 * names.length ≤ st'.queries := by
  induction names generalizing st with
  | nil => exact ⟨st, rfl, hsent, Nat.le_refl _⟩
  | cons ns rest ih =>
    obtain ⟨hns, hnodup⟩ := List.nodup_cons.mp hnodup
    obtain ⟨st₂, hresolve, hlater, hst₂⟩ :=
      flood_fresh hroots hcall ns rest cnameDepth st (hfresh ns List.mem_cons_self) hsent
    obtain ⟨hasked, hlater₃, -⟩ := askTrusted_spec b st₂
    have hfresh₂ : ∀ ns' ∈ rest, ∀ qtype,
        (codec.display ns', qtype) ∉ (askTrusted b st₂).visited := by
      intro ns' hns' qtype h
      rw [hasked, hst₂] at h
      have hne : codec.display ns' ≠ codec.display ns := fun heq =>
        hns (List.mem_map.mpr ⟨ns', hns', heq⟩)
      rcases List.mem_cons.mp h with h | h
      · exact hne (congrArg Prod.fst h)
      · rcases List.mem_cons.mp h with h | h
        · exact hne (congrArg Prod.fst h)
        · exact hfresh ns' (List.mem_cons_of_mem _ hns') qtype h
    have hsent₂ : (askTrusted b st₂).sent ≠ 0 := by
      rw [hasked, hst₂]
      exact Nat.succ_ne_zero _
    obtain ⟨st₃, h₃, hsent₃, hle₃⟩ := ih hnodup (askTrusted b st₂) hfresh₂ hsent₂
    refine ⟨st₃, ?_, hsent₃, ?_⟩
    · rw [hresolve, h₃]
    · have hle := hlater.exchanges
      have hle₂ := hlater₃.queries
      rw [hst₂] at hle
      rw [List.length_cons]
      dsimp only at hle
      omega

end

theorem flood_servers (hne : nsNames ≠ []) {k total : Nat} {call : Call} {depthLeft : Nat}
    (hcall : CallAgrees False k call depthLeft (nestedLookup codec b (flood nsNames).env depthLeft))
    (name : Name) (qtype : UInt16) (cnameDepth : Nat) (server : IpAddr) (rest : List IpAddr)
    (st : Spending) (hsent : st.sent = 0)
    (hresolve : ∀ st₁ : Spending, st₁.sent ≠ 0 → st₁.visited = st.visited →
      ∃ st₂, Checked.resolveNsIpsIterative b (flood nsNames) call depthLeft (cnameDepth + 1)
          nsNames [] st₁ = .ok ([], st₂) ∧ st₂.sent ≠ 0 ∧ st₁.queries + total ≤ st₂.queries) :
    ∃ e st', Checked.tryServers codec b (flood nsNames) call name qtype (depthLeft + 1)
        (cnameDepth + 1) (server :: rest) none st = .ok (.done (.error e), st') ∧
      total ≤ st'.queries := by
  obtain ⟨hanswer, hprogress, -⟩ :=
    sendUdpQuery_spec (flood nsNames) server (buildQuery 0 name qtype) st
  have hreply := flood_first codec hne server name qtype
  rw [← hsent, ← hanswer] at hreply
  have hid : (flood nsNames).id st.sent = 0 := rfl
  unfold Checked.tryServers
  rw [hid]
  generalize sendUdpQuery (flood nsNames) server (buildQuery 0 name qtype) st = answer at *
  have hsent₁ : answer.2.sent ≠ 0 := by
    rw [hprogress]
    exact Nat.succ_ne_zero _
  obtain ⟨st₁, hresolved, hsent₁, hle₁⟩ := hresolve answer.2 hsent₁ (by rw [hprogress])
  obtain ⟨e, hservers⟩ := silent_servers codec b (flood_silent nsNames)
    (nestedLookup codec b (flood nsNames).env depthLeft) name qtype (cnameDepth + 1) rest none
    st₁.toProgress hsent₁
  obtain ⟨st₂, hrest, -, hlater, -⟩ :=
    tryServers_agrees (N := 0) (w := flood nsNames) b hcall (fun h => h.elim) name qtype cnameDepth
      rest none st₁
  rw [hservers] at hrest
  have hle₂ := hlater.queries
  refine ⟨e, st₂, ?_, by omega⟩
  simp only [hreply, minusOne, bind, Except.bind, hresolved, List.isEmpty_nil, if_true, hrest]

theorem flood_nested (codec : Codec) (b : RecursiveBackend) (nsNames : List Name) :
    CallAgrees False (queryBound 0 14)
      (Checked.lookupIterativeInternal codec b (flood nsNames) 16 15) 14
      (nestedLookup codec b (flood nsNames).env 14) :=
  lookupIterativeInternal_agrees codec b (flood nsNames) False 0 False.elim (by decide) (by decide)

/-- What the name servers of the referral cost is sent. -/
theorem flood_queries (hroots : b.rootServers ≠ []) (hne : nsNames ≠ []) {nameStr : String}
    {name : Name} (hname : codec.fromAscii nameStr = some name) (qtype : UInt16) {total : Nat}
    (hresolve : ∀ st : Spending, st.sent ≠ 0 → st.visited = [(codec.display name, qtype)] →
      ∃ st₁, Checked.resolveNsIpsIterative b (flood nsNames)
          (Checked.lookupIterativeInternal codec b (flood nsNames) 16 15) 14 8 nsNames [] st =
        .ok ([], st₁) ∧ st₁.sent ≠ 0 ∧ st.queries + total ≤ st₁.queries) :
    total ≤ queriesSent codec b (flood nsNames) nameStr qtype := by
  obtain ⟨root, roots, hservers⟩ := List.exists_cons_of_ne_nil hroots
  obtain ⟨e, st', hrun, hle⟩ := flood_servers hne (flood_nested codec b nsNames) name qtype 7 root
    (roots.take 5) ⟨⟨0, [(codec.display name, qtype)]⟩, 0⟩ rfl hresolve
  have hinternal : Checked.lookupIterativeInternal codec b (flood nsNames) 16 16 name qtype 15 8
      ⟨⟨0, []⟩, 0⟩ = .ok (.error e, st') := by
    have hshuffle : (flood nsNames).shuffle 0 b.rootServers = root :: roots := hservers
    unfold Checked.lookupIterativeInternal Checked.descend
    simp only [List.contains_nil, Bool.false_eq_true, if_false, hshuffle, List.take_succ_cons, hrun,
      bind, Except.bind, show ¬ (15 = 0) by decide, show ¬ (8 = 0) by decide]
  have hsent : queriesSent codec b (flood nsNames) nameStr qtype = st'.queries := by
    unfold queriesSent Checked.lookupIterative MAX_DEPTH MAX_CNAME_DEPTH
    rw [hname]
    simp only [hinternal, bind, Except.bind]
  rw [hsent]
  exact hle

/-- **A referral without glue costs two lookups of the library for every record in it.** -/
theorem flood_trusted (htrusted : b.hasTrusted = true) (hroots : b.rootServers ≠ [])
    (hne : nsNames ≠ []) {nameStr : String} {name : Name}
    (hname : codec.fromAscii nameStr = some name) (qtype : UInt16) :
    2 * nsNames.length ≤ queriesSent codec b (flood nsNames) nameStr qtype :=
  flood_queries hroots hne hname qtype fun st hsent _ =>
    flood_resolve_trusted htrusted (flood_nested codec b nsNames) 7 nsNames st hsent

/-- **Without the library it costs twelve queries for every name server in it.** -/
theorem flood_distinct (hroots : 6 ≤ b.rootServers.length) (hne : nsNames ≠ [])
    (hnodup : (nsNames.map codec.display).Nodup) {nameStr : String} {name : Name}
    (hname : codec.fromAscii nameStr = some name)
    (hother : codec.display name ∉ nsNames.map codec.display) (qtype : UInt16) :
    12 * nsNames.length ≤ queriesSent codec b (flood nsNames) nameStr qtype := by
  have hsome : b.rootServers ≠ [] := List.ne_nil_of_length_pos (by omega)
  refine flood_queries hsome hne hname qtype fun st hsent hvisited => ?_
  refine flood_resolve_distinct hroots (flood_nested codec b nsNames) 7 nsNames hnodup st ?_ hsent
  intro ns hns qtype' h
  rw [hvisited, List.mem_singleton] at h
  exact hother (List.mem_map.mpr ⟨ns, hns, congrArg Prod.fst h⟩)

end

theorem flood_referrals (codec : Codec) (nsNames : List Name) :
    Referrals codec (flood nsNames) {nsNames.length} := by
  intro n server query q hq names hreply
  by_cases hn : n = 0
  · subst hn
    by_cases htruncated : query.truncated
    · simp [Upstreams.env, flood, htruncated, reply] at hreply
    · simp only [Upstreams.env, flood, htruncated, if_true, Bool.false_eq_true, if_false] at hreply
      have hnames := reply_glueless hreply
      rw [flood_names] at hnames
      rw [hnames]
      rfl
  · rw [flood_silent nsNames n hn] at hreply
    cases hreply

end RecursiveBackend

open RecursiveBackend

/-- **Iterative resolution ends**, whatever the servers respond: with sixteen rounds for each loop
and sixteen calls nested there is no fault, and the result is that of the model. -/
theorem RecursiveBackend.lookupIterative_ends (codec : Codec) (b : RecursiveBackend)
    (w : Upstreams) (nameStr : String) (qtype : UInt16) :
    ∃ queries, Checked.lookupIterative codec b w (MAX_DEPTH + 1) (MAX_DEPTH + 1) nameStr qtype =
      .ok (lookupIterative codec b w.env nameStr qtype, queries) := by
  obtain ⟨queries, hrun, -⟩ := lookupIterative_agrees codec b w nameStr qtype 0
  exact ⟨queries, hrun⟩

/-- **The number of queries is bounded exactly over the worlds whose referrals without glue name a
bounded number of servers.** -/
theorem RecursiveBackend.queries_bounded_iff (codec : Codec) {nameStr : String} {name : Name}
    (hname : codec.fromAscii nameStr = some name) (sizes : Set Nat) :
    (∃ K, ∀ b w nameStr qtype, Referrals codec w sizes →
        queriesSent codec b w nameStr qtype ≤ K) ↔ BddAbove sizes := by
  constructor
  · rintro ⟨K, hK⟩
    refine ⟨K, fun n hn => ?_⟩
    rcases Nat.eq_zero_or_pos n with rfl | hpos
    · exact Nat.zero_le _
    · have hreferrals : Referrals codec (flood (List.replicate n name)) sizes :=
        fun i server query q hq names hreply => by
          have hsize :=
            flood_referrals codec (List.replicate n name) i server query q hq names hreply
          rw [List.length_replicate] at hsize
          rw [Set.mem_singleton_iff.mp hsize]
          exact hn
      have hne : List.replicate n name ≠ [] := by
        rw [ne_eq, List.replicate_eq_nil_iff]
        omega
      have hsent := flood_trusted (b := ⟨.hybrid, true, [.v4 ⟨198, 41, 0, 4⟩]⟩) rfl
        (List.cons_ne_nil _ _) hne hname TYPE_A
      have hbound := hK ⟨.hybrid, true, [.v4 ⟨198, 41, 0, 4⟩]⟩ (flood (List.replicate n name))
        nameStr TYPE_A hreferrals
      rw [List.length_replicate] at hsent
      omega
  · rintro ⟨N, hN⟩
    refine ⟨queryBound N MAX_DEPTH, fun b w nameStr qtype hreferrals => ?_⟩
    obtain ⟨queries, hrun, hbound⟩ := lookupIterative_agrees codec b w nameStr qtype N
    unfold queriesSent
    rw [hrun]
    exact hbound fun n server query q hq names hreply =>
      hN (hreferrals n server query q hq names hreply)

namespace RecursiveBackend

/-- `a.com`, and the library on it. -/
def askedName : Name := ⟨[[97], [99, 111, 109]], by decide, by decide⟩

def askedCodec : Codec := .ofTable [] [(askedName, "a.com.")]

/-- Referrals to at most thirteen name servers. -/
theorem queries_bounded_thirteen :
    ∃ K, ∀ b w nameStr qtype, Referrals askedCodec w (Set.Iic 13) →
      queriesSent askedCodec b w nameStr qtype ≤ K :=
  (queries_bounded_iff askedCodec (show askedCodec.fromAscii "a.com." = some askedName by decide)
    (Set.Iic 13)).mpr ⟨13, fun _ h => h⟩

/-- **No number bounds the queries**: a referral to enough name servers exceeds it. -/
theorem queries_unbounded :
    ¬ ∃ K, ∀ b w nameStr qtype, queriesSent askedCodec b w nameStr qtype ≤ K := by
  rintro ⟨K, hK⟩
  have hname : askedCodec.fromAscii "a.com." = some askedName := by decide
  have hsent := flood_trusted (b := ⟨.hybrid, true, [.v4 ⟨198, 41, 0, 4⟩]⟩) rfl
    (List.cons_ne_nil _ _) (List.cons_ne_nil askedName (List.replicate K askedName)) hname TYPE_A
  have hbound := hK ⟨.hybrid, true, [.v4 ⟨198, 41, 0, 4⟩]⟩
    (flood (askedName :: List.replicate K askedName)) "a.com." TYPE_A
  rw [List.length_cons, List.length_replicate] at hsent
  omega

end RecursiveBackend

end TitanDns
