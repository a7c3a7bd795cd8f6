import TitanDns.Plugins.HitPaths
import TitanDns.Server.Echo
import TitanDns.Server.Streams
import TitanDns.Server.UdpServer

/-!
# Replies

The listeners, with the pipeline behind them.

* `Codec.KeepsIds` — the ID of a message stands in its first two bytes.
* `Identified` — the response that a context holds has the ID of the request; `leaf_identified`,
  `handle_identified` — **whatever the plugins answer, no call and no run changes that.**
* `reply_identified` — so the bytes of a response start as the bytes of its request do.
* `RequestEnv`, `UdpServer.Processes`, `Streams.Processes` — a worker, or the task of a connection,
  goes on with what `process_request_bytes` returns.

Principal results: `udp_replies_exact` — **every packet sent has the client and the ID of a packet
received, and no packet received is used twice**; `stream_replies_exact` — **what a client reads
back on a connection has the IDs of its queries, in their order.**
-/

namespace TitanDns

/-- Encoding and decoding agree that the ID is in the first two bytes. -/
structure Codec.KeepsIds (codec : Codec) : Prop where
  written : ∀ m bytes, codec.toVec m = some bytes → bytes.take 2 = be16 m.id
  read : ∀ bytes m, codec.fromVec bytes = some m → bytes.take 2 = be16 m.id

theorem Codec.ofTableWithId_keepsIds {messages : List (Message × List UInt8)}
    (hlength : ∀ e ∈ messages, 12 ≤ e.2.length) : (Codec.ofTableWithId messages).KeepsIds where
  written m bytes h := by
    obtain ⟨e, -, rfl⟩ := Option.map_eq_some_iff.mp h
    rfl
  read bytes m h := by
    obtain ⟨e, he, rfl⟩ := Option.map_eq_some_iff.mp h
    have hmem := hlength e (List.mem_of_find?_eq_some he)
    have htail : e.2.drop 2 = bytes.drop 2 := by simpa using List.find?_some he
    have hsame := congrArg List.length htail
    simp only [List.length_drop] at hsame
    match bytes, hsame with
    | a :: b :: rest, _ => exact (be16_readU16 a b).symm
    | [], hsame => simp at hsame; omega
    | [a], hsame => simp at hsame; omega

/-- The context is one of a request with this ID, and its response has it too. -/
structure Identified (id : UInt16) (ctx : Context) : Prop where
  request : ctx.request.id = id
  response : ∀ m, ctx.response = some m → m.id = id
  raw : ∀ raw, ctx.rawResponse = some raw → raw.raw.take 2 = be16 id

namespace Identified

variable {id : UInt16} {ctx ctx' : Context}

theorem setResponse (h : Identified id ctx) (msg : Message) (stop : Bool) :
    Identified id (ctx.setResponse msg stop) where
  request := h.request
  response m hm := by
    cases hm
    exact h.request
  raw raw hraw := by cases hraw

theorem setRawResponse (h : Identified id ctx) (raw : ZeroCopyDnsMessage) (stop : Bool) :
    Identified id (ctx.setRawResponse raw stop) where
  request := h.request
  response m hm := by cases hm
  raw raw' hraw := by
    cases hraw
    rw [← h.request]
    rfl

/-- A response put in without `set_response`. -/
theorem respond (h : Identified id ctx) {msg : Message} (hmsg : msg.id = ctx.request.id) :
    Identified id { ctx with response := some msg } where
  request := h.request
  response m hm := by
    cases hm
    rw [hmsg]
    exact h.request
  raw := h.raw

theorem kept (h : Identified id ctx) (hkept : ctx.Kept ctx') (heffect : Effect ctx ctx') :
    Identified id ctx' where
  request := by
    have hasking : Asking ctx.request ctx' := heffect.asking ⟨rfl, rfl⟩
    exact hasking.1.trans h.request
  response m hm := h.response m (hkept.response ▸ hm)
  raw raw hraw := h.raw raw (hkept.rawResponse ▸ hraw)

/-- What a branch answered goes into the context of the fallback. -/
theorem applyCtx (h : Identified id ctx) {success : Context} (hs : Identified id success) :
    Identified id (applyCtx success ctx) := ⟨h.request, hs.response, hs.raw⟩

end Identified

/-! ## One plugin at a time -/

section
variable {codec : Codec} {id : UInt16} {ctx : Context}

theorem cache_identified (h : Identified id ctx) (c : CachePlugin) (now : Nat)
    (found : Option CachedEntry) : Identified id (c.handleWith codec now found ctx) := by
  cases hmiss : c.misses codec now found ctx with
  | true =>
    rw [handleWith_miss hmiss]
    exact ⟨h.request, h.response, h.raw⟩
  | false =>
    have hhit (entry : CachedEntry) : Identified id (CachePlugin.answerFrom ctx entry) := by
      unfold CachePlugin.answerFrom
      split
      · exact h.setRawResponse _ _
      · exact h.setResponse _ _
    unfold CachePlugin.handleWith
    split
    · exact h
    · split
      · exact ⟨h.request, h.response, h.raw⟩
      · split
        · exact hhit _
        · exact ⟨h.request, h.response, h.raw⟩
        · exact ⟨h.request, h.response, h.raw⟩

theorem forward_identified (h : Identified id ctx) (f : ForwardPlugin) (env : ForwardEnv) :
    Identified id (f.handle codec env ctx).1 := by
  unfold ForwardPlugin.handle
  split
  · exact h.setResponse _ _
  · split
    · exact h
    · split
      · exact h.setResponse _ _
      · exact h.setResponse _ _

theorem smartForward_identified (h : Identified id ctx) (outcome : SmartForwarded) :
    Identified id (SmartForwardPlugin.handle codec outcome ctx).1 := by
  unfold SmartForwardPlugin.handle
  split
  · exact h
  · split
    · exact h
    · exact h.setResponse _ _

theorem reject_identified (h : Identified id ctx) (r : RejectPlugin) :
    Identified id (r.handle ctx) := by
  unfold RejectPlugin.handle
  split
  · exact h
  · exact h.setResponse _ _

theorem hosts_identified (h : Identified id ctx) (p : HostsPlugin) :
    Identified id (p.handle codec ctx) := by
  unfold HostsPlugin.handle
  split
  · exact h.setResponse _ _
  · exact h

/-- Its answer is made with the ID of the request. -/
theorem dns64_identified (h : Identified id ctx) (d : Dns64Plugin) :
    Identified id (d.handle ctx) := by
  unfold Dns64Plugin.handle
  split
  · split
    · exact h
    · split
      · exact h
      · split
        · exact h
        · exact h.respond rfl
  · exact h

/-- So is the refusal of a blocked name. -/
theorem adBlock_identified (h : Identified id ctx) (b : AdBlockPlugin) :
    Identified id (b.handle codec ctx) := by
  unfold AdBlockPlugin.handle
  split
  · exact h
  · split
    · exact h
    · split
      · exact h.respond rfl
      · exact h

theorem ipv6Filter_identified (h : Identified id ctx) (f : Ipv6FilterPlugin) :
    Identified id (f.handle ctx) := by
  unfold Ipv6FilterPlugin.handle
  split
  · exact h
  · split
    · exact h
    · split
      · split
        · exact h.respond rfl
        · exact h
      · exact h
      · exact h
      · exact h

theorem dga_identified (h : Identified id ctx) (d : DGAPlugin) (above : List Char → Bool) :
    Identified id (d.handle codec above ctx) := by
  unfold DGAPlugin.handle
  simp only
  split
  · exact h
  · split
    · split
      · exact h
      · exact h.setResponse _ _
    · exact h

theorem smartResolve_identified (h : Identified id ctx) (env : SmartResolveEnv) :
    Identified id (SmartResolvePlugin.handle env ctx) := by
  have hforward : Identified id (SmartResolvePlugin.fallbackForward env ctx) := by
    unfold SmartResolvePlugin.fallbackForward
    split
    · exact h.setResponse _ _
    · exact h
  unfold SmartResolvePlugin.handle
  split
  · split
    · exact h.setResponse _ _
    · exact hforward
    · exact hforward
  · exact hforward

theorem aliApi_identified (h : Identified id ctx) (reply : Except String AliDNSResponse) :
    Identified id (AliApiPlugin.handle reply ctx).1 := by
  unfold AliApiPlugin.handle
  split
  · exact h
  · split
    · exact h
    · exact h.setResponse _ _

theorem rateLimit_identified (h : Identified id ctx) (shouldLimit : Bool) :
    Identified id (RateLimitPlugin.handle shouldLimit ctx) := by
  unfold RateLimitPlugin.handle
  split
  · exact h.setResponse _ _
  · exact h

/-- A response is rewritten under its own ID. -/
theorem ttl_identified (h : Identified id ctx) (t : TtlPlugin) :
    Identified id (t.handle ctx) where
  request := h.request
  response m hm := by
    obtain ⟨resp, hresp, rfl⟩ := Option.map_eq_some_iff.mp hm
    exact h.response resp hresp
  raw := h.raw

/-! ## Every plugin, and a run -/

/-- **No call loses the ID.** -/
theorem leaf_identified {w : World} {plugin : AnyPlugin} {path : List Nat} {ctx' : Context}
    {res : Except String Unit} (h : Identified id ctx) (hleaf : plugin.composite = false)
    (hcall : (handle codec w plugin path ctx).handled = .returned ctx' res) :
    Identified id ctx' := by
  obtain rfl := leaf_returned hleaf hcall
  cases plugin with
  | sequence => cases hleaf
  | fallback => cases hleaf
  | cache p => exact cache_identified h p _ _
  | forward p => exact forward_identified h p _
  | smartForward => exact smartForward_identified h _
  | reject p => exact reject_identified h p
  | log => exact h
  | hosts p => exact hosts_identified h p
  | geoSite p =>
    exact h.kept (markName_kept codec _ p.mark ctx)
      (markName_effect codec p.matchesLower p.mark ctx)
  | geoIp p => exact h.kept (geoIp_kept p ctx) (geoIp_effect p ctx)
  | matcher p =>
    exact h.kept (markName_kept codec _ p.mark ctx)
      (markName_effect codec p.matchesLower p.mark ctx)
  | ecs p => exact h.kept (ecs_kept p ctx) (ecs_effect p ctx)
  | fakeIp => exact h
  | dns64 p => exact dns64_identified h p
  | dnssec => exact h
  | adBlock p => exact adBlock_identified h p
  | ipv6Filter p => exact ipv6Filter_identified h p
  | dga p => exact dga_identified h p _
  | ipMatcher p => exact h.kept (ipMatcher_kept p ctx) (ipMatcher_effect p ctx)
  | smartResolve => exact smartResolve_identified h _
  | aliApi => exact aliApi_identified h _
  | rateLimit => exact rateLimit_identified h _
  | ttl p => exact ttl_identified h p

/-- **Nor does the pipeline.** -/
theorem handle_identified {w : World} {plugin : AnyPlugin} {path : List Nat} {ctx' : Context}
    {res : Except String Unit} (h : Identified id ctx)
    (hrun : (handle codec w plugin path ctx).handled = .returned ctx' res) :
    Identified id ctx' := by
  have hevery : Every codec w (fun _ _ _ => True) plugin path ctx :=
    every_of_forall (fun _ _ _ => trivial) plugin path ctx
  exact handle_invariant (fun _ _ _ _ _ hleaf _ hctx hcall => leaf_identified hctx hleaf hcall)
    (fun _ _ hs hctx => hctx.applyCtx hs) plugin path ctx ctx' res hevery h hrun

/-- The bytes of a response have its ID. -/
theorem responseBytes_identified (hcodec : codec.KeepsIds) (h : Identified id ctx)
    {bytes : List UInt8} (hbytes : ctx.responseBytes codec = some bytes) :
    bytes.take 2 = be16 id := by
  unfold Context.responseBytes at hbytes
  cases hraw : ctx.rawResponse with
  | some raw =>
    rw [hraw] at hbytes
    cases hbytes
    exact h.raw raw hraw
  | none =>
    rw [hraw] at hbytes
    cases hresponse : ctx.response with
    | none =>
      rw [hresponse] at hbytes
      cases hbytes
    | some m =>
      rw [hresponse] at hbytes
      have hwritten := hcodec.written m bytes hbytes
      rwa [h.response m hresponse] at hwritten

end

/-- **A response of `process_request_bytes` starts as its request does**, whatever the plugins of
the configuration are and whatever their calls run into. -/
theorem reply_identified {codec : Codec} (hcodec : codec.KeepsIds) {w : World}
    {caches : CacheRegistry} {env : Nat → HookEnv} {entry : Option AnyPlugin}
    {data bytes : List UInt8} {clientIp : IpAddr} {p : Processed}
    (hp : processRequestBytes codec w caches env entry data clientIp = some p)
    (hbytes : p.bytes = some bytes) : bytes.take 2 = data.take 2 := by
  cases hparsed : Context.fromBytes codec data clientIp with
  | none =>
    unfold processRequestBytes at hp
    rw [hparsed] at hp
    cases hp
    cases hbytes
  | some ctx =>
    cases entry with
    | none =>
      unfold processRequestBytes at hp
      rw [hparsed] at hp
      cases hp
      cases hbytes
    | some plugin =>
      obtain ⟨ctx', hends⟩ := ends_of_bytes hparsed hp (by rw [hbytes]; rfl)
      obtain ⟨request, zc, hrequest, hctx⟩ := fromBytes_some hparsed
      have hfresh : Identified request.id ctx := by
        rw [hctx]
        exact ⟨rfl, fun m hm => (by cases hm), fun raw hraw => (by cases hraw)⟩
      have hend := handle_identified hfresh hends.returned
      have hresponse : ctx'.responseBytes codec = some bytes := by
        rw [hends.processed] at hp
        obtain rfl := Option.some.inj hp
        unfold respond at hbytes
        split at hbytes
        · have hcaches : (runHooks codec env (caches.hooksOf ctx') ctx').1 = ctx' :=
            runHooks_caches (hooksOf_caches caches ctx') ctx'
          simp only [hcaches] at hbytes
          exact hbytes
        · exact hbytes
      rw [responseBytes_identified hcodec hend hresponse, hcodec.read data request hrequest]

/-! ## The workers run the pipeline -/

/-- What one request meets: the configuration of the moment, and what its calls run into. -/
structure RequestEnv where
  entry : Option AnyPlugin
  caches : CacheRegistry
  world : World
  hooks : Nat → HookEnv

/-- `process_request_bytes` on a packet; the `process_request` of the streams does the same. -/
def RequestEnv.process (codec : Codec) (call : RequestEnv) (request : Packet) : Option Processed :=
  processRequestBytes codec call.world call.caches call.hooks call.entry request.1 request.2.ip

namespace UdpServer

open Run

variable {W : Type} {codec : Codec} {s : UdpServer W}

/-- A worker that ends a job returns what `process_request_bytes` returned. -/
def Processes (codec : Codec) (s : UdpServer W) : Event W → Prop
  | .finish w answer => ∀ request, s.pool.worker w = .busy request →
      ∃ call p, RequestEnv.process codec call request = some p ∧ p.bytes = answer
  | _ => True

/-- The answer goes to the client, and `process_request_bytes` made it of the request. -/
def AnswerTo (codec : Codec) (request answer : Packet) : Prop :=
  answer.2 = request.2 ∧
    ∃ call p, RequestEnv.process codec call request = some p ∧ p.bytes = some answer.1

def Answered (codec : Codec) (s : UdpServer W) : Prop :=
  ∀ request answer, (request, some answer) ∈ s.pool.handled → AnswerTo codec request answer

/-- What a packet belongs to: the ID and the client. -/
def exchangeOf (packet : Packet) : List UInt8 × SocketAddr := (packet.1.take 2, packet.2)

theorem AnswerTo.exchange (hcodec : codec.KeepsIds) {request answer : Packet}
    (h : AnswerTo codec request answer) : exchangeOf answer = exchangeOf request := by
  obtain ⟨hdest, call, p, hp, hbytes⟩ := h
  have hid := reply_identified hcodec hp hbytes
  unfold exchangeOf
  rw [hid, hdest]

section
variable [DecidableEq W]

/-- Only a worker that ends a job writes one down. -/
theorem handled_step (hlayout : s.batchRx.Layout) {e : Event W}
    (he : ∀ w answer, e ≠ .finish w answer) : (s.step e).pool.handled = s.pool.handled := by
  cases e with
  | batch res qps =>
    simp only [step]
    split
    · cases res with
      | error e =>
        obtain ⟨b, -, hbatch⟩ := batch_error hlayout e qps
        rw [hbatch]
      | ok datagrams =>
        obtain ⟨b, -, hbatch⟩ := batch_ok hlayout datagrams qps
        rw [hbatch]
        exact (handled_run s.pool _).1
    · rfl
  | take w => exact (s.pool.take_books w).1
  | finish w answer => exact absurd rfl (he w answer)
  | panic w => exact (s.pool.abandon_books w).1
  | deliver w =>
    simp only [step, deliver]
    cases hw : s.pool.worker w with
    | delivering r =>
      have hhandled := (Pool.deliver_books hw).1
      simp only
      split
      · exact hhandled
      · exact hhandled
      · rfl
    | _ => rfl
  | response res =>
    simp only [step, response]
    split
    · split <;> rfl
    · rfl
  | timer res =>
    simp only [step]
    split <;> rfl
  | cancel =>
    simp only [step]
    split <;> rfl

theorem Answered.step (h : s.Answered codec) (hlayout : s.batchRx.Layout) {e : Event W}
    (he : s.Processes codec e) : (s.step e).Answered codec := by
  by_cases hfinish : ∃ w answer, e = .finish w answer
  · obtain ⟨w, answer, rfl⟩ := hfinish
    intro request packet hmem
    rcases s.pool.mem_finish hmem with hold | ⟨hbusy, hreply⟩
    · exact h request packet hold
    · obtain ⟨call, p, hp, hbytes⟩ := he request hbusy
      obtain ⟨bytes, hanswer, rfl⟩ := Option.map_eq_some_iff.mp hreply.symm
      exact ⟨rfl, call, p, hp, hbytes.trans hanswer⟩
  · have hhandled := handled_step hlayout (e := e) fun w answer heq => hfinish ⟨w, answer, heq⟩
    unfold Answered
    rw [hhandled]
    exact h

variable [Fintype W]

theorem answered_run {es : List (Event W)} (hes : Meets step (Processes codec) new es) :
    (served es).Answered codec := by
  have hstep : ∀ (s : UdpServer W) (e : Event W), s.Served ∧ s.Answered codec →
      s.Processes codec e → (s.step e).Served ∧ (s.step e).Answered codec :=
    fun _ e h he => ⟨h.1.step e, h.2.step h.1.layout he⟩
  have hnew : (new : UdpServer W).Answered codec := by
    intro request answer hmem
    simp [new, Pool.new] at hmem
  exact (invariant hstep ⟨Served.new, hnew⟩ hes).2

/-- Every answer has its own request. -/
theorem exchanges_sublist {handled : List (Packet × Option Packet)}
    (h : ∀ request answer, (request, some answer) ∈ handled →
      exchangeOf answer = exchangeOf request) :
    ((handled.filterMap Prod.snd).map exchangeOf).Sublist
      ((handled.map Prod.fst).map exchangeOf) := by
  induction handled with
  | nil => exact .slnil
  | cons x rest ih =>
    have hrest := ih fun request answer hmem => h request answer (List.mem_cons_of_mem x hmem)
    obtain ⟨request, answer⟩ := x
    cases answer with
    | none => exact hrest.cons _
    | some answer =>
      have hsame := h request answer List.mem_cons_self
      simp only [List.filterMap_cons, List.map_cons, hsame]
      exact hrest.cons_cons _

/-- **Every packet sent has the client and the ID of a packet received, and no packet received is
used twice**: it is what `process_request_bytes` made of a packet of that client. -/
theorem udp_replies_exact (codec : Codec) (hcodec : codec.KeepsIds) (es : List (Event W))
    (hes : Meets step (Processes codec) new es) :
    ((served es).sent.map exchangeOf).Subperm
        (((datagramsOf es).filterMap Datagram.read).map exchangeOf) ∧
      ∀ packet ∈ (served es).sent, ∃ request ∈ (datagramsOf es).filterMap Datagram.read,
        AnswerTo codec request packet := by
  have h := served_inv es
  have hanswered := answered_run hes
  have hsent := sent_subperm h
  have hadmitted := admitted_sublist es
  have hjobs : ((served es).pool.handled.map Prod.fst).Subperm (served es).pool.admitted :=
    (List.sublist_append_left _ _).subperm.trans h.pool.subperm_jobs
  constructor
  · have hanswers := exchanges_sublist fun request answer hmem =>
      (hanswered request answer hmem).exchange hcodec
    exact (subperm_map exchangeOf hsent).trans (hanswers.subperm.trans
      ((subperm_map exchangeOf hjobs).trans (hadmitted.map exchangeOf).subperm))
  · intro packet hpacket
    obtain ⟨⟨request, answer⟩, hmem, hsome⟩ := List.mem_filterMap.mp (hsent.subset hpacket)
    obtain rfl : answer = some packet := hsome
    have hrequest : request ∈ (served es).pool.handled.map Prod.fst :=
      List.mem_map.mpr ⟨_, hmem, rfl⟩
    exact ⟨request, hadmitted.subset (hjobs.subset hrequest), hanswered request packet hmem⟩

end

/-- A query with the ID 7. -/
def sevenRequest : Packet :=
  ([0, 7, 1, 0, 0, 1, 0, 0, 0, 0, 0, 0] ++ exampleQuestion.wire, ⟨.v4 ⟨10, 0, 0, 2⟩, 4000⟩)

/-- A query of another client with the ID 8. -/
def eightRequest : Packet :=
  ([0, 8, 1, 0, 0, 1, 0, 0, 0, 0, 0, 0] ++ exampleQuestion.wire, ⟨.v4 ⟨10, 0, 0, 3⟩, 4000⟩)

/-- A refusal under an ID. -/
def refusal (id : UInt8) : List UInt8 := [0, id, 0x80, 5, 0, 0, 0, 0, 0, 0, 0, 0]

/-- The library on the query and a refusal. -/
def refusingCodec : Codec :=
  .ofTableWithId
    [(chainRequest, chainData),
      ({ messageType := .response, responseCode := .refused }, refusal 0)]

/-- The clients have asked too often. -/
def refusingEnv : RequestEnv := ⟨some .rateLimit, exampleCaches, limitedWorld, quietHooks⟩

theorem refusingCodec_keepsIds : refusingCodec.KeepsIds := by
  apply Codec.ofTableWithId_keepsIds
  decide

/-- Each query is refused under its ID and to its client, the second first. -/
theorem udp_replies_exact_refused :
    (served (twoReceived sevenRequest eightRequest ++
        (twoHandled (refusal 7) (refusal 8) ++ twoSent))).sent =
        [(refusal 8, ⟨.v4 ⟨10, 0, 0, 3⟩, 4000⟩), (refusal 7, ⟨.v4 ⟨10, 0, 0, 2⟩, 4000⟩)] ∧
      ((served (twoReceived sevenRequest eightRequest ++
        (twoHandled (refusal 7) (refusal 8) ++ twoSent))).sent.map exchangeOf).Subperm
        [([0, 7], ⟨.v4 ⟨10, 0, 0, 2⟩, 4000⟩), ([0, 8], ⟨.v4 ⟨10, 0, 0, 3⟩, 4000⟩)] := by
  obtain ⟨_, hbatch⟩ := served_twoReceived sevenRequest eightRequest (by decide)
  obtain ⟨_, hhandled⟩ :=
    served_twoHandled sevenRequest eightRequest (by decide) (refusal 7) (refusal 8)
  have hes : Meets step (Processes refusingCodec) new
      (twoReceived sevenRequest eightRequest ++
        (twoHandled (refusal 7) (refusal 8) ++ twoSent)) := by
    have hreceived : run step new (twoReceived sevenRequest eightRequest) =
        served (twoReceived sevenRequest eightRequest) := rfl
    refine .append ⟨trivial, trivial⟩ ?_
    rw [hreceived, hbatch]
    refine ⟨trivial, trivial, ?_, trivial, ?_, trivial, trivial, trivial, trivial, trivial⟩
    · intro request hbusy
      obtain rfl : eightRequest = request := Worker.busy.inj hbusy
      exact ⟨refusingEnv, _, rfl, rfl⟩
    · intro request hbusy
      obtain rfl : sevenRequest = request := Worker.busy.inj hbusy
      exact ⟨refusingEnv, _, rfl, rfl⟩
  refine ⟨?_, (udp_replies_exact refusingCodec refusingCodec_keepsIds _ hes).1⟩
  rw [← List.append_assoc]
  have hrun : ∀ es : List (Event Bool), served (es ++ twoSent) = run step (served es) twoSent :=
    fun es => run_append _ _ _
  rw [hrun, hhandled]
  rfl

end UdpServer

/-! ## Streams -/

namespace Streams

open Run Framing

variable {codec : Codec} {src : SocketAddr} {l : Listener} {s : Connection}

/-- `process_request` returns what it makes of the request given to it last. -/
def Processes (codec : Codec) (src : SocketAddr) (s : Connection) : Event → Prop
  | .processed (some p) => s.phase = .processing → ∀ request, s.requests.getLast? = some request →
      ∃ call, RequestEnv.process codec call (request, src) = some p
  | _ => True

/-- What was returned was made of the request at its place. -/
def Answered (codec : Codec) (src : SocketAddr) (s : Connection) : Prop :=
  ∀ (i : Nat) p, s.returned[i]? = some p → ∃ request, s.requests[i]? = some request ∧
    ∃ call, RequestEnv.process codec call (request, src) = some p

theorem Answered.grow {s' : Connection} (h : Answered codec src s)
    (hreturned : s'.returned = s.returned) (hrequests : s.requests <+: s'.requests) :
    Answered codec src s' := by
  intro i p hp
  rw [hreturned] at hp
  obtain ⟨request, hrequest, hcall⟩ := h i p hp
  obtain ⟨rest, hrest⟩ := hrequests
  refine ⟨request, ?_, hcall⟩
  rw [← hrest, List.getElem?_append_left (List.getElem?_eq_some_iff.mp hrequest).1]
  exact hrequest

theorem read_books (s : Connection) (n : Nat) :
    (s.read n).returned = s.returned ∧ s.requests <+: (s.read n).requests := by
  unfold Connection.read
  split
  · simp only
    split
    · exact ⟨rfl, List.prefix_refl _⟩
    · unfold Connection.gotLength
      simp only
      split <;> exact ⟨rfl, List.prefix_refl _⟩
  · simp only
    split
    · exact ⟨rfl, List.prefix_refl _⟩
    · exact ⟨rfl, List.prefix_append _ _⟩
  · exact ⟨rfl, List.prefix_refl _⟩

theorem answer_books (l : Listener) (s : Connection) (p : Processed) :
    (s.answer l p).returned = s.returned ++ [p] ∧ (s.answer l p).requests = s.requests := by
  unfold Connection.answer
  split <;> exact ⟨rfl, rfl⟩

/-- The request at the place of the next answer is the last one. -/
theorem Answered.answer {received : List UInt8} (h : Answered codec src s)
    (hsound : Sound l s received) (hphase : s.phase = .processing) {p : Processed}
    (hp : Processes codec src s (.processed (some p))) : Answered codec src (s.answer l p) := by
  have hlength := hsound.paired (by rw [hphase]; rfl)
  rw [hphase] at hlength
  obtain ⟨hreturned, hrequests⟩ := answer_books l s p
  intro i q hq
  rw [hreturned] at hq
  rw [hrequests]
  by_cases hi : i < s.returned.length
  · rw [List.getElem?_append_left hi] at hq
    exact h i q hq
  · rw [List.getElem?_append_right (Nat.le_of_not_lt hi)] at hq
    rw [List.getElem?_singleton] at hq
    split at hq
    · rename_i hplace
      obtain rfl := Option.some.inj hq
      simp only [Phase.pending] at hlength
      have hlast : s.requests.getLast? = s.requests[i]? := by
        rw [List.getLast?_eq_getElem?]
        congr 1
        omega
      obtain ⟨request, hrequest⟩ : ∃ request, s.requests[i]? = some request :=
        ⟨_, List.getElem?_eq_getElem (by omega)⟩
      exact ⟨request, hrequest, hp hphase request (hlast.trans hrequest)⟩
    · cases hq

theorem Answered.step {received : List UInt8} (h : Answered codec src s)
    (hsound : Sound l s received) {e : Event} (he : Processes codec src s e) :
    Answered codec src (step l s e) := by
  have hsame {s' : Connection} (hreturned : s'.returned = s.returned)
      (hrequests : s'.requests = s.requests) : Answered codec src s' :=
    h.grow hreturned (hrequests ▸ List.prefix_refl _)
  cases e with
  | deliver chunk => exact hsame rfl rfl
  | read n => exact h.grow (read_books s n).1 (read_books s n).2
  | processed p =>
    simp only [Streams.step]
    split
    · rename_i p hphase
      exact h.answer hsound hphase he
    · exact hsame rfl rfl
    · exact h
  | write n =>
    simp only [Streams.step, Connection.write]
    split
    · exact hsame rfl rfl
    · exact h
  | timeout =>
    simp only [Streams.step]
    split
    · exact hsame rfl rfl
    · exact h
  | eof =>
    simp only [Streams.step]
    split
    · exact hsame rfl rfl
    · exact h
  | fail =>
    simp only [Streams.step]
    split
    · exact hsame rfl rfl
    · exact hsame rfl rfl
    · exact hsame rfl rfl
    · exact h

theorem answered_run {es : List Event}
    (hes : Meets (step l) (Processes codec src) .new es) : Answered codec src (after l es) := by
  have hstep : ∀ (s : Connection) (e : Event),
      (∃ received, Sound l s received) ∧ Answered codec src s → Processes codec src s e →
        (∃ received, Sound l (step l s e) received) ∧ Answered codec src (step l s e) := by
    rintro s e ⟨⟨received, hsound⟩, h⟩ he
    exact ⟨⟨_, hsound.step e⟩, h.step hsound he⟩
  have hnew : Answered codec src .new := by
    intro i p hp
    simp [Connection.new] at hp
  exact (invariant hstep ⟨⟨[], sound_new l⟩, hnew⟩ hes).2

/-- What answers has a request each, in order. -/
theorem ids_sublist {requests : List (List UInt8)} {returned : List Processed}
    (h : ∀ (i : Nat) p, returned[i]? = some p → ∃ request, requests[i]? = some request ∧
      ∀ bytes, p.bytes = some bytes → bytes.take 2 = request.take 2) :
    ((returned.filterMap Processed.bytes).map (·.take 2)).Sublist (requests.map (·.take 2)) := by
  induction returned generalizing requests with
  | nil => exact List.nil_sublist _
  | cons p rest ih =>
    obtain ⟨request, hfirst, hid⟩ := h 0 p rfl
    cases requests with
    | nil => cases hfirst
    | cons request' later =>
      obtain rfl := Option.some.inj hfirst
      have hrest := ih fun i p hp => h (i + 1) p hp
      cases hbytes : p.bytes with
      | none =>
        rw [List.filterMap_cons_none hbytes]
        exact hrest.cons _
      | some bytes =>
        rw [List.filterMap_cons_some hbytes, List.map_cons, List.map_cons, hid bytes hbytes]
        exact hrest.cons_cons _

/-- **What the client reads back has the IDs of its queries, in their order**: every answer was made
of the query at its place, and the IDs of those it reads are among those of the queries it sent. -/
theorem stream_replies_exact (codec : Codec) (hcodec : codec.KeepsIds) (src : SocketAddr)
    (l : Listener) (es : List Event) (hes : Meets (step l) (Processes codec src) .new es) :
    Answered codec src (after l es) ∧
      ((after l es).answers.map (·.take 2)).Sublist ((after l es).requests.map (·.take 2)) ∧
      ((∀ a ∈ (after l es).answers, a.length < 65536) →
        ((messages (after l es).sent).1.map (·.take 2)).Sublist
          ((messages (delivered es)).1.map (·.take 2))) := by
  have h := sound_run l es
  have hanswered := answered_run hes
  have hids : ((after l es).answers.map (·.take 2)).Sublist
      ((after l es).requests.map (·.take 2)) := by
    refine ids_sublist fun i p hp => ?_
    obtain ⟨request, hrequest, call, hcall⟩ := hanswered i p hp
    exact ⟨request, hrequest, fun bytes hbytes => reply_identified hcodec hcall hbytes⟩
  refine ⟨hanswered, hids, fun hshort => ?_⟩
  obtain ⟨rest, hrest⟩ := h.taken
  have hread := ((h.readBack hshort).sublist.map (·.take 2)).trans hids
  rw [hrest, List.map_append]
  exact hread.trans (List.sublist_append_left _ _)

/-- A DoT client sends two queries at once; it has asked too often. -/
def refusedStream : List Event :=
  [.deliver (frame UdpServer.sevenRequest.1 ++ frame UdpServer.eightRequest.1),
    .read 2, .read 64, .processed (some ⟨some (UdpServer.refusal 7), [], []⟩), .write 64,
    .read 2, .read 64, .processed (some ⟨some (UdpServer.refusal 8), [], []⟩), .write 64]

/-- It reads the two refusals, under the IDs of its queries and in their order. -/
theorem stream_replies_exact_refused :
    (after ⟨true, some 5000⟩ refusedStream).sent =
        frame (UdpServer.refusal 7) ++ frame (UdpServer.refusal 8) ∧
      ((messages (after ⟨true, some 5000⟩ refusedStream).sent).1.map (·.take 2)).Sublist
        [[0, 7], [0, 8]] := by
  have hes : Meets (step ⟨true, some 5000⟩)
      (Processes UdpServer.refusingCodec UdpServer.sevenRequest.2) .new refusedStream := by
    refine ⟨trivial, trivial, trivial, ?_, trivial, trivial, trivial, ?_, trivial, trivial⟩
    · intro _ request hlast
      obtain rfl : UdpServer.sevenRequest.1 = request := Option.some.inj hlast
      exact ⟨UdpServer.refusingEnv, rfl⟩
    · intro _ request hlast
      obtain rfl : UdpServer.eightRequest.1 = request := Option.some.inj hlast
      exact ⟨UdpServer.refusingEnv, rfl⟩
  have hshort : ∀ a ∈ (after ⟨true, some 5000⟩ refusedStream).answers, a.length < 65536 := by
    decide
  have hdelivered : delivered refusedStream =
      [UdpServer.sevenRequest.1, UdpServer.eightRequest.1].flatMap frame := by decide
  have hread := (stream_replies_exact UdpServer.refusingCodec UdpServer.refusingCodec_keepsIds
    UdpServer.sevenRequest.2 _ _ hes).2.2 hshort
  rw [hdelivered, messages_flatMap_iff.mpr (by decide)] at hread
  exact ⟨by decide, hread⟩

end Streams

end TitanDns
