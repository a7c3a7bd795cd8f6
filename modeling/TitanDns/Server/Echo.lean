import TitanDns.Server.Process

/-!
# A reply echoes its request

The ID, the QR flag and the questions of what the server sends.

* `EchoBytes` — bytes that are a response to the request; `Answers` — a message that is, but for
  its ID; `Echo` — a context whose response is.
* `Section` — the questions that a plugin puts into its response; `replySection` — which plugin
  puts in which, when it answers.
* `leaf_echo` — what a call does to the echo; `Flow.echo` — and a whole run: **its response
  echoes as the section of the last call that answers does.**
* `inspect_echo`, `runHooks_echo` — no hook changes that.
* `reply_echoes_iff` — **nor does the encoding.**
-/

namespace TitanDns

/-! ## Echoing -/

/-- An encoding starts with the ID, and decoding it, under whatever ID, gives the kind of message
and the questions back. -/
structure Codec.KeepsHead (codec : Codec) : Prop where
  written : ∀ m bytes, codec.toVec m = some bytes → bytes.take 2 = be16 m.id
  read : ∀ m bytes id, codec.toVec m = some bytes →
    ∃ m', codec.fromVec (be16 id ++ bytes.drop 2) = some m' ∧ m'.messageType = m.messageType ∧
      m'.queries = m.queries

theorem Codec.ofTable_keepsHead {messages : List (Message × List UInt8)}
    {names : List (Name × String)}
    (hhead : ∀ e ∈ messages, ∀ e' ∈ messages, e.2.drop 2 = e'.2.drop 2 →
      e.1.messageType = e'.1.messageType ∧ e.1.queries = e'.1.queries) :
    (Codec.ofTable messages names).KeepsHead where
  written m bytes h := by
    obtain ⟨e, -, rfl⟩ := Option.map_eq_some_iff.mp h
    rfl
  read m bytes id h := by
    obtain ⟨e, hmem, hm, rfl, e', hmem', he', htail⟩ := Codec.ofTable_encoded h
    obtain ⟨htype, hqueries⟩ := hhead e' hmem' e hmem htail
    refine ⟨e'.1, ?_, ?_, ?_⟩
    · show (messages.find? (·.2.drop 2 == e.2.drop 2)).map (·.1) = some e'.1
      rw [he']
      rfl
    · rw [htype, hm]
    · rw [hqueries, hm]

/-- The message is a response with the questions of the request. -/
def Answers (request m : Message) : Prop :=
  m.messageType = .response ∧ request.queries ⊆ m.queries

/-- The bytes carry the ID of the request and are a response with its questions. -/
def EchoBytes (codec : Codec) (request : Message) (bytes : List UInt8) : Prop :=
  bytes.take 2 = be16 request.id ∧ ∃ m, codec.fromVec bytes = some m ∧ Answers request m

/-- The response held, if there is one, echoes the request. -/
def Echo (codec : Codec) (request : Message) (ctx : Context) : Prop :=
  match ctx.rawResponse with
  | some raw => EchoBytes codec request raw.raw
  | none => ∀ m, ctx.response = some m → m.id = request.id ∧ Answers request m

/-- What a cache answers from the entry echoes the request. -/
def EntryEchoes (codec : Codec) (request : Message) (entry : CachedEntry) : Prop :=
  match entry.rawBytes.bind ZeroCopyDnsMessage.fromBytes with
  | some zc => EchoBytes codec request (zc.withId request.id).raw
  | none => Answers request entry.message

/-- The context is one of the request: its ID and its questions. -/
def Asking (request : Message) (ctx : Context) : Prop :=
  ctx.request.id = request.id ∧ ctx.request.queries = request.queries

/-- Upstreams answer with responses that carry the questions of the request. -/
structure UpstreamsEcho (request : Message) (w : World) : Prop where
  forward : ∀ path, ForwardPlugin.AllMeet (w path).forward (Answers request)
  smartForward : ∀ path m, (w path).smartForward = .answered m → Answers request m
  smartResolve : ∀ path m, (w path).smartResolve.forwarded = some m → Answers request m

/-! ## Question sections -/

/-- The question section of a response. -/
inductive Section where
  /-- Every question of the request, by copying it or from an upstream. -/
  | all
  /-- The first question. -/
  | first
  | omitted
  /-- That of a cached entry. -/
  | stored (entry : CachedEntry)

/-- Such a section echoes the request. -/
def Section.Echoes (codec : Codec) (request : Message) : Section → Prop
  | .all => True
  | .first => request.queries ⊆ request.query.toList
  | .omitted => request.queries = []
  | .stored entry => EntryEchoes codec request entry

section
variable (codec : Codec) (e : StepEnv) (ctx : Context)

def CachePlugin.replySection (p : CachePlugin) : Option Section :=
  match getKey codec ctx, e.found with
  | some _, some entry =>
    match p.lookupDecision e.now entry with
    | .serve => some (.stored entry)
    | .skip => none
    | .drop => none
  | _, _ => none

/-- A response that the plugin makes up has the first question. -/
def ForwardPlugin.replySection (p : ForwardPlugin) : Option Section :=
  if e.forward.clientBlocked then some .first
  else
    match ctx.request.query with
    | none => none
    | some _ =>
      match p.execute codec e.forward ctx.request (ctx.rawRequest.map (·.raw)) with
      | .ok _ => some .all
      | .error _ => some .first

/-- The two responses for a failure differ. -/
def SmartForwardPlugin.replySection : Option Section :=
  match ctx.request.query with
  | none => none
  | some _ =>
    match ctx.rawRequest.map (·.raw) <|> codec.toVec ctx.request with
    | none => none
    | some _ =>
      match e.smartForward with
      | .answered _ => some .all
      | .domesticFailed => some .first
      | .fakeIpFailed => some .omitted

def AdBlockPlugin.replySection (p : AdBlockPlugin) : Option Section :=
  if ctx.response.isSome then none
  else
    match ctx.request.query with
    | none => none
    | some _ => if p.shouldBlock codec ctx then some .first else none

def Ipv6FilterPlugin.replySection (p : Ipv6FilterPlugin) : Option Section :=
  if ctx.response.isSome then none
  else
    match ctx.request.query with
    | none => none
    | some query =>
      if p.mode = .disableIpv6 ∧ query.qtype = TYPE_AAAA then some .first else none

def DGAPlugin.replySection (p : DGAPlugin) : Option Section :=
  let target := DGAPlugin.mainPart (ctx.qname codec).toLower
  if byteLength target < p.minLen then none
  else if e.entropyAbove target then if p.dryRun then none else some .all
  else none

def Dns64Plugin.replySection (p : Dns64Plugin) : Option Section :=
  if ctx.request.query.any (·.qtype == TYPE_AAAA) then
    match ctx.response with
    | none => none
    | some response =>
      if p.onlyIfNoAaaa && response.answers.any (·.recordType == TYPE_AAAA) then none
      else if (Dns64Plugin.getARecords response).isEmpty then none
      else some .first
  else none

def SmartResolvePlugin.replySection : Option Section :=
  let forwarded := e.smartResolve.forwarded.map fun _ => Section.all
  if probed ctx.request then
    match e.smartResolve.gathered with
    | some (_ :: _) => some .first
    | some [] => forwarded
    | none => forwarded
  else forwarded

def AliApiPlugin.replySection : Option Section :=
  match ctx.request.query with
  | none => none
  | some _ =>
    match e.aliApi with
    | .error _ => none
    | .ok _ => some .first

/-- The section that the plugin puts into its response, when it answers. -/
def replySection : AnyPlugin → Option Section
  | .cache p => p.replySection codec e ctx
  | .forward p => p.replySection codec e ctx
  | .smartForward _ _ => SmartForwardPlugin.replySection codec e ctx
  | .reject _ => ctx.request.query.map fun _ => .first
  | .hosts p => (p.createResponse codec ctx).map fun _ => .all
  | .adBlock p => p.replySection codec ctx
  | .ipv6Filter p => p.replySection ctx
  | .dga p => p.replySection codec e ctx
  | .dns64 p => p.replySection ctx
  | .smartResolve => SmartResolvePlugin.replySection e ctx
  | .aliApi => AliApiPlugin.replySection e ctx
  | .rateLimit => if e.shouldLimit then some .omitted else none
  | _ => none

end

/-- The section decides, and without one what was there before. -/
def Verdict (codec : Codec) (request : Message) (before : Prop) : Option Section → Prop
  | some s => s.Echoes codec request
  | none => before

/-! ## One call -/

section
variable {codec : Codec} {request : Message} {ctx : Context}

theorem Asking.query (h : Asking request ctx) : ctx.request.query = request.query := by
  unfold Message.query
  rw [h.2]

/-- The echo is one of the response. -/
theorem echo_congr {a b : Context} (hresponse : b.response = a.response)
    (hraw : b.rawResponse = a.rawResponse) : Echo codec request b ↔ Echo codec request a := by
  unfold Echo
  rw [hresponse, hraw]

theorem echo_setResponse (h : Asking request ctx) (msg : Message) (stop : Bool) :
    Echo codec request (ctx.setResponse msg stop) ↔ Answers request msg := by
  have hsome : ∃ m, (ctx.setResponse msg stop).response = some m ∧ m.id = request.id ∧
      m.messageType = msg.messageType ∧ m.queries = msg.queries := by
    unfold Context.setResponse
    simp only
    split
    · exact ⟨_, rfl, h.1, rfl, rfl⟩
    · exact ⟨_, rfl, h.1, rfl, rfl⟩
  obtain ⟨m, hm, hid, htype, hqueries⟩ := hsome
  show (∀ m, (ctx.setResponse msg stop).response = some m → _) ↔ _
  unfold Answers
  rw [hm]
  constructor
  · intro hecho
    obtain ⟨-, htype', hsub⟩ := hecho m rfl
    rw [htype, hqueries] at *
    exact ⟨htype', hsub⟩
  · rintro ⟨htype', hsub⟩ m' hm'
    cases hm'
    rw [htype, hqueries]
    exact ⟨hid, htype', hsub⟩

theorem echo_setRawResponse (h : Asking request ctx) (raw : ZeroCopyDnsMessage) (stop : Bool) :
    Echo codec request (ctx.setRawResponse raw stop) ↔
      EchoBytes codec request (raw.withId request.id).raw := by
  show EchoBytes codec request (raw.withId ctx.request.id).raw ↔ _
  rw [h.1]

/-- A response put in without `abort`. -/
theorem echo_respond (hraw : ctx.rawResponse = none) (msg : Message) :
    Echo codec request { ctx with response := some msg } ↔
      msg.id = request.id ∧ Answers request msg := by
  unfold Echo
  simp only [hraw, Option.some.injEq, forall_eq']

/-- A message with the first question and nothing else of the request. -/
theorem answers_first {query : Question} (h : Asking request ctx)
    (hq : ctx.request.query = some query) {m : Message} (htype : m.messageType = .response)
    (hqueries : m.queries = [query]) :
    Answers request m ↔ request.queries ⊆ request.query.toList := by
  have hsame : request.query = some query := h.query.symm.trans hq
  unfold Answers
  rw [hqueries, hsame]
  exact and_iff_right htype

/-- The same, for a section that is written as the first question, if there is one. -/
theorem answers_query (h : Asking request ctx) {m : Message} (htype : m.messageType = .response)
    (hqueries : m.queries = ctx.request.query.toList) :
    Answers request m ↔ request.queries ⊆ request.query.toList := by
  unfold Answers
  rw [hqueries, h.query]
  exact and_iff_right htype

/-- A message with all the questions of the request. -/
theorem answers_all (h : Asking request ctx) {m : Message} (htype : m.messageType = .response)
    (hqueries : m.queries = ctx.request.queries) : Answers request m := by
  refine ⟨htype, ?_⟩
  rw [hqueries, h.2]
  exact List.Subset.refl _

/-- A message without questions. -/
theorem answers_omitted {m : Message} (htype : m.messageType = .response)
    (hqueries : m.queries = []) : Answers request m ↔ request.queries = [] := by
  unfold Answers
  rw [hqueries, List.subset_nil]
  exact and_iff_right htype

theorem cache_echo (h : Asking request ctx) (p : CachePlugin) (e : StepEnv) :
    Echo codec request (p.handleWith codec e.now e.found ctx) ↔
      Verdict codec request (Echo codec request ctx) (p.replySection codec e ctx) := by
  unfold CachePlugin.handleWith CachePlugin.replySection
  cases getKey codec ctx with
  | none => exact Iff.rfl
  | some key =>
    cases e.found with
    | none => exact echo_congr rfl rfl
    | some entry =>
      simp only
      cases p.lookupDecision e.now entry with
      | skip => exact echo_congr rfl rfl
      | drop => exact echo_congr rfl rfl
      | serve =>
        show Echo codec request (CachePlugin.answerFrom ctx entry) ↔ EntryEchoes codec request entry
        unfold CachePlugin.answerFrom EntryEchoes
        cases entry.rawBytes.bind ZeroCopyDnsMessage.fromBytes with
        | some zc => exact echo_setRawResponse h zc true
        | none => exact echo_setResponse h _ true

theorem forward_echo (h : Asking request ctx) (p : ForwardPlugin) {e : StepEnv}
    (hup : ForwardPlugin.AllMeet e.forward (Answers request)) :
    Echo codec request (p.handle codec e.forward ctx).1 ↔
      Verdict codec request (Echo codec request ctx) (p.replySection codec e ctx) := by
  unfold ForwardPlugin.handle ForwardPlugin.replySection
  split
  · exact (echo_setResponse h _ true).trans (answers_query h rfl rfl)
  · cases hq : ctx.request.query with
    | none => exact Iff.rfl
    | some q =>
      simp only
      cases hexec : p.execute codec e.forward ctx.request (ctx.rawRequest.map (·.raw)) with
      | ok m =>
        have hm : Answers request m := ForwardPlugin.execute_meets hup hexec
        refine (echo_setResponse h _ true).trans ?_
        exact iff_of_true hm trivial
      | error err => exact (echo_setResponse h _ true).trans (answers_query h rfl rfl)

theorem smartForward_echo (h : Asking request ctx) {e : StepEnv}
    (hup : ∀ m, e.smartForward = .answered m → Answers request m) :
    Echo codec request (SmartForwardPlugin.handle codec e.smartForward ctx).1 ↔
      Verdict codec request (Echo codec request ctx)
        (SmartForwardPlugin.replySection codec e ctx) := by
  unfold SmartForwardPlugin.handle SmartForwardPlugin.replySection
  cases hq : ctx.request.query with
  | none => exact Iff.rfl
  | some q =>
    simp only
    cases ctx.rawRequest.map (·.raw) <|> codec.toVec ctx.request with
    | none => exact Iff.rfl
    | some bytes =>
      simp only
      refine (echo_setResponse h _ true).trans ?_
      cases houtcome : e.smartForward with
      | answered m => exact iff_of_true (hup m houtcome) trivial
      | domesticFailed => exact answers_query h rfl rfl
      | fakeIpFailed => exact answers_omitted rfl rfl

theorem reject_echo (h : Asking request ctx) (p : RejectPlugin) :
    Echo codec request (p.handle ctx) ↔
      Verdict codec request (Echo codec request ctx)
        (ctx.request.query.map fun _ => Section.first) := by
  unfold RejectPlugin.handle
  cases hq : ctx.request.query with
  | none => exact Iff.rfl
  | some q => exact (echo_setResponse h _ true).trans (answers_first h hq rfl rfl)

theorem hosts_echo (h : Asking request ctx) (p : HostsPlugin) :
    Echo codec request (p.handle codec ctx) ↔
      Verdict codec request (Echo codec request ctx)
        ((p.createResponse codec ctx).map fun _ => Section.all) := by
  unfold HostsPlugin.handle
  cases hcreate : p.createResponse codec ctx with
  | none => exact Iff.rfl
  | some response =>
    refine (echo_setResponse h _ true).trans ?_
    have hkeeps : response.messageType = .response ∧ response.queries = ctx.request.queries := by
      unfold HostsPlugin.createResponse at hcreate
      simp only [Option.bind_eq_bind] at hcreate
      obtain ⟨q, -, hcreate⟩ := Option.bind_eq_some_iff.mp hcreate
      obtain ⟨ips, -, hcreate⟩ := Option.bind_eq_some_iff.mp hcreate
      split at hcreate
      · cases hcreate
      · cases hcreate
        exact ⟨rfl, rfl⟩
    exact iff_of_true (answers_all h hkeeps.1 hkeeps.2) trivial

theorem adBlock_echo (h : Asking request ctx) (hraw : ctx.rawResponse = none)
    (p : AdBlockPlugin) :
    Echo codec request (p.handle codec ctx) ↔
      Verdict codec request (Echo codec request ctx) (p.replySection codec ctx) := by
  unfold AdBlockPlugin.handle AdBlockPlugin.replySection
  split
  · exact Iff.rfl
  · cases hq : ctx.request.query with
    | none => exact Iff.rfl
    | some q =>
      simp only
      split
      · refine (echo_respond hraw _).trans ?_
        rw [answers_first h hq rfl rfl]
        exact and_iff_right h.1
      · exact Iff.rfl

theorem ipv6Filter_echo (h : Asking request ctx) (hraw : ctx.rawResponse = none)
    (p : Ipv6FilterPlugin) :
    Echo codec request (p.handle ctx) ↔
      Verdict codec request (Echo codec request ctx) (p.replySection ctx) := by
  unfold Ipv6FilterPlugin.handle Ipv6FilterPlugin.replySection
  cases hresponse : ctx.response with
  | some m => exact Iff.rfl
  | none =>
    cases hq : ctx.request.query with
    | none =>
      simp only [ite_self]
      exact Iff.rfl
    | some q =>
      cases hmode : p.mode with
      | disabled => exact Iff.rfl
      | preferIpv4 => exact Iff.rfl
      | preferIpv6 => exact Iff.rfl
      | disableIpv6 =>
        by_cases htype : q.qtype = TYPE_AAAA
        · simp only [Option.isSome_none, Bool.false_or, reduceCtorEq, decide_false,
            Bool.false_eq_true, if_false, htype, and_self, if_true]
          refine (echo_respond hraw _).trans ?_
          rw [answers_first h hq rfl rfl]
          exact and_iff_right h.1
        · simp only [Option.isSome_none, Bool.false_or, reduceCtorEq, decide_false,
            Bool.false_eq_true, if_false, htype, and_false]
          exact Iff.rfl

theorem dga_echo (h : Asking request ctx) (p : DGAPlugin) (e : StepEnv) :
    Echo codec request (p.handle codec e.entropyAbove ctx) ↔
      Verdict codec request (Echo codec request ctx) (p.replySection codec e ctx) := by
  unfold DGAPlugin.handle DGAPlugin.replySection
  simp only
  split
  · exact Iff.rfl
  · split
    · split
      · exact Iff.rfl
      · refine (echo_setResponse h _ true).trans ?_
        exact iff_of_true (answers_all h rfl rfl) trivial
    · exact Iff.rfl

theorem dns64_echo (h : Asking request ctx) (hraw : ctx.rawResponse = none) (p : Dns64Plugin) :
    Echo codec request (p.handle ctx) ↔
      Verdict codec request (Echo codec request ctx) (p.replySection ctx) := by
  unfold Dns64Plugin.handle Dns64Plugin.replySection
  split
  · cases ctx.response with
    | none => exact Iff.rfl
    | some response =>
      simp only
      split
      · exact Iff.rfl
      · split
        · exact Iff.rfl
        · refine (echo_respond hraw _).trans ?_
          rw [answers_query h rfl rfl]
          exact and_iff_right h.1
  · exact Iff.rfl

theorem smartResolve_echo (h : Asking request ctx) {e : StepEnv}
    (hup : ∀ m, e.smartResolve.forwarded = some m → Answers request m) :
    Echo codec request (SmartResolvePlugin.handle e.smartResolve ctx) ↔
      Verdict codec request (Echo codec request ctx)
        (SmartResolvePlugin.replySection e ctx) := by
  have hforward : Echo codec request (SmartResolvePlugin.fallbackForward e.smartResolve ctx) ↔
      Verdict codec request (Echo codec request ctx)
        (e.smartResolve.forwarded.map fun _ => Section.all) := by
    unfold SmartResolvePlugin.fallbackForward
    cases hsome : e.smartResolve.forwarded with
    | none => exact Iff.rfl
    | some m =>
      have hm := hup m hsome
      refine (echo_setResponse h _ true).trans ?_
      exact iff_of_true hm trivial
  unfold SmartResolvePlugin.handle SmartResolvePlugin.replySection
  simp only
  split
  · cases e.smartResolve.gathered with
    | none => exact hforward
    | some sorted =>
      cases sorted with
      | nil => exact hforward
      | cons r rs => exact (echo_setResponse h _ true).trans (answers_query h rfl rfl)
  · exact hforward

theorem aliApi_echo (h : Asking request ctx) (e : StepEnv) :
    Echo codec request (AliApiPlugin.handle e.aliApi ctx).1 ↔
      Verdict codec request (Echo codec request ctx) (AliApiPlugin.replySection e ctx) := by
  unfold AliApiPlugin.handle AliApiPlugin.replySection
  cases hq : ctx.request.query with
  | none => exact Iff.rfl
  | some q =>
    cases e.aliApi with
    | error err => exact Iff.rfl
    | ok json => exact (echo_setResponse h _ true).trans (answers_first h hq rfl rfl)

theorem rateLimit_echo (h : Asking request ctx) (e : StepEnv) :
    Echo codec request (RateLimitPlugin.handle e.shouldLimit ctx) ↔
      Verdict codec request (Echo codec request ctx)
        (if e.shouldLimit then some Section.omitted else none) := by
  unfold RateLimitPlugin.handle
  split
  · exact (echo_setResponse h _ true).trans (answers_omitted rfl rfl)
  · exact Iff.rfl

/-- Other TTLs are no other questions. -/
theorem ttl_echo (p : TtlPlugin) : Echo codec request (p.handle ctx) ↔ Echo codec request ctx := by
  unfold Echo
  show (match ctx.rawResponse with
    | some raw => EchoBytes codec request raw.raw
    | none => ∀ m, (p.handle ctx).response = some m → _) ↔ _
  cases ctx.rawResponse with
  | some raw => exact Iff.rfl
  | none =>
    show (∀ m, ctx.response.map _ = some m → _) ↔ _
    cases ctx.response with
    | none => exact Iff.rfl
    | some resp => simp only [Option.map_some, Option.some.injEq, forall_eq', Answers]

theorem kept_echo {ctx' : Context} (h : ctx.Kept ctx') :
    Echo codec request ctx' ↔ Echo codec request ctx := echo_congr h.response h.rawResponse

/-- **What a call does to the echo.** -/
theorem leaf_echo {w : World} (hup : UpstreamsEcho request w) (h : Asking request ctx)
    (hraw : ctx.rawResponse = none) {plugin : AnyPlugin} {path : List Nat} {ctx' : Context}
    {res : Except String Unit} (hleaf : plugin.composite = false)
    (hcall : (handle codec w plugin path ctx).handled = .returned ctx' res) :
    Echo codec request ctx' ↔
      Verdict codec request (Echo codec request ctx) (replySection codec (w path) ctx plugin) := by
  obtain rfl := leaf_returned hleaf hcall
  cases plugin with
  | sequence => cases hleaf
  | fallback => cases hleaf
  | cache p => exact cache_echo h p (w path)
  | forward p => exact forward_echo h p (hup.forward path)
  | smartForward => exact smartForward_echo h (hup.smartForward path)
  | reject p => exact reject_echo h p
  | log => exact Iff.rfl
  | hosts p => exact hosts_echo h p
  | geoSite p => exact kept_echo (markName_kept codec p.matchesLower p.mark ctx)
  | geoIp p => exact kept_echo (geoIp_kept p ctx)
  | matcher p => exact kept_echo (markName_kept codec p.matchesLower p.mark ctx)
  | ecs p => exact kept_echo (ecs_kept p ctx)
  | fakeIp => exact Iff.rfl
  | dns64 p => exact dns64_echo h hraw p
  | dnssec => exact Iff.rfl
  | adBlock p => exact adBlock_echo h hraw p
  | ipv6Filter p => exact ipv6Filter_echo h hraw p
  | dga p => exact dga_echo h p (w path)
  | ipMatcher p => exact kept_echo (ipMatcher_kept p ctx)
  | smartResolve => exact smartResolve_echo h (hup.smartResolve path)
  | aliApi => exact aliApi_echo h (w path)
  | rateLimit => exact rateLimit_echo h (w path)
  | ttl p => exact ttl_echo p

end

/-! ## A run -/

section
variable {codec : Codec} {w : World} {request : Message}

def CallSite.replySection (codec : Codec) (w : World) (c : CallSite) : Option Section :=
  TitanDns.replySection codec (w c.path) c.ctx c.plugin

/-- The section of the last call that answers. -/
def lastSection (codec : Codec) (w : World) (cs : List CallSite) : Option Section :=
  (cs.filterMap (·.replySection codec w)).getLast?

theorem verdict_append {before after : Prop} {cs cs' : List CallSite}
    (h : after ↔ Verdict codec request before (lastSection codec w cs)) :
    Verdict codec request after (lastSection codec w cs') ↔
      Verdict codec request before (lastSection codec w (cs ++ cs')) := by
  unfold lastSection at h ⊢
  rw [List.filterMap_append, List.getLast?_append]
  cases (cs'.filterMap (·.replySection codec w)).getLast? with
  | none => exact h
  | some s => exact Iff.rfl

theorem Effect.asking {ctx ctx' : Context} (h : Effect ctx ctx') (hask : Asking request ctx) :
    Asking request ctx' := by
  cases h <;> exact hask

/-- Bytes are only set together with `abort`. -/
theorem Effect.raw {ctx ctx' : Context} (h : Effect ctx ctx') (hraw : ctx.rawResponse = none) :
    ctx'.rawResponse = none ∨ ctx'.abort = true := by
  cases h with
  | same => exact Or.inl hraw
  | answered msg => exact Or.inl rfl
  | answeredRaw raw => exact Or.inr rfl
  | responded msg => exact Or.inl hraw
  | tagged tags => exact Or.inl hraw
  | asked edns => exact Or.inl hraw

/-- **The response of a run echoes as the section of the last call that answers does.** -/
theorem Flow.echo (hup : UpstreamsEcho request w) {fragment : Fragment} {path : List Nat}
    {ctx ctx' : Context} {cs : List CallSite} (h : Flow codec w fragment path ctx cs ctx')
    (hask : Asking request ctx) (hraw : ctx.rawResponse = none) :
    Asking request ctx' ∧ (ctx'.rawResponse = none ∨ ctx'.abort = true) ∧
      (Echo codec request ctx' ↔
        Verdict codec request (Echo codec request ctx) (lastSection codec w cs)) := by
  induction h with
  | @leaf plugin path ctx ctx' res leaf call =>
    have hecho := leaf_echo hup hask hraw leaf call
    have hlast : lastSection codec w [⟨plugin, path, ctx⟩] =
        replySection codec (w path) ctx plugin := by
      show ([CallSite.mk plugin path ctx].filterMap (·.replySection codec w)).getLast? =
        (CallSite.mk plugin path ctx).replySection codec w
      rw [List.filterMap_cons]
      cases (CallSite.mk plugin path ctx).replySection codec w <;> rfl
    rw [hlast]
    rcases leaf_effect leaf call with ⟨-, heffect⟩ | ⟨name, -, rfl⟩
    · exact ⟨heffect.asking hask, heffect.raw hraw, hecho⟩
    · exact ⟨hask, Or.inl hraw, hecho⟩
  | sequence _ ih => exact ih hask hraw
  | primary _ ih =>
    obtain ⟨-, hsettled, hecho⟩ := ih hask hraw
    exact ⟨hask, hsettled, (echo_congr rfl rfl).trans hecho⟩
  | secondary _ ih =>
    obtain ⟨-, hsettled, hecho⟩ := ih hask hraw
    exact ⟨hask, hsettled, (echo_congr rfl rfl).trans hecho⟩
  | failed => exact ⟨hask, Or.inl hraw, Iff.rfl⟩
  | done => exact ⟨hask, Or.inl hraw, Iff.rfl⟩
  | skipped _ ih => exact ih hask hraw
  | stopped _ ih => exact ih hask hraw
  | passed _ goOn _ ih ih' =>
    obtain ⟨hask₁, hsettled₁, hecho₁⟩ := ih hask hraw
    have hraw₁ := hsettled₁.resolve_right (by rw [goOn]; decide)
    obtain ⟨hask', hsettled', hecho'⟩ := ih' hask₁ hraw₁
    exact ⟨hask', hsettled', hecho'.trans (verdict_append hecho₁)⟩

end

/-! ## The reply -/

section
variable {codec : Codec} {request : Message}

theorem be16_injective {a b : UInt16} (h : be16 a = be16 b) : a = b := by
  have hhigh : (a >>> 8).toUInt8 = (b >>> 8).toUInt8 := (List.cons.inj h).1
  have hlow : a.toUInt8 = b.toUInt8 := (List.cons.inj (List.cons.inj h).2).1
  have hhigh' := congrArg UInt8.toNat hhigh
  have hlow' := congrArg UInt8.toNat hlow
  simp only [UInt16.toNat_toUInt8, UInt16.toNat_shiftRight, UInt16.reduceToNat, Nat.reduceMod,
    Nat.shiftRight_eq_div_pow, Nat.reducePow] at hhigh' hlow'
  have ha := a.toNat_lt
  have hb := b.toNat_lt
  apply UInt16.toNat.inj
  omega

namespace ForwardPlugin

/-- The check of the forward looks at answers and changes answers and the response code. -/
theorem inspect_head (env : HookEnv) (limit : Bool) (resp : Message) :
    (inspect env limit resp).id = resp.id ∧
      (inspect env limit resp).messageType = resp.messageType ∧
      (inspect env limit resp).queries = resp.queries := by
  have hfilter (m : Message) : (filterBestIps env limit m).id = m.id ∧
      (filterBestIps env limit m).messageType = m.messageType ∧
      (filterBestIps env limit m).queries = m.queries := by
    unfold filterBestIps
    split
    · simp only
      split
      · exact ⟨rfl, rfl, rfl⟩
      · split <;> exact ⟨rfl, rfl, rfl⟩
    · exact ⟨rfl, rfl, rfl⟩
  have hsmart : (applySmartTtl env resp).id = resp.id ∧
      (applySmartTtl env resp).messageType = resp.messageType ∧
      (applySmartTtl env resp).queries = resp.queries := by
    unfold applySmartTtl
    split
    · exact ⟨rfl, rfl, rfl⟩
    · split <;> exact ⟨rfl, rfl, rfl⟩
  unfold inspect
  split
  · split
    · exact ⟨rfl, rfl, rfl⟩
    · obtain ⟨hid, htype, hqueries⟩ := hfilter (applySmartTtl env resp)
      rw [hid, htype, hqueries]
      exact hsmart
  · exact ⟨rfl, rfl, rfl⟩

theorem onResponse_echo (env : HookEnv) (ctx : Context) :
    Echo codec request (onResponse env ctx) ↔ Echo codec request ctx := by
  unfold Echo
  show (match ctx.rawResponse with
    | some raw => EchoBytes codec request raw.raw
    | none => ∀ m, ctx.response.map (inspect env (shouldLimitBestIps ctx)) = some m → _) ↔ _
  cases ctx.rawResponse with
  | some raw => exact Iff.rfl
  | none =>
    cases ctx.response with
    | none => exact Iff.rfl
    | some resp =>
      obtain ⟨hid, htype, hqueries⟩ := inspect_head env (shouldLimitBestIps ctx) resp
      simp only [Option.map_some, Option.some.injEq, forall_eq', TitanDns.Answers, hid, htype,
        hqueries]

end ForwardPlugin

/-- No list of hooks changes the echo. -/
theorem runHooks_echo (env : Nat → HookEnv) (hooks : List AnyPlugin) (ctx : Context) :
    Echo codec request (runHooks codec env hooks ctx).1 ↔ Echo codec request ctx := by
  induction hooks generalizing ctx with
  | nil => exact Iff.rfl
  | cons hook hooks ih =>
    refine (ih _).trans ?_
    cases hook with
    | forward f => exact ForwardPlugin.onResponse_echo (env hooks.length) ctx
    | dnssec =>
      show Echo codec request (DnssecPlugin.onResponse ctx) ↔ _
      unfold DnssecPlugin.onResponse
      cases hresponse : ctx.response with
      | none => exact Iff.rfl
      | some resp =>
        obtain ⟨hr, hraw⟩ := ctx.addTag_response (DnssecPlugin.statusTag resp)
        exact echo_congr hr hraw
    | _ => exact Iff.rfl

/-- The bytes of a response echo if it does. -/
theorem responseBytes_echo (hcodec : codec.KeepsHead) {ctx : Context} {bytes : List UInt8}
    (h : ctx.responseBytes codec = some bytes) :
    EchoBytes codec request bytes ↔ Echo codec request ctx := by
  unfold Context.responseBytes at h
  unfold Echo
  cases hraw : ctx.rawResponse with
  | some raw =>
    rw [hraw] at h
    cases h
    exact Iff.rfl
  | none =>
    rw [hraw] at h
    cases hresponse : ctx.response with
    | none =>
      rw [hresponse] at h
      cases h
    | some m =>
      rw [hresponse] at h
      have hto : codec.toVec m = some bytes := h
      have hwritten := hcodec.written m bytes hto
      obtain ⟨m', hread, htype, hqueries⟩ := hcodec.read m bytes m.id hto
      rw [← hwritten, List.take_append_drop] at hread
      unfold EchoBytes Answers
      rw [hwritten, hread]
      simp only [Option.some.injEq, exists_eq_left', forall_eq', htype, hqueries]
      constructor
      · rintro ⟨hid, hanswers⟩
        exact ⟨be16_injective hid, hanswers⟩
      · rintro ⟨hid, hanswers⟩
        rw [hid]
        exact ⟨rfl, hanswers⟩

/-- An entry stored for a response echoes the requests which that response answers. -/
theorem entry_echoes_iff (hcodec : codec.KeepsHead) (now ttl : Nat) (m : Message) :
    EntryEchoes codec request (.newWithBytes now m ttl (CachePlugin.encoded codec m)) ↔
      Answers request m := by
  unfold EntryEchoes CachedEntry.newWithBytes
  show (match ZeroCopyDnsMessage.fromBytes (CachePlugin.encoded codec m) with
    | some zc => EchoBytes codec request (zc.withId request.id).raw
    | none => Answers request m) ↔ _
  unfold ZeroCopyDnsMessage.fromBytes
  split
  · rename_i zc hzc
    split at hzc
    · rename_i hlength
      cases hzc
      cases hto : codec.toVec m with
      | none =>
        -- then the entry has no bytes
        have hempty : CachePlugin.encoded codec m = [] := by
          unfold CachePlugin.encoded
          rw [hto]
          rfl
        rw [hempty] at hlength
        cases hlength
      | some bytes =>
        have hbytes : CachePlugin.encoded codec m = bytes := by
          unfold CachePlugin.encoded
          rw [hto]
          rfl
        obtain ⟨m', hread, htype, hqueries⟩ := hcodec.read m bytes request.id hto
        show EchoBytes codec request (be16 request.id ++ (CachePlugin.encoded codec m).drop 2) ↔ _
        rw [hbytes]
        unfold EchoBytes Answers
        rw [hread]
        simp only [Option.some.injEq, exists_eq_left', htype, hqueries]
        exact and_iff_right rfl
    · cases hzc
  · exact Iff.rfl

/-- **A reply echoes its request exactly if the section of the last call that answers does**, under
any list of hooks. -/
theorem reply_echoes_iff (codec : Codec) (w : World) (env : Nat → HookEnv)
    (hooks : List AnyPlugin) (entry : AnyPlugin) (data : List UInt8) (clientIp : IpAddr)
    (ctx ctx' : Context) (bytes : List UInt8) (hcodec : codec.KeepsHead)
    (hup : UpstreamsEcho ctx.request w) (h : Ends codec w entry data clientIp ctx ctx')
    (hbytes : (respond codec env hooks ctx').bytes = some bytes) :
    EchoBytes codec ctx.request bytes ↔
      ∀ s, lastSection codec w (kept codec w entry [] ctx) = some s →
        s.Echoes codec ctx.request := by
  obtain ⟨request, zc, -, hctx⟩ := fromBytes_some h.parsed
  have hraw : ctx.rawResponse = none := by rw [hctx]; rfl
  have hfresh : Echo codec ctx.request ctx := by
    unfold Echo
    rw [hraw]
    intro m hm
    rw [hctx] at hm
    cases hm
  obtain ⟨-, -, hecho⟩ := h.flow.echo hup ⟨rfl, rfl⟩ hraw
  have hsent : EchoBytes codec ctx.request bytes ↔ Echo codec ctx.request ctx' := by
    unfold respond at hbytes
    split at hbytes
    · exact (responseBytes_echo hcodec hbytes).trans (runHooks_echo env hooks ctx')
    · exact responseBytes_echo hcodec hbytes
  rw [hsent, hecho]
  cases lastSection codec w (kept codec w entry [] ctx) with
  | none =>
    refine iff_of_true hfresh ?_
    intro s hs
    cases hs
  | some s =>
    show s.Echoes codec ctx.request ↔ _
    simp only [Option.some.injEq, forall_eq']

end

theorem answering_echoes : UpstreamsEcho chainRequest (chainWorld ⟨192, 0, 2, 1⟩) where
  forward path := by
    have hanswers : Answers chainRequest (answerWith ⟨192, 0, 2, 1⟩) :=
      ⟨rfl, List.Subset.refl _⟩
    constructor
    · intro u msg h
      cases h
      exact hanswers
    · intro u msg h
      cases h
      exact hanswers
  smartForward path m h := by cases h
  smartResolve path m h := by cases h

/-- An upstream's answer, through a cache that missed. -/
theorem reply_echoes_iff_forward :
    EchoBytes (chainCodec ⟨192, 0, 2, 1⟩) chainRequest
      ([0, 0, 0x80, 0, 0, 1, 0, 1, 0, 0, 0, 0] ++ exampleQuestion.wire ++
        [0xc0, 12, 0, 1, 0, 1, 0, 0, 1, 44, 0, 4, 192, 0, 2, 1]) := by
  refine (reply_echoes_iff (chainCodec ⟨192, 0, 2, 1⟩) (chainWorld ⟨192, 0, 2, 1⟩) quietHooks
    [.cache CacheSystem.exampleCache] exampleChain chainData (.v4 ⟨10, 0, 0, 2⟩) startContext _ _
    ?_ ?_ (chain_ends ⟨192, 0, 2, 1⟩) rfl).mpr ?_
  · apply Codec.ofTable_keepsHead
    decide
  · exact answering_echoes
  · intro s hs
    rw [chain_kept] at hs
    cases hs
    trivial

/-- The library on the query and a refusal. -/
def refusalCodec : Codec :=
  .ofTable
    [(chainRequest, chainData),
      ({ messageType := .response, responseCode := .refused },
        [0, 0, 0x80, 5, 0, 0, 0, 0, 0, 0, 0, 0])]
    [(exampleQuestion.name, "www.example.com.")]

/-- The client has asked too often. -/
def limitedWorld : World := fun path =>
  { chainWorld ⟨192, 0, 2, 1⟩ path with shouldLimit := true }

/-- The refusal of the rate limit has no question. -/
theorem refusal_omits_question :
    refusalCodec.KeepsHead ∧ UpstreamsEcho chainRequest limitedWorld ∧
      ∃ p bytes, processRequestBytes refusalCodec limitedWorld exampleCaches quietHooks
          (some .rateLimit) chainData (.v4 ⟨10, 0, 0, 2⟩) = some p ∧ p.bytes = some bytes ∧
        ¬ EchoBytes refusalCodec chainRequest bytes := by
  refine ⟨?_, ?_, _, _, rfl, rfl, ?_⟩
  · apply Codec.ofTable_keepsHead
    decide
  · obtain ⟨hforward, hsmart, hresolve⟩ := answering_echoes
    exact ⟨hforward, hsmart, hresolve⟩
  · rintro ⟨-, m, hm, -, hquestions⟩
    cases hm
    revert hquestions
    decide

end TitanDns
