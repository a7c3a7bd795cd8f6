import TitanDns.Plugins.CacheSystem
import TitanDns.Plugins.Pipeline

/-!
# The question of a cache hit

The key of an entry is a hash of a name's text, so whether a hit answers the question asked is a
matter of what every writer stores under which key.

* `Asks` — a message with exactly this question, up to case.
* `Assumed` — what is assumed of an event: the names involved are among the texts `T`, upstreams
  echo the question they are asked.
* `KeepsQuestion` — the condition on an event: a response handed over with a name is about that
  name, and a refresh by the recursive backend comes from the iterative mode, meets no alias and is
  of class IN.
* `QuestionInv` — every entry asks the question of its key; `step_questionInv` — what one event
  keeps.

Principal results: `hit_answers_question` — **along such a run every hit answers the question
asked**; `refresh_forgets_question` — a refresh in trusted mode makes a hit without a question.
-/

namespace TitanDns

open Bpf Run CacheSystem CachePlugin RecursiveBackend

/-- The question section is `q`, up to case. -/
def Asks (m : Message) (q : Question) : Prop := ∃ q', m.queries = [q'] ∧ q'.Same q

theorem Asks.of_same {m : Message} {q r : Question} (h : Asks m q) (hsame : q.Same r) :
    Asks m r := by
  obtain ⟨q', hq', hname, htype, hclass⟩ := h
  exact ⟨q', hq', hname.trans hsame.1, htype.trans hsame.2.1, hclass.trans hsame.2.2⟩

/-- The message a client reads in the response. -/
def answerMessage (codec : Codec) (ctx : Context) : Option Message :=
  match ctx.rawResponse with
  | some raw => codec.fromVec raw.raw
  | none => ctx.response

/-! ## Assumptions and condition -/

/-- Every upstream echoes the questions of the request. -/
def ForwardEchoes (env : ForwardEnv) (request : Message) : Prop :=
  ForwardPlugin.AllMeet env fun msg => msg.queries = request.queries

/-- The name of the request, if it has one, is among the texts. -/
def TextIn (codec : Codec) (T : String → Prop) (request : Message) : Prop :=
  ∀ q, request.query = some q → T (codec.display q.name)

/-- What is assumed of an event. -/
def Assumed (codec : Codec) (T : String → Prop) (s : CacheSystem) : SystemEvent → Prop
  | .lookup _ ctx => TextIn codec T ctx.request
  | .respond _ ctx _ => TextIn codec T ctx.request
  | .insert _ domain _ _ _ _ => T domain
  | .finish i env => Echoes env.resolver ∧
      ∀ request, s.tasks[i]? = some (.prefetch request) → ForwardEchoes env.forward request
  | _ => True

/-- A refresh by the recursive backend fails, or is of class IN, comes from the iterative mode and
meets no alias. -/
def RecursionKeeps (codec : Codec) (c : CachePlugin) (env : ResolverEnv) (text : String)
    (qtype qclass : UInt16) : Prop :=
  ∀ b, c.prefetchRecursive = some b →
    (∃ err, b.lookup codec env text qtype = .error err) ∨
      (qclass = CLASS_IN ∧ b.UsesIterative codec env text qtype ∧
        ∀ name, codec.fromAscii text = some name → NoAlias env name qtype)

/-- The condition on a background task. -/
def TaskKeeps (codec : Codec) (c : CachePlugin) (env : TaskEnv) : Task → Prop
  | .prefetch request => ∀ q, request.query = some q → request.queries = [q] ∧
      RecursionKeeps codec c env.resolver (codec.display q.name) q.qtype q.qclass
  | .shadow domain qtype qclass => RecursionKeeps codec c env.resolver domain qtype qclass

/-- The condition on an event. -/
def KeepsQuestion (codec : Codec) (c : CachePlugin) (s : CacheSystem) : SystemEvent → Prop
  | .respond _ ctx _ => ∀ q resp, ctx.request.query = some q → ctx.response = some resp →
      Asks resp q
  | .insert _ domain qtype qclass resp _ => ∀ name, codec.fromAscii domain = some name →
      Asks resp ⟨name, qtype, qclass⟩
  | .finish i env => ∀ task, s.tasks[i]? = some task → TaskKeeps codec c env task
  | _ => True

/-! ## The invariant -/

/-- The bytes of the entry, if they hold a header, encode its message. -/
def Encodes (codec : Codec) (entry : CachedEntry) : Prop :=
  ∀ bytes, entry.rawBytes = some bytes → 12 ≤ bytes.length → codec.toVec entry.message = some bytes

/-- The entry belongs under the key of this text, type and class. -/
structure Belongs (codec : Codec) (entry : CachedEntry) (text : String) (qtype qclass : UInt16) :
    Prop where
  encodes : Encodes codec entry
  asks : ∀ name, codec.fromAscii text = some name → Asks entry.message ⟨name, qtype, qclass⟩

def TaskIn (codec : Codec) (T : String → Prop) : Task → Prop
  | .prefetch request => TextIn codec T request
  | .shadow domain _ _ => T domain

/-- Every entry asks the question of its key, and every text is one of `T`. -/
structure QuestionInv (codec : Codec) (T : String → Prop) (s : CacheSystem) : Prop where
  entries : ∀ key entry, s.cache key = some entry → ∃ text qtype qclass, T text ∧
    key = buildKeyForDomain text qtype qclass ∧ Belongs codec entry text qtype qclass
  tasks : ∀ task ∈ s.tasks, TaskIn codec T task
  mapping : ∀ h domain qtype qclass, s.xdpHashMap h = some (domain, qtype, qclass) → T domain

/-- What a writer has to provide. -/
structure WriteInv (codec : Codec) (T : String → Prop) (w : Write) : Prop where
  entry : ∃ text qtype qclass, T text ∧ w.key = buildKeyForDomain text qtype qclass ∧
    Belongs codec w.entry text qtype qclass
  push : ∀ u domain, w.push = .sync u domain → T domain

section
variable {codec : Codec} {c : CachePlugin} {e : Endian} {s : CacheSystem} {T : String → Prop}

theorem encodes_encoded (now : Nat) (resp : Message) (ttl : Nat) :
    Encodes codec (.newWithBytes now resp ttl (encoded codec resp)) := by
  rintro bytes ⟨⟩ hlength
  show codec.toVec resp = some (encoded codec resp)
  unfold encoded at hlength ⊢
  cases hvec : codec.toVec resp with
  | some bytes => rfl
  | none =>
    -- without an encoding the bytes are empty
    rw [hvec] at hlength
    exact absurd hlength (by decide)

theorem encodes_toVec {resp : Message} {bytes : List UInt8} (h : codec.toVec resp = some bytes)
    (now ttl : Nat) : Encodes codec (.newWithBytes now resp ttl bytes) := by
  rintro bytes' ⟨⟩ -
  exact h

/-- The text of a name stands for that name. -/
theorem asks_readBack (hread : ∀ n, T (codec.display n) → codec.ReadsBack n) {q : Question}
    (hT : T (codec.display q.name)) {m : Message} (h : Asks m q) :
    ∀ name, codec.fromAscii (codec.display q.name) = some name →
      Asks m ⟨name, q.qtype, q.qclass⟩ := by
  intro name hname
  obtain ⟨name', hname', hsame⟩ := hread q.name hT
  rw [hname] at hname'
  cases hname'
  exact h.of_same ⟨hsame.symm, rfl, rfl⟩

theorem onResponse_writeInv (hread : ∀ n, T (codec.display n) → codec.ReadsBack n)
    {clocks : Clocks} {ctx : Context} {w : Write} (hT : TextIn codec T ctx.request)
    (hkeeps : ∀ q resp, ctx.request.query = some q → ctx.response = some resp → Asks resp q)
    (hw : c.onResponse codec clocks ctx = some w) : WriteInv codec T w := by
  obtain ⟨q, resp, entry, hq, hresp, hentry, rfl⟩ := onResponse_some hw
  obtain ⟨-, -, rfl⟩ := entryFor_some hentry
  have htext := hT q hq
  have hasks := asks_readBack hread htext (hkeeps q resp hq hresp)
  refine ⟨⟨codec.display q.name, q.qtype, q.qclass, htext, rfl, encodes_encoded _ _ _, hasks⟩, ?_⟩
  rintro u domain ⟨⟩
  exact htext

theorem insertResponseForDomain_writeInv {clocks : Clocks} {domain : String}
    {qtype qclass : UInt16} {resp : Message} {w : Write} (hT : T domain)
    (hkeeps : ∀ name, codec.fromAscii domain = some name → Asks resp ⟨name, qtype, qclass⟩)
    (hw : c.insertResponseForDomain codec clocks domain qtype qclass resp = some w) :
    WriteInv codec T w := by
  obtain ⟨hentry, hkey, hpush⟩ := insertResponseForDomain_some hw
  obtain ⟨-, -, hentry⟩ := entryFor_some hentry
  refine ⟨⟨domain, qtype, qclass, hT, hkey, ?_⟩, ?_⟩
  · rw [hentry]
    exact ⟨encodes_encoded _ _ _, hkeeps⟩
  · intro u domain' hsync
    rcases hpush with hpush | ⟨name, -, hpush⟩
    · rw [hpush] at hsync
      cases hsync
    · rw [hpush] at hsync
      cases hsync
      exact hT

/-- A refresh that meets the condition keeps the question. -/
theorem lookup_asks {env : ResolverEnv} {text : String} {qtype qclass : UInt16}
    (hecho : Echoes env) (hkeeps : RecursionKeeps codec c env text qtype qclass)
    {b : RecursiveBackend} (hb : c.prefetchRecursive = some b) {msg : Message}
    (hmsg : b.lookup codec env text qtype = .ok msg) :
    ∀ name, codec.fromAscii text = some name → Asks msg ⟨name, qtype, qclass⟩ := by
  intro name hname
  rcases hkeeps b hb with ⟨err, herr⟩ | ⟨rfl, huses, halias⟩
  · rw [hmsg] at herr
    cases herr
  · have hqueries := lookup_queries hecho hname (halias name hname) huses hmsg
    exact ⟨_, hqueries, Question.Same.refl _⟩

theorem refreshed_asks (hread : ∀ n, T (codec.display n) → codec.ReadsBack n) {env : TaskEnv}
    {request : Message} {q : Question} (hT : T (codec.display q.name))
    (hecho : Echoes env.resolver) (hforward : ForwardEchoes env.forward request)
    (hq : request.queries = [q])
    (hkeeps : RecursionKeeps codec c env.resolver (codec.display q.name) q.qtype q.qclass)
    {resp : Message} (h : refreshed codec c env request q = some resp) :
    ∀ name, codec.fromAscii (codec.display q.name) = some name →
      Asks resp ⟨name, q.qtype, q.qclass⟩ := by
  have hforwarded : ((c.prefetchForwarder.bind fun f =>
      (f.execute codec env.forward request none).toOption) = some resp) →
      ∀ name, codec.fromAscii (codec.display q.name) = some name →
        Asks resp ⟨name, q.qtype, q.qclass⟩ := by
    intro hf
    obtain ⟨f, -, hexec⟩ := Option.bind_eq_some_iff.mp hf
    have hok : f.execute codec env.forward request none = .ok resp := by
      cases hresult : f.execute codec env.forward request none with
      | ok m =>
        rw [hresult] at hexec
        cases hexec
        rfl
      | error err =>
        rw [hresult] at hexec
        cases hexec
    have hsame := ForwardPlugin.execute_meets hforward hok
    exact asks_readBack hread hT ⟨q, hsame.trans hq, Question.Same.refl q⟩
  unfold refreshed at h
  simp only at h
  split at h
  · rename_i b hb
    split at h
    · rename_i hmsg
      cases h
      exact lookup_asks hecho hkeeps hb hmsg
    · exact hforwarded h
  · exact hforwarded h

theorem prefetch_writeInv (hread : ∀ n, T (codec.display n) → codec.ReadsBack n) {env : TaskEnv}
    {request : Message} {w : Write} (hT : TextIn codec T request) (hecho : Echoes env.resolver)
    (hforward : ForwardEchoes env.forward request)
    (hkeeps : TaskKeeps codec c env (.prefetch request))
    (hw : c.prefetch codec env request = some w) : WriteInv codec T w := by
  obtain ⟨q, resp, entry, hq, hresp, hentry, rfl⟩ := prefetch_some hw
  obtain ⟨-, bytes, hbytes, rfl⟩ := refreshEntryFor_some hentry
  obtain ⟨hone, hrec⟩ := hkeeps q hq
  have htext := hT q hq
  have hasks := refreshed_asks hread htext hecho hforward hone hrec hresp
  refine ⟨⟨_, _, _, htext, rfl, encodes_toVec hbytes _ _, hasks⟩, ?_⟩
  intro u domain hpush
  cases hpush

theorem shadowRefresh_writeInv {env : TaskEnv} {domain : String} {qtype qclass : UInt16}
    {w : Write} (hT : T domain) (hecho : Echoes env.resolver)
    (hkeeps : TaskKeeps codec c env (.shadow domain qtype qclass))
    (hw : c.shadowRefresh codec env domain qtype qclass = some w) : WriteInv codec T w := by
  obtain ⟨b, resp, bytes, hb, hresp, hbytes, hkey, hentry, hpush⟩ := shadowRefresh_some hw
  have hasks := lookup_asks hecho hkeeps hb hresp
  refine ⟨⟨domain, qtype, qclass, hT, hkey, ?_⟩, ?_⟩
  · rw [hentry]
    exact ⟨encodes_toVec hbytes _ _, hasks⟩
  · intro u domain' hsync
    rcases hpush with hpush | ⟨q, -, hpush⟩
    · rw [hpush] at hsync
      cases hsync
    · rw [hpush] at hsync
      cases hsync

/-- **Every writer keeps the question of its key.** -/
theorem write_writeInv (hread : ∀ n, T (codec.display n) → codec.ReadsBack n)
    (hs : QuestionInv codec T s) {ev : SystemEvent} (hev : Assumed codec T s ev)
    (hkeeps : KeepsQuestion codec c s ev) {w : Write} {accepted : Bool}
    (hw : writeOf codec c s ev = some (w, accepted)) : WriteInv codec T w := by
  rcases writeOf_some hw with ⟨clocks, ctx, rfl, hwrite⟩ |
    ⟨clocks, domain, qtype, qclass, resp, rfl, hwrite⟩ | ⟨i, env, task, rfl, -, htask, hwrite⟩
  · exact onResponse_writeInv hread hev hkeeps hwrite
  · exact insertResponseForDomain_writeInv hev hkeeps hwrite
  · obtain ⟨hecho, hforward⟩ := hev
    have hin := hs.tasks task (List.mem_of_getElem? htask)
    have htk := hkeeps task htask
    cases task with
    | prefetch request =>
      exact prefetch_writeInv hread hin hecho (hforward request htask) htk hwrite
    | shadow domain qtype qclass => exact shadowRefresh_writeInv hin hecho htk hwrite

/-- What one event keeps. -/
theorem step_questionInv (hread : ∀ n, T (codec.display n) → codec.ReadsBack n)
    (hs : QuestionInv codec T s) {ev : SystemEvent} (hev : Assumed codec T s ev)
    (hkeeps : KeepsQuestion codec c s ev) : QuestionInv codec T (systemStep codec c e s ev) := by
  refine ⟨?_, ?_, ?_⟩
  · intro key entry hentry
    rcases step_cache hentry with ⟨w, accepted, hw, rfl, rfl⟩ | hentry
    · exact (write_writeInv hread hs hev hkeeps hw).entry
    · exact hs.entries key entry hentry
  · intro task htask
    rcases step_tasks htask with htask | ⟨now, ctx, rfl, rfl⟩ | ⟨h, domain, qtype, qclass, hh, rfl⟩
    · exact hs.tasks task htask
    · exact hev
    · exact hs.mapping h domain qtype qclass hh
  · intro h domain qtype qclass hh
    rcases step_xdpHashMap hh with hh | ⟨w, accepted, u, domain', hw, hpush, -, heq⟩
    · exact hs.mapping h domain qtype qclass hh
    · cases heq
      exact (write_writeInv hread hs hev hkeeps hw).push u domain hpush

theorem empty_questionInv : QuestionInv codec T .empty := by
  refine ⟨?_, ?_, ?_⟩
  · intro key entry hnone
    cases hnone
  · intro task hnone
    cases hnone
  · intro h domain qtype qclass hnone
    cases hnone

/-! ## What a hit answers -/

theorem setResponse_queries (ctx : Context) (msg : Message) (stop : Bool) :
    ∃ m, (ctx.setResponse msg stop).response = some m ∧ m.queries = msg.queries := by
  refine ⟨_, rfl, ?_⟩
  show (if 0 < ctx.minTtl then _ else msg).queries = msg.queries
  split <;> rfl

/-- The message of an answer has the question of the entry. -/
theorem answerFrom_queries (hcodec : codec.Lawful) {entry : CachedEntry}
    (hentry : Encodes codec entry) (ctx : Context) :
    ∃ m, answerMessage codec (answerFrom ctx entry) = some m ∧
      m.queries = entry.message.queries := by
  unfold answerFrom
  split
  · rename_i zc hzc
    obtain ⟨bytes, hraw, hfrom⟩ := Option.bind_eq_some_iff.mp hzc
    unfold ZeroCopyDnsMessage.fromBytes at hfrom
    split at hfrom
    · rename_i hlength
      cases hfrom
      exact hcodec.questions entry.message bytes ctx.request.id (hentry bytes hraw hlength)
    · cases hfrom
  · obtain ⟨m, hm, hqueries⟩ :=
      setResponse_queries ctx { entry.message with id := ctx.request.id } true
    exact ⟨m, hm, hqueries⟩

/-- **A hit answers the question asked.** -/
theorem hit_answers_question (hcodec : codec.Lawful)
    (hinj : ∀ t t', T t → T t' → hashDomain t = hashDomain t' → t = t')
    (hread : ∀ n, T (codec.display n) → codec.ReadsBack n) {es : List SystemEvent}
    (hes : Meets (systemStep codec c e)
      (fun s ev => Assumed codec T s ev ∧ KeepsQuestion codec c s ev) .empty es)
    {now : Nat} {ctx : Context} {q : Question} (hq : ctx.request.query = some q)
    (hT : T (codec.display q.name)) {entry : CachedEntry}
    (hserves : Serves codec c (run (systemStep codec c e) .empty es) now ctx entry) :
    ∃ m, answerMessage codec ((run (systemStep codec c e) .empty es).handle codec c now ctx) =
      some m ∧ Asks m q := by
  have hstep : ∀ s ev, QuestionInv codec T s →
      (Assumed codec T s ev ∧ KeepsQuestion codec c s ev) →
      QuestionInv codec T (systemStep codec c e s ev) :=
    fun s ev hs hev => step_questionInv hread hs hev.1 hev.2
  have hinv := invariant hstep empty_questionInv hes
  rw [handle_serves hserves]
  obtain ⟨key, hkey, hfound⟩ := Option.bind_eq_some_iff.mp hserves.1
  obtain ⟨text, qtype, qclass, htext, hkeyText, hbelongs⟩ := hinv.entries key entry hfound
  have hkeyAsked : key = buildKeyForDomain (codec.display q.name) q.qtype q.qclass := by
    unfold getKey Context.qname at hkey
    rw [hq] at hkey
    exact (Option.some.inj hkey).symm
  rw [hkeyAsked] at hkeyText
  obtain ⟨hhash, htype, hclass⟩ := QueryKey.mk.inj hkeyText
  have hname : codec.display q.name = text := hinj _ _ hT htext hhash
  obtain ⟨name, hback, hsame⟩ := hread q.name hT
  have hasks := hbelongs.asks name (hname ▸ hback)
  obtain ⟨m, hm, hqueries⟩ := answerFrom_queries hcodec hbelongs.encodes ctx
  obtain ⟨q', hq', hq'same⟩ := hasks
  refine ⟨m, hm, q', hqueries.trans hq', ?_⟩
  exact ⟨hq'same.1.trans hsame, hq'same.2.1.trans htype.symm, hq'same.2.2.trans hclass.symm⟩

/-- A chain `cache → forward` hands over a response about the request, if upstreams echo. -/
theorem forward_asks {f : ForwardPlugin} {env : ForwardEnv} {ctx ctx' : Context} {q : Question}
    (hq : ctx.request.queries = [q]) (hecho : ForwardEchoes env ctx.request)
    (h : f.handle codec env ctx = (ctx', .ok ())) {resp : Message}
    (hresp : ctx'.response = some resp) : Asks resp q := by
  have hset : ∀ {msg : Message}, msg.queries = [q] →
      (ctx.setResponse msg true).response = some resp → Asks resp q := by
    intro msg hmsg hset
    obtain ⟨m, hm, hqueries⟩ := setResponse_queries ctx msg true
    rw [hset] at hm
    cases hm
    exact ⟨q, hqueries.trans hmsg, Question.Same.refl q⟩
  have hown : ctx.request.query.toList = [q] := by
    unfold Message.query
    rw [hq]
    rfl
  unfold ForwardPlugin.handle at h
  split at h
  · cases h
    exact hset hown hresp
  split at h
  · cases h
  split at h
  · rename_i m hexec
    cases h
    have hm := ForwardPlugin.execute_meets hecho hexec
    refine hset ?_ hresp
    exact hm.trans hq
  · cases h
    exact hset hown hresp

end

/-! ## A refresh in trusted mode -/

/-- The record the resolver library finds. -/
def foundRecord : Record := .fromRdata exampleQuestion.name 300 (.a ⟨192, 0, 2, 1⟩)

/-- The encoding of a message with that record and no question. -/
def trustedBytes : List UInt8 :=
  [0, 0, 0x80, 0, 0, 0, 0, 1, 0, 0, 0, 0] ++ exampleQuestion.name.wire ++
    [0, 1, 0, 1, 0, 0, 1, 44, 0, 4, 192, 0, 2, 1]

/-- The library on the answer of an upstream and on the message of the trusted mode. -/
def questionCodec : Codec :=
  .ofTable
    [(addressAnswer, responseBytes exampleQuestion [192, 0, 2, 1]),
      (trustedMessage [foundRecord], trustedBytes)]
    [(exampleQuestion.name, "www.example.com.")]

theorem questionCodec_lawful : questionCodec.Lawful :=
  Codec.ofTable_lawful (by decide) (by decide +kernel)

theorem questionCodec_readsBack (n : Name) (h : questionCodec.display n = "www.example.com.") :
    questionCodec.ReadsBack n := by
  refine Codec.ofTable_readsBack (by decide) ?_
  intro hempty
  exact absurd (hempty.symm.trans h) (by decide)

/-- A cache whose refreshes go to the resolver library. -/
def trustedCache : CachePlugin :=
  { exampleCache with
    prefetchRecursive := some { mode := .trusted, hasTrusted := true, rootServers := [] } }

def trustedEnv : TaskEnv where
  clocks := ⟨296, 296000000000⟩
  forward := .uniform .failed
  resolver :=
    { id := fun _ => 0
      exchange := fun _ _ _ => none
      trusted := fun _ _ => some [foundRecord]
      shuffle := fun _ ips => ips }
  accepted := true

/-- A lookup of `www.example.com`. -/
def questionLookup : Context := .new { queries := [exampleQuestion] } (.v4 ⟨10, 0, 0, 2⟩)

/-- An answer is stored, and found again just before it expires. -/
def hitRun : List SystemEvent :=
  [.respond ⟨0, 0⟩ (answeredContext exampleQuestion addressAnswer) true, .lookup 295 questionLookup]

theorem hitRun_meets (c : CachePlugin) :
    Meets (systemStep questionCodec c .little)
      (fun s ev => Assumed questionCodec (· = "www.example.com.") s ev ∧
        KeepsQuestion questionCodec c s ev) .empty hitRun := by
  have htext : ∀ q, [exampleQuestion].head? = some q →
      questionCodec.display q.name = "www.example.com." := by
    rintro q ⟨⟩
    decide +kernel
  refine ⟨⟨htext, ?_⟩, ⟨htext, trivial⟩, trivial⟩
  rintro q resp ⟨⟩ ⟨⟩
  exact ⟨exampleQuestion, rfl, Question.Same.refl _⟩

theorem hit_answers_question_example :
    ∃ m, answerMessage questionCodec
      ((run (systemStep questionCodec exampleCache .little) .empty hitRun).handle questionCodec
        exampleCache 296 questionLookup) = some m ∧ Asks m exampleQuestion := by
  have hserves : Serves questionCodec exampleCache
      (run (systemStep questionCodec exampleCache .little) .empty hitRun) 296 questionLookup
      (.newWithBytes 0 addressAnswer 300 (responseBytes exampleQuestion [192, 0, 2, 1])) := by
    decide +kernel
  exact hit_answers_question questionCodec_lawful (fun t t' ht ht' _ => ht.trans ht'.symm)
    questionCodec_readsBack (hitRun_meets exampleCache) rfl (by decide +kernel) hserves

/-- The hit starts a refresh, which ends with the resolver library's records. -/
def refreshRun : List SystemEvent := hitRun ++ [.finish 0 trustedEnv]

/-- **A hit without a question**: after a refresh in trusted mode the response has no question
section, although every upstream echoes. -/
theorem refresh_forgets_question :
    Meets (systemStep questionCodec trustedCache .little)
      (Assumed questionCodec (· = "www.example.com.")) .empty refreshRun ∧
    Serves questionCodec trustedCache
      (run (systemStep questionCodec trustedCache .little) .empty refreshRun) 300 questionLookup
      (.newWithBytes 296 (trustedMessage [foundRecord]) 300 trustedBytes) ∧
    ¬ ∃ m, answerMessage questionCodec
      ((run (systemStep questionCodec trustedCache .little) .empty refreshRun).handle questionCodec
        trustedCache 300 questionLookup) = some m ∧ Asks m exampleQuestion := by
  refine ⟨?_, by decide +kernel, ?_⟩
  · have hhit := Meets.mono (fun s ev h => h.1) (hitRun_meets trustedCache)
    refine hhit.append ⟨⟨?_, ?_⟩, trivial⟩
    · intro n server query resp hresp
      cases hresp
    · intro request _
      refine ⟨?_, ?_⟩
      · intro u msg hmsg
        cases hmsg
      · intro u msg hmsg
        cases hmsg
  · rintro ⟨m, hm, q', hq', -⟩
    have hnone : (answerMessage questionCodec
        ((run (systemStep questionCodec trustedCache .little) .empty refreshRun).handle
          questionCodec trustedCache 300 questionLookup)).map (·.queries) = some [] := by
      decide +kernel
    rw [hm, Option.map_some, hq'] at hnone
    cases hnone

end TitanDns
