import TitanDns.Dns.Message

/-!
# `RecursiveBackend`

The resolver that refreshes cache entries.  What the servers and the resolver library answer
during one call is a `ResolverEnv`; exchanges are numbered in the order they are made.

* `lookupTrusted` — the resolver library's records in a message of our own.
* `tryServers`, `resolveNsIpsIterative`, `level`, `lookupIterative` — iterative resolution from the
  root: one level of servers, name servers without glue, the descent, the entry.
* `lookup` — the three modes.

Principal results: `lookupTrusted_queries` — **the message of the trusted mode has no question**;
`lookupIterative_queries` — **that of the iterative mode has the question asked, if no server
answers it with an alias only.**
-/

namespace TitanDns

inductive RecursiveMode where
  | trusted
  | iterative
  | hybrid
  deriving DecidableEq, Repr

structure RecursiveBackend where
  mode : RecursiveMode
  /-- `trusted_resolver.is_some()` -/
  hasTrusted : Bool
  rootServers : List IpAddr

/-- What the world answers to one call of `lookup`. -/
structure ResolverEnv where
  /-- The random ID of an exchange. -/
  id : Nat → UInt16
  /-- `send_udp_query`, with its fallback to TCP. -/
  exchange : Nat → IpAddr → Message → Option Message
  /-- `resolver.lookup` -/
  trusted : Name → UInt16 → Option (List Record)
  shuffle : Nat → List IpAddr → List IpAddr

namespace RecursiveBackend

/-! ## Domestic names -/

def hasInfix (p s : List Char) : Bool := s.tails.any p.isPrefixOf

/-- `is_domestic_domain`. -/
def isDomesticDomain (name : String) : Bool :=
  let lower := name.toLower.toList
  [".local", ".lan", ".home", ".internal", ".cn", ".com.cn", ".net.cn", ".org.cn", ".gov.cn",
    ".edu.cn", ".hk", ".tw", ".mo"].any (fun tld => tld.toList.isSuffixOf lower) ||
  ["baidu", "taobao", "tmall", "alipay", "aliyun", "tencent", "qq", "weixin", "wechat", "jd",
    "360", "sina", "sohu", "163", "126", "bilibili", "douyin", "kuaishou"].any fun keyword =>
      hasInfix keyword.toList lower

/-! ## Trusted mode -/

/-- The message made of the records found: it has no question section. -/
def trustedMessage (records : List Record) : Message where
  id := 0
  messageType := .response
  responseCode := .noError
  authoritative := false
  answers := records

def lookupTrusted (codec : Codec) (b : RecursiveBackend) (env : ResolverEnv) (nameStr : String)
    (qtype : UInt16) : Except String Message :=
  if b.hasTrusted then
    match codec.fromAscii nameStr with
    | none => .error "name"
    | some name =>
      match env.trusted name qtype with
      | some records => .ok (trustedMessage records)
      | none => .error "Trusted lookup error"
  else .error "Trusted resolver not initialized"

/-! ## Iterative mode -/

def buildQuery (id : UInt16) (name : Name) (qtype : UInt16) : Message where
  id := id
  messageType := .query
  opCode := 0
  recursionDesired := false
  queries := [⟨name, qtype, CLASS_IN⟩]

def extractIpsFromRecords (records : List Record) : List IpAddr := records.filterMap (·.data.ip)

def extractNsNames (records : List Record) : List Name :=
  records.filterMap fun r =>
    match r.data with
    | .ns host => some host
    | _ => none

def extractCnameTarget (records : List Record) : Option Name :=
  records.findSome? fun r =>
    match r.data with
    | .cname target => some target
    | _ => none

def hasAnswerType (records : List Record) (qtype : UInt16) : Bool :=
  records.any (·.recordType == qtype)

def isNodata (resp : Message) : Bool :=
  resp.responseCode = .noError && resp.answers.isEmpty &&
    resp.nameServers.any (·.recordType == TYPE_SOA)

/-- A response that ends the descent. -/
def isFinal (resp : Message) (qtype : UInt16) : Bool :=
  resp.responseCode = .nxDomain || isNodata resp || hasAnswerType resp.answers qtype

/-- State shared by all nested lookups: exchanges made, and the set of visited questions. -/
structure Progress where
  sent : Nat
  visited : List (String × UInt16)

/-- A lookup of a name and type with a CNAME budget. -/
abbrev Lookup := Name → UInt16 → Nat → Progress → Except String Message × Progress

/-- The addresses of the name servers among the additional records. -/
def glue (codec : Codec) (resp : Message) (nsNames : List Name) : List IpAddr :=
  nsNames.flatMap fun ns =>
    extractIpsFromRecords (resp.additionals.filter (codec.display ·.name == codec.display ns))

/-- The addresses of one name server by the library. -/
def trustedIps (b : RecursiveBackend) (env : ResolverEnv) (ns : Name) : List IpAddr :=
  if b.hasTrusted then
    extractIpsFromRecords (((env.trusted ns TYPE_A).getD []).filter (·.recordType == TYPE_A)) ++
      extractIpsFromRecords
        (((env.trusted ns TYPE_AAAA).getD []).filter (·.recordType == TYPE_AAAA))
  else []

def okIps : Except String Message → List IpAddr
  | .ok msg => extractIpsFromRecords msg.answers
  | .error _ => []

/-- `resolve_ns_ips_iterative`, with the addresses found so far. -/
def resolveNsIpsIterative (b : RecursiveBackend) (env : ResolverEnv) (lookup : Lookup)
    (cnameDepth : Nat) : List Name → List IpAddr → Progress → List IpAddr × Progress
  | [], ips, st => (ips, st)
  | ns :: rest, ips, st =>
    let v4 := lookup ns TYPE_A cnameDepth st
    let v6 := lookup ns TYPE_AAAA cnameDepth v4.2
    let ips := ips ++ okIps v4.1 ++ okIps v6.1
    let ips := if ips.isEmpty then trustedIps b env ns else ips
    resolveNsIpsIterative b env lookup cnameDepth rest ips v6.2

/-- How one level of servers ends. -/
inductive LevelEnd where
  | done (res : Except String Message)
  | referred (ips : List IpAddr)

/-- The servers of one level, one after the other; `lookup` is what a nested call does. -/
def tryServers (codec : Codec) (b : RecursiveBackend) (env : ResolverEnv) (lookup : Lookup)
    (name : Name) (qtype : UInt16) (cnameDepth : Nat) :
    List IpAddr → Option String → Progress → LevelEnd × Progress
  | [], lastError, st =>
    (.done (.error (lastError.getD "Iterative lookup failed: no responsive nameserver")), st)
  | server :: rest, lastError, st =>
    let answer := env.exchange st.sent server (buildQuery (env.id st.sent) name qtype)
    let st := { st with sent := st.sent + 1 }
    match answer with
    | none => tryServers codec b env lookup name qtype cnameDepth rest (some "exchange") st
    | some resp =>
      if isFinal resp qtype then (.done (.ok resp), st)
      else
        match extractCnameTarget resp.answers with
        | some cname =>
          let found := lookup cname qtype (cnameDepth - 1) st
          (.done found.1, found.2)
        | none =>
          let nsNames := extractNsNames resp.nameServers
          if nsNames.isEmpty then
            tryServers codec b env lookup name qtype cnameDepth rest lastError st
          else
            let ips := glue codec resp nsNames
            if ips.isEmpty then
              let resolved := resolveNsIpsIterative b env lookup cnameDepth nsNames [] st
              if resolved.1.isEmpty then
                tryServers codec b env lookup name qtype cnameDepth rest lastError resolved.2
              else (.referred (env.shuffle resolved.2.sent resolved.1), resolved.2)
            else (.referred (env.shuffle st.sent ips), st)

/-- The checks at the entry of `lookup_iterative_internal`; `descend` is its loop. -/
def enter (codec : Codec) (b : RecursiveBackend) (env : ResolverEnv) (depthLeft : Nat)
    (descend : Name → UInt16 → Nat → List IpAddr → Progress → Except String Message × Progress) :
    Lookup := fun name qtype cnameDepth st =>
  if depthLeft = 0 then (.error "Iterative depth exceeded", st)
  else if cnameDepth = 0 then (.error "CNAME chain too deep", st)
  else if st.visited.contains (codec.display name, qtype) then
    (.error "Iterative loop detected", st)
  else
    descend name qtype cnameDepth (env.shuffle st.sent b.rootServers)
      { st with visited := (codec.display name, qtype) :: st.visited }

/-- The loop of `lookup_iterative_internal`, by `depth_left`. -/
def level (codec : Codec) (b : RecursiveBackend) (env : ResolverEnv) :
    Nat → Name → UInt16 → Nat → List IpAddr → Progress → Except String Message × Progress
  | 0 => fun _ _ _ _ st => (.error "Iterative depth exceeded", st)
  | depthLeft + 1 => fun name qtype cnameDepth nsIps st =>
    let lookup := enter codec b env depthLeft (level codec b env depthLeft)
    match tryServers codec b env lookup name qtype cnameDepth (nsIps.take 6) none st with
    | (.done res, st) => (res, st)
    | (.referred ips, st) => level codec b env depthLeft name qtype cnameDepth ips st

def MAX_DEPTH : Nat := 15

def MAX_CNAME_DEPTH : Nat := 8

def lookupIterative (codec : Codec) (b : RecursiveBackend) (env : ResolverEnv) (nameStr : String)
    (qtype : UInt16) : Except String Message :=
  match codec.fromAscii nameStr with
  | none => .error "name"
  | some name =>
    (enter codec b env MAX_DEPTH (level codec b env MAX_DEPTH) name qtype MAX_CNAME_DEPTH
      ⟨0, []⟩).1

/-! ## The modes -/

def lookup (codec : Codec) (b : RecursiveBackend) (env : ResolverEnv) (nameStr : String)
    (qtype : UInt16) : Except String Message :=
  match b.mode with
  | .trusted => lookupTrusted codec b env nameStr qtype
  | .iterative => lookupIterative codec b env nameStr qtype
  | .hybrid =>
    if isDomesticDomain nameStr then lookupTrusted codec b env nameStr qtype
    else
      match lookupIterative codec b env nameStr qtype with
      | .ok msg => .ok msg
      | .error _ => lookupTrusted codec b env nameStr qtype

/-- Whether the message of `lookup`, if any, is that of the iterative mode. -/
def UsesIterative (codec : Codec) (b : RecursiveBackend) (env : ResolverEnv) (nameStr : String)
    (qtype : UInt16) : Prop :=
  match b.mode with
  | .trusted => False
  | .iterative => True
  | .hybrid => isDomesticDomain nameStr = false ∧
      ∃ msg, lookupIterative codec b env nameStr qtype = .ok msg

/-! ## The question of the message -/

/-- Every server echoes the question. -/
def Echoes (env : ResolverEnv) : Prop :=
  ∀ n server query resp, env.exchange n server query = some resp → resp.queries = query.queries

/-- No server answers the question with an alias only. -/
def NoAlias (env : ResolverEnv) (name : Name) (qtype : UInt16) : Prop :=
  ∀ n server id resp, env.exchange n server (buildQuery id name qtype) = some resp →
    isFinal resp qtype = true ∨ extractCnameTarget resp.answers = none

section
variable {codec : Codec} {b : RecursiveBackend} {env : ResolverEnv} {name : Name} {qtype : UInt16}

theorem lookupTrusted_queries {nameStr : String} {msg : Message}
    (h : lookupTrusted codec b env nameStr qtype = .ok msg) : msg.queries = [] := by
  unfold lookupTrusted at h
  split at h
  · split at h
    · cases h
    · split at h
      · cases h
        rfl
      · cases h
  · cases h

/-- One level: a message it ends with was the answer to our own question. -/
theorem tryServers_queries (hecho : Echoes env) (halias : NoAlias env name qtype)
    {lookup : Lookup} {cnameDepth : Nat} {servers : List IpAddr} {lastError : Option String}
    {st st' : Progress} {msg : Message}
    (h : tryServers codec b env lookup name qtype cnameDepth servers lastError st =
      (.done (.ok msg), st')) : msg.queries = [⟨name, qtype, CLASS_IN⟩] := by
  induction servers generalizing lastError st with
  | nil =>
    unfold tryServers at h
    cases h
  | cons server rest ih =>
    unfold tryServers at h
    simp only at h
    split at h
    · exact ih h
    · rename_i resp hresp
      split at h
      · cases h
        exact hecho _ _ _ _ hresp
      · rename_i hfinal
        split at h
        · -- an alias, which no server gives
          rename_i cname hcname
          rcases halias _ _ _ _ hresp with h' | h'
          · exact absurd h' hfinal
          · rw [hcname] at h'
            cases h'
        · split at h
          · exact ih h
          · split at h
            · split at h
              · exact ih h
              · cases h
            · cases h

theorem level_queries (hecho : Echoes env) (halias : NoAlias env name qtype) {depthLeft : Nat}
    {cnameDepth : Nat} {nsIps : List IpAddr} {st st' : Progress} {msg : Message}
    (h : level codec b env depthLeft name qtype cnameDepth nsIps st = (.ok msg, st')) :
    msg.queries = [⟨name, qtype, CLASS_IN⟩] := by
  induction depthLeft generalizing nsIps st with
  | zero => cases h
  | succ depthLeft ih =>
    unfold level at h
    simp only at h
    split at h
    · rename_i res st₁ hservers
      cases h
      exact tryServers_queries hecho halias hservers
    · exact ih h

/-- **Iterative resolution keeps the question**, if no alias is met. -/
theorem lookupIterative_queries (hecho : Echoes env) {nameStr : String}
    (hname : codec.fromAscii nameStr = some name) (halias : NoAlias env name qtype)
    {msg : Message} (h : lookupIterative codec b env nameStr qtype = .ok msg) :
    msg.queries = [⟨name, qtype, CLASS_IN⟩] := by
  unfold lookupIterative enter at h
  rw [hname] at h
  simp only at h
  split at h
  · cases h
  · split at h
    · cases h
    · split at h
      · cases h
      · exact level_queries hecho halias (Prod.ext h rfl)

theorem lookup_queries (hecho : Echoes env) {nameStr : String}
    (hname : codec.fromAscii nameStr = some name) (halias : NoAlias env name qtype)
    (huses : UsesIterative codec b env nameStr qtype) {msg : Message}
    (h : lookup codec b env nameStr qtype = .ok msg) :
    msg.queries = [⟨name, qtype, CLASS_IN⟩] := by
  unfold lookup at h
  unfold UsesIterative at huses
  split at h
  · rename_i hmode
    rw [hmode] at huses
    exact huses.elim
  · exact lookupIterative_queries hecho hname halias h
  · rename_i hmode
    rw [hmode] at huses
    obtain ⟨hforeign, m, hm⟩ := huses
    rw [if_neg (by rw [hforeign]; decide), hm] at h
    cases h
    exact lookupIterative_queries hecho hname halias hm

end

end RecursiveBackend

end TitanDns
