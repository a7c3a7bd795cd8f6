import TitanDns.Plugins.ZoneSearch
import TitanDns.Plugins.LookupBudget

/-!
# Iterative resolution in a world of zones

What `lookup_iterative` finds when the servers answer from a finite world of zones: the search in
the world that remembers every question, with neither budget in the way.

* `Lists`, `Conveys` — a response that lists records, and one that conveys what a server tells.
* `Speaks` — servers whose responses convey what they tell.
* `Matches`, `EndsAlike` — a result of the code and one of the search, a level and a round.

Principal results: `lookupIterative_complete_iff` — **the records of the world are found exactly
where the search that remembers arrives**; `lookupIterative_complete` — **so they are where no
question comes twice.**
-/

namespace TitanDns

namespace RecursiveBackend

/-! ## Responses -/

/-- The response has these records of the type, and no other addresses. -/
structure Gives (resp : Message) (qtype : UInt16) (rs : List Record) : Prop where
  records : ∀ r, r ∈ resp.answers ∧ r.recordType = qtype ↔ r ∈ rs
  others : ∀ r ∈ resp.answers, r.recordType ≠ qtype → r.data.ip = none

/-- The same, one by one. -/
structure Lists (resp : Message) (qtype : UInt16) (rs : List Record) : Prop where
  records : resp.answers.filter (·.recordType == qtype) = rs
  others : ∀ r ∈ resp.answers, r.recordType ≠ qtype → r.data.ip = none

/-- The response conveys what the server tells.  A server may answer for the target of an alias
too. -/
inductive Conveys (codec : Codec) (qtype : UInt16) (resp : Message) : ZoneVerdict → Prop
  | records {rs : List Record} (hsome : rs ≠ []) (h : Lists resp qtype rs) :
      Conveys codec qtype resp (.records rs)
  | nothing (hends : resp.responseCode = .nxDomain ∨ isNodata resp = true)
      (h : Lists resp qtype []) : Conveys codec qtype resp .nothing
  | aliased {target : Name} (hcode : resp.responseCode ≠ .nxDomain) (h : Lists resp qtype [])
      (hcname : extractCnameTarget resp.answers = some target) :
      Conveys codec qtype resp (.aliased target)
  | referral {del : Delegation} (hcode : resp.responseCode ≠ .nxDomain)
      (hnodata : isNodata resp = false) (hanswers : resp.answers = [])
      (hnames : extractNsNames resp.nameServers = del.nsNames)
      (hglue : glue codec resp del.nsNames = del.glue) : Conveys codec qtype resp (.referral del)

/-- The servers of the world, as the code meets them. -/
structure Speaks (codec : Codec) (b : RecursiveBackend) (env : ResolverEnv) (w : ZoneWorld)
    (sv : ZoneServers) (hosts : IpAddr → Nat → Prop) : Prop where
  roots : b.rootServers = sv.roots
  order : env.shuffle = sv.order
  responds : ∀ ip z n qtype, hosts ip z → w.Follows n qtype 0 z → ∀ i, ∃ resp,
    env.exchange i ip (buildQuery (env.id i) n qtype) = some resp ∧
      Conveys codec qtype resp (sv.tells i ip n qtype)

/-- A result of the code, and one of the search. -/
inductive Matches (qtype : UInt16) : Except String Message → Option (List Record) → Prop
  | ok {msg : Message} {rs : List Record} (h : Lists msg qtype rs) :
      Matches qtype (.ok msg) (some rs)
  | error (e : String) : Matches qtype (.error e) none

/-- The same after the same exchanges and questions. -/
def SameRun (qtype : UInt16) (r : Except String Message × Progress)
    (s : Option (List Record) × Progress) : Prop :=
  Matches qtype r.1 s.1 ∧ r.2 = s.2

/-- How a level ends, and a round. -/
inductive EndsAlike (qtype : UInt16) : LevelEnd → RoundEnd → Prop
  | done {res : Except String Message} {found : Option (List Record)}
      (h : Matches qtype res found) : EndsAlike qtype (.done res) (.done found)
  | onward (ips : List IpAddr) : EndsAlike qtype (.referred ips) (.onward ips)

section
variable {codec : Codec} {b : RecursiveBackend} {env : ResolverEnv} {w : ZoneWorld}
  {sv : ZoneServers} {hosts : IpAddr → Nat → Prop}

theorem Lists.mem {resp : Message} {qtype : UInt16} {rs : List Record} (h : Lists resp qtype rs)
    (r : Record) : r ∈ resp.answers ∧ r.recordType = qtype ↔ r ∈ rs := by
  rw [← h.records, List.mem_filter, beq_iff_eq]

theorem Lists.ips {resp : Message} {qtype : UInt16} {rs : List Record} (h : Lists resp qtype rs) :
    extractIpsFromRecords resp.answers = rs.filterMap (·.data.ip) := by
  rw [← h.records, List.filterMap_filter]
  refine List.filterMap_congr fun r hr => ?_
  split
  · rfl
  · rename_i htype
    exact h.others r hr (by simpa using htype)

theorem isFinal_of_lists {resp : Message} {qtype : UInt16} {rs : List Record}
    (h : Lists resp qtype rs) (hsome : rs ≠ []) : isFinal resp qtype = true := by
  obtain ⟨r, hr⟩ := List.exists_mem_of_ne_nil rs hsome
  obtain ⟨hmem, htype⟩ := (h.mem r).mpr hr
  have htypes : hasAnswerType resp.answers qtype = true :=
    List.any_eq_true.mpr ⟨r, hmem, beq_iff_eq.mpr htype⟩
  unfold isFinal
  rw [htypes, Bool.or_true]

/-- An alias that the server does not follow does not end the level. -/
theorem isFinal_of_alias {resp : Message} {qtype : UInt16} {target : Name}
    (hcode : resp.responseCode ≠ .nxDomain) (h : Lists resp qtype [])
    (hcname : extractCnameTarget resp.answers = some target) : isFinal resp qtype = false := by
  have htype : hasAnswerType resp.answers qtype = false := by
    by_contra hany
    rw [Bool.not_eq_false] at hany
    obtain ⟨r, hmem, htype⟩ := List.any_eq_true.mp hany
    have hnone := (h.mem r).mp ⟨hmem, beq_iff_eq.mp htype⟩
    cases hnone
  have hne : resp.answers ≠ [] := by
    intro hnil
    rw [hnil] at hcname
    cases hcname
  simp [isFinal, isNodata, hcode, htype, hne]

/-- The reply of a response that conveys a referral. -/
theorem reply_of_conveyed {qtype : UInt16} {resp : Message} {del : Delegation}
    (h : Conveys codec qtype resp (.referral del)) (hnamed : del.nsNames ≠ []) :
    reply codec qtype (some resp) =
      if del.glue.isEmpty then .glueless del.nsNames else .glued del.glue := by
  cases h with
  | referral hcode hnodata hanswers hnames hglue =>
    have hnot : isFinal resp qtype = false := by
      simp [isFinal, hcode, hnodata, hanswers, hasAnswerType]
    rw [reply_of_referral codec hnot (by simp [hanswers, extractCnameTarget])
      (by rw [hnames]; exact hnamed), hnames, hglue]

/-! ## Lookups -/

theorem okIps_matches {qtype : UInt16} {res : Except String Message}
    {found : Option (List Record)} (h : Matches qtype res found) :
    okIps res = (found.getD []).filterMap (·.data.ip) := by
  cases h with
  | ok h => exact h.ips
  | error e => rfl

/-- One question after the other. -/
def gatherIps (lookup : Lookup) (cnameDepth : Nat) :
    List (Name × UInt16) → List IpAddr → Progress → List IpAddr × Progress
  | [], ips, st => (ips, st)
  | x :: xs, ips, st =>
    gatherIps lookup cnameDepth xs (ips ++ okIps (lookup x.1 x.2 cnameDepth st).1)
      (lookup x.1 x.2 cnameDepth st).2

/-- **Without the library, the name servers are two questions each.** -/
theorem resolveNsIpsIterative_eq (htrusted : b.hasTrusted = false) (lookup : Lookup)
    (cnameDepth : Nat) (nsNames : List Name) (ips : List IpAddr) (st : Progress) :
    resolveNsIpsIterative b env lookup cnameDepth nsNames ips st =
      gatherIps lookup cnameDepth (ZoneWorld.addressQuestions nsNames) ips st := by
  induction nsNames generalizing ips st with
  | nil => rfl
  | cons ns rest ih =>
    have hsame (ips : List IpAddr) :
        (if ips.isEmpty then trustedIps b env ns else ips) = ips := by
      split
      · rename_i hempty
        rw [List.isEmpty_iff.mp hempty]
        simp [trustedIps, htrusted]
      · rfl
    unfold resolveNsIpsIterative
    dsimp only
    rw [hsame, ih]
    rfl

theorem gatherIps_matches {c : Nat} {lookup : Lookup} {search : ZoneSearch}
    {xs : List (Name × UInt16)}
    (hlookup : ∀ x ∈ xs, ∀ st, SameRun x.2 (lookup x.1 x.2 c st) (search x st))
    (ips : List IpAddr) (st : Progress) :
    gatherIps lookup c xs ips st = ZoneServers.addresses search xs ips st := by
  induction xs generalizing ips st with
  | nil => rfl
  | cons x xs ih =>
    obtain ⟨hmatches, hst⟩ := hlookup x List.mem_cons_self st
    unfold gatherIps ZoneServers.addresses
    rw [okIps_matches hmatches, hst]
    exact ih (fun y hy => hlookup y (List.mem_cons_of_mem _ hy)) _ _

/-! ## A level -/

/-- The levels with at least the depth that the question needs. -/
def LevelsMatch (codec : Codec) (b : RecursiveBackend) (env : ResolverEnv) (w : ZoneWorld)
    (sv : ZoneServers) (hosts : IpAddr → Nat → Prop) (d : Nat) : Prop :=
  ∀ depthLeft ≥ d, ∀ depth ≥ d, ∀ c z n qtype ips st, c ≠ 0 → w.ends d c z n qtype = true →
    w.Follows n qtype 0 z → ips ≠ [] → (∀ ip ∈ ips, hosts ip z) →
      SameRun qtype (level codec b env depthLeft n qtype c ips st)
        (sv.descend codec true depth n qtype ips st)

theorem nestedLookup_matches (hserves : sv.Serves w hosts) (hspeaks : Speaks codec b env w sv hosts)
    {d depthLeft depth c : Nat} (hlevels : LevelsMatch codec b env w sv hosts d)
    (hleft : d ≤ depthLeft) (hdepth : d ≤ depth) (hc : c ≠ 0) {x : Name × UInt16}
    (hends : w.ends d c 0 x.1 x.2 = true) (st : Progress) :
    SameRun x.2 (nestedLookup codec b env depthLeft x.1 x.2 c st)
      (sv.search codec true depth x st) := by
  have hd : depthLeft ≠ 0 := by
    rintro rfl
    obtain rfl := Nat.le_zero.mp hleft
    cases hends
  unfold nestedLookup enter ZoneServers.search ZoneServers.enter
  rw [if_neg hd, if_neg hc, Bool.true_and, hspeaks.roots, hspeaks.order]
  unfold keyOf
  split
  · exact ⟨.error _, rfl⟩
  · exact hlevels depthLeft hleft depth hdepth c 0 x.1 x.2 _ _ hc hends (.refl 0)
      (hserves.order_ne_nil _ hserves.roots.1) (hserves.order_hosted _ hserves.roots.2)

/-- **One level**: the servers lead where they do in the world. -/
theorem tryServers_matches (hserves : sv.Serves w hosts) (hspeaks : Speaks codec b env w sv hosts)
    (htrusted : b.hasTrusted = false) {c d z : Nat} {n : Name} {qtype : UInt16}
    (hc : c ≠ 0) (hends : w.ends d c z n qtype = true) (hroot : w.Follows n qtype 0 z)
    {lookup : Lookup} {search : ZoneSearch}
    (hlookup : ∀ e < d, ∀ c x, c ≠ 0 → w.ends e c 0 x.1 x.2 = true →
      ∀ st, SameRun x.2 (lookup x.1 x.2 c st) (search x st))
    {servers : List IpAddr} (hhosts : ∀ ip ∈ servers, hosts ip z) (lastError : Option String)
    (st : Progress) :
    EndsAlike qtype (tryServers codec b env lookup n qtype c servers lastError st).1
        (sv.round search n qtype servers st).1 ∧
      (tryServers codec b env lookup n qtype c servers lastError st).2 =
        (sv.round search n qtype servers st).2 := by
  induction servers generalizing lastError st with
  | nil => exact ⟨.done (.error _), rfl⟩
  | cons server rest ih =>
    have hhost := hhosts server List.mem_cons_self
    obtain ⟨resp, hresp, hconveys⟩ := hspeaks.responds server z n qtype hhost hroot st.sent
    have hleads := (hserves.truthful server z n qtype hhost hroot st.sent).leads hends
    rw [tryServers_cons, hresp]
    unfold ZoneServers.round
    dsimp only
    cases htells : sv.tells st.sent server n qtype with
    | records rs =>
      rw [htells] at hconveys
      cases hconveys with
      | records hsome h =>
        rw [reply_of_final codec (isFinal_of_lists h hsome)]
        exact ⟨.done (.ok h), rfl⟩
    | nothing =>
      rw [htells] at hconveys
      cases hconveys with
      | nothing hend h =>
        have hfinal : isFinal resp qtype = true := by
          unfold isFinal
          rcases hend with hcode | hnodata
          · simp [hcode]
          · simp [hnodata]
        rw [reply_of_final codec hfinal]
        exact ⟨.done (.ok h), rfl⟩
    | aliased target =>
      rw [htells] at hconveys hleads
      cases hconveys with
      | aliased hcode h hcname =>
        cases hleads with
        | aliased hless hmore htarget _ =>
          obtain ⟨hmatches, hst⟩ := hlookup _ hless (c - 1) (target, qtype) (by omega) htarget
            { st with sent := st.sent + 1 }
          rw [reply_of_alias codec (isFinal_of_alias hcode h hcname) hcname]
          exact ⟨.done hmatches, hst⟩
    | referral del =>
      rw [htells] at hconveys hleads
      cases hleads with
      | referral hless _ _ hquestions hmem =>
        obtain ⟨zone, hzone, hdel⟩ := hmem
        rw [reply_of_conveyed hconveys (hserves.named zone hzone del hdel)]
        dsimp only
        by_cases hglue : del.glue.isEmpty
        · rw [if_pos hglue, if_pos hglue]
          have hgather := gatherIps_matches
            (fun x hx => hlookup _ hless c x hc (hquestions (List.isEmpty_iff.mp hglue) x hx)) []
            { st with sent := st.sent + 1 }
          dsimp only [afterReply]
          rw [resolveNsIpsIterative_eq htrusted, hgather, hspeaks.order]
          split
          · exact ih (fun ip hip => hhosts ip (List.mem_cons_of_mem _ hip)) lastError _
          · exact ⟨.onward _, rfl⟩
        · rw [if_neg hglue, if_neg hglue, afterReply, hspeaks.order]
          exact ⟨.onward _, rfl⟩

/-- **The levels lead where the search that remembers does.** -/
theorem level_matches (hserves : sv.Serves w hosts) (hspeaks : Speaks codec b env w sv hosts)
    (htrusted : b.hasTrusted = false) (d : Nat) : LevelsMatch codec b env w sv hosts d := by
  induction d using Nat.strongRecOn with
  | ind d ih =>
    intro depthLeft hleft depth hdepth c z n qtype ips st hc hends hroot hsome hhosts
    obtain ⟨d, rfl⟩ : ∃ k, d = k + 1 := by
      cases d with
      | zero => cases hends
      | succ k => exact ⟨k, rfl⟩
    obtain ⟨depthLeft, rfl⟩ : ∃ k, depthLeft = k + 1 := ⟨depthLeft - 1, by omega⟩
    obtain ⟨depth, rfl⟩ : ∃ k, depth = k + 1 := ⟨depth - 1, by omega⟩
    have hservers : ips.take 6 ≠ [] := by
      simpa using hsome
    have hfirst (ip : IpAddr) (hip : ip ∈ ips.take 6) : hosts ip z :=
      hhosts ip (List.mem_of_mem_take hip)
    have hsearch : ∀ e < d + 1, ∀ c x, w.ends e c 0 x.1 x.2 = true → ∀ st,
        ZoneServers.Finds w true 0 x.1 x.2 (sv.search codec true depth x st).1 :=
      fun e he c x hx st => ZoneServers.enter_finds hserves (ZoneServers.descend_finds hserves e)
        (by omega) hx st
    obtain ⟨-, honward⟩ := ZoneServers.round_finds hserves hends hroot hsearch hservers hfirst st
    obtain ⟨halike, hst⟩ := tryServers_matches hserves hspeaks htrusted hc hends hroot
      (fun e he c x hc hx st => nestedLookup_matches hserves hspeaks (ih e he)
        (show e ≤ depthLeft by omega) (show e ≤ depth by omega) hc hx st) hfirst none st
    rcases level_succ_cases codec b env depthLeft n qtype c ips st with
      ⟨res, st₁, htry, hlevel⟩ | ⟨ips', st₁, htry, hlevel⟩
    · rw [htry] at halike hst
      generalize hended : (sv.round (sv.search codec true depth) n qtype (ips.take 6) st).1 = ended
        at halike
      cases halike with
      | done h =>
        rw [hlevel, ZoneServers.descend_done hended]
        exact ⟨h, hst⟩
    · rw [htry] at halike hst
      generalize hended : (sv.round (sv.search codec true depth) n qtype (ips.take 6) st).1 = ended
        at halike
      cases halike with
      | onward =>
        obtain ⟨z', e, h⟩ := honward ips' hended
        have hless := h.less
        rw [hlevel, ZoneServers.descend_onward hended, ← hst]
        exact ih e hless depthLeft (by omega) depth (by omega) c z' n qtype ips' st₁ hc h.ends
          (hroot.trans h.follows) h.some h.hosted

/-- The lookup of a question that was given as text. -/
theorem lookupIterative_matches (hserves : sv.Serves w hosts)
    (hspeaks : Speaks codec b env w sv hosts) (htrusted : b.hasTrusted = false) {nameStr : String}
    {name : Name} (hname : codec.fromAscii nameStr = some name) {qtype : UInt16} {d : Nat}
    (hdepth : d ≤ MAX_DEPTH) (hends : w.ends d MAX_CNAME_DEPTH 0 name qtype = true) :
    Matches qtype (lookupIterative codec b env nameStr qtype)
      (sv.search codec true d (name, qtype) ⟨0, []⟩).1 := by
  obtain ⟨hmatches, -⟩ := nestedLookup_matches (x := (name, qtype)) hserves hspeaks
    (level_matches hserves hspeaks htrusted d) hdepth (Nat.le_refl d) (by decide) hends ⟨0, []⟩
  unfold lookupIterative
  rw [hname]
  exact hmatches

/-- The records are given if the search finds them. -/
theorem Matches.gives_iff {z : Nat} {n : Name} {qtype : UInt16} {res : Except String Message}
    {found : Option (List Record)} (h : Matches qtype res found)
    (hfinds : ZoneServers.Finds w true z n qtype found) {rs : List Record}
    (hfound : w.Found z n qtype rs) :
    (∃ msg, res = .ok msg ∧ Gives msg qtype rs) ↔ found.isSome = true := by
  cases h with
  | ok h =>
    rename_i msg rs'
    have hright := hfinds.right rs' rfl rs hfound
    exact ⟨fun _ => rfl, fun _ => ⟨msg, rfl, fun r => (h.mem r).trans (hright r), h.others⟩⟩
  | error e => exact ⟨fun ⟨msg, h, _⟩ => (by cases h), fun h => by cases h⟩

/-- **Where no question comes twice, the records of the world are found.** -/
theorem lookupIterative_complete (hserves : sv.Serves w hosts)
    (hspeaks : Speaks codec b env w sv hosts) (htrusted : b.hasTrusted = false) {nameStr : String}
    {name : Name} (hname : codec.fromAscii nameStr = some name) {qtype : UInt16} {d : Nat}
    (hdepth : d ≤ MAX_DEPTH) (hends : w.ends d MAX_CNAME_DEPTH 0 name qtype = true)
    (hnodup : (sv.trail codec d (name, qtype)).Nodup) {rs : List Record}
    (hfound : w.Found 0 name qtype rs) :
    ∃ msg, lookupIterative codec b env nameStr qtype = .ok msg ∧ Gives msg qtype rs :=
  ((lookupIterative_matches hserves hspeaks htrusted hname hdepth hends).gives_iff
    (ZoneServers.search_finds (x := (name, qtype)) hserves hends ⟨0, []⟩) hfound).mpr
      (ZoneServers.arrives_of_nodup (x := (name, qtype)) hserves hends hnodup)

/-- **The records of the world are found exactly where the search that remembers arrives.**  In the
iterative mode there is no library. -/
theorem lookupIterative_complete_iff (hserves : sv.Serves w hosts)
    (hspeaks : Speaks codec b env w sv hosts) (htrusted : b.hasTrusted = false) {nameStr : String}
    {name : Name} (hname : codec.fromAscii nameStr = some name) {qtype : UInt16} {d : Nat}
    (hdepth : d ≤ MAX_DEPTH) (hends : w.ends d MAX_CNAME_DEPTH 0 name qtype = true)
    {rs : List Record} (hfound : w.Found 0 name qtype rs) :
    (∃ msg, lookupIterative codec b env nameStr qtype = .ok msg ∧ Gives msg qtype rs) ↔
      sv.arrives codec true d (name, qtype) = true :=
  (lookupIterative_matches hserves hspeaks htrusted hname hdepth hends).gives_iff
    (ZoneServers.search_finds (x := (name, qtype)) hserves hends ⟨0, []⟩) hfound

end

/-! ## Servers that tell what a zone says -/

def addressRecord (owner : Name) : IpAddr → Record
  | .v4 ip => .fromRdata owner 60 (.a ip)
  | .v6 ip => .fromRdata owner 60 (.aaaa ip)

/-- The response of a server that answers from this zone. -/
def respond (w : ZoneWorld) (z : Nat) (q : Question) : Message :=
  match w.verdict z q.name q.qtype with
  | .records rs => { messageType := .response, queries := [q], answers := rs }
  | .aliased target =>
    { messageType := .response, queries := [q], answers := [.fromRdata q.name 60 (.cname target)] }
  | .nothing => { messageType := .response, queries := [q], responseCode := .nxDomain }
  | .referral del =>
    { messageType := .response
      queries := [q]
      nameServers := del.nsNames.map fun ns => .fromRdata del.owner 60 (.ns ns)
      additionals := del.nsNames.flatMap fun ns => del.glue.map (addressRecord ns) }

/-- Every server answers from the zone that it has for the name. -/
def zoneEnv (w : ZoneWorld) (zoneFor : IpAddr → Name → Nat) : ResolverEnv where
  id _ := 0
  exchange _ server query := query.query.map fun q => respond w (zoneFor server q.name) q
  trusted _ _ := none
  shuffle _ ips := ips

def zoneServers (b : RecursiveBackend) (w : ZoneWorld) (zoneFor : IpAddr → Name → Nat) :
    ZoneServers where
  roots := b.rootServers
  tells _ ip n qtype := w.verdict (zoneFor ip n) n qtype
  order _ ips := ips

/-- A delegation to one name server, whose addresses are those of servers of the zone. -/
def placed (w : ZoneWorld) (zoneOf : IpAddr → Nat) (del : Delegation) : Bool :=
  let found (x : Name × UInt16) := w.find MAX_DEPTH 0 x.1 x.2
  (del.nsNames.length == 1) && del.glue.all (zoneOf · == del.child) &&
    ((ZoneWorld.addressQuestions del.nsNames).all fun x =>
      ((found x).map fun rs => rs.all fun r => r.data.ip.all (zoneOf · == del.child)) ==
        some true) &&
    (!del.glue.isEmpty || (ZoneWorld.addressQuestions del.nsNames).any fun x =>
      ((found x).getD []).any fun r => r.data.ip.isSome)

section
variable {w : ZoneWorld} {zoneOf : IpAddr → Nat} {zoneFor : IpAddr → Name → Nat}

theorem extractIps_addressRecord (owner : Name) (ips : List IpAddr) :
    extractIpsFromRecords (ips.map (addressRecord owner)) = ips := by
  induction ips with
  | nil => rfl
  | cons ip ips ih =>
    cases ip <;> simpa [extractIpsFromRecords, addressRecord, Record.fromRdata, RData.ip] using ih

theorem extractNsNames_map (owner : Name) (nsNames : List Name) :
    extractNsNames (nsNames.map fun ns => .fromRdata owner 60 (.ns ns)) = nsNames := by
  induction nsNames with
  | nil => rfl
  | cons ns rest ih => simp [extractNsNames, Record.fromRdata]

theorem addressRecord_name (owner : Name) (ip : IpAddr) :
    (addressRecord owner ip).name = owner := by
  cases ip <;> rfl

theorem respond_conveys (codec : Codec) {z : Nat} {q : Question}
    (hone : ∀ del, w.verdict z q.name q.qtype = .referral del → ∃ ns, del.nsNames = [ns]) :
    Conveys codec q.qtype (respond w z q) (w.verdict z q.name q.qtype) := by
  unfold respond
  cases h : w.verdict z q.name q.qtype with
  | records rs =>
    obtain ⟨hsome, htype⟩ := ZoneWorld.records_of_verdict h
    exact .records hsome ⟨List.filter_eq_self.mpr fun r hr => beq_iff_eq.mpr (htype r hr),
      fun r hr hne => absurd (htype r hr) hne⟩
  | nothing => exact .nothing (.inl rfl) ⟨rfl, fun r hr => (by cases hr)⟩
  | aliased target =>
    have htype : TYPE_CNAME ≠ q.qtype := (ZoneWorld.type_of_aliased h).symm
    refine .aliased (fun hcode => (by cases hcode)) ⟨?_, fun r hr _ => ?_⟩ rfl
    · exact List.filter_eq_nil_iff.mpr fun r hr => by
        obtain rfl := List.mem_singleton.mp hr
        simpa [Record.fromRdata, Record.recordType, RData.recordType] using htype
    · obtain rfl := List.mem_singleton.mp hr
      rfl
  | referral del =>
    obtain ⟨ns, hns⟩ := hone del h
    refine .referral (fun hcode => (by cases hcode)) ?_ rfl (extractNsNames_map _ _) ?_
    · simp [isNodata, hns, Record.fromRdata, Record.recordType, RData.recordType, TYPE_SOA]
    · have hnames : ∀ r ∈ del.glue.map (addressRecord ns),
          (codec.display r.name == codec.display ns) = true := by
        intro r hr
        obtain ⟨ip, -, rfl⟩ := List.mem_map.mp hr
        rw [addressRecord_name, beq_self_eq_true]
      simp only [hns, glue, List.flatMap_cons, List.flatMap_nil, List.append_nil]
      rw [List.filter_eq_self.mpr hnames, extractIps_addressRecord]

/-- A server answers from its zone or from one further down. -/
theorem zoneServers_serves {b : RecursiveBackend}
    (hroots : b.rootServers ≠ [] ∧ ∀ ip ∈ b.rootServers, zoneOf ip = 0)
    (hplaced : (w.zones.all fun z => z.delegations.all (placed w zoneOf)) = true)
    (hbelow : ∀ ip n qtype, w.Follows n qtype (zoneOf ip) (zoneFor ip n)) :
    (zoneServers b w zoneFor).Serves w fun ip z => zoneOf ip = z := by
  have hone (z : Zone) (hz : z ∈ w.zones) (del : Delegation) (hdel : del ∈ z.delegations) :
      placed w zoneOf del = true :=
    List.all_eq_true.mp (List.all_eq_true.mp hplaced z hz) del hdel
  simp only [placed, Bool.and_eq_true, Bool.or_eq_true, List.all_eq_true, List.any_eq_true,
    beq_iff_eq] at hone
  refine ⟨hroots, fun z hz del hdel => ?_, fun z hz del hdel => (hone z hz del hdel).1.1.2,
    fun z hz del hdel x hx rs hfound r hr ip hip => ?_, fun z hz del hdel hglue => ?_,
    fun ip z n qtype hz _ _ => ?_, fun _ _ => .refl _⟩
  · have h := (hone z hz del hdel).1.1.1
    exact List.ne_nil_of_length_pos (by omega)
  · obtain ⟨rs', hfind, hall⟩ := Option.map_eq_some_iff.mp ((hone z hz del hdel).1.2 x hx)
    rw [hfound.unique (ZoneWorld.find_found hfind)] at hr
    have hplace := List.all_eq_true.mp hall r hr
    rw [hip] at hplace
    simpa using hplace
  · rcases (hone z hz del hdel).2 with hne | ⟨x, hx, r, hr, hip⟩
    · simp [hglue] at hne
    · cases hfind : w.find MAX_DEPTH 0 x.1 x.2 with
      | none =>
        rw [hfind] at hr
        cases hr
      | some rs =>
        rw [hfind] at hr
        exact ⟨x, hx, rs, ZoneWorld.find_found hfind, r, hr, hip⟩
  · subst hz
    have hfollows := hbelow ip n qtype
    dsimp only [zoneServers]
    cases hverdict : w.verdict (zoneFor ip n) n qtype with
    | records rs =>
      refine .records fun rs' hfound r => ?_
      rw [(hfollows.found hfound).unique (.records hverdict)]
    | nothing =>
      refine .nothing fun rs' hfound r => ?_
      rw [(hfollows.found hfound).unique (.nothing hverdict)]
    | aliased target => exact .aliased hfollows hverdict
    | referral del => exact .referral hfollows hverdict

theorem zoneEnv_speaks {codec : Codec} {b : RecursiveBackend}
    (hplaced : (w.zones.all fun z => z.delegations.all (placed w zoneOf)) = true) :
    Speaks codec b (zoneEnv w zoneFor) w (zoneServers b w zoneFor) fun ip z => zoneOf ip = z := by
  refine ⟨rfl, rfl, fun ip z n qtype _ _ i => ⟨_, rfl, respond_conveys codec (w := w)
    (z := zoneFor ip n) (q := ⟨n, qtype, CLASS_IN⟩) fun del hverdict => ?_⟩⟩
  obtain ⟨zone, hzone, hdel⟩ := ZoneWorld.mem_of_verdict hverdict
  have h := List.all_eq_true.mp (List.all_eq_true.mp hplaced zone hzone) del hdel
  simp only [placed, Bool.and_eq_true, beq_iff_eq] at h
  exact List.length_eq_one_iff.mp h.1.1.1

end

def serverOf (z : UInt8) : IpAddr := .v4 ⟨192, 0, 2, z⟩

def zoneOf : IpAddr → Nat
  | .v4 ip => ip.d.toNat
  | .v6 _ => 0

def orgName : Name := ⟨[[111, 114, 103]], by decide, by decide⟩
def netName : Name := ⟨[[110, 101, 116]], by decide, by decide⟩
def comName : Name := ⟨[[99, 111, 109]], by decide, by decide⟩
def hostOrg : Name := ⟨[[119], [111, 114, 103]], by decide, by decide⟩
def hostNet : Name := ⟨[[119], [110, 101, 116]], by decide, by decide⟩
def hostCom : Name := ⟨[[119], [99, 111, 109]], by decide, by decide⟩
def serverNet : Name := ⟨[[115], [110, 101, 116]], by decide, by decide⟩
def serverCom : Name := ⟨[[115], [99, 111, 109]], by decide, by decide⟩
def otherCom : Name := ⟨[[116], [99, 111, 109]], by decide, by decide⟩

def worldCodec : Codec :=
  .ofTable [] [(hostOrg, "w.org."), (hostNet, "w.net."), (hostCom, "w.com."), (serverNet, "s.net."),
    (serverCom, "s.com."), (otherCom, "t.com.")]

/-- `org` has a name server in `net`, and `net` has one in `com`; `w.org` and `w.com` are aliases of
`w.net`. -/
def chainWorld : ZoneWorld where
  zones := [
    ⟨[⟨orgName, 1, [serverNet], []⟩, ⟨netName, 2, [serverCom], []⟩,
      ⟨comName, 3, [otherCom], [serverOf 3]⟩], []⟩,
    ⟨[], [.fromRdata hostOrg 60 (.cname hostNet)]⟩,
    ⟨[], [addressRecord serverNet (serverOf 1), addressRecord hostNet (serverOf 9)]⟩,
    ⟨[], [addressRecord serverCom (serverOf 2), addressRecord otherCom (serverOf 3),
      .fromRdata hostCom 60 (.cname hostNet)]⟩]

def chainBackend : RecursiveBackend := ⟨.iterative, false, [serverOf 0]⟩

/-- The root server has `org` as well. -/
def sharedZone (ip : IpAddr) (n : Name) : Nat :=
  if zoneOf ip = 0 ∧ n.Beneath orgName then 1 else zoneOf ip

theorem chainWorld_serves {zoneFor : IpAddr → Name → Nat}
    (hbelow : ∀ ip n qtype, chainWorld.Follows n qtype (zoneOf ip) (zoneFor ip n)) :
    (zoneServers chainBackend chainWorld zoneFor).Serves chainWorld (fun ip z => zoneOf ip = z) ∧
      Speaks worldCodec chainBackend (zoneEnv chainWorld zoneFor) chainWorld
        (zoneServers chainBackend chainWorld zoneFor) fun ip z => zoneOf ip = z :=
  ⟨zoneServers_serves ⟨List.cons_ne_nil _ _, by decide⟩ (by decide) hbelow,
    zoneEnv_speaks (by decide)⟩

theorem sharedZone_below (ip : IpAddr) (n : Name) (qtype : UInt16) :
    chainWorld.Follows n qtype (zoneOf ip) (sharedZone ip n) := by
  unfold sharedZone
  split
  · rename_i h
    have hverdict : chainWorld.verdict 0 n qtype = .referral ⟨orgName, 1, [serverNet], []⟩ := by
      simp [ZoneWorld.verdict, ZoneWorld.zone, chainWorld, Zone.verdict, h.2]
    rw [h.1]
    exact .step hverdict (.refl 1)
  · exact .refl _

theorem chainWorld_found :
    chainWorld.Found 0 hostOrg TYPE_A [addressRecord hostNet (serverOf 9)] :=
  ZoneWorld.find_found (d := MAX_DEPTH) (by decide)

/-- The alias in `com` leads to the address, and so does the one in `org` if the root server has
`org`. -/
theorem lookupIterative_complete_alias :
    (∃ msg, lookupIterative worldCodec chainBackend (zoneEnv chainWorld fun ip _ => zoneOf ip)
        "w.com." TYPE_A = .ok msg ∧ Gives msg TYPE_A [addressRecord hostNet (serverOf 9)]) ∧
      ∃ msg, lookupIterative worldCodec chainBackend (zoneEnv chainWorld sharedZone) "w.org."
        TYPE_A = .ok msg ∧ Gives msg TYPE_A [addressRecord hostNet (serverOf 9)] := by
  obtain ⟨hserves, hspeaks⟩ := @chainWorld_serves (fun ip _ => zoneOf ip) fun ip _ _ => .refl _
  obtain ⟨hserves', hspeaks'⟩ := chainWorld_serves sharedZone_below
  have hcom : worldCodec.fromAscii "w.com." = some hostCom := by decide
  have horg : worldCodec.fromAscii "w.org." = some hostOrg := by decide
  exact ⟨(lookupIterative_complete_iff hserves hspeaks rfl hcom (Nat.le_refl _) (by decide)
      (ZoneWorld.find_found (d := MAX_DEPTH) (by decide))).mpr (by decide),
    (lookupIterative_complete_iff hserves' hspeaks' rfl horg (Nat.le_refl _) (by decide)
      chainWorld_found).mpr (by decide)⟩

/-- **With one zone a server, the alias in `org` does not**: the address of the name server in
`com` was asked for on the way to `org`, and is taken for a loop on the way to `net`. -/
theorem sibling_blocked :
    ((zoneServers chainBackend chainWorld fun ip _ => zoneOf ip).Serves chainWorld
        (fun ip z => zoneOf ip = z) ∧
      Speaks worldCodec chainBackend (zoneEnv chainWorld fun ip _ => zoneOf ip) chainWorld
        (zoneServers chainBackend chainWorld fun ip _ => zoneOf ip) (fun ip z => zoneOf ip = z)) ∧
      chainBackend.mode = .iterative ∧ worldCodec.fromAscii "w.org." = some hostOrg ∧
      chainWorld.ends MAX_DEPTH MAX_CNAME_DEPTH 0 hostOrg TYPE_A = true ∧
      chainWorld.Found 0 hostOrg TYPE_A [addressRecord hostNet (serverOf 9)] ∧
      lookupIterative worldCodec chainBackend (zoneEnv chainWorld fun ip _ => zoneOf ip) "w.org."
          TYPE_A = .error "Iterative lookup failed: no responsive nameserver" :=
  ⟨chainWorld_serves fun _ _ _ => .refl _, rfl, by decide, by decide, chainWorld_found, by rfl⟩

end RecursiveBackend

end TitanDns
