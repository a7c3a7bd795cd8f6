import TitanDns.Dns.Zones
import TitanDns.Plugins.RecursiveBackend

/-!
# The search in a world of zones

Iterative resolution without messages, budgets and errors: servers say what a zone says, and a
question leads from the root to its records.  All nested searches share one list of questions; a
search that remembers gives nothing for a question on it.

* `ZoneServers` — what the servers say, exchange by exchange, and the order in which they are asked.
* `round`, `enter`, `descend` — the servers of a zone, the entry of a question, the way down.
* `search` — **the search for a question**, one that remembers or one that does not.
* `Serves` — servers that tell the truth about the world, and what they owe to it.
* `Leads` — what a truthful server tells, with the depth that is left.

Principal results: `search_remembers` — **the two are the same where no question comes twice**;
`search_finds` — **what is found is right, and a search that does not remember finds it always**.
-/

namespace TitanDns

open RecursiveBackend

/-- A question as it is remembered. -/
def RecursiveBackend.keyOf (codec : Codec) (x : Name × UInt16) : String × UInt16 :=
  (codec.display x.1, x.2)

/-- The servers of a world: what they say of a name and type, and in which order they are asked. -/
structure ZoneServers where
  roots : List IpAddr
  tells : Nat → IpAddr → Name → UInt16 → ZoneVerdict
  order : Nat → List IpAddr → List IpAddr

/-- The records of a question, if the search arrives. -/
abbrev ZoneSearch := Name × UInt16 → Progress → Option (List Record) × Progress

/-- How a round of servers ends. -/
inductive RoundEnd where
  | done (found : Option (List Record))
  | onward (ips : List IpAddr)

namespace ZoneServers

/-- The addresses of name servers, by one question after the other. -/
def addresses (search : ZoneSearch) :
    List (Name × UInt16) → List IpAddr → Progress → List IpAddr × Progress
  | [], ips, st => (ips, st)
  | x :: xs, ips, st =>
    addresses search xs (ips ++ ((search x st).1.getD []).filterMap (·.data.ip)) (search x st).2

/-- The servers of a zone, one after the other until one leads on. -/
def round (sv : ZoneServers) (search : ZoneSearch) (n : Name) (qtype : UInt16) :
    List IpAddr → Progress → RoundEnd × Progress
  | [], st => (.done none, st)
  | ip :: rest, st =>
    let asked := { st with sent := st.sent + 1 }
    match sv.tells st.sent ip n qtype with
    | .records rs => (.done (some rs), asked)
    | .nothing => (.done (some []), asked)
    | .aliased target => (.done (search (target, qtype) asked).1, (search (target, qtype) asked).2)
    | .referral del =>
      if del.glue.isEmpty then
        let found := addresses search (ZoneWorld.addressQuestions del.nsNames) [] asked
        if found.1.isEmpty then round sv search n qtype rest found.2
        else (.onward (sv.order found.2.sent found.1), found.2)
      else (.onward (sv.order asked.sent del.glue), asked)

/-- A search that remembers gives nothing for a question that was asked before. -/
def enter (codec : Codec) (remembers : Bool) (sv : ZoneServers)
    (descend : Name → UInt16 → List IpAddr → Progress → Option (List Record) × Progress) :
    ZoneSearch := fun x st =>
  if remembers && st.visited.contains (keyOf codec x) then (none, st)
  else
    descend x.1 x.2 (sv.order st.sent sv.roots)
      { st with visited := keyOf codec x :: st.visited }

/-- From the servers of a zone down. -/
def descend (codec : Codec) (remembers : Bool) (sv : ZoneServers) :
    Nat → Name → UInt16 → List IpAddr → Progress → Option (List Record) × Progress
  | 0 => fun _ _ _ st => (none, st)
  | d + 1 => fun n qtype ips st =>
    let ended := sv.round (sv.enter codec remembers (descend codec remembers sv d)) n qtype
      (ips.take 6) st
    match ended.1 with
    | .done found => (found, ended.2)
    | .onward ips => descend codec remembers sv d n qtype ips ended.2

/-- **The search for a question**, in a world no deeper than `d`. -/
def search (codec : Codec) (remembers : Bool) (sv : ZoneServers) (d : Nat) : ZoneSearch :=
  sv.enter codec remembers (sv.descend codec remembers d)

section
variable {codec : Codec} {remembers : Bool} {sv : ZoneServers} {d : Nat} {n : Name} {qtype : UInt16}
  {ips : List IpAddr} {st : Progress}

theorem descend_done {found : Option (List Record)}
    (h : (sv.round (sv.search codec remembers d) n qtype (ips.take 6) st).1 = .done found) :
    sv.descend codec remembers (d + 1) n qtype ips st =
      (found, (sv.round (sv.search codec remembers d) n qtype (ips.take 6) st).2) := by
  unfold search at h ⊢
  rw [descend]
  simp only [h]

theorem descend_onward {ips' : List IpAddr}
    (h : (sv.round (sv.search codec remembers d) n qtype (ips.take 6) st).1 = .onward ips') :
    sv.descend codec remembers (d + 1) n qtype ips st =
      sv.descend codec remembers d n qtype ips'
        (sv.round (sv.search codec remembers d) n qtype (ips.take 6) st).2 := by
  unfold search at h ⊢
  rw [descend]
  simp only [h]

end

/-- The question is found, when none was asked before. -/
def arrives (codec : Codec) (remembers : Bool) (sv : ZoneServers) (d : Nat) (x : Name × UInt16) :
    Bool :=
  (sv.search codec remembers d x ⟨0, []⟩).1.isSome

/-- The questions that a search asks which does not remember them, the last one first. -/
def trail (codec : Codec) (sv : ZoneServers) (d : Nat) (x : Name × UInt16) :
    List (String × UInt16) :=
  (sv.search codec false d x ⟨0, []⟩).2.visited

/-! ## Where no question comes twice -/

section
variable {codec : Codec} {sv : ZoneServers}

/-- After the questions seen, the searches agree if the second one asks none twice. -/
structure Alike (seen : List (String × UInt16)) {α : Type} (r r' : α × Progress) : Prop where
  grows : seen <:+ r'.2.visited
  same : r'.2.visited.Nodup → r = r'

theorem Alike.refl (st : Progress) {α : Type} (a : α) : Alike st.visited (a, st) (a, st) :=
  ⟨List.suffix_refl _, fun _ => rfl⟩

/-- One part after the other. -/
theorem Alike.bind {seen : List (String × UInt16)} {α β : Type} {r r' : α × Progress}
    (h : Alike seen r r') (f f' : α → Progress → β × Progress)
    (hf : ∀ a st, Alike st.visited (f a st) (f' a st)) :
    Alike seen (f r.1 r.2) (f' r'.1 r'.2) := by
  refine ⟨h.grows.trans (hf r'.1 r'.2).grows, fun hnodup => ?_⟩
  have hfirst := h.same (hnodup.sublist (hf r'.1 r'.2).grows.sublist)
  rw [hfirst]
  exact (hf r'.1 r'.2).same hnodup

theorem addresses_alike {search search' : ZoneSearch}
    (hsearch : ∀ x st, Alike st.visited (search x st) (search' x st)) (xs : List (Name × UInt16))
    (ips : List IpAddr) (st : Progress) :
    Alike st.visited (addresses search xs ips st) (addresses search' xs ips st) := by
  induction xs generalizing ips st with
  | nil => exact .refl st ips
  | cons x xs ih =>
    exact (hsearch x st).bind
      (fun found => addresses search xs (ips ++ (found.getD []).filterMap (·.data.ip)))
      (fun found => addresses search' xs (ips ++ (found.getD []).filterMap (·.data.ip)))
      fun found st => ih _ st

theorem round_alike {search search' : ZoneSearch}
    (hsearch : ∀ x st, Alike st.visited (search x st) (search' x st)) (n : Name) (qtype : UInt16)
    (ips : List IpAddr) (st : Progress) :
    Alike st.visited (sv.round search n qtype ips st) (sv.round search' n qtype ips st) := by
  induction ips generalizing st with
  | nil => exact .refl st _
  | cons ip rest ih =>
    unfold round
    dsimp only
    cases sv.tells st.sent ip n qtype with
    | records rs => exact ⟨List.suffix_refl _, fun _ => rfl⟩
    | nothing => exact ⟨List.suffix_refl _, fun _ => rfl⟩
    | aliased target =>
      exact (hsearch (target, qtype) { st with sent := st.sent + 1 }).bind
        (fun found st => (RoundEnd.done found, st)) (fun found st => (.done found, st))
        fun found st => .refl st _
    | referral del =>
      dsimp only
      split
      · refine (addresses_alike hsearch (ZoneWorld.addressQuestions del.nsNames) []
          { st with sent := st.sent + 1 }).bind
            (fun ips st => if ips.isEmpty then sv.round search n qtype rest st
              else (.onward (sv.order st.sent ips), st))
            (fun ips st => if ips.isEmpty then sv.round search' n qtype rest st
              else (.onward (sv.order st.sent ips), st)) fun ips st => ?_
        split
        · exact ih st
        · exact .refl st _
      · exact ⟨List.suffix_refl _, fun _ => rfl⟩

theorem enter_alike
    {descend descend' : Name → UInt16 → List IpAddr → Progress → Option (List Record) × Progress}
    (hdescend : ∀ n qtype ips st,
      Alike st.visited (descend n qtype ips st) (descend' n qtype ips st))
    (x : Name × UInt16) (st : Progress) :
    Alike st.visited (sv.enter codec true descend x st) (sv.enter codec false descend' x st) := by
  have hrest := hdescend x.1 x.2 (sv.order st.sent sv.roots)
    { st with visited := keyOf codec x :: st.visited }
  unfold enter
  rw [Bool.false_and, if_neg Bool.false_ne_true]
  refine ⟨(List.suffix_cons _ _).trans hrest.grows, fun hnodup => ?_⟩
  have hfresh := hnodup.sublist hrest.grows.sublist
  rw [if_neg (by simpa using (List.nodup_cons.mp hfresh).1)]
  exact hrest.same hnodup

theorem descend_alike (d : Nat) (n : Name) (qtype : UInt16) (ips : List IpAddr) (st : Progress) :
    Alike st.visited (sv.descend codec true d n qtype ips st)
      (sv.descend codec false d n qtype ips st) := by
  induction d generalizing n qtype ips st with
  | zero => exact .refl st none
  | succ d ih =>
    refine (round_alike (enter_alike ih) n qtype (ips.take 6) st).bind
      (fun ended st => match ended with
        | .done found => (found, st)
        | .onward ips => sv.descend codec true d n qtype ips st)
      (fun ended st => match ended with
        | .done found => (found, st)
        | .onward ips => sv.descend codec false d n qtype ips st) fun ended st => ?_
    cases ended with
    | done found => exact .refl st found
    | onward ips => exact ih n qtype ips st

/-- **Where no question comes twice, it makes no difference to remember them.** -/
theorem search_remembers {d : Nat} {x : Name × UInt16} (h : (sv.trail codec d x).Nodup) :
    sv.search codec true d x ⟨0, []⟩ = sv.search codec false d x ⟨0, []⟩ :=
  (enter_alike (descend_alike d) x ⟨0, []⟩).same h

end

/-! ## What the search finds -/

/-- The records are those of the world. -/
def Right (w : ZoneWorld) (z : Nat) (n : Name) (qtype : UInt16) (rs : List Record) : Prop :=
  ∀ rs', w.Found z n qtype rs' → ∀ r, r ∈ rs ↔ r ∈ rs'

/-- What a server of the zone may tell: the records, after aliases too, or what the zone or one
further down says. -/
inductive Truthful (w : ZoneWorld) (z : Nat) (n : Name) (qtype : UInt16) : ZoneVerdict → Prop
  | records {rs : List Record} (h : Right w z n qtype rs) : Truthful w z n qtype (.records rs)
  | nothing (h : Right w z n qtype []) : Truthful w z n qtype .nothing
  | aliased {z' : Nat} {target : Name} (hfollows : w.Follows n qtype z z')
      (h : w.verdict z' n qtype = .aliased target) : Truthful w z n qtype (.aliased target)
  | referral {z' : Nat} {del : Delegation} (hfollows : w.Follows n qtype z z')
      (h : w.verdict z' n qtype = .referral del) : Truthful w z n qtype (.referral del)

/-- The servers of the world: `hosts` says which zones a server has.  Every delegation leads to
servers of its zone. -/
structure Serves (w : ZoneWorld) (sv : ZoneServers) (hosts : IpAddr → Nat → Prop) : Prop where
  roots : sv.roots ≠ [] ∧ ∀ ip ∈ sv.roots, hosts ip 0
  named : ∀ z ∈ w.zones, ∀ del ∈ z.delegations, del.nsNames ≠ []
  glue : ∀ z ∈ w.zones, ∀ del ∈ z.delegations, ∀ ip ∈ del.glue, hosts ip del.child
  addresses : ∀ z ∈ w.zones, ∀ del ∈ z.delegations, ∀ x ∈ ZoneWorld.addressQuestions del.nsNames,
    ∀ rs, w.Found 0 x.1 x.2 rs → ∀ r ∈ rs, ∀ ip, r.data.ip = some ip → hosts ip del.child
  addressed : ∀ z ∈ w.zones, ∀ del ∈ z.delegations, del.glue = [] →
    ∃ x ∈ ZoneWorld.addressQuestions del.nsNames, ∃ rs, w.Found 0 x.1 x.2 rs ∧
      ∃ r ∈ rs, r.data.ip.isSome
  truthful : ∀ ip z n qtype, hosts ip z → w.Follows n qtype 0 z →
    ∀ i, Truthful w z n qtype (sv.tells i ip n qtype)
  orders : ∀ i ips, (sv.order i ips).Perm ips

/-- What a truthful server tells, where the depth `d` and `c` aliases are enough. -/
inductive Leads (w : ZoneWorld) (d c z : Nat) (n : Name) (qtype : UInt16) : ZoneVerdict → Prop
  | records {rs : List Record} (h : Right w z n qtype rs) : Leads w d c z n qtype (.records rs)
  | nothing (h : Right w z n qtype []) : Leads w d c z n qtype .nothing
  | aliased {e : Nat} {target : Name} (hless : e < d) (hmore : 1 < c)
      (hends : w.ends e (c - 1) 0 target qtype = true)
      (hfound : ∀ rs, w.Found z n qtype rs → w.Found 0 target qtype rs) :
      Leads w d c z n qtype (.aliased target)
  | referral {e : Nat} {del : Delegation} (hless : e < d)
      (hends : w.ends e c del.child n qtype = true) (hfollows : w.Follows n qtype z del.child)
      (hquestions : del.glue = [] →
        ∀ x ∈ ZoneWorld.addressQuestions del.nsNames, w.ends e c 0 x.1 x.2 = true)
      (hmem : ∃ zone ∈ w.zones, del ∈ zone.delegations) : Leads w d c z n qtype (.referral del)

section
variable {codec : Codec} {remembers : Bool} {sv : ZoneServers} {w : ZoneWorld}
  {hosts : IpAddr → Nat → Prop}

/-- Further down less is needed. -/
theorem ends_below {n : Name} {qtype : UInt16} {z z' : Nat} (h : w.Follows n qtype z z')
    {d c : Nat} (hends : w.ends d c z n qtype = true) :
    ∃ e < d, w.ends (e + 1) c z' n qtype = true := by
  induction h generalizing d with
  | refl z =>
    cases d with
    | zero => cases hends
    | succ d => exact ⟨d, Nat.lt_succ_self d, hends⟩
  | step hdel hrest ih =>
    cases d with
    | zero => cases hends
    | succ d =>
      unfold ZoneWorld.ends at hends
      rw [hdel] at hends
      obtain ⟨e, hless, hends⟩ := ih (Bool.and_eq_true_iff.mp hends).2
      exact ⟨e, Nat.lt_succ_of_lt hless, hends⟩

theorem Truthful.leads {d c z : Nat} {n : Name} {qtype : UInt16} {v : ZoneVerdict}
    (h : Truthful w z n qtype v) (hends : w.ends d c z n qtype = true) :
    Leads w d c z n qtype v := by
  cases h with
  | records h => exact .records h
  | nothing h => exact .nothing h
  | aliased hfollows h =>
    obtain ⟨e, hless, hends⟩ := ends_below hfollows hends
    unfold ZoneWorld.ends at hends
    rw [h] at hends
    simp only [Bool.and_eq_true, decide_eq_true_eq] at hends
    refine .aliased hless hends.1 hends.2 fun rs hfound => ?_
    cases hfollows.found hfound with
    | aliased h' hrest =>
      rw [h] at h'
      cases h'
      exact hrest
    | records h' => simp [h] at h'
    | nothing h' => simp [h] at h'
    | referral h' => simp [h] at h'
  | referral hfollows h =>
    obtain ⟨e, hless, hends⟩ := ends_below hfollows hends
    unfold ZoneWorld.ends at hends
    rw [h] at hends
    obtain ⟨hquestions, hchild⟩ := Bool.and_eq_true_iff.mp hends
    refine .referral hless hchild (hfollows.extend h) (fun hglue => ?_) (ZoneWorld.mem_of_verdict h)
    rw [hglue, List.isEmpty_nil, Bool.not_true, Bool.false_or] at hquestions
    exact List.all_eq_true.mp hquestions

/-- What the search for a question gives. -/
structure Finds (w : ZoneWorld) (remembers : Bool) (z : Nat) (n : Name) (qtype : UInt16)
    (found : Option (List Record)) : Prop where
  right : ∀ rs, found = some rs → Right w z n qtype rs
  sure : remembers = false → found ≠ none

/-- How a round goes on, where the depth `d` is enough. -/
structure Onward (w : ZoneWorld) (hosts : IpAddr → Nat → Prop) (d c z : Nat) (n : Name)
    (qtype : UInt16) (z' e : Nat) (ips : List IpAddr) : Prop where
  less : e < d
  ends : w.ends e c z' n qtype = true
  follows : w.Follows n qtype z z'
  some : ips ≠ []
  hosted : ∀ ip ∈ ips, hosts ip z'

theorem Serves.order_ne_nil (h : Serves w sv hosts) (i : Nat) {ips : List IpAddr}
    (hsome : ips ≠ []) : sv.order i ips ≠ [] := fun hnil =>
  hsome ((h.orders i ips).symm.trans (by rw [hnil])).eq_nil

theorem Serves.order_hosted (h : Serves w sv hosts) (i : Nat) {ips : List IpAddr} {z : Nat}
    (hhosts : ∀ ip ∈ ips, hosts ip z) : ∀ ip ∈ sv.order i ips, hosts ip z :=
  fun ip hip => hhosts ip ((h.orders i ips).mem_iff.mp hip)

/-- The addresses found are those of the name servers. -/
theorem mem_addresses {search : ZoneSearch} {xs : List (Name × UInt16)}
    (hfound : ∀ x ∈ xs, ∃ rs, w.Found 0 x.1 x.2 rs)
    (hsearch : ∀ x ∈ xs, ∀ st, Finds w remembers 0 x.1 x.2 (search x st).1) (ips : List IpAddr)
    (st : Progress) : ∀ ip ∈ (addresses search xs ips st).1, ip ∈ ips ∨ ∃ x ∈ xs, ∃ rs,
      w.Found 0 x.1 x.2 rs ∧ ∃ r ∈ rs, r.data.ip = some ip := by
  induction xs generalizing ips st with
  | nil => exact fun ip hip => .inl hip
  | cons x xs ih =>
    intro ip hip
    rcases ih (fun y hy => hfound y (List.mem_cons_of_mem _ hy))
      (fun y hy => hsearch y (List.mem_cons_of_mem _ hy)) _ _ ip hip with hip | ⟨y, hy, hip⟩
    · rcases List.mem_append.mp hip with hip | hip
      · exact .inl hip
      · obtain ⟨r, hr, hdata⟩ := List.mem_filterMap.mp hip
        obtain ⟨rs', hrs'⟩ := hfound x List.mem_cons_self
        cases hrs : (search x st).1 with
        | none =>
          rw [hrs] at hr
          cases hr
        | some rs =>
          rw [hrs] at hr
          have hright := (hsearch x List.mem_cons_self st).right rs hrs rs' hrs' r
          exact .inr ⟨x, List.mem_cons_self, rs', hrs', r, hright.mp hr, hdata⟩
    · exact .inr ⟨y, List.mem_cons_of_mem _ hy, hip⟩

theorem subset_addresses (search : ZoneSearch) (xs : List (Name × UInt16)) (ips : List IpAddr)
    (st : Progress) : ips ⊆ (addresses search xs ips st).1 := by
  induction xs generalizing ips st with
  | nil => exact List.Subset.refl _
  | cons x xs ih => exact fun ip hip => ih _ _ (List.mem_append_left _ hip)

/-- A search that does not remember finds an address, if there is one. -/
theorem addresses_ne_nil {search : ZoneSearch} {xs : List (Name × UInt16)}
    (hsearch : ∀ x ∈ xs, ∀ st, Finds w false 0 x.1 x.2 (search x st).1) {x : Name × UInt16}
    (hx : x ∈ xs) {rs : List Record} (hfound : w.Found 0 x.1 x.2 rs) {r : Record} (hr : r ∈ rs)
    (hip : r.data.ip.isSome) (ips : List IpAddr) (st : Progress) :
    (addresses search xs ips st).1 ≠ [] := by
  induction xs generalizing ips st with
  | nil => cases hx
  | cons y xs ih =>
    rcases List.mem_cons.mp hx with rfl | hx
    · obtain ⟨ip, hip⟩ := Option.isSome_iff_exists.mp hip
      have hfinds := hsearch x List.mem_cons_self st
      obtain ⟨rs', hrs'⟩ := Option.ne_none_iff_exists'.mp (hfinds.sure rfl)
      have hmem : ip ∈ ((search x st).1.getD []).filterMap (·.data.ip) := by
        rw [hrs']
        exact List.mem_filterMap.mpr ⟨r, (hfinds.right rs' hrs' rs hfound r).mpr hr, hip⟩
      exact List.ne_nil_of_mem (subset_addresses search xs _ _ (List.mem_append_right _ hmem))
    · exact ih (fun z hz => hsearch z (List.mem_cons_of_mem _ hz)) hx _ _

/-- Where a delegation has no glue, the addresses found are those of its servers, and a search that
does not remember finds some. -/
theorem delegated_addresses (hserves : Serves w sv hosts) {del : Delegation}
    (hmem : ∃ zone ∈ w.zones, del ∈ zone.delegations) (hglue : del.glue = []) {search : ZoneSearch}
    (hfound : ∀ x ∈ ZoneWorld.addressQuestions del.nsNames, ∃ rs, w.Found 0 x.1 x.2 rs)
    (hsearch : ∀ x ∈ ZoneWorld.addressQuestions del.nsNames, ∀ st,
      Finds w remembers 0 x.1 x.2 (search x st).1) (st : Progress) :
    (∀ ip ∈ (addresses search (ZoneWorld.addressQuestions del.nsNames) [] st).1,
        hosts ip del.child) ∧
      (remembers = false →
        (addresses search (ZoneWorld.addressQuestions del.nsNames) [] st).1 ≠ []) := by
  obtain ⟨zone, hzone, hdel⟩ := hmem
  constructor
  · intro ip hip
    rcases mem_addresses hfound hsearch [] st ip hip with hip | ⟨x, hx, rs, hrs, r, hr, hdata⟩
    · cases hip
    · exact hserves.addresses zone hzone del hdel x hx rs hrs r hr ip hdata
  · intro hforgets
    subst hforgets
    obtain ⟨x, hx, rs, hrs, r, hr, hip⟩ := hserves.addressed zone hzone del hdel hglue
    exact addresses_ne_nil hsearch hx hrs hr hip [] st

/-- **A round of servers**: what it gives is right, and it goes on with servers of a zone further
down. -/
theorem round_finds (hserves : Serves w sv hosts) {d c z : Nat} {n : Name} {qtype : UInt16}
    (hends : w.ends d c z n qtype = true) (hroot : w.Follows n qtype 0 z) {search : ZoneSearch}
    (hsearch : ∀ e < d, ∀ c x, w.ends e c 0 x.1 x.2 = true →
      ∀ st, Finds w remembers 0 x.1 x.2 (search x st).1)
    {ips : List IpAddr} (hsome : ips ≠ []) (hhosts : ∀ ip ∈ ips, hosts ip z) (st : Progress) :
    (∀ found, (sv.round search n qtype ips st).1 = .done found →
        Finds w remembers z n qtype found) ∧
      ∀ ips', (sv.round search n qtype ips st).1 = .onward ips' →
        ∃ z' e, Onward w hosts d c z n qtype z' e ips' := by
  induction ips generalizing st with
  | nil => exact absurd rfl hsome
  | cons ip rest ih =>
    have hleads := (hserves.truthful ip z n qtype (hhosts ip List.mem_cons_self) hroot
      st.sent).leads hends
    have hfinds {rs : List Record} (h : Right w z n qtype rs) :
        Finds w remembers z n qtype (some rs) :=
      ⟨fun rs' h' => (by cases h'; exact h), fun _ => Option.some_ne_none rs⟩
    unfold round
    dsimp only
    cases htells : sv.tells st.sent ip n qtype with
    | records rs =>
      rw [htells] at hleads
      cases hleads with
      | records h =>
        exact ⟨fun found hdone => (by cases hdone; exact hfinds h), fun _ h => by cases h⟩
    | nothing =>
      rw [htells] at hleads
      cases hleads with
      | nothing h =>
        exact ⟨fun found hdone => (by cases hdone; exact hfinds h), fun _ h => by cases h⟩
    | aliased target =>
      rw [htells] at hleads
      cases hleads with
      | aliased hless hmore htarget hsame =>
        have h := hsearch _ hless _ (target, qtype) htarget { st with sent := st.sent + 1 }
        refine ⟨fun found hdone => ?_, fun _ h => by cases h⟩
        cases hdone
        exact ⟨fun rs hrs rs' hfound => h.right rs hrs rs' (hsame rs' hfound), h.sure⟩
    | referral del =>
      rw [htells] at hleads
      cases hleads with
      | referral hless hchild hfollows hquestions hmem =>
        dsimp only
        split
        · rename_i hglue
          have hglue := List.isEmpty_iff.mp hglue
          have hexists : ∀ x ∈ ZoneWorld.addressQuestions del.nsNames,
              ∃ rs, w.Found 0 x.1 x.2 rs := fun x hx => by
            obtain ⟨rs, hrs⟩ := ZoneWorld.find_of_ends (hquestions hglue x hx)
            exact ⟨rs, ZoneWorld.find_found hrs⟩
          obtain ⟨hhosted, hfinds⟩ := delegated_addresses hserves hmem hglue hexists
            (fun x hx => hsearch _ hless _ x (hquestions hglue x hx))
            { st with sent := st.sent + 1 }
          split
          · rename_i hempty
            by_cases hrest : rest = []
            · -- the last server leads nowhere
              subst hrest
              refine ⟨fun found hdone => ?_, fun _ h => by cases h⟩
              cases hdone
              exact ⟨fun rs h => (by cases h),
                fun hforgets => absurd (List.isEmpty_iff.mp hempty) (hfinds hforgets)⟩
            · exact ih hrest (fun ip hip => hhosts ip (List.mem_cons_of_mem _ hip)) _
          · rename_i hne
            refine ⟨fun _ h => (by cases h), fun ips' h => ?_⟩
            cases h
            exact ⟨_, _, hless, hchild, hfollows, hserves.order_ne_nil _ (by simpa using hne),
              hserves.order_hosted _ hhosted⟩
        · rename_i hglue
          obtain ⟨zone, hzone, hdel⟩ := hmem
          refine ⟨fun _ h => (by cases h), fun ips' h => ?_⟩
          cases h
          exact ⟨_, _, hless, hchild, hfollows, hserves.order_ne_nil _ (by simpa using hglue),
            hserves.order_hosted _ (hserves.glue zone hzone del hdel)⟩

/-- From the servers of a zone, with no less than the depth that the question needs. -/
def DescendsFind (codec : Codec) (remembers : Bool) (sv : ZoneServers) (w : ZoneWorld)
    (hosts : IpAddr → Nat → Prop) (d : Nat) : Prop :=
  ∀ depth ≥ d, ∀ c z n qtype ips st, w.ends d c z n qtype = true → w.Follows n qtype 0 z →
    ips ≠ [] → (∀ ip ∈ ips, hosts ip z) →
      Finds w remembers z n qtype (sv.descend codec remembers depth n qtype ips st).1

theorem enter_finds (hserves : Serves w sv hosts) {d depth c : Nat}
    (hdescend : DescendsFind codec remembers sv w hosts d) (hdepth : d ≤ depth)
    {x : Name × UInt16} (hends : w.ends d c 0 x.1 x.2 = true) (st : Progress) :
    Finds w remembers 0 x.1 x.2 (sv.search codec remembers depth x st).1 := by
  unfold search enter
  split
  · rename_i hasked
    exact ⟨fun rs h => (by cases h), fun hforgets => by simp [hforgets] at hasked⟩
  · exact hdescend depth hdepth c 0 x.1 x.2 _ _ hends (.refl 0)
      (hserves.order_ne_nil _ hserves.roots.1) (hserves.order_hosted _ hserves.roots.2)

theorem descend_finds (hserves : Serves w sv hosts) (d : Nat) :
    DescendsFind codec remembers sv w hosts d := by
  induction d using Nat.strongRecOn with
  | ind d ih =>
    intro depth hdepth c z n qtype ips st hends hroot hsome hhosts
    cases depth with
    | zero =>
      obtain rfl := Nat.le_zero.mp hdepth
      cases hends
    | succ depth =>
      have hsearch : ∀ e < d, ∀ c x, w.ends e c 0 x.1 x.2 = true → ∀ st,
          Finds w remembers 0 x.1 x.2 (sv.search codec remembers depth x st).1 :=
        fun e he c x hx st => enter_finds hserves (ih e he) (by omega) hx st
      have hround := round_finds hserves hends hroot hsearch
        (show ips.take 6 ≠ [] by simpa using hsome)
        (fun ip hip => hhosts ip (List.mem_of_mem_take hip)) st
      cases hended : (sv.round (sv.search codec remembers depth) n qtype (ips.take 6) st).1 with
      | done found =>
        rw [descend_done hended]
        exact hround.1 found hended
      | onward ips' =>
        rw [descend_onward hended]
        obtain ⟨z', e, h⟩ := hround.2 ips' hended
        have hless := h.less
        have hfinds := ih e h.less depth (by omega) c z' n qtype ips'
          (sv.round (sv.search codec remembers depth) n qtype (ips.take 6) st).2 h.ends
          (hroot.trans h.follows) h.some h.hosted
        exact ⟨fun rs hrs rs' hfound => hfinds.right rs hrs rs' (h.follows.found hfound),
          hfinds.sure⟩

/-- **What is found is right, and a search that does not remember finds it always.** -/
theorem search_finds (hserves : Serves w sv hosts) {d c : Nat} {x : Name × UInt16}
    (hends : w.ends d c 0 x.1 x.2 = true) (st : Progress) :
    Finds w remembers 0 x.1 x.2 (sv.search codec remembers d x st).1 :=
  enter_finds hserves (descend_finds hserves d) (Nat.le_refl d) hends st

/-- **Where no question comes twice, the records are found.** -/
theorem arrives_of_nodup (hserves : Serves w sv hosts) {d c : Nat} {x : Name × UInt16}
    (hends : w.ends d c 0 x.1 x.2 = true) (h : (sv.trail codec d x).Nodup) :
    sv.arrives codec true d x = true := by
  unfold arrives
  rw [search_remembers h, Option.isSome_iff_ne_none]
  exact (search_finds hserves hends ⟨0, []⟩).sure rfl

end

end ZoneServers

end TitanDns
