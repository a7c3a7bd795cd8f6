import TitanDns.Dns.Message

/-!
# Zones and delegations

A finite world of zones, and what it says about a name and type: the records, after delegations and
aliases.

* `Zone.verdict` — what a zone says: records, an alias, nothing, or the delegation to another zone.
* `Follows` — a zone further down on the way to a name.
* `Found` — **the records that the world has for a name and type**; `find` finds them up to a depth.
* `ends` — a bound on the dependencies of a question.

Principal results: `Found.unique` — **the records are determined**; `Follows.found` — further down
they are the same.
-/

namespace TitanDns

/-- The name is the other one or below it. -/
def Name.Beneath (n owner : Name) : Prop := owner.foldedLabels <:+ n.foldedLabels

instance (n owner : Name) : Decidable (n.Beneath owner) :=
  inferInstanceAs (Decidable (owner.foldedLabels <:+ n.foldedLabels))

/-- The servers of another zone, with the addresses that are given along. -/
structure Delegation where
  owner : Name
  child : Nat
  nsNames : List Name
  glue : List IpAddr

structure Zone where
  delegations : List Delegation
  records : List Record

/-- What a zone says about a name and type. -/
inductive ZoneVerdict where
  | records (rs : List Record)
  | aliased (target : Name)
  | nothing
  | referral (del : Delegation)

namespace Zone

/-- The target of an alias at the name. -/
def aliasOf (z : Zone) (n : Name) : Option Name :=
  z.records.findSome? fun r =>
    match r.data with
    | .cname target => if r.name.Same n then some target else none
    | _ => none

/-- The zone's own records. -/
def own (z : Zone) (n : Name) (qtype : UInt16) : ZoneVerdict :=
  let found := z.records.filter fun r => decide (r.name.Same n) && r.recordType == qtype
  if found.isEmpty then
    match z.aliasOf n with
    | some target => .aliased target
    | none => .nothing
  else .records found

/-- A name at or below a delegation is the other zone's. -/
def verdict (z : Zone) (n : Name) (qtype : UInt16) : ZoneVerdict :=
  match z.delegations.find? fun del => n.Beneath del.owner with
  | some del => .referral del
  | none => z.own n qtype

end Zone

/-- The zones; the first one is the root. -/
structure ZoneWorld where
  zones : List Zone

namespace ZoneWorld

variable (w : ZoneWorld)

def zone (z : Nat) : Zone := w.zones[z]?.getD ⟨[], []⟩

def verdict (z : Nat) (n : Name) (qtype : UInt16) : ZoneVerdict := (w.zone z).verdict n qtype

/-- A zone that the delegations lead to on the way to a name. -/
inductive Follows (n : Name) (qtype : UInt16) : Nat → Nat → Prop
  | refl (z : Nat) : Follows n qtype z z
  | step {z z' : Nat} {del : Delegation} (hdel : w.verdict z n qtype = .referral del)
      (hrest : Follows n qtype del.child z') : Follows n qtype z z'

/-- The records that the zone and those below it have for a name and type, after aliases. -/
inductive Found : Nat → Name → UInt16 → List Record → Prop
  | records {z : Nat} {n : Name} {qtype : UInt16} {rs : List Record}
      (h : w.verdict z n qtype = .records rs) : Found z n qtype rs
  | nothing {z : Nat} {n : Name} {qtype : UInt16} (h : w.verdict z n qtype = .nothing) :
      Found z n qtype []
  | aliased {z : Nat} {n target : Name} {qtype : UInt16} {rs : List Record}
      (h : w.verdict z n qtype = .aliased target) (hrest : Found 0 target qtype rs) :
      Found z n qtype rs
  | referral {z : Nat} {n : Name} {qtype : UInt16} {del : Delegation} {rs : List Record}
      (h : w.verdict z n qtype = .referral del) (hrest : Found del.child n qtype rs) :
      Found z n qtype rs

/-- The records, if the way is no longer than the depth. -/
def find : Nat → Nat → Name → UInt16 → Option (List Record)
  | 0, _, _, _ => none
  | d + 1, z, n, qtype =>
    match w.verdict z n qtype with
    | .records rs => some rs
    | .nothing => some []
    | .aliased target => find d 0 target qtype
    | .referral del => find d del.child n qtype

/-- The questions for the addresses of name servers. -/
def addressQuestions (nsNames : List Name) : List (Name × UInt16) :=
  nsNames.flatMap fun ns => [(ns, TYPE_A), (ns, TYPE_AAAA)]

/-- The dependencies of the question are no deeper than `d`, with fewer than `c` aliases: a
delegation without glue depends on the addresses of all its servers. -/
def ends : Nat → Nat → Nat → Name → UInt16 → Bool
  | 0, _, _, _, _ => false
  | d + 1, c, z, n, qtype =>
    match w.verdict z n qtype with
    | .records _ => true
    | .nothing => true
    | .aliased target => decide (1 < c) && ends d (c - 1) 0 target qtype
    | .referral del =>
      (!del.glue.isEmpty || (addressQuestions del.nsNames).all fun x => ends d c 0 x.1 x.2) &&
        ends d c del.child n qtype

variable {w}

theorem Found.unique {z : Nat} {n : Name} {qtype : UInt16} {rs rs' : List Record}
    (h : w.Found z n qtype rs) (h' : w.Found z n qtype rs') : rs = rs' := by
  induction h generalizing rs' with
  | records h =>
    cases h' <;> simp_all
  | nothing h =>
    cases h' <;> simp_all
  | aliased h hrest ih =>
    cases h' with
    | aliased h₁ hrest' =>
      rw [h] at h₁
      cases h₁
      exact ih hrest'
    | records h₁ => simp [h] at h₁
    | nothing h₁ => simp [h] at h₁
    | referral h₁ => simp [h] at h₁
  | referral h hrest ih =>
    cases h' with
    | referral h₁ hrest' =>
      rw [h] at h₁
      cases h₁
      exact ih hrest'
    | records h₁ => simp [h] at h₁
    | nothing h₁ => simp [h] at h₁
    | aliased h₁ => simp [h] at h₁

theorem find_found {d z : Nat} {n : Name} {qtype : UInt16} {rs : List Record}
    (h : w.find d z n qtype = some rs) : w.Found z n qtype rs := by
  induction d generalizing z n with
  | zero => cases h
  | succ d ih =>
    unfold find at h
    cases hverdict : w.verdict z n qtype with
    | records rs' =>
      rw [hverdict] at h
      cases h
      exact .records hverdict
    | nothing =>
      rw [hverdict] at h
      cases h
      exact .nothing hverdict
    | aliased target =>
      rw [hverdict] at h
      exact .aliased hverdict (ih h)
    | referral del =>
      rw [hverdict] at h
      exact .referral hverdict (ih h)

theorem mem_of_verdict {z : Nat} {n : Name} {qtype : UInt16} {del : Delegation}
    (h : w.verdict z n qtype = .referral del) :
    ∃ zone ∈ w.zones, del ∈ zone.delegations := by
  have hmem : del ∈ (w.zone z).delegations := by
    unfold verdict Zone.verdict at h
    split at h
    · rename_i del' hfind
      cases h
      exact List.mem_of_find?_eq_some hfind
    · unfold Zone.own at h
      dsimp only at h
      split at h
      · split at h
        · cases h
        · cases h
      · cases h
  unfold zone at hmem
  cases hz : w.zones[z]? with
  | none =>
    rw [hz] at hmem
    cases hmem
  | some zone =>
    rw [hz] at hmem
    exact ⟨zone, List.mem_of_getElem? hz, hmem⟩

theorem own_of_verdict {z : Nat} {n : Name} {qtype : UInt16} {v : ZoneVerdict}
    (h : w.verdict z n qtype = v) (hv : ∀ del, v ≠ .referral del) : (w.zone z).own n qtype = v := by
  unfold verdict Zone.verdict at h
  split at h
  · exact absurd h.symm (hv _)
  · exact h

theorem records_of_verdict {z : Nat} {n : Name} {qtype : UInt16} {rs : List Record}
    (h : w.verdict z n qtype = .records rs) : rs ≠ [] ∧ ∀ r ∈ rs, r.recordType = qtype := by
  have hown := own_of_verdict h fun del hdel => by cases hdel
  unfold Zone.own at hown
  dsimp only at hown
  split at hown
  · split at hown
    · cases hown
    · cases hown
  · rename_i hempty
    cases hown
    refine ⟨by simpa using hempty, fun r hr => ?_⟩
    have hboth := (List.mem_filter.mp hr).2
    rw [Bool.and_eq_true, beq_iff_eq] at hboth
    exact hboth.2

/-- An alias is not told where aliases are asked for. -/
theorem type_of_aliased {z : Nat} {n target : Name} {qtype : UInt16}
    (h : w.verdict z n qtype = .aliased target) : qtype ≠ TYPE_CNAME := by
  rintro rfl
  have hown := own_of_verdict h fun del hdel => by cases hdel
  unfold Zone.own at hown
  dsimp only at hown
  split at hown
  · rename_i hempty
    split at hown
    · rename_i target' halias
      obtain ⟨r, hr, hdata⟩ := List.exists_of_findSome?_eq_some halias
      have hnone := List.filter_eq_nil_iff.mp (List.isEmpty_iff.mp hempty) r hr
      cases hrdata : r.data with
      | cname _ =>
        simp only [hrdata, Option.ite_none_right_eq_some] at hdata
        simp [hdata.1, Record.recordType, hrdata, RData.recordType] at hnone
      | _ => simp [hrdata] at hdata
    · cases hown
  · cases hown

theorem Follows.extend {n : Name} {qtype : UInt16} {z z' : Nat}
    (h : w.Follows n qtype z z') {del : Delegation} (hdel : w.verdict z' n qtype = .referral del) :
    w.Follows n qtype z del.child := by
  induction h with
  | refl z => exact .step hdel (.refl _)
  | step hfirst _ ih => exact .step hfirst (ih hdel)

theorem Follows.trans {n : Name} {qtype : UInt16} {z z₁ z₂ : Nat}
    (h₁ : w.Follows n qtype z z₁) (h₂ : w.Follows n qtype z₁ z₂) : w.Follows n qtype z z₂ := by
  induction h₁ with
  | refl z => exact h₂
  | step hfirst _ ih => exact .step hfirst (ih h₂)

/-- Further down nothing else is found. -/
theorem Follows.found {n : Name} {qtype : UInt16} {z z' : Nat} (h : w.Follows n qtype z z')
    {rs : List Record} (hfound : w.Found z n qtype rs) : w.Found z' n qtype rs := by
  induction h with
  | refl z => exact hfound
  | step hdel hrest ih =>
    refine ih ?_
    cases hfound with
    | referral h hrest' =>
      rw [hdel] at h
      cases h
      exact hrest'
    | records h => simp [hdel] at h
    | nothing h => simp [hdel] at h
    | aliased h => simp [hdel] at h

theorem find_of_ends {d c z : Nat} {n : Name} {qtype : UInt16} (h : w.ends d c z n qtype = true) :
    ∃ rs, w.find d z n qtype = some rs := by
  induction d generalizing c z n with
  | zero => cases h
  | succ d ih =>
    unfold ends at h
    unfold find
    cases hverdict : w.verdict z n qtype with
    | records rs => exact ⟨rs, rfl⟩
    | nothing => exact ⟨[], rfl⟩
    | aliased target =>
      rw [hverdict] at h
      exact ih (Bool.and_eq_true_iff.mp h).2
    | referral del =>
      rw [hverdict] at h
      exact ih (Bool.and_eq_true_iff.mp h).2

end ZoneWorld

end TitanDns
