import TitanDns.Lib.Atomic
import Mathlib.Algebra.GroupWithZero.Nat

/-!
# `LockFreeCache`

A cache of 64 shards, each a linked list that grows and shrinks at its head by compare-and-exchange
and a counter beside it.  Any number of threads, whose atomic steps interleave in any order.

* `CacheEntry`, `Pointer`, `Shard` — an entry never changes once it is linked, so a pointer stands
  for all that is reached from it; two pointers are compared by address.
* `Op`, `Phase` — the operations, and where a thread stands in one.
* `State`, `act` — one atomic step of a thread; `step` — a call, a step, a return, or time passing.
* `Sighted` — the pointers that are linked or held; `Sound` — **the invariant: an address tells all
  that is reached from it, the keys of a shard are distinct and at home there, and what a thread has
  passed over is not what it looks for.**
-/

namespace TitanDns.LockFree

open Run

def NUM_SHARDS : Nat := 64

structure CacheEntry (K V : Type) where
  /-- Given out when the entry is linked; nobody else sees it before. -/
  address : Nat
  key : K
  value : V
  expiresAt : Option Nat
  deriving DecidableEq

/-- `Atomic<CacheEntry>`: null, or an entry and its `next`. -/
abbrev Pointer (K V : Type) := List (CacheEntry K V)

structure Shard (K V : Type) where
  head : Pointer K V
  /-- A `usize`: additions and subtractions wrap around. -/
  len : Nat

inductive Op (K V : Type) where
  | get (key : K)
  | insert (key : K) (value : V) (ttl : Option Nat)
  | remove (key : K)
  | clear

/-- What an operation finds out: a `get` the value and the deadline under its key, an `insert` that
returns false the reason. -/
inductive Reply (V : Type) where
  | got (found : Option (V × Option Nat))
  | inserted
  | keyExists
  | full
  | removed (value : Option V)
  | cleared

/-- An entry that is not linked yet. -/
structure Fresh (K V : Type) where
  key : K
  value : V
  expiresAt : Option Nat

/-- Where a thread stands: before which atomic step, and what it has read. -/
inductive Phase (K V : Type) where
  | idle
  /-- `get`, before it loads the head. -/
  | getting (key : K)
  | reading (key : K) (current : Pointer K V)
  /-- `insert`, before it loads the counter. -/
  | inserting (key : K) (value : V) (ttl : Option Nat)
  /-- Before it loads the head. -/
  | linking (new : Fresh K V)
  | scanning (new : Fresh K V) (head current : Pointer K V)
  /-- Before the exchange. -/
  | publishing (new : Fresh K V) (head : Pointer K V)
  /-- Before the addition to the counter of the shard. -/
  | counting (shard : Nat)
  /-- `remove`, before it loads the head. -/
  | removing (key : K)
  /-- Before the exchange of the first entry for what follows it. -/
  | unlinking (key : K) (entry : CacheEntry K V) (next : Pointer K V)
  /-- Before the subtraction from the counter. -/
  | uncounting (shard : Nat) (value : V)
  /-- `clear`, before it loads the head of a shard; `since` — the addresses given out when it was
  called. -/
  | clearing (shard since : Nat)
  | popping (shard since : Nat) (entry : CacheEntry K V) (next : Pointer K V)
  | discounting (shard since : Nat)
  /-- Before the return; a `get` has looked at the deadline at `checkedAt`. -/
  | done (reply : Reply V) (checkedAt : Nat)

variable {K V C : Type}

/-- The value that `get` returns. -/
def Reply.value (found : Option (V × Option Nat)) (checkedAt : Nat) : Option V :=
  match found with
  | none => none
  | some (v, none) => some v
  | some (v, some deadline) => if deadline < checkedAt then none else some v

/-- The entry under a key, as the walks look for it. -/
def find [DecidableEq K] (key : K) (p : Pointer K V) : Option (CacheEntry K V) :=
  p.find? (·.key = key)

/-- The comparison of `compare_exchange`. -/
def samePointer (p q : Pointer K V) : Bool :=
  p.head?.map (·.address) == q.head?.map (·.address)

structure State (K V C : Type) where
  shards : Nat → Shard K V
  /-- The next address. -/
  fresh : Nat
  /-- `Instant::now()` -/
  now : Nat
  threads : C → Phase K V

/-- `LockFreeCache::new`: what the cache and its use do not change. -/
structure Setup (K : Type) where
  /-- `DefaultHasher` -/
  hash : K → Nat
  capacityPerShard : Nat

/-- `capacity_per_shard` -/
def Setup.new (hash : K → Nat) (totalCapacity : Nat) : Setup K :=
  ⟨hash, (totalCapacity + NUM_SHARDS - 1) / NUM_SHARDS⟩

/-- `hash_to_shard` -/
def Setup.hashToShard (setup : Setup K) (key : K) : Nat := setup.hash key % NUM_SHARDS

inductive Event (K V C : Type) where
  | call (c : C) (op : Op K V)
  | act (c : C)
  | ret (c : C)
  | tick (nanos : Nat)

namespace State

/-- Empty shards and no thread inside. -/
def new : State K V C := ⟨fun _ => ⟨[], 0⟩, 0, 0, fun _ => .idle⟩

section
variable [DecidableEq C]

def setThread (s : State K V C) (c : C) (p : Phase K V) : State K V C :=
  { s with threads := Function.update s.threads c p }

def setHead (s : State K V C) (i : Nat) (p : Pointer K V) : State K V C :=
  { s with shards := Function.update s.shards i { s.shards i with head := p } }

def setLen (s : State K V C) (i len : Nat) : State K V C :=
  { s with shards := Function.update s.shards i { s.shards i with len := len } }

/-- `fetch_add(1)` -/
def fetchAdd (s : State K V C) (i : Nat) : State K V C :=
  s.setLen i (((s.shards i).len + 1) % 2 ^ 64)

/-- `fetch_sub(1)` -/
def fetchSub (s : State K V C) (i : Nat) : State K V C :=
  s.setLen i (((s.shards i).len + (2 ^ 64 - 1)) % 2 ^ 64)

/-- The first phase of an operation. -/
def enter (s : State K V C) : Op K V → Phase K V
  | .get key => .getting key
  | .insert key value ttl => .inserting key value ttl
  | .remove key => .removing key
  | .clear => .clearing 0 s.fresh

variable [DecidableEq K] (setup : Setup K)

/-- The next atomic step of a thread. -/
def act (s : State K V C) (c : C) : State K V C :=
  match s.threads c with
  | .idle => s
  | .getting key => s.setThread c (.reading key (s.shards (setup.hashToShard key)).head)
  | .reading _ [] => s.setThread c (.done (.got none) s.now)
  | .reading key (e :: next) =>
    if e.key = key then s.setThread c (.done (.got (some (e.value, e.expiresAt))) s.now)
    else s.setThread c (.reading key next)
  | .inserting key value ttl =>
    if setup.capacityPerShard ≤ (s.shards (setup.hashToShard key)).len then
      s.setThread c (.done .full s.now)
    else s.setThread c (.linking ⟨key, value, ttl.map (s.now + ·)⟩)
  | .linking new =>
    let head := (s.shards (setup.hashToShard new.key)).head
    s.setThread c (.scanning new head head)
  | .scanning new head [] => s.setThread c (.publishing new head)
  | .scanning new head (e :: next) =>
    if e.key = new.key then s.setThread c (.done .keyExists s.now)
    else s.setThread c (.scanning new head next)
  | .publishing new head =>
    let i := setup.hashToShard new.key
    if samePointer (s.shards i).head head then
      { (s.setHead i (⟨s.fresh, new.key, new.value, new.expiresAt⟩ :: head)).setThread c
        (.counting i) with fresh := s.fresh + 1 }
    else s.setThread c (.linking new)
  | .counting i => (s.fetchAdd i).setThread c (.done .inserted s.now)
  | .removing key =>
    match (s.shards (setup.hashToShard key)).head with
    | [] => s.setThread c (.done (.removed none) s.now)
    | e :: next =>
      if e.key = key then s.setThread c (.unlinking key e next)
      else s.setThread c (.done (.removed none) s.now)
  | .unlinking key e next =>
    let i := setup.hashToShard key
    if samePointer (s.shards i).head (e :: next) then
      (s.setHead i next).setThread c (.uncounting i e.value)
    else s.setThread c (.removing key)
  | .uncounting i value => (s.fetchSub i).setThread c (.done (.removed (some value)) s.now)
  | .clearing i since =>
    if i < NUM_SHARDS then
      match (s.shards i).head with
      | [] => s.setThread c (.clearing (i + 1) since)
      | e :: next => s.setThread c (.popping i since e next)
    else s.setThread c (.done .cleared s.now)
  | .popping i since e next =>
    if samePointer (s.shards i).head (e :: next) then
      (s.setHead i next).setThread c (.discounting i since)
    else s.setThread c (.clearing i since)
  | .discounting i since => (s.fetchSub i).setThread c (.clearing i since)
  | .done _ _ => s

/-- One event. -/
def step (s : State K V C) : Event K V C → State K V C
  | .call c op =>
    match s.threads c with
    | .idle => s.setThread c (s.enter op)
    | _ => s
  | .act c => s.act setup c
  | .ret c =>
    match s.threads c with
    | .done _ _ => s.setThread c .idle
    | _ => s
  | .tick nanos => { s with now := s.now + nanos }

end

end State

/-! ## Pointers -/

/-- The pointers a thread compares or walks on. -/
def Phase.held : Phase K V → List (Pointer K V)
  | .reading _ current => [current]
  | .scanning _ head _ => [head]
  | .publishing _ head => [head]
  | .unlinking _ e next => [e :: next]
  | .popping _ _ e next => [e :: next]
  | _ => []

/-- What a thread knows of what it has read. -/
def Phase.Passed (now : Nat) : Phase K V → Prop
  | .scanning new head current => ∃ seen, head = seen ++ current ∧ ∀ e ∈ seen, e.key ≠ new.key
  | .publishing new head => ∀ e ∈ head, e.key ≠ new.key
  | .unlinking key e _ => e.key = key
  | .done _ checkedAt => checkedAt ≤ now
  | _ => True

/-- The pointer is linked in a shard or reached from one that a thread holds. -/
def State.Sighted (s : State K V C) (p : Pointer K V) : Prop :=
  (∃ i, p <:+ (s.shards i).head) ∨ ∃ c, ∃ q ∈ (s.threads c).held, p <:+ q

/-- The invariant. -/
structure Sound (setup : Setup K) (s : State K V C) : Prop where
  coherent : ∀ p q, s.Sighted p → s.Sighted q →
    p.head?.map (·.address) = q.head?.map (·.address) → p = q
  below : ∀ p, s.Sighted p → ∀ e ∈ p, e.address < s.fresh
  home : ∀ i, ∀ e ∈ (s.shards i).head, setup.hashToShard e.key = i
  distinct : ∀ i, ((s.shards i).head.map (·.key)).Nodup
  passed : ∀ c, (s.threads c).Passed s.now

variable {setup : Setup K} {s : State K V C}

namespace State

theorem sighted_head (s : State K V C) (i : Nat) : s.Sighted (s.shards i).head :=
  Or.inl ⟨i, List.suffix_rfl⟩

theorem sighted_held {c : C} {q : Pointer K V} (h : q ∈ (s.threads c).held) : s.Sighted q :=
  Or.inr ⟨c, q, h, List.suffix_rfl⟩

theorem Sighted.suffix {p q : Pointer K V} (h : s.Sighted q) (hp : p <:+ q) : s.Sighted p := by
  rcases h with ⟨i, hq⟩ | ⟨c, r, hr, hq⟩
  · exact Or.inl ⟨i, hp.trans hq⟩
  · exact Or.inr ⟨c, r, hr, hp.trans hq⟩

end State

theorem sound_new (setup : Setup K) : Sound setup (State.new : State K V C) where
  coherent := by
    rintro p q (⟨i, hp⟩ | ⟨c, r, hr, -⟩) (⟨j, hq⟩ | ⟨c, r, hr, -⟩) -
    · rw [List.suffix_nil.mp hp, List.suffix_nil.mp hq]
    · cases hr
    · cases hr
    · cases hr
  below := by
    rintro p (⟨i, hp⟩ | ⟨c, r, hr, -⟩) e he
    · rw [List.suffix_nil.mp hp] at he
      cases he
    · cases hr
  home := by
    intro i e he
    cases he
  distinct := fun _ => List.nodup_nil
  passed := fun _ => trivial

/-- **An exchange succeeds exactly when the shard is as the thread has seen it.** -/
theorem Sound.samePointer_iff (h : Sound setup s) {i : Nat} {q : Pointer K V} (hq : s.Sighted q) :
    samePointer (s.shards i).head q = true ↔ (s.shards i).head = q := by
  unfold samePointer
  rw [beq_iff_eq]
  constructor
  · exact h.coherent _ _ (s.sighted_head i) hq
  · exact fun heq => by rw [heq]

section
variable [DecidableEq C]

namespace State

theorem sighted_setThread {c : C} {p : Phase K V} (hheld : ∀ q ∈ p.held, s.Sighted q)
    {q : Pointer K V} (hq : (s.setThread c p).Sighted q) : s.Sighted q := by
  rcases hq with hq | ⟨c', r, hr, hq⟩
  · exact Or.inl hq
  · by_cases hc : c' = c
    · subst hc
      change r ∈ (Function.update s.threads c' p c').held at hr
      rw [Function.update_self] at hr
      exact (hheld r hr).suffix hq
    · change r ∈ (Function.update s.threads c p c').held at hr
      rw [Function.update_of_ne hc] at hr
      exact Or.inr ⟨c', r, hr, hq⟩

omit [DecidableEq C] in
/-- Shards other than the one whose head is written are as they were. -/
theorem setHead_head (s : State K V C) (i j : Nat) (p : Pointer K V) :
    ((s.setHead i p).shards j).head = if j = i then p else (s.shards j).head := by
  unfold setHead
  split
  · rename_i hj
    subst hj
    simp
  · rename_i hj
    simp [Function.update_of_ne hj]

omit [DecidableEq C] in
theorem setLen_head (s : State K V C) (i j n : Nat) :
    ((s.setLen i n).shards j).head = (s.shards j).head := by
  unfold setLen
  by_cases hj : j = i
  · subst hj
    simp
  · simp [Function.update_of_ne hj]

omit [DecidableEq C] in
theorem sighted_setLen {i n : Nat} {q : Pointer K V} :
    (s.setLen i n).Sighted q ↔ s.Sighted q := by
  unfold Sighted
  simp only [setLen_head]
  rfl

end State

/-- A thread moves on with pointers it has come by. -/
theorem Sound.setThread (h : Sound setup s) (c : C) {p : Phase K V}
    (hheld : ∀ q ∈ p.held, s.Sighted q) (hp : p.Passed s.now) : Sound setup (s.setThread c p) where
  coherent := fun q r hq hr =>
    h.coherent q r (State.sighted_setThread hheld hq) (State.sighted_setThread hheld hr)
  below := fun q hq => h.below q (State.sighted_setThread hheld hq)
  home := h.home
  distinct := h.distinct
  passed := by
    intro c'
    change (Function.update s.threads c p c').Passed s.now
    by_cases hc : c' = c
    · subst hc
      rw [Function.update_self]
      exact hp
    · rw [Function.update_of_ne hc]
      exact h.passed c'

omit [DecidableEq C] in
theorem Sound.setLen (h : Sound setup s) (i n : Nat) : Sound setup (s.setLen i n) where
  coherent := fun q r hq hr =>
    h.coherent q r (State.sighted_setLen.mp hq) (State.sighted_setLen.mp hr)
  below := fun q hq => h.below q (State.sighted_setLen.mp hq)
  home := by
    intro j e he
    rw [State.setLen_head] at he
    exact h.home j e he
  distinct := by
    intro j
    rw [State.setLen_head]
    exact h.distinct j
  passed := h.passed

omit [DecidableEq C] in
/-- The first entry of a shard is taken away. -/
theorem Sound.pop (h : Sound setup s) {i : Nat} {e : CacheEntry K V} {next : Pointer K V}
    (hhead : (s.shards i).head = e :: next) : Sound setup (s.setHead i next) := by
  have hsighted : ∀ q, (s.setHead i next).Sighted q → s.Sighted q := by
    rintro q (⟨j, hq⟩ | hq)
    · rw [State.setHead_head] at hq
      split at hq
      · exact Or.inl ⟨i, hhead ▸ hq.trans (List.suffix_cons e next)⟩
      · exact Or.inl ⟨j, hq⟩
    · exact Or.inr hq
  constructor
  · exact fun q r hq hr => h.coherent q r (hsighted q hq) (hsighted r hr)
  · exact fun q hq => h.below q (hsighted q hq)
  · intro j e' he'
    rw [State.setHead_head] at he'
    split at he'
    · rename_i hj
      exact h.home j e' (hj ▸ hhead ▸ List.mem_cons_of_mem e he')
    · exact h.home j e' he'
  · intro j
    rw [State.setHead_head]
    split
    · have hnodup := h.distinct i
      rw [hhead, List.map_cons] at hnodup
      exact (List.nodup_cons.mp hnodup).2
    · exact h.distinct j
  · exact h.passed

omit [DecidableEq C] in
/-- An entry is linked in front, with an address of its own. -/
theorem Sound.push (h : Sound setup s) {i : Nat} (new : Fresh K V)
    (hhome : setup.hashToShard new.key = i) (hnew : ∀ e ∈ (s.shards i).head, e.key ≠ new.key) :
    Sound setup { s.setHead i (⟨s.fresh, new.key, new.value, new.expiresAt⟩ :: (s.shards i).head)
      with fresh := s.fresh + 1 } := by
  generalize hentry : (⟨s.fresh, new.key, new.value, new.expiresAt⟩ : CacheEntry K V) = entry
  have haddress : entry.address = s.fresh := hentry ▸ rfl
  have hkey : entry.key = new.key := hentry ▸ rfl
  generalize hs' : { s.setHead i (entry :: (s.shards i).head) with fresh := s.fresh + 1 } = s'
  have hhead : ∀ j, (s'.shards j).head =
      if j = i then entry :: (s.shards i).head else (s.shards j).head := by
    subst hs'
    exact fun j => State.setHead_head s i j _
  have hthreads : s'.threads = s.threads := by
    subst hs'
    rfl
  have hfresh : s'.fresh = s.fresh + 1 := by
    subst hs'
    rfl
  have hnow : s'.now = s.now := by
    subst hs'
    rfl
  -- what is new among the pointers is the one to the new entry
  have hsighted : ∀ q, s'.Sighted q → s.Sighted q ∨ q = entry :: (s.shards i).head := by
    rintro q (⟨j, hq⟩ | hq)
    · rw [hhead] at hq
      split at hq
      · rcases List.suffix_cons_iff.mp hq with rfl | hq
        · exact Or.inr rfl
        · exact Or.inl (Or.inl ⟨i, hq⟩)
      · exact Or.inl (Or.inl ⟨j, hq⟩)
    · rw [hthreads] at hq
      exact Or.inl (Or.inr hq)
  have hapart : ∀ q, s.Sighted q → q.head?.map (·.address) ≠ some s.fresh := by
    intro q hq hsame
    cases q with
    | nil => cases hsame
    | cons e rest =>
      have hlt := h.below _ hq e List.mem_cons_self
      have heq : e.address = s.fresh := by simpa using hsame
      omega
  have hfirst : (entry :: (s.shards i).head).head?.map (·.address) = some s.fresh := by
    simp [haddress]
  constructor
  · intro p q hp hq hsame
    rcases hsighted p hp with hp | rfl <;> rcases hsighted q hq with hq | rfl
    · exact h.coherent p q hp hq hsame
    · exact absurd (hsame.trans hfirst) (hapart p hp)
    · exact absurd (hsame.symm.trans hfirst) (hapart q hq)
    · rfl
  · intro p hp e he
    rw [hfresh]
    rcases hsighted p hp with hp | rfl
    · exact Nat.lt_succ_of_lt (h.below p hp e he)
    · rcases List.mem_cons.mp he with rfl | he
      · rw [haddress]
        exact Nat.lt_succ_self _
      · exact Nat.lt_succ_of_lt (h.below _ (s.sighted_head i) e he)
  · intro j e he
    rw [hhead] at he
    split at he
    · rename_i hj
      rcases List.mem_cons.mp he with rfl | he
      · rw [hkey, hhome, hj]
      · exact hj ▸ h.home i e he
    · exact h.home j e he
  · intro j
    rw [hhead]
    split
    · rw [List.map_cons, List.nodup_cons]
      refine ⟨?_, h.distinct i⟩
      rw [hkey, List.mem_map]
      rintro ⟨e, he, heq⟩
      exact hnew e he heq
    · exact h.distinct j
  · intro c
    rw [hthreads, hnow]
    exact h.passed c

omit [DecidableEq C] in
/-- Time passes. -/
theorem Sound.tick (h : Sound setup s) (nanos : Nat) :
    Sound setup { s with now := s.now + nanos } where
  coherent := h.coherent
  below := h.below
  home := h.home
  distinct := h.distinct
  passed := by
    intro c
    have hp := h.passed c
    change (s.threads c).Passed (s.now + nanos)
    cases hc : s.threads c with
    | done reply checkedAt =>
      rw [hc] at hp
      exact Nat.le_add_right_of_le hp
    | _ =>
      rw [hc] at hp
      exact hp

variable [DecidableEq K]

/-- **One atomic step keeps the invariant.** -/
theorem act_sound (h : Sound setup s) (c : C) : Sound setup (s.act setup c) := by
  have hp := h.passed c
  have hseen : ∀ q ∈ (s.threads c).held, s.Sighted q := fun q hq => State.sighted_held hq
  have hfree {s' : State K V C} (hs' : Sound setup s') {p : Phase K V} (hheld : p.held = [])
      (hpassed : p.Passed s'.now) : Sound setup (s'.setThread c p) :=
    hs'.setThread c (fun q hq => by rw [hheld] at hq; cases hq) hpassed
  have hhead {p : Phase K V} {i : Nat} (hheld : p.held = [(s.shards i).head])
      (hpassed : p.Passed s.now) : Sound setup (s.setThread c p) :=
    h.setThread c (fun q hq => by
      rw [hheld, List.mem_singleton] at hq
      exact hq ▸ s.sighted_head i) hpassed
  unfold State.act
  split <;> rename_i hc <;> rw [hc] at hp hseen
  · exact h
  · exact hhead rfl trivial
  · exact hfree h rfl (Nat.le_refl _)
  · rename_i key e next
    split
    · exact hfree h rfl (Nat.le_refl _)
    · refine h.setThread c (fun q hq => ?_) trivial
      rw [List.mem_singleton.mp hq]
      exact (hseen _ List.mem_cons_self).suffix (List.suffix_cons e next)
  · split
    · exact hfree h rfl (Nat.le_refl _)
    · exact hfree h rfl trivial
  · exact hhead rfl ⟨[], rfl, fun e he => by cases he⟩
  · obtain ⟨seen, hall, hkeys⟩ := hp
    rw [List.append_nil] at hall
    exact h.setThread c hseen (by rw [hall]; exact hkeys)
  · rename_i new head e next
    obtain ⟨seen, hall, hkeys⟩ := hp
    split
    · exact hfree h rfl (Nat.le_refl _)
    · rename_i hkey
      refine h.setThread c hseen ⟨seen ++ [e], by rw [hall, List.append_assoc]; rfl, ?_⟩
      intro e' he'
      rcases List.mem_append.mp he' with he' | he'
      · exact hkeys e' he'
      · rw [List.mem_singleton.mp he']
        exact hkey
  · rename_i new head
    simp only
    split
    · rename_i hcas
      have hsame := (h.samePointer_iff (hseen head List.mem_cons_self)).mp hcas
      subst hsame
      exact hfree (h.push new rfl hp) rfl trivial
    · exact hfree h rfl trivial
  · exact hfree (h.setLen _ _) rfl (Nat.le_refl _)
  · split
    · exact hfree h rfl (Nat.le_refl _)
    · rename_i e next hhere
      split
      · rename_i hkey
        exact hhead (by rw [hhere]; rfl) hkey
      · exact hfree h rfl (Nat.le_refl _)
  · simp only
    split
    · rename_i hcas
      exact hfree (h.pop ((h.samePointer_iff (hseen _ List.mem_cons_self)).mp hcas)) rfl trivial
    · exact hfree h rfl trivial
  · exact hfree (h.setLen _ _) rfl (Nat.le_refl _)
  · split
    · split
      · exact hfree h rfl trivial
      · rename_i e next hhere
        exact hhead (by rw [hhere]; rfl) trivial
    · exact hfree h rfl (Nat.le_refl _)
  · split
    · rename_i hcas
      exact hfree (h.pop ((h.samePointer_iff (hseen _ List.mem_cons_self)).mp hcas)) rfl trivial
    · exact hfree h rfl trivial
  · exact hfree (h.setLen _ _) rfl trivial
  · exact h

theorem step_sound (h : Sound setup s) (ev : Event K V C) : Sound setup (s.step setup ev) := by
  cases ev with
  | call c op =>
    unfold State.step
    dsimp only
    split
    · exact h.setThread c (fun q hq => by cases op <;> cases hq) (by cases op <;> trivial)
    · exact h
  | act c => exact act_sound h c
  | ret c =>
    unfold State.step
    dsimp only
    split
    · exact h.setThread c (fun q hq => by cases hq) trivial
    · exact h
  | tick nanos => exact h.tick nanos

/-- The cache after a run. -/
abbrev after (setup : Setup K) (es : List (Event K V C)) : State K V C :=
  run (State.step setup) State.new es

/-- **The invariant holds in every run.** -/
theorem sound_run (setup : Setup K) (es : List (Event K V C)) : Sound setup (after setup es) := by
  have hstep : ∀ (s : State K V C) ev, Sound setup s → Sound setup (s.step setup ev) :=
    fun _ ev h => step_sound h ev
  exact invariant_run hstep (sound_new setup) es

end

end TitanDns.LockFree
