import TitanDns.Core.LockFree
import TitanDns.Lib.Tally
import Mathlib.Data.List.Induction

/-!
# `LockFreeCache` is linearizable

The cache against shards whose operations happen at once.

* `Debt`, `owed` — what threads in the middle of an operation owe the counter of a shard.
* `shelf` — the sequential specification: `get` finds the entry of its key, `insert` puts an entry
  in front of a shard that has none of its key, `remove` takes an entry only from the front, and
  `clear` takes them from the front one by one.  A counter moves later than its shard, and `insert`
  is refused where the counter is at the capacity.
* `Matches` — where a thread stands in the cache and in the specification; `Simulates`.
* `act_simulated` — **one atomic step is matched by at most one effect of the specification**: of a
  `get` when it loads the head, of an `insert` when it links its entry, when it loads a head that
  leads to its key or when it loads a counter at the capacity, of a `remove` when it takes the entry
  away or finds another in front.

Principal result: `linearizable` — **the calls and returns of every interleaving are those of the
specification**, and a `get` that found its key returns its value unless the deadline had passed
when it read the clock.
-/

namespace TitanDns.LockFree

open Run Atomic Tally

variable {K V C : Type}

/-! ## What a thread owes -/

/-- What a thread in the middle of an operation owes a shard. -/
inductive Debt where
  /-- It has passed the check of the capacity and linked no entry. -/
  | pending
  /-- It has linked an entry and not counted it. -/
  | adding
  /-- It has taken an entry away that is still counted. -/
  | taking
  deriving DecidableEq

def debt (setup : Setup K) : Phase K V → Option (Debt × Nat)
  | .linking new => some (.pending, setup.hashToShard new.key)
  | .scanning new _ _ => some (.pending, setup.hashToShard new.key)
  | .publishing new _ => some (.pending, setup.hashToShard new.key)
  | .counting i => some (.adding, i)
  | .uncounting i _ => some (.taking, i)
  | .discounting i _ => some (.taking, i)
  | _ => none

def owes (setup : Setup K) (d : Debt) (i : Nat) (p : Phase K V) : Nat :=
  if debt setup p = some (d, i) then 1 else 0

/-- How many threads owe it. -/
def owed [Fintype C] (setup : Setup K) (s : State K V C) (d : Debt) (i : Nat) : Nat :=
  tally (owes setup d i) s.threads

/-- A thread that owes the counters nothing. -/
def Clear (setup : Setup K) (p : Phase K V) : Prop :=
  ∀ d i, debt setup p = some (d, i) → d = .pending

section
variable {setup : Setup K}

theorem owes_of_none {p : Phase K V} (hp : debt setup p = none) (d : Debt) (i : Nat) :
    owes setup d i p = 0 := by
  unfold owes
  rw [hp]
  rfl

theorem owes_of_some {p : Phase K V} {d : Debt} {i : Nat} (hp : debt setup p = some (d, i))
    (d' : Debt) (i' : Nat) : owes setup d' i' p = if d' = d ∧ i' = i then 1 else 0 := by
  unfold owes
  rw [hp]
  simp only [Option.some.injEq, Prod.mk.injEq]
  exact if_congr (and_congr eq_comm eq_comm) rfl rfl

theorem Clear.owes {p : Phase K V} (hp : Clear setup p) {d : Debt} (hd : d ≠ .pending) (i : Nat) :
    owes setup d i p = 0 :=
  if_neg fun hdebt => hd (hp d i hdebt)

variable [Fintype C]

theorem owed_new (setup : Setup K) (d : Debt) (i : Nat) :
    owed setup (State.new : State K V C) d i = 0 := by
  apply tally_eq_zero
  exact fun _ => rfl

/-- When a thread moves, what is owed moves by what it owes. -/
theorem owed_setThread [DecidableEq C] (setup : Setup K) (s : State K V C) (c : C) (p : Phase K V)
    (d : Debt) (i : Nat) :
    owed setup (s.setThread c p) d i + owes setup d i (s.threads c) =
      owed setup s d i + owes setup d i p := tally_update _ _ _ _

end

/-! ## The specification -/

/-- What is known of an entry beside its address. -/
def CacheEntry.content (e : CacheEntry K V) : Fresh K V := ⟨e.key, e.value, e.expiresAt⟩

/-- The shards without addresses, the counters with the additions and subtractions that are still
to come, and the clock. -/
@[ext] structure Shelf (K V : Type) where
  entries : Nat → List (Fresh K V)
  len : Nat → Nat
  adding : Nat → Nat
  taking : Nat → Nat
  now : Nat

namespace Shelf

def new : Shelf K V := ⟨fun _ => [], fun _ => 0, fun _ => 0, fun _ => 0, 0⟩

/-- An entry comes to the front of a shard. -/
def put (shelf : Shelf K V) (i : Nat) (e : Fresh K V) : Shelf K V :=
  { shelf with
    entries := Function.update shelf.entries i (e :: shelf.entries i)
    adding := Function.update shelf.adding i (shelf.adding i + 1) }

/-- The first entry of a shard goes. -/
def drop (shelf : Shelf K V) (i : Nat) (rest : List (Fresh K V)) : Shelf K V :=
  { shelf with
    entries := Function.update shelf.entries i rest
    taking := Function.update shelf.taking i (shelf.taking i + 1) }

end Shelf

/-- The counters follow, and time passes. -/
inductive Drifts : Shelf K V → Shelf K V → Prop
  | counted (shelf : Shelf K V) {i n : Nat} (h : shelf.adding i = n + 1) :
      Drifts shelf { shelf with
        len := Function.update shelf.len i ((shelf.len i + 1) % 2 ^ 64)
        adding := Function.update shelf.adding i n }
  | discounted (shelf : Shelf K V) {i n : Nat} (h : shelf.taking i = n + 1) :
      Drifts shelf { shelf with
        len := Function.update shelf.len i ((shelf.len i + (2 ^ 64 - 1)) % 2 ^ 64)
        taking := Function.update shelf.taking i n }
  | tick (shelf : Shelf K V) (nanos : Nat) : Drifts shelf { shelf with now := shelf.now + nanos }

/-- An operation and the time of its call. -/
abbrev Call (K V : Type) := Op K V × Nat

section
variable [DecidableEq K]

/-- What `get` finds in a shard. -/
def lookup (key : K) (shelf : List (Fresh K V)) : Option (V × Option Nat) :=
  (shelf.find? (·.key = key)).map fun e => (e.value, e.expiresAt)

theorem lookup_self (e : Fresh K V) (rest : List (Fresh K V)) :
    lookup e.key (e :: rest) = some (e.value, e.expiresAt) := by
  simp [lookup]

theorem lookup_of_ne {key : K} {e : Fresh K V} (h : e.key ≠ key) (rest : List (Fresh K V)) :
    lookup key (e :: rest) = lookup key rest := by
  simp [lookup, h]

/-- The operations, each as a whole.  A deadline counts from a time between the call and here. -/
def Permits (setup : Setup K) (shelf : Shelf K V) (call : Call K V) (reply : Reply V)
    (shelf' : Shelf K V) : Prop :=
  match call.1, reply with
  | .get key, .got found =>
    found = lookup key (shelf.entries (setup.hashToShard key)) ∧ shelf' = shelf
  | .insert key value ttl, .inserted =>
    (∀ e ∈ shelf.entries (setup.hashToShard key), e.key ≠ key) ∧
      ∃ since, call.2 ≤ since ∧ since ≤ shelf.now ∧
        shelf' = shelf.put (setup.hashToShard key) ⟨key, value, ttl.map (since + ·)⟩
  | .insert key _ _, .keyExists =>
    (∃ e ∈ shelf.entries (setup.hashToShard key), e.key = key) ∧ shelf' = shelf
  | .insert key _ _, .full =>
    setup.capacityPerShard ≤ shelf.len (setup.hashToShard key) ∧ shelf' = shelf
  | .remove key, .removed none =>
    (∀ e, (shelf.entries (setup.hashToShard key)).head? = some e → e.key ≠ key) ∧ shelf' = shelf
  | .remove key, .removed (some value) =>
    ∃ e rest, shelf.entries (setup.hashToShard key) = e :: rest ∧ e.key = key ∧ e.value = value ∧
      shelf' = shelf.drop (setup.hashToShard key) rest
  | .clear, .cleared => shelf' = shelf
  | _, _ => False

/-- What `clear` does on its way. -/
def Partly (shelf : Shelf K V) (call : Call K V) (shelf' : Shelf K V) : Prop :=
  match call.1 with
  | .clear => ∃ i e rest, shelf.entries i = e :: rest ∧ shelf' = shelf.drop i rest
  | _ => False

/-- The sequential specification. -/
def shelf (setup : Setup K) : Spec (Shelf K V) (Call K V) (Reply V) :=
  ⟨Permits setup, Partly, Drifts⟩

/-! ## The simulation -/

/-- The cache without addresses. -/
def State.contents (s : State K V C) : Nat → List (Fresh K V) :=
  fun i => (s.shards i).head.map (·.content)

def State.shelf [Fintype C] (setup : Setup K) (s : State K V C) : Shelf K V where
  entries := s.contents
  len i := (s.shards i).len
  adding := owed setup s .adding
  taking := owed setup s .taking
  now := s.now

/-- The entry that an insertion brings. -/
def Brings (now : Nat) (call : Call K V) (new : Fresh K V) : Prop :=
  ∃ since ttl, call.1 = .insert new.key new.value ttl ∧ call.2 ≤ since ∧ since ≤ now ∧
    new.expiresAt = ttl.map (since + ·)

/-- The operation was called and has not taken effect. -/
def Waits (op : Op K V) (status : Status (Call K V) (Reply V)) : Prop :=
  ∃ since, status = .waiting (op, since)

/-- Where a thread stands in the specification. -/
def Matches (now : Nat) : Phase K V → Status (Call K V) (Reply V) → Prop
  | .idle, status => status = .idle
  | .getting key, status => Waits (.get key) status
  | .reading key current, status =>
    status = .answered (.got (lookup key (current.map (·.content))))
  | .inserting key value ttl, status =>
    ∃ since ≤ now, status = .waiting (.insert key value ttl, since)
  | .linking new, status => ∃ call, status = .waiting call ∧ Brings now call new
  | .scanning new _ current, status =>
    if ∃ e ∈ current, e.key = new.key then status = .answered .keyExists
    else ∃ call, status = .waiting call ∧ Brings now call new
  | .publishing new _, status => ∃ call, status = .waiting call ∧ Brings now call new
  | .counting _, status => status = .answered .inserted
  | .removing key, status => Waits (.remove key) status
  | .unlinking key _ _, status => Waits (.remove key) status
  | .uncounting _ value, status => status = .answered (.removed (some value))
  | .clearing _ _, status => Waits .clear status
  | .popping _ _ _ _, status => Waits .clear status
  | .discounting _ _, status => Waits .clear status
  | .done reply _, status => status = .answered reply

theorem matches_scanning {now : Nat} {new : Fresh K V} {head current : Pointer K V}
    {status : Status (Call K V) (Reply V)} (h : ∃ e ∈ current, e.key = new.key) :
    Matches now (.scanning new head current) status ↔ status = .answered .keyExists := by
  show (if _ then _ else _) ↔ _
  rw [if_pos h]

theorem matches_scanning_not {now : Nat} {new : Fresh K V} {head current : Pointer K V}
    {status : Status (Call K V) (Reply V)} (h : ¬ ∃ e ∈ current, e.key = new.key) :
    Matches now (.scanning new head current) status ↔
      ∃ call, status = .waiting call ∧ Brings now call new := by
  show (if _ then _ else _) ↔ _
  rw [if_neg h]

/-- A scan goes past an entry of another key. -/
theorem matches_scanning_cons {now : Nat} {new : Fresh K V} {head next : Pointer K V}
    {e : CacheEntry K V} {status : Status (Call K V) (Reply V)} (hkey : e.key ≠ new.key)
    (h : Matches now (.scanning new head (e :: next)) status) :
    Matches now (.scanning new head next) status := by
  have hrest : (∃ e' ∈ e :: next, e'.key = new.key) ↔ ∃ e' ∈ next, e'.key = new.key := by
    simp [hkey]
  by_cases hfound : ∃ e' ∈ next, e'.key = new.key
  · exact (matches_scanning hfound).mpr ((matches_scanning (hrest.mpr hfound)).mp h)
  · have hnone := hrest.not.mpr hfound
    exact (matches_scanning_not hfound).mpr ((matches_scanning_not hnone).mp h)

omit [DecidableEq K] in
theorem Brings.later {now now' : Nat} (hnow : now ≤ now') {call : Call K V} {new : Fresh K V}
    (h : Brings now call new) : Brings now' call new := by
  obtain ⟨since, ttl, hop, hcalled, hsince, hexpires⟩ := h
  exact ⟨since, ttl, hop, hcalled, hsince.trans hnow, hexpires⟩

theorem Matches.later {now now' : Nat} (hnow : now ≤ now') {p : Phase K V}
    {status : Status (Call K V) (Reply V)} (h : Matches now p status) : Matches now' p status := by
  have hbrings {new : Fresh K V} : (∃ call, status = .waiting call ∧ Brings now call new) →
      ∃ call, status = .waiting call ∧ Brings now' call new := by
    rintro ⟨call, hcall, h⟩
    exact ⟨call, hcall, h.later hnow⟩
  cases p with
  | inserting key value ttl =>
    obtain ⟨since, hsince, hstatus⟩ := h
    exact ⟨since, hsince.trans hnow, hstatus⟩
  | linking new => exact hbrings h
  | scanning new head current =>
    by_cases hfound : ∃ e ∈ current, e.key = new.key
    · exact (matches_scanning hfound).mpr ((matches_scanning hfound).mp h)
    · exact (matches_scanning_not hfound).mpr (hbrings ((matches_scanning_not hfound).mp h))
  | publishing new head => exact hbrings h
  | _ => exact h

variable [Fintype C]

/-- The cache and the specification. -/
structure Simulates (setup : Setup K) (s : State K V C)
    (t : Config (Shelf K V) C (Call K V) (Reply V)) : Prop where
  state : t.state = s.shelf setup
  threads : ∀ c, Matches s.now (s.threads c) (t.status c)

variable [DecidableEq C] {setup : Setup K} {s : State K V C}
  {t : Config (Shelf K V) C (Call K V) (Reply V)}

omit [DecidableEq K] in
theorem clear_of_none {p : Phase K V} (h : debt setup p = none) : Clear setup p := by
  intro d i hdebt
  rw [h] at hdebt
  cases hdebt

omit [DecidableEq K] in
theorem clear_of_pending {p : Phase K V} {i : Nat} (h : debt setup p = some (.pending, i)) :
    Clear setup p := by
  intro d j hdebt
  rw [h] at hdebt
  cases hdebt
  rfl

omit [DecidableEq K] in
/-- What is owed after a thread has moved, whatever has happened to the shards. -/
theorem owed_moved (setup : Setup K) (s s' : State K V C) (hthreads : s'.threads = s.threads)
    (c : C) (p : Phase K V) (d : Debt) (i : Nat) :
    owed setup (s'.setThread c p) d i + owes setup d i (s.threads c) =
      owed setup s d i + owes setup d i p := by
  rw [← hthreads]
  have hmove := owed_setThread setup s' c p d i
  rw [hmove]
  unfold owed
  rw [hthreads]

omit [DecidableEq K] in
/-- A thread that owes nothing moves on. -/
theorem shelf_setThread {c : C} {p : Phase K V} (hold : Clear setup (s.threads c))
    (hp : Clear setup p) : (s.setThread c p).shelf setup = s.shelf setup := by
  have hsame : ∀ d, d ≠ .pending → ∀ i, owed setup (s.setThread c p) d i = owed setup s d i := by
    intro d hd i
    have hmove := owed_moved setup s s rfl c p d i
    rw [hold.owes hd, hp.owes hd] at hmove
    exact hmove
  exact Shelf.ext rfl rfl (funext (hsame .adding (by decide))) (funext (hsame .taking (by decide)))
    rfl

omit [DecidableEq C] [DecidableEq K] [Fintype C] in
theorem contents_setHead (s : State K V C) (i : Nat) (p : Pointer K V) :
    (s.setHead i p).contents = Function.update s.contents i (p.map (·.content)) := by
  funext j
  unfold State.contents
  rw [State.setHead_head]
  by_cases hj : j = i
  · subst hj
    simp
  · rw [if_neg hj, Function.update_of_ne hj]

omit [DecidableEq C] [DecidableEq K] [Fintype C] in
theorem contents_setLen (s : State K V C) (i n : Nat) : (s.setLen i n).contents = s.contents := by
  funext j
  unfold State.contents
  rw [State.setLen_head]

omit [DecidableEq C] [DecidableEq K] [Fintype C] in
theorem setHead_len (s : State K V C) (i : Nat) (p : Pointer K V) (j : Nat) :
    ((s.setHead i p).shards j).len = (s.shards j).len := by
  unfold State.setHead
  by_cases hj : j = i
  · subst hj
    simp
  · simp [Function.update_of_ne hj]

omit [DecidableEq C] [DecidableEq K] [Fintype C] in
theorem setLen_len (s : State K V C) (i n j : Nat) :
    ((s.setLen i n).shards j).len = Function.update (fun j => (s.shards j).len) i n j := by
  unfold State.setLen
  by_cases hj : j = i
  · subst hj
    simp
  · simp [Function.update_of_ne hj]

omit [DecidableEq C] [DecidableEq K] in
theorem shelf_entries {i : Nat} {p : Pointer K V} (hhead : (s.shards i).head = p) :
    (s.shelf setup).entries i = p.map (·.content) := by
  subst hhead
  rfl

omit [DecidableEq K] in
/-- An entry is linked, and the thread owes its addition. -/
theorem shelf_put {c : C} {p : Phase K V} {i fresh : Nat} {e : CacheEntry K V}
    (hold : Clear setup (s.threads c)) (hp : debt setup p = some (.adding, i)) :
    (State.setThread { s.setHead i (e :: (s.shards i).head) with fresh := fresh } c p).shelf setup =
      (s.shelf setup).put i e.content := by
  have hmove := owed_moved setup s
    { s.setHead i (e :: (s.shards i).head) with fresh := fresh } rfl c p
  refine Shelf.ext (contents_setHead s i _) (funext (setHead_len s i _)) (funext fun j => ?_)
    (funext fun j => ?_) rfl
  · have hmove := hmove .adding j
    rw [hold.owes (by decide), owes_of_some hp] at hmove
    by_cases hj : j = i
    · subst hj
      simpa [Shelf.put, State.shelf] using hmove
    · simpa [Shelf.put, State.shelf, hj] using hmove
  · have hmove := hmove .taking j
    rw [hold.owes (by decide), owes_of_some hp, if_neg (by simp)] at hmove
    exact hmove

omit [DecidableEq K] in
/-- The first entry is taken away, and the thread owes the subtraction. -/
theorem shelf_drop {c : C} {p : Phase K V} {i : Nat} {next : Pointer K V}
    (hold : Clear setup (s.threads c)) (hp : debt setup p = some (.taking, i)) :
    ((s.setHead i next).setThread c p).shelf setup =
      (s.shelf setup).drop i (next.map (·.content)) := by
  have hmove := owed_moved setup s (s.setHead i next) rfl c p
  refine Shelf.ext (contents_setHead s i next) (funext (setHead_len s i next)) (funext fun j => ?_)
    (funext fun j => ?_) rfl
  · have hmove := hmove .adding j
    rw [hold.owes (by decide), owes_of_some hp, if_neg (by simp)] at hmove
    exact hmove
  · have hmove := hmove .taking j
    rw [hold.owes (by decide), owes_of_some hp] at hmove
    by_cases hj : j = i
    · subst hj
      simpa [Shelf.drop, State.shelf] using hmove
    · simpa [Shelf.drop, State.shelf, hj] using hmove

omit [DecidableEq K] in
/-- A linked entry is counted. -/
theorem drifts_counted {c : C} {p : Phase K V} {i : Nat}
    (hold : debt setup (s.threads c) = some (.adding, i)) (hp : debt setup p = none) :
    Drifts (s.shelf setup) (((s.fetchAdd i).setThread c p).shelf setup) := by
  have hmove := owed_moved setup s (s.fetchAdd i) rfl c p
  have hadding (j : Nat) := hmove .adding j
  have htaking (j : Nat) := hmove .taking j
  simp only [owes_of_none hp, owes_of_some hold, Nat.add_zero, true_and, reduceCtorEq, false_and,
    if_false] at hadding htaking
  have hhere := hadding i
  rw [if_pos rfl] at hhere
  have hshelf : ((s.fetchAdd i).setThread c p).shelf setup = { s.shelf setup with
      len := Function.update (s.shelf setup).len i (((s.shelf setup).len i + 1) % 2 ^ 64)
      adding := Function.update (s.shelf setup).adding i
        (owed setup ((s.fetchAdd i).setThread c p) .adding i) } := by
    refine Shelf.ext (contents_setLen s i _) (funext (setLen_len s i _)) (funext fun j => ?_)
      (funext htaking) rfl
    show _ = Function.update (owed setup s .adding) i _ j
    by_cases hj : j = i
    · subst hj
      rw [Function.update_self]
      rfl
    · have hthere := hadding j
      rw [if_neg hj] at hthere
      rw [Function.update_of_ne hj]
      exact hthere
  rw [hshelf]
  exact .counted _ hhere.symm

omit [DecidableEq K] in
/-- An entry that was taken away is no longer counted. -/
theorem drifts_discounted {c : C} {p : Phase K V} {i : Nat}
    (hold : debt setup (s.threads c) = some (.taking, i)) (hp : debt setup p = none) :
    Drifts (s.shelf setup) (((s.fetchSub i).setThread c p).shelf setup) := by
  have hmove := owed_moved setup s (s.fetchSub i) rfl c p
  have hadding (j : Nat) := hmove .adding j
  have htaking (j : Nat) := hmove .taking j
  simp only [owes_of_none hp, owes_of_some hold, Nat.add_zero, true_and, reduceCtorEq, false_and,
    if_false] at hadding htaking
  have hhere := htaking i
  rw [if_pos rfl] at hhere
  have hshelf : ((s.fetchSub i).setThread c p).shelf setup = { s.shelf setup with
      len := Function.update (s.shelf setup).len i
        (((s.shelf setup).len i + (2 ^ 64 - 1)) % 2 ^ 64)
      taking := Function.update (s.shelf setup).taking i
        (owed setup ((s.fetchSub i).setThread c p) .taking i) } := by
    refine Shelf.ext (contents_setLen s i _) (funext (setLen_len s i _)) (funext hadding)
      (funext fun j => ?_) rfl
    show _ = Function.update (owed setup s .taking) i _ j
    by_cases hj : j = i
    · subst hj
      rw [Function.update_self]
      rfl
    · have hthere := htaking j
      rw [if_neg hj] at hthere
      rw [Function.update_of_ne hj]
      exact hthere
  rw [hshelf]
  exact .discounted _ hhere.symm

omit [Fintype C] in
/-- The thread that moved matches, and so do the others. -/
theorem matches_move {s' : State K V C} (hthreads : s'.threads = s.threads) {c : C}
    {p : Phase K V} {status : Status (Call K V) (Reply V)}
    (h : ∀ c, Matches s.now (s.threads c) (t.status c)) (hp : Matches s.now p status) (c' : C) :
    Matches s.now ((s'.setThread c p).threads c') ((t.move c status).status c') := by
  unfold State.setThread Config.move
  rw [hthreads]
  by_cases hc : c' = c
  · subst hc
    simpa using hp
  · simpa [Function.update_of_ne hc] using h c'

omit [Fintype C] in
/-- The thread matches where it was. -/
theorem matches_stay {s' : State K V C} (hthreads : s'.threads = s.threads) {c : C}
    {p : Phase K V} (h : ∀ c, Matches s.now (s.threads c) (t.status c))
    (hp : Matches s.now p (t.status c)) (c' : C) :
    Matches s.now ((s'.setThread c p).threads c') (t.status c') := by
  unfold State.setThread
  rw [hthreads]
  by_cases hc : c' = c
  · subst hc
    simpa using hp
  · simpa [Function.update_of_ne hc] using h c'

/-- **A thread moves on, and nothing is seen of it.** -/
theorem Simulates.stay (h : Simulates setup s t) {c : C} {p : Phase K V}
    (hold : Clear setup (s.threads c)) (hclear : Clear setup p)
    (hp : Matches s.now p (t.status c)) :
    ∃ t', Legal (shelf setup) t [] t' ∧ Simulates setup (s.setThread c p) t' :=
  ⟨t, .nil t, h.state.trans (shelf_setThread hold hclear).symm, matches_stay rfl h.threads hp⟩

/-- **An operation takes effect.** -/
theorem Simulates.take {s' : State K V C} (h : Simulates setup s t) {c : C} {p : Phase K V}
    {call : Call K V} {reply : Reply V} (hc : t.status c = .waiting call)
    (hthreads : s'.threads = s.threads) (hnow : s'.now = s.now)
    (heffect : Permits setup (s.shelf setup) call reply ((s'.setThread c p).shelf setup))
    (hp : Matches s.now p (.answered reply)) :
    ∃ t', Legal (shelf setup) t [] t' ∧ Simulates setup (s'.setThread c p) t' := by
  refine ⟨(t.move c (.answered reply)).become ((s'.setThread c p).shelf setup),
    .take hc ?_ (.nil _),
    rfl, ?_⟩
  · rw [h.state]
    exact heffect
  · intro c'
    have hmove := matches_move (c := c) hthreads h.threads hp c'
    rw [← hnow] at hmove
    exact hmove

/-- **An operation takes effect by what it has read.** -/
theorem Simulates.answer (h : Simulates setup s t) {c : C} {p : Phase K V} {call : Call K V}
    (reply : Reply V) (hc : t.status c = .waiting call) (hold : Clear setup (s.threads c))
    (hclear : Clear setup p)
    (heffect : Permits setup (s.shelf setup) call reply (s.shelf setup))
    (hp : Matches s.now p (.answered reply)) :
    ∃ t', Legal (shelf setup) t [] t' ∧ Simulates setup (s.setThread c p) t' :=
  h.take hc rfl rfl (by rw [shelf_setThread hold hclear]; exact heffect) hp

/-- **A counter follows.** -/
theorem Simulates.settle {s' : State K V C} (h : Simulates setup s t) {c : C} {p : Phase K V}
    (hthreads : s'.threads = s.threads) (hnow : s'.now = s.now)
    (hdrifts : Drifts (s.shelf setup) ((s'.setThread c p).shelf setup))
    (hp : Matches s.now p (t.status c)) :
    ∃ t', Legal (shelf setup) t [] t' ∧ Simulates setup (s'.setThread c p) t' := by
  refine ⟨t.become ((s'.setThread c p).shelf setup), .drift ?_ (.nil _), rfl, fun c' => ?_⟩
  · rw [h.state]
    exact hdrifts
  · have hstay := matches_stay hthreads h.threads hp c'
    rw [← hnow] at hstay
    exact hstay

/-- The step that loads a head for an insertion decides whether its key is there. -/
theorem Simulates.link (h : Simulates setup s t) {c : C} {new : Fresh K V} {call : Call K V}
    (hold : Clear setup (s.threads c)) (hstatus : t.status c = .waiting call)
    (hbrings : Brings s.now call new) :
    ∃ t', Legal (shelf setup) t [] t' ∧
      Simulates setup (s.setThread c (.scanning new (s.shards (setup.hashToShard new.key)).head
        (s.shards (setup.hashToShard new.key)).head)) t' := by
  by_cases hexists : ∃ e ∈ (s.shards (setup.hashToShard new.key)).head, e.key = new.key
  · obtain ⟨op, since⟩ := call
    obtain ⟨-, ttl, rfl, -⟩ := hbrings
    refine h.answer .keyExists hstatus hold (clear_of_pending rfl) ?_ ?_
    · obtain ⟨e, he, hkey⟩ := hexists
      exact ⟨⟨e.content, List.mem_map_of_mem he, hkey⟩, rfl⟩
    · exact (matches_scanning hexists).mpr rfl
  · exact h.stay hold (clear_of_pending rfl)
      ((matches_scanning_not hexists).mpr ⟨call, hstatus, hbrings⟩)

/-- The step that links an entry. -/
theorem Simulates.publish (h : Simulates setup s t) {c : C} {new : Fresh K V} {call : Call K V}
    (hold : Clear setup (s.threads c)) (hstatus : t.status c = .waiting call)
    (hbrings : Brings s.now call new)
    (hnew : ∀ e ∈ (s.shards (setup.hashToShard new.key)).head, e.key ≠ new.key) :
    ∃ t', Legal (shelf setup) t [] t' ∧
      Simulates setup (State.setThread { s.setHead (setup.hashToShard new.key)
        (⟨s.fresh, new.key, new.value, new.expiresAt⟩ ::
          (s.shards (setup.hashToShard new.key)).head) with fresh := s.fresh + 1 } c
        (.counting (setup.hashToShard new.key))) t' := by
  obtain ⟨op, called⟩ := call
  obtain ⟨since, ttl, rfl, hcalled, hsince, hexpires⟩ := hbrings
  refine h.take hstatus rfl rfl ?_ rfl
  refine ⟨?_, since, hcalled, hsince, ?_⟩
  · rintro e he
    obtain ⟨e', he', rfl⟩ := List.mem_map.mp he
    exact hnew e' he'
  · rw [shelf_put hold rfl, ← hexpires]
    rfl

/-- The step that takes the first entry away. -/
theorem Simulates.unlink (h : Simulates setup s t) {c : C} {key : K} {e : CacheEntry K V}
    {next : Pointer K V} (hold : Clear setup (s.threads c)) {since : Nat}
    (hstatus : t.status c = .waiting (.remove key, since)) (hkey : e.key = key)
    (hhead : (s.shards (setup.hashToShard key)).head = e :: next) :
    ∃ t', Legal (shelf setup) t [] t' ∧
      Simulates setup ((s.setHead (setup.hashToShard key) next).setThread c
        (.uncounting (setup.hashToShard key) e.value)) t' := by
  refine h.take hstatus rfl rfl ?_ rfl
  exact ⟨e.content, next.map (·.content), shelf_entries hhead, hkey, rfl, shelf_drop hold rfl⟩

/-- The step of `clear` that takes an entry away. -/
theorem Simulates.popped (h : Simulates setup s t) {c : C} {i since called : Nat}
    {e : CacheEntry K V} {next : Pointer K V} (hold : Clear setup (s.threads c))
    (hstatus : t.status c = .waiting (.clear, called)) (hhead : (s.shards i).head = e :: next) :
    ∃ t', Legal (shelf setup) t [] t' ∧
      Simulates setup ((s.setHead i next).setThread c (.discounting i since)) t' := by
  refine ⟨t.become (((s.setHead i next).setThread c (.discounting i since)).shelf setup),
    .partly hstatus ?_ (.nil _), rfl, ?_⟩
  · rw [h.state]
    exact ⟨i, e.content, next.map (·.content), shelf_entries hhead, shelf_drop hold rfl⟩
  · have hthreads : (s.setHead i next).threads = s.threads := rfl
    exact matches_stay hthreads h.threads
      (show Matches s.now (.discounting i since) (t.status c) from ⟨called, hstatus⟩)

/-- **One atomic step.** -/
theorem act_simulated (hs : Sound setup s) (h : Simulates setup s t) (c : C) :
    ∃ t', Legal (shelf setup) t [] t' ∧ Simulates setup (s.act setup c) t' := by
  have hm := h.threads c
  have hp := hs.passed c
  have hsame : ∀ {i : Nat} {q : Pointer K V}, q ∈ (s.threads c).held →
      samePointer (s.shards i).head q = true → (s.shards i).head = q :=
    fun hq => (hs.samePointer_iff (State.sighted_held hq)).mp
  have hfree : debt setup (s.threads c) = none → Clear setup (s.threads c) := clear_of_none
  have hwaits {i : Nat} : debt setup (s.threads c) = some (.pending, i) →
      Clear setup (s.threads c) := clear_of_pending
  unfold State.act
  split <;> rename_i hc <;> rw [hc] at hm hp hsame
  · exact ⟨t, .nil t, h⟩
  · -- `get` loads the head, which settles what it finds
    obtain ⟨since, hstatus⟩ := hm
    exact h.answer (.got _) hstatus (hfree (by rw [hc]; rfl)) (clear_of_none rfl) ⟨rfl, rfl⟩ rfl
  · exact h.stay (hfree (by rw [hc]; rfl)) (clear_of_none rfl) hm
  · rename_i key e next
    split
    · rename_i hkey
      subst hkey
      rw [Matches, List.map_cons] at hm
      have hfound := lookup_self e.content (next.map (·.content))
      exact h.stay (hfree (by rw [hc]; rfl)) (clear_of_none rfl)
        (hm.trans (congrArg (fun found => Status.answered (Reply.got found)) hfound))
    · rename_i hkey
      refine h.stay (hfree (by rw [hc]; rfl)) (clear_of_none rfl) ?_
      rw [Matches, List.map_cons, lookup_of_ne (show e.content.key ≠ key from hkey)] at hm
      exact hm
  · -- an insert is refused by the counter, or has its deadline from now on
    rename_i key value ttl
    obtain ⟨since, hsince, hstatus⟩ := hm
    split
    · rename_i hfull
      exact h.answer .full hstatus (hfree (by rw [hc]; rfl)) (clear_of_none rfl) ⟨hfull, rfl⟩ rfl
    · exact h.stay (hfree (by rw [hc]; rfl)) (clear_of_pending rfl)
        ⟨_, hstatus, s.now, ttl, rfl, hsince, Nat.le_refl _, rfl⟩
  · obtain ⟨call, hstatus, hbrings⟩ := hm
    exact h.link (hwaits (by rw [hc]; rfl)) hstatus hbrings
  · -- the scan of an insert, whose key decides at once what it will answer
    rw [matches_scanning_not (by rintro ⟨e, he, -⟩; cases he)] at hm
    exact h.stay (hwaits (by rw [hc]; rfl)) (clear_of_pending rfl) hm
  · rename_i new head e next
    split
    · rename_i hkey
      rw [matches_scanning ⟨e, List.mem_cons_self, hkey⟩] at hm
      exact h.stay (hwaits (by rw [hc]; rfl)) (clear_of_none rfl) hm
    · rename_i hkey
      exact h.stay (hwaits (by rw [hc]; rfl)) (clear_of_pending rfl)
        (matches_scanning_cons hkey hm)
  · -- an insert that found no entry publishes its own, unless the head has moved
    rename_i new head
    obtain ⟨call, hstatus, hbrings⟩ := hm
    simp only
    split
    · rename_i hcas
      have hhead := hsame (List.mem_singleton_self head) hcas
      subst hhead
      exact h.publish (hwaits (by rw [hc]; rfl)) hstatus hbrings hp
    · exact h.stay (hwaits (by rw [hc]; rfl)) (clear_of_pending rfl) ⟨call, hstatus, hbrings⟩
  · exact h.settle rfl rfl (drifts_counted (by rw [hc]; rfl) rfl) hm
  · -- a remove looks at the head only
    obtain ⟨since, hstatus⟩ := hm
    split
    · rename_i hhead
      refine h.answer (.removed none) hstatus (hfree (by rw [hc]; rfl)) (clear_of_none rfl)
        ⟨?_, rfl⟩ rfl
      intro e he
      rw [shelf_entries hhead] at he
      cases he
    · rename_i e next hhead
      split
      · exact h.stay (hfree (by rw [hc]; rfl)) (clear_of_none rfl) ⟨since, hstatus⟩
      · rename_i hkey
        refine h.answer (.removed none) hstatus (hfree (by rw [hc]; rfl)) (clear_of_none rfl)
          ⟨?_, rfl⟩ rfl
        intro e' he'
        rw [shelf_entries hhead] at he'
        cases he'
        exact hkey
  · simp only
    split
    · rename_i hcas
      obtain ⟨since, hstatus⟩ := hm
      exact h.unlink (hfree (by rw [hc]; rfl)) hstatus hp
        (hsame (List.mem_singleton_self _) hcas)
    · exact h.stay (hfree (by rw [hc]; rfl)) (clear_of_none rfl) hm
  · exact h.settle rfl rfl (drifts_discounted (by rw [hc]; rfl) rfl) hm
  · -- `clear` goes from shard to shard, and pops one entry at a time
    split
    · split <;> exact h.stay (hfree (by rw [hc]; rfl)) (clear_of_none rfl) hm
    · obtain ⟨called, hstatus⟩ := hm
      exact h.answer .cleared hstatus (hfree (by rw [hc]; rfl)) (clear_of_none rfl) rfl rfl
  · split
    · rename_i hcas
      obtain ⟨called, hstatus⟩ := hm
      exact h.popped (hfree (by rw [hc]; rfl)) hstatus (hsame (List.mem_singleton_self _) hcas)
    · exact h.stay (hfree (by rw [hc]; rfl)) (clear_of_none rfl) hm
  · exact h.settle rfl rfl (drifts_discounted (by rw [hc]; rfl) rfl) hm
  · exact ⟨t, .nil t, h⟩

/-! ## Runs -/

/-- The calls, with their times, and the returns of a step. -/
def seen (s : State K V C) : Event K V C → List (Seen C (Call K V) (Reply V))
  | .call c op =>
    match s.threads c with
    | .idle => [.call c (op, s.now)]
    | _ => []
  | .ret c =>
    match s.threads c with
    | .done reply _ => [.ret c reply]
    | _ => []
  | _ => []

/-- One event. -/
theorem step_simulated (hs : Sound setup s) (h : Simulates setup s t) (ev : Event K V C) :
    ∃ t', Legal (shelf setup) t (seen s ev) t' ∧ Simulates setup (s.step setup ev) t' := by
  cases ev with
  | call c op =>
    have hm := h.threads c
    cases hc : s.threads c with
    | idle =>
      rw [hc] at hm
      simp only [State.step, seen, hc]
      have hclear : Clear setup (s.enter op) := by
        cases op <;> exact clear_of_none rfl
      refine ⟨t.move c (.waiting (op, s.now)), .call hm (.nil _),
        h.state.trans (shelf_setThread (clear_of_none (by rw [hc]; rfl)) hclear).symm,
        matches_move rfl h.threads ?_⟩
      cases op with
      | insert key value ttl => exact ⟨s.now, Nat.le_refl _, rfl⟩
      | _ => exact ⟨s.now, rfl⟩
    | _ =>
      simp only [State.step, seen, hc]
      exact ⟨t, .nil t, h⟩
  | act c => exact act_simulated hs h c
  | ret c =>
    have hm := h.threads c
    cases hc : s.threads c with
    | done reply checkedAt =>
      rw [hc] at hm
      simp only [State.step, seen, hc]
      exact ⟨t.move c .idle, .ret hm (.nil _),
        h.state.trans (shelf_setThread (clear_of_none (by rw [hc]; rfl)) (clear_of_none rfl)).symm,
        matches_move rfl h.threads rfl⟩
    | _ =>
      simp only [State.step, seen, hc]
      exact ⟨t, .nil t, h⟩
  | tick nanos =>
    refine ⟨t.become (State.shelf setup { s with now := s.now + nanos }), .drift ?_ (.nil _),
      rfl, fun c => (h.threads c).later (Nat.le_add_right _ _)⟩
    rw [h.state]
    exact .tick (s.shelf setup) nanos

omit [DecidableEq C] in
theorem simulates_new (setup : Setup K) :
    Simulates setup (State.new : State K V C) (Config.start Shelf.new) :=
  ⟨Shelf.ext rfl rfl (funext fun i => (owed_new setup .adding i).symm)
    (funext fun i => (owed_new setup .taking i).symm) rfl, fun _ => rfl⟩

omit [Fintype C] in
/-- A step moves its own thread only. -/
theorem act_threads (s : State K V C) {c c' : C} (hc : c' ≠ c) :
    (s.act setup c).threads c' = s.threads c' := by
  have hset : ∀ (s' : State K V C) p, (s'.setThread c p).threads c' = s'.threads c' :=
    fun s' p => Function.update_of_ne hc _ _
  unfold State.act
  split
  · rfl
  · exact hset _ _
  · exact hset _ _
  · split <;> exact hset _ _
  · split <;> exact hset _ _
  · exact hset _ _
  · exact hset _ _
  · split <;> exact hset _ _
  · simp only
    split <;> exact hset _ _
  · exact hset _ _
  · split
    · exact hset _ _
    · split <;> exact hset _ _
  · simp only
    split <;> exact hset _ _
  · exact hset _ _
  · split
    · split <;> exact hset _ _
    · exact hset _ _
  · split <;> exact hset _ _
  · exact hset _ _
  · rfl

omit [Fintype C] in
/-- A `get` that has found its key was looking at the entry when it read the clock. -/
theorem step_got {ev : Event K V C} {c : C} {found : V × Option Nat} {checkedAt : Nat}
    (h : (s.step setup ev).threads c = .done (.got (some found)) checkedAt) :
    s.threads c = .done (.got (some found)) checkedAt ∨ s.now = checkedAt ∧ ∃ key e next,
      s.threads c = .reading key (e :: next) ∧ e.key = key ∧ found = (e.value, e.expiresAt) := by
  have hset (s' : State K V C) (p : Phase K V) : (s'.setThread c p).threads c = p :=
    Function.update_self _ _ _
  cases ev with
  | call c' op =>
    unfold State.step at h
    dsimp only at h
    split at h
    · by_cases hc : c = c'
      · subst hc
        rw [hset] at h
        cases op <;> cases h
      · exact Or.inl ((Function.update_of_ne hc _ _).symm.trans h)
    · exact Or.inl h
  | act c' =>
    by_cases hc : c = c'
    · subst hc
      change (s.act setup c).threads c = _ at h
      unfold State.act at h
      split at h <;> rename_i hphase
      case h_4 =>
        split at h
        · rename_i hkey
          rw [hset] at h
          cases h
          exact Or.inr ⟨rfl, _, _, _, hphase, hkey, rfl⟩
        · rw [hset] at h
          cases h
      case h_1 => exact Or.inl h
      case h_17 => exact Or.inl h
      all_goals
        try simp only at h
        repeat' split at h
        all_goals
          rw [hset] at h
          cases h
    · exact Or.inl ((act_threads s hc).symm.trans h)
  | ret c' =>
    unfold State.step at h
    dsimp only at h
    split at h
    · by_cases hc : c = c'
      · subst hc
        rw [hset] at h
        cases h
      · exact Or.inl ((Function.update_of_ne hc _ _).symm.trans h)
    · exact Or.inl h
  | tick nanos => exact Or.inl h

omit [Fintype C] in
/-- **The clock that a `get` has read.** -/
theorem checked_run (setup : Setup K) (es : List (Event K V C)) {c : C}
    {found : V × Option Nat} {checkedAt : Nat}
    (h : (after setup es).threads c = .done (.got (some found)) checkedAt) :
    ∃ before, before <+: es ∧ (after setup before).now = checkedAt ∧ ∃ key e next,
      (after setup before).threads c = .reading key (e :: next) ∧ e.key = key ∧
        found = (e.value, e.expiresAt) := by
  induction es using List.reverseRecOn with
  | nil => cases h
  | append_singleton es ev ih =>
    rw [after, run_append] at h
    rcases step_got h with h | ⟨hnow, hreading⟩
    · obtain ⟨before, hbefore, hfound⟩ := ih h
      exact ⟨before, hbefore.trans (List.prefix_append _ _), hfound⟩
    · exact ⟨es, List.prefix_append _ _, hnow, hreading⟩

/-- **Every interleaving is linearizable**, and a `get` that found its key returns its value unless
the deadline had passed when it read the clock. -/
theorem linearizable (setup : Setup K) (es : List (Event K V C)) :
    Linearizable (shelf setup) Shelf.new (trace (State.step setup) seen State.new es) ∧
      ∀ c value deadline checkedAt,
        (after setup es).threads c = .done (.got (some (value, some deadline))) checkedAt →
        ∃ before, before <+: es ∧ (∃ key e next,
          (after setup before).threads c = .reading key (e :: next) ∧ e.key = key ∧
            e.value = value ∧ e.expiresAt = some deadline) ∧
          (Reply.value (some (value, some deadline)) checkedAt = none ↔
            deadline < (after setup before).now) := by
  have hstep : ∀ (s : State K V C) t ev, Sound setup s ∧ Simulates setup s t →
      ∃ t', Legal (shelf setup) t (seen s ev) t' ∧
        (Sound setup (s.step setup ev) ∧ Simulates setup (s.step setup ev) t') := by
    rintro s t ev ⟨hs, h⟩
    obtain ⟨t', hlegal, h'⟩ := step_simulated hs h ev
    exact ⟨t', hlegal, step_sound hs ev, h'⟩
  refine ⟨linearizable_of_simulation hstep ⟨sound_new setup, simulates_new setup⟩ es, ?_⟩
  intro c value deadline checkedAt hc
  obtain ⟨before, hbefore, hnow, key, e, next, hreading, hkey, hfound⟩ := checked_run setup es hc
  obtain ⟨rfl, hexpires⟩ := Prod.mk.inj hfound
  refine ⟨before, hbefore, ⟨key, e, next, hreading, hkey, rfl, hexpires.symm⟩, ?_⟩
  rw [hnow]
  unfold Reply.value
  simp only
  split
  · rename_i hlate
    exact ⟨fun _ => hlate, fun _ => rfl⟩
  · rename_i hlate
    exact ⟨fun h => (by cases h), fun h => absurd h hlate⟩

end

end TitanDns.LockFree
