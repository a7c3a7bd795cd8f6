import TitanDns.Core.Linearization
import Mathlib.Data.Nat.ModEq

/-!
# The counters of `LockFreeCache`

The counter of a shard is moved after the list, in a step of its own, and wraps around below zero.

* `Counted` — **the counter is the length of the list, but for those threads, modulo 2^64**; and the
  list outgrows the capacity by less than one entry for each thread.

Principal results: `counted_run` — in every interleaving **a shard holds fewer entries than its
capacity and the number of threads together, and its counter is exact when no thread is between list
and counter**.
-/

namespace TitanDns.LockFree

open Run Tally

variable {K V C : Type} [Fintype C]

/-- The counters and the room. -/
structure Counted (setup : Setup K) (s : State K V C) : Prop where
  counter : ∀ i, (s.shards i).len + owed setup s .adding i ≡
    (s.shards i).head.length + owed setup s .taking i [MOD 2 ^ 64]
  small : ∀ i, (s.shards i).len < 2 ^ 64
  room : ∀ i, (s.shards i).head.length + owed setup s .pending i <
    setup.capacityPerShard + Fintype.card C ∨
      (s.shards i).head.length + owed setup s .pending i = 0

variable {setup : Setup K} {s : State K V C}

theorem counted_new (setup : Setup K) : Counted setup (State.new : State K V C) where
  counter := by
    intro i
    rw [owed_new, owed_new]
    rfl
  small := fun _ => Nat.two_pow_pos 64
  room := by
    intro i
    rw [owed_new]
    exact Or.inr rfl

theorem owes_le (setup : Setup K) (i : Nat) (p : Phase K V) :
    owes setup .pending i p + owes setup .adding i p + owes setup .taking i p ≤ 1 := by
  unfold owes
  rcases debt setup p with _ | ⟨d, j⟩
  · simp
  · cases d <;> simp only [Option.some.injEq, Prod.mk.injEq, reduceCtorEq, false_and, if_false] <;>
      split <;> omega

/-- All threads together, where one of them owes nothing. -/
theorem owed_lt {c : C} (hc : debt setup (s.threads c) = none) (i : Nat) :
    owed setup s .pending i + owed setup s .adding i + owed setup s .taking i <
      Fintype.card C := by
  have hzero : ∀ d, owes setup d i (s.threads c) = 0 := by
    intro d
    unfold owes
    rw [hc]
    rfl
  have hlt := @tally_lt_card C (Phase K V) _ (fun p => owes setup .pending i p +
    owes setup .adding i p + owes setup .taking i p) (owes_le setup i) s.threads c
    (by simp only [hzero])
  rw [tally_add, tally_add] at hlt
  exact hlt

section
variable [DecidableEq C]

/-- **A thread moves on, and the shards move by the difference of what it owes.** -/
theorem Counted.move {s' : State K V C} (h : Counted setup s) {c : C} {p : Phase K V}
    (hthreads : s'.threads = Function.update s.threads c p)
    (hcounter : ∀ i,
      (s'.shards i).len + owes setup .adding i p + owes setup .taking i (s.threads c) +
        (s.shards i).head.length ≡
      (s'.shards i).head.length + owes setup .taking i p + owes setup .adding i (s.threads c) +
        (s.shards i).len [MOD 2 ^ 64])
    (hsmall : ∀ i, (s'.shards i).len < 2 ^ 64)
    (hroom : ∀ i, (s'.shards i).head.length + owes setup .pending i p ≤
      (s.shards i).head.length + owes setup .pending i (s.threads c)) : Counted setup s' := by
  have howed : ∀ d i, owed setup s' d i + owes setup d i (s.threads c) =
      owed setup s d i + owes setup d i p := by
    intro d i
    have hmove := owed_setThread setup s c p d i
    unfold State.setThread at hmove
    rw [← hthreads] at hmove
    exact hmove
  refine ⟨fun i => ?_, hsmall, fun i => ?_⟩
  · have hadd := howed .adding i
    have htake := howed .taking i
    -- the balance before and that of the step, added up
    have hsum := (hcounter i).add (h.counter i)
    refine Nat.ModEq.add_right_cancel' ((s.shards i).len + (s.shards i).head.length +
      owes setup .adding i (s.threads c) + owes setup .taking i (s.threads c)) ?_
    convert hsum using 1 <;> omega
  · have hpend := howed .pending i
    have hle := hroom i
    have hbound := h.room i
    omega

/-- A thread moves on and owes what it owed, or no longer waits for room. -/
theorem Counted.stay (h : Counted setup s) {c : C} {p : Phase K V}
    (hp : debt setup p = debt setup (s.threads c) ∨
      debt setup p = none ∧ ∃ i, debt setup (s.threads c) = some (.pending, i)) :
    Counted setup (s.setThread c p) := by
  have hmove : ∀ d i, owes setup d i p ≤ owes setup d i (s.threads c) ∧
      (d ≠ .pending → owes setup d i p = owes setup d i (s.threads c)) := by
    intro d i
    rcases hp with hp | ⟨hp, j, hc⟩
    · unfold owes
      rw [hp]
      exact ⟨Nat.le_refl _, fun _ => rfl⟩
    · rw [owes_of_none hp, owes_of_some hc]
      exact ⟨Nat.zero_le _, fun hd => (if_neg fun heq => hd heq.1).symm⟩
  refine h.move rfl (fun i => ?_) h.small fun i => ?_
  · rw [(hmove .adding i).2 (by decide), (hmove .taking i).2 (by decide)]
    have heq : (s.shards i).len + owes setup .adding i (s.threads c) +
        owes setup .taking i (s.threads c) + (s.shards i).head.length =
          (s.shards i).head.length + owes setup .taking i (s.threads c) +
            owes setup .adding i (s.threads c) + (s.shards i).len := by omega
    exact congrArg (· % 2 ^ 64) heq
  · exact Nat.add_le_add_left (hmove .pending i).1 _

/-- **The check of the capacity.**  The counter is below it, and so is the list but for those that
have linked an entry and not counted it. -/
theorem Counted.check (h : Counted setup s)
    (hsize : setup.capacityPerShard + 2 * Fintype.card C ≤ 2 ^ 64) {c : C} {key : K} {value : V}
    {ttl deadline : Option Nat} (hc : s.threads c = .inserting key value ttl)
    (hlen : (s.shards (setup.hashToShard key)).len < setup.capacityPerShard) :
    Counted setup (s.setThread c (.linking ⟨key, value, deadline⟩)) := by
  have hnone : debt setup (s.threads c) = none := by rw [hc]; rfl
  have hadd := owed_setThread setup s c (.linking ⟨key, value, deadline⟩) .adding
  have htake := owed_setThread setup s c (.linking ⟨key, value, deadline⟩) .taking
  have hpend := owed_setThread setup s c (.linking ⟨key, value, deadline⟩) .pending
  have howes : ∀ d i, owes setup d i (s.threads c) = 0 := by
    intro d i
    unfold owes
    rw [hnone]
    rfl
  have hnew : ∀ i, owes setup .adding i (.linking ⟨key, value, deadline⟩ : Phase K V) = 0 ∧
      owes setup .taking i (.linking ⟨key, value, deadline⟩ : Phase K V) = 0 := by
    intro i
    constructor <;> exact if_neg (by simp [debt])
  refine ⟨fun i => ?_, h.small, fun i => ?_⟩
  · have hadd := hadd i
    have htake := htake i
    rw [howes, (hnew i).1, Nat.add_zero, Nat.add_zero] at hadd
    rw [howes, (hnew i).2, Nat.add_zero, Nat.add_zero] at htake
    rw [hadd, htake]
    exact h.counter i
  · have hpend := hpend i
    rw [howes, Nat.add_zero] at hpend
    have hlt := owed_lt hnone i
    have hroom := h.room i
    change (s.shards i).head.length + owed setup (s.setThread c _) .pending i < _ ∨
      (s.shards i).head.length + owed setup (s.setThread c _) .pending i = 0
    rw [hpend]
    unfold owes
    split
    · rename_i hdebt
      obtain rfl : setup.hashToShard key = i := by simpa [debt] using hdebt
      -- both sides of the balance are small, so they are equal
      have hbalance : (s.shards (setup.hashToShard key)).len +
          owed setup s .adding (setup.hashToShard key) =
          (s.shards (setup.hashToShard key)).head.length +
            owed setup s .taking (setup.hashToShard key) :=
        Nat.ModEq.eq_of_lt_of_lt (h.counter _) (by omega) (by omega)
      omega
    · exact hroom

/-- **A thread moves on at one shard.** -/
theorem Counted.at_shard {s' : State K V C} (h : Counted setup s) {c : C} {p : Phase K V} {i : Nat}
    (hthreads : s'.threads = Function.update s.threads c p)
    (hothers : ∀ j, j ≠ i → s'.shards j = s.shards j)
    (hp : ∀ d j, j ≠ i → owes setup d j p = owes setup d j (s.threads c))
    (hcounter : (s'.shards i).len + owes setup .adding i p + owes setup .taking i (s.threads c) +
        (s.shards i).head.length ≡
      (s'.shards i).head.length + owes setup .taking i p + owes setup .adding i (s.threads c) +
        (s.shards i).len [MOD 2 ^ 64])
    (hsmall : (s'.shards i).len < 2 ^ 64)
    (hroom : (s'.shards i).head.length + owes setup .pending i p ≤
      (s.shards i).head.length + owes setup .pending i (s.threads c)) : Counted setup s' := by
  refine h.move hthreads (fun j => ?_) (fun j => ?_) fun j => ?_
  · by_cases hj : j = i
    · exact hj ▸ hcounter
    · rw [hothers j hj, hp _ j hj, hp _ j hj]
      have heq : (s.shards j).len + owes setup .adding j (s.threads c) +
          owes setup .taking j (s.threads c) + (s.shards j).head.length =
            (s.shards j).head.length + owes setup .taking j (s.threads c) +
              owes setup .adding j (s.threads c) + (s.shards j).len := by omega
      exact congrArg (· % 2 ^ 64) heq
  · by_cases hj : j = i
    · exact hj ▸ hsmall
    · rw [hothers j hj]
      exact h.small j
  · by_cases hj : j = i
    · exact hj ▸ hroom
    · rw [hothers j hj, hp _ j hj]

/-- An entry is linked. -/
theorem Counted.link (h : Counted setup s) {c : C} {p : Phase K V} {i : Nat}
    {e : CacheEntry K V} (hc : debt setup (s.threads c) = some (.pending, i))
    (hp : debt setup p = some (.adding, i)) {fresh : Nat} :
    Counted setup (State.setThread { s.setHead i (e :: (s.shards i).head) with fresh := fresh } c
      p) := by
  refine @Counted.at_shard K V C _ setup s _ _ h c p i rfl (fun j hj => ?_) (fun d j hj => ?_) ?_ ?_
    ?_
  · exact Function.update_of_ne hj _ _
  · rw [owes_of_some hp, owes_of_some hc, if_neg fun heq => hj heq.2, if_neg fun heq => hj heq.2]
  all_goals
    simp only [State.setThread, State.setHead, Function.update_self, owes_of_some hp,
      owes_of_some hc, List.length_cons, reduceCtorEq, false_and, and_self, if_true, if_false]
  · have heq : (s.shards i).len + 1 + 0 + (s.shards i).head.length =
        (s.shards i).head.length + 1 + 0 + 0 + (s.shards i).len := by omega
    exact congrArg (· % 2 ^ 64) heq
  · exact h.small i
  · omega

/-- A linked entry is counted. -/
theorem Counted.add (h : Counted setup s) {c : C} {p : Phase K V} {i : Nat}
    (hc : debt setup (s.threads c) = some (.adding, i)) (hp : debt setup p = none) :
    Counted setup ((s.fetchAdd i).setThread c p) := by
  refine @Counted.at_shard K V C _ setup s _ _ h c p i rfl (fun j hj => ?_) (fun d j hj => ?_) ?_ ?_
    ?_
  · exact Function.update_of_ne hj _ _
  · rw [owes_of_none hp, owes_of_some hc, if_neg fun heq => hj heq.2]
  all_goals
    simp only [State.setThread, State.fetchAdd, State.setLen, Function.update_self,
      owes_of_none hp, owes_of_some hc, reduceCtorEq, false_and, and_self, if_true, if_false]
  · have hmod := (Nat.mod_modEq ((s.shards i).len + 1) (2 ^ 64)).add_right (s.shards i).head.length
    convert hmod using 1 <;> omega
  · exact Nat.mod_lt _ (Nat.two_pow_pos 64)
  · omega

/-- An entry is taken away. -/
theorem Counted.pop (h : Counted setup s) {c : C} {p : Phase K V} {i : Nat}
    {e : CacheEntry K V} {next : Pointer K V} (hhead : (s.shards i).head = e :: next)
    (hc : debt setup (s.threads c) = none) (hp : debt setup p = some (.taking, i)) :
    Counted setup ((s.setHead i next).setThread c p) := by
  refine @Counted.at_shard K V C _ setup s _ _ h c p i rfl (fun j hj => ?_) (fun d j hj => ?_) ?_ ?_
    ?_
  · exact Function.update_of_ne hj _ _
  · rw [owes_of_some hp, owes_of_none hc, if_neg fun heq => hj heq.2]
  all_goals
    simp only [State.setThread, State.setHead, Function.update_self, owes_of_some hp,
      owes_of_none hc, hhead, List.length_cons, reduceCtorEq, false_and, and_self, if_true,
      if_false]
  · have heq : (s.shards i).len + 0 + 0 + (next.length + 1) =
        next.length + 1 + 0 + (s.shards i).len := by omega
    exact congrArg (· % 2 ^ 64) heq
  · exact h.small i
  · omega

/-- An entry that was taken away is no longer counted. -/
theorem Counted.sub (h : Counted setup s) {c : C} {p : Phase K V} {i : Nat}
    (hc : debt setup (s.threads c) = some (.taking, i)) (hp : debt setup p = none) :
    Counted setup ((s.fetchSub i).setThread c p) := by
  refine @Counted.at_shard K V C _ setup s _ _ h c p i rfl (fun j hj => ?_) (fun d j hj => ?_) ?_ ?_
    ?_
  · exact Function.update_of_ne hj _ _
  · rw [owes_of_none hp, owes_of_some hc, if_neg fun heq => hj heq.2]
  all_goals
    simp only [State.setThread, State.fetchSub, State.setLen, Function.update_self,
      owes_of_none hp, owes_of_some hc, reduceCtorEq, false_and, and_self, if_true, if_false]
  · have hmod := (Nat.mod_modEq ((s.shards i).len + (2 ^ 64 - 1)) (2 ^ 64)).add_right
      ((s.shards i).head.length + 1)
    have hround : (s.shards i).len + (2 ^ 64 - 1) + ((s.shards i).head.length + 1) ≡
        (s.shards i).head.length + (s.shards i).len [MOD 2 ^ 64] := by
      have heq : (s.shards i).len + (2 ^ 64 - 1) + ((s.shards i).head.length + 1) =
          (s.shards i).head.length + (s.shards i).len + 2 ^ 64 := by omega
      rw [heq]
      exact Nat.add_mod_right _ _
    convert hmod.trans hround using 1 <;> omega
  · exact Nat.mod_lt _ (Nat.two_pow_pos 64)
  · omega

variable [DecidableEq K]

/-- **One atomic step.** -/
theorem act_counted (hs : Sound setup s) (h : Counted setup s)
    (hsize : setup.capacityPerShard + 2 * Fintype.card C ≤ 2 ^ 64) (c : C) :
    Counted setup (s.act setup c) := by
  have hsame : ∀ {i : Nat} {q : Pointer K V}, q ∈ (s.threads c).held →
      samePointer (s.shards i).head q = true → (s.shards i).head = q :=
    fun hq => (hs.samePointer_iff (State.sighted_held hq)).mp
  unfold State.act
  split <;> rename_i hc
  · exact h
  · exact h.stay (Or.inl (by rw [hc]; rfl))
  · exact h.stay (Or.inl (by rw [hc]; rfl))
  · split <;> exact h.stay (Or.inl (by rw [hc]; rfl))
  · split
    · exact h.stay (Or.inl (by rw [hc]; rfl))
    · rename_i hlen
      exact h.check hsize hc (Nat.lt_of_not_le hlen)
  · exact h.stay (Or.inl (by rw [hc]; rfl))
  · exact h.stay (Or.inl (by rw [hc]; rfl))
  · split
    · exact h.stay (Or.inr ⟨rfl, _, by rw [hc]; rfl⟩)
    · exact h.stay (Or.inl (by rw [hc]; rfl))
  · rename_i new head
    simp only
    split
    · rename_i hcas
      rw [hc] at hsame
      have hhead := hsame (List.mem_singleton_self head) hcas
      subst hhead
      exact h.link (by rw [hc]; rfl) rfl
    · exact h.stay (Or.inl (by rw [hc]; rfl))
  · exact h.add (by rw [hc]; rfl) rfl
  · split
    · exact h.stay (Or.inl (by rw [hc]; rfl))
    · split <;> exact h.stay (Or.inl (by rw [hc]; rfl))
  · rename_i key e next
    simp only
    split
    · rename_i hcas
      rw [hc] at hsame
      exact h.pop (hsame (List.mem_singleton_self _) hcas) (by rw [hc]; rfl) rfl
    · exact h.stay (Or.inl (by rw [hc]; rfl))
  · exact h.sub (by rw [hc]; rfl) rfl
  · split
    · split <;> exact h.stay (Or.inl (by rw [hc]; rfl))
    · exact h.stay (Or.inl (by rw [hc]; rfl))
  · rename_i i since e next
    split
    · rename_i hcas
      rw [hc] at hsame
      exact h.pop (hsame (List.mem_singleton_self _) hcas) (by rw [hc]; rfl) rfl
    · exact h.stay (Or.inl (by rw [hc]; rfl))
  · exact h.sub (by rw [hc]; rfl) rfl
  · exact h

/-! ## Runs -/

/-- One event. -/
theorem step_counted (hs : Sound setup s) (h : Counted setup s)
    (hsize : setup.capacityPerShard + 2 * Fintype.card C ≤ 2 ^ 64) (ev : Event K V C) :
    Counted setup (s.step setup ev) := by
  cases ev with
  | call c op =>
    unfold State.step
    simp only
    split <;> rename_i hc
    · refine h.stay (Or.inl ?_)
      rw [hc]
      cases op <;> rfl
    · exact h
  | act c => exact act_counted hs h hsize c
  | ret c =>
    unfold State.step
    simp only
    split <;> rename_i hc
    · exact h.stay (Or.inl (by rw [hc]; rfl))
    · exact h
  | tick nanos => exact ⟨h.counter, h.small, h.room⟩

theorem counted_of_size (hsize : setup.capacityPerShard + 2 * Fintype.card C ≤ 2 ^ 64)
    (es : List (Event K V C)) : Counted setup (after setup es) := by
  induction es using List.reverseRecOn with
  | nil => exact counted_new setup
  | append_singleton es ev ih =>
    rw [after, run_append]
    exact step_counted (sound_run setup es) ih hsize ev

omit [DecidableEq C] [DecidableEq K] in
/-- `len` and the entries there are. -/
theorem Counted.len_eq (h : Counted setup s)
    (hsize : setup.capacityPerShard + 2 * Fintype.card C ≤ 2 ^ 64) {i : Nat}
    (hadd : owed setup s .adding i = 0) (htake : owed setup s .taking i = 0) :
    (s.shards i).len = (s.shards i).head.length := by
  have hcounter := h.counter i
  have hroom := h.room i
  have hpos := Nat.two_pow_pos 64
  rw [hadd, htake] at hcounter
  exact hcounter.eq_of_lt_of_lt (h.small i) (by omega)

/-- **Capacity and counters** of a cache made for any capacity, used by any number of threads that
there can be, in every interleaving. -/
theorem counted_run (hash : K → Nat) (totalCapacity : Nat) (htotal : totalCapacity < 2 ^ 64 - 63)
    (hthreads : Fintype.card C < 2 ^ 62) (es : List (Event K V C)) (i : Nat) :
    let setup := Setup.new hash totalCapacity
    let s := after setup es
    (s.shards i).head.length ≤ (totalCapacity + 63) / 64 + Fintype.card C - 1 ∧
      (s.shards i).len + owed setup s .adding i ≡
        (s.shards i).head.length + owed setup s .taking i [MOD 2 ^ 64] ∧
      (owed setup s .adding i = 0 → owed setup s .taking i = 0 →
        (s.shards i).len = (s.shards i).head.length) := by
  intro setup s
  have hsize : setup.capacityPerShard + 2 * Fintype.card C ≤ 2 ^ 64 := by
    change (totalCapacity + 63) / 64 + 2 * Fintype.card C ≤ 2 ^ 64
    omega
  have h : Counted setup s := counted_of_size hsize es
  refine ⟨?_, h.counter i, h.len_eq hsize⟩
  have hroom := h.room i
  change _ < (totalCapacity + 63) / 64 + Fintype.card C ∨ _ at hroom
  omega

end

/-- A key is inserted and removed before it is counted; then another insertion is refused. -/
def lagging : List (Event Nat Nat (Fin 3)) :=
  .call 0 (.insert 0 7 none) :: List.replicate 4 (.act 0) ++
    .call 1 (.remove 0) :: List.replicate 3 (.act 1) ++ [.call 2 (.insert 0 8 none), .act 2]

/-- The counter is below zero, the shard is empty, and there is room for ten entries. -/
theorem counted_run_lagging :
    let s := after (Setup.new (fun key => key) 640) lagging
    ((s.shards 0).len = 2 ^ 64 - 1 ∧ (s.shards 0).head = [] ∧ s.threads 2 = .done .full 0) ∧
      (s.shards 0).head.length ≤ (640 + 63) / 64 + Fintype.card (Fin 3) - 1 :=
  ⟨⟨rfl, rfl, rfl⟩, (counted_run (fun key => key) 640 (by decide) (by decide) lagging 0).1⟩

end TitanDns.LockFree
