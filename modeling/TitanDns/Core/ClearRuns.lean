import TitanDns.Core.Linearization
import Mathlib.Data.List.Induction

/-!
# `clear` among other threads

`clear` empties one shard after the other while other threads go on inserting.

* `Grows` — what any atomic step leaves: entries that were there, and entries with new addresses.
* `Purging` — **the shards that a `clear` has left behind hold only entries that came after its
  call.**

Principal result: `clear_removes` — **what was in the cache when `clear` was called is gone when it
returns**, whatever the other threads do.
-/

namespace TitanDns.LockFree

open Run

variable {K V C : Type} {setup : Setup K} {s s' : State K V C}

/-- Whatever is linked was linked before, or has an address that was not given out before. -/
structure Grows (s s' : State K V C) : Prop where
  fresh : s.fresh ≤ s'.fresh
  entries : ∀ j, ∀ e ∈ (s'.shards j).head, e ∈ (s.shards j).head ∨ s.fresh ≤ e.address

theorem Grows.refl (s : State K V C) : Grows s s := ⟨Nat.le_refl _, fun _ _ he => Or.inl he⟩

theorem Grows.setLen (s : State K V C) (i n : Nat) : Grows s (s.setLen i n) where
  fresh := Nat.le_refl _
  entries := by
    intro j e he
    rw [State.setLen_head] at he
    exact Or.inl he

theorem Grows.pop {i : Nat} {e : CacheEntry K V} {next : Pointer K V}
    (hhead : (s.shards i).head = e :: next) : Grows s (s.setHead i next) where
  fresh := Nat.le_refl _
  entries := by
    intro j e' he'
    rw [State.setHead_head] at he'
    split at he'
    · rename_i hj
      exact Or.inl (hj ▸ hhead ▸ List.mem_cons_of_mem e he')
    · exact Or.inl he'

theorem Grows.push {i : Nat} {e : CacheEntry K V} (he : e.address = s.fresh) :
    Grows s { s.setHead i (e :: (s.shards i).head) with fresh := s.fresh + 1 } where
  fresh := Nat.le_succ _
  entries := by
    intro j e' he'
    change e' ∈ ((s.setHead i (e :: (s.shards i).head)).shards j).head at he'
    rw [State.setHead_head] at he'
    split at he'
    · rename_i hj
      rcases List.mem_cons.mp he' with rfl | he'
      · exact Or.inr (Nat.le_of_eq he.symm)
      · exact Or.inl (hj ▸ he')
    · exact Or.inl he'

section
variable [DecidableEq C]

theorem Grows.thread (h : Grows s s') (c : C) (p : Phase K V) : Grows s (s'.setThread c p) :=
  ⟨h.fresh, h.entries⟩

variable [DecidableEq K]

/-- **One atomic step of any thread.** -/
theorem act_grows (hs : Sound setup s) (c : C) : Grows s (s.act setup c) := by
  have hsame : ∀ {i : Nat} {q : Pointer K V}, q ∈ (s.threads c).held →
      samePointer (s.shards i).head q = true → (s.shards i).head = q :=
    fun hq => (hs.samePointer_iff (State.sighted_held hq)).mp
  have hstay : ∀ p, Grows s (s.setThread c p) := fun p => (Grows.refl s).thread c p
  unfold State.act
  split <;> rename_i hc
  · exact Grows.refl s
  · exact hstay _
  · exact hstay _
  · split <;> exact hstay _
  · split <;> exact hstay _
  · exact hstay _
  · exact hstay _
  · split <;> exact hstay _
  · rename_i new head
    simp only
    split
    · rename_i hcas
      rw [hc] at hsame
      have hhead := hsame (List.mem_singleton_self head) hcas
      subst hhead
      exact (@Grows.push K V C s _ ⟨s.fresh, new.key, new.value, new.expiresAt⟩ rfl).thread c _
    · exact hstay _
  · exact (Grows.setLen s _ _).thread c _
  · split
    · exact hstay _
    · split <;> exact hstay _
  · simp only
    split
    · rename_i hcas
      rw [hc] at hsame
      exact (Grows.pop (hsame (List.mem_singleton_self _) hcas)).thread c _
    · exact hstay _
  · exact (Grows.setLen s _ _).thread c _
  · split
    · split <;> exact hstay _
    · exact hstay _
  · split
    · rename_i hcas
      rw [hc] at hsame
      exact (Grows.pop (hsame (List.mem_singleton_self _) hcas)).thread c _
    · exact hstay _
  · exact (Grows.setLen s _ _).thread c _
  · exact Grows.refl s

end

/-! ## A `clear` on its way -/

/-- The shard holds only entries with addresses from `since` on. -/
def Purged (s : State K V C) (since j : Nat) : Prop := ∀ e ∈ (s.shards j).head, since ≤ e.address

/-- The thread is clearing shard `i`, or has cleared all. -/
inductive AtShard (since i : Nat) : Phase K V → Prop
  | clearing : AtShard since i (.clearing i since)
  | popping (e : CacheEntry K V) (next : Pointer K V) : AtShard since i (.popping i since e next)
  | discounting : AtShard since i (.discounting i since)
  | done (checkedAt : Nat) (hi : NUM_SHARDS ≤ i) : AtShard since i (.done .cleared checkedAt)

/-- The invariant of a `clear`. -/
def Purging (s : State K V C) (c : C) (since : Nat) : Prop :=
  since ≤ s.fresh ∧ ∃ i, AtShard since i (s.threads c) ∧ ∀ j < i, Purged s since j

theorem Purged.grow {since j : Nat} (h : Purged s since j) (hfresh : since ≤ s.fresh)
    (hg : Grows s s') : Purged s' since j := by
  intro e he
  rcases hg.entries j e he with he | he
  · exact h e he
  · exact Nat.le_trans hfresh he

/-- What other threads do. -/
theorem Purging.grow {c : C} {since : Nat} (h : Purging s c since) (hg : Grows s s')
    (hthread : s'.threads c = s.threads c) : Purging s' c since := by
  obtain ⟨hfresh, i, hat, hpurged⟩ := h
  exact ⟨Nat.le_trans hfresh hg.fresh, i, hthread ▸ hat, fun j hj => (hpurged j hj).grow hfresh hg⟩

variable [DecidableEq C] [DecidableEq K]

/-- **What the `clear` itself does.** -/
theorem Purging.act {c : C} {since : Nat} (hs : Sound setup s) (h : Purging s c since) :
    Purging (s.act setup c) c since := by
  have hg := act_grows hs c
  obtain ⟨hfresh, i, hat, hpurged⟩ := h
  have hkept : ∀ j < i, Purged (s.act setup c) since j :=
    fun j hj => (hpurged j hj).grow hfresh hg
  have hset : ∀ (s' : State K V C) p, (s'.setThread c p).threads c = p :=
    fun s' p => Function.update_self _ _ _
  refine ⟨Nat.le_trans hfresh hg.fresh, ?_⟩
  generalize hc : s.threads c = p at hat
  cases hat with
  | clearing =>
    by_cases hi : i < NUM_SHARDS
    · cases hhead : (s.shards i).head with
      | nil =>
        have hact : s.act setup c = s.setThread c (.clearing (i + 1) since) := by
          simp only [State.act, hc, if_pos hi, hhead]
        refine ⟨i + 1, hact ▸ hset s _ ▸ .clearing, fun j hj => ?_⟩
        rcases Nat.lt_succ_iff_lt_or_eq.mp hj with hj | rfl
        · exact hkept j hj
        · rw [hact]
          intro e he
          change e ∈ (s.shards j).head at he
          rw [hhead] at he
          cases he
      | cons e next =>
        have hact : s.act setup c = s.setThread c (.popping i since e next) := by
          simp only [State.act, hc, if_pos hi, hhead]
        exact ⟨i, hact ▸ hset s _ ▸ .popping e next, hkept⟩
    · have hact : s.act setup c = s.setThread c (.done .cleared s.now) := by
        simp only [State.act, hc, if_neg hi]
      exact ⟨i, hact ▸ hset s _ ▸ .done s.now (Nat.le_of_not_lt hi), hkept⟩
  | popping e next =>
    by_cases hcas : samePointer (s.shards i).head (e :: next) = true
    · have hact : s.act setup c = (s.setHead i next).setThread c (.discounting i since) := by
        simp only [State.act, hc, if_pos hcas]
      exact ⟨i, hact ▸ hset _ _ ▸ .discounting, hkept⟩
    · have hact : s.act setup c = s.setThread c (.clearing i since) := by
        simp only [State.act, hc, if_neg hcas]
      exact ⟨i, hact ▸ hset _ _ ▸ .clearing, hkept⟩
  | discounting =>
    have hact : s.act setup c = (s.fetchSub i).setThread c (.clearing i since) := by
      simp only [State.act, hc]
    exact ⟨i, hact ▸ hset _ _ ▸ .clearing, hkept⟩
  | done checkedAt hi =>
    have hact : s.act setup c = s := by
      simp only [State.act, hc]
    refine ⟨i, ?_, hkept⟩
    rw [hact, hc]
    exact .done checkedAt hi

/-- **One event**, if it is not the return of this `clear`. -/
theorem Purging.step {c : C} {since : Nat} (hs : Sound setup s) (h : Purging s c since)
    {ev : Event K V C} (hev : ev ≠ .ret c) : Purging (s.step setup ev) c since := by
  have hother : ∀ {c'} p, c ≠ c' → Purging (s.setThread c' p) c since := fun {c'} p hc =>
    h.grow ((Grows.refl s).thread c' p) (Function.update_of_ne hc _ _)
  cases ev with
  | call c' op =>
    unfold State.step
    simp only
    split
    · rename_i hidle
      refine hother _ ?_
      rintro rfl
      obtain ⟨-, i, hat, -⟩ := h
      rw [hidle] at hat
      cases hat
    · exact h
  | act c' =>
    by_cases hc : c = c'
    · exact hc ▸ h.act hs
    · exact h.grow (act_grows hs c') (act_threads s hc)
  | ret c' =>
    unfold State.step
    simp only
    split
    · exact hother _ fun hc => hev (hc ▸ rfl)
    · exact h
  | tick nanos => exact h.grow ⟨Nat.le_refl _, fun _ _ he => Or.inl he⟩ rfl

/-- **`clear` removes what it found**, in every interleaving with other threads. -/
theorem clear_removes (setup : Setup K) (before during : List (Event K V C)) (c : C)
    (hidle : (after setup before).threads c = .idle) (hopen : ∀ ev ∈ during, ev ≠ .ret c)
    (checkedAt : Nat)
    (hdone : (after setup (before ++ .call c .clear :: during)).threads c =
      .done .cleared checkedAt) (i : Nat) :
    ∀ e ∈ ((after setup before).shards i).head,
      e ∉ ((after setup (before ++ .call c .clear :: during)).shards i).head := by
  have hcall : Purging (after setup (before ++ [.call c .clear])) c (after setup before).fresh := by
    have hstep : after setup (before ++ [.call c .clear]) =
        (after setup before).setThread c (.clearing 0 (after setup before).fresh) := by
      rw [after, run_append]
      show State.step setup (after setup before) (.call c .clear) = _
      simp only [State.step, hidle]
      rfl
    rw [hstep]
    have hthread : ((after setup before).setThread c
        (.clearing 0 (after setup before).fresh)).threads c =
          .clearing 0 (after setup before).fresh := Function.update_self _ _ _
    refine ⟨Nat.le_refl _, 0, ?_, fun j hj => absurd hj (Nat.not_lt_zero j)⟩
    rw [hthread]
    exact .clearing
  have hrun : ∀ during, (∀ ev ∈ during, ev ≠ .ret c) →
      Purging (after setup (before ++ .call c .clear :: during)) c (after setup before).fresh := by
    intro during
    induction during using List.reverseRecOn with
    | nil => exact fun _ => hcall
    | append_singleton es ev ih =>
      intro hopen
      have hlast : before ++ .call c .clear :: (es ++ [ev]) =
          (before ++ .call c .clear :: es) ++ [ev] := by simp
      rw [hlast, after, run_append]
      exact (ih fun ev' hev' => hopen ev' (List.mem_append_left _ hev')).step (sound_run setup _)
        (hopen ev (List.mem_append_right _ (List.mem_singleton_self ev)))
  obtain ⟨-, n, hat, hpurged⟩ := hrun during hopen
  rw [hdone] at hat
  intro e he hmem
  have hbelow := (sound_run setup before).below _ (State.sighted_head _ i) e he
  have hshard : i < NUM_SHARDS := by
    rw [← (sound_run setup before).home i e he]
    exact Nat.mod_lt _ (by decide)
  cases hat with
  | done _ hn => exact absurd (hpurged i (Nat.lt_of_lt_of_le hshard hn) e hmem) (by omega)

/-- Two keys in shard 0. -/
def insertTwo : List (Event Nat Nat (Fin 2)) :=
  .call 0 (.insert 0 7 none) :: List.replicate 5 (.act 0) ++ [.ret 0] ++
    .call 0 (.insert 64 8 none) :: List.replicate 6 (.act 0) ++ [.ret 0]

/-- A `clear` by another thread; while it is in a later shard, a third key comes into shard 0. -/
def clearWhileInserting : List (Event Nat Nat (Fin 2)) :=
  List.replicate 20 (.act 1) ++ .call 0 (.insert 128 9 none) :: List.replicate 5 (.act 0) ++
    List.replicate 60 (.act 1)

set_option maxRecDepth 8000 in
/-- Both keys go, and the one that came in behind the `clear` stays. -/
theorem clear_removes_insertTwo :
    ((after (Setup.new (fun key => key) 640) insertTwo).shards 0).head.map (·.key) = [64, 0] ∧
      ((after (Setup.new (fun key => key) 640)
        (insertTwo ++ .call 1 .clear :: clearWhileInserting)).shards 0).head.map (·.key) = [128] ∧
      ∀ e ∈ ((after (Setup.new (fun key => key) 640) insertTwo).shards 0).head,
        e ∉ ((after (Setup.new (fun key => key) 640)
          (insertTwo ++ .call 1 .clear :: clearWhileInserting)).shards 0).head := by
  have hopen : ∀ ev ∈ clearWhileInserting, ev ≠ .ret 1 := by
    simp [clearWhileInserting]
  exact ⟨by decide +kernel, by decide +kernel,
    clear_removes (Setup.new (fun key => key) 640) insertTwo clearWhileInserting 1 rfl hopen 0 rfl
      0⟩

end TitanDns.LockFree
