import TitanDns.Lib.KeyedTable
import TitanDns.Lib.Run

/-!
# Cooldowns

Items pass one at a time; after an item has passed, the items of its key are refused until a
reading of the clock is at least `window` after it.  The clock may go back.

* `Gate` — when an item of each key passed last, and the history of what has passed.
* `offer` — one item at the gate; `Inv`, `run_inv` — what the table knows of the history.
* `refuses_iff` — **an item is refused exactly when one of its key has passed that is not yet
  `window` old**; `passed_iff` — and it passes otherwise.
* `passed_recently` — **where the items of the key that are not yet `window` old are the item
  itself, only repetitions are refused.**
-/

namespace Cooldown

open Run

variable {A K : Type} [DecidableEq K]

/-- The last passage of each key, and all passages, the newest first. -/
structure Gate (A K : Type) where
  last : Table K Nat
  passed : List (A × Nat)

def Gate.new : Gate A K := ⟨∅, []⟩

namespace Gate

/-- The last passage of the key is not yet `window` old. -/
def refuses (window : Nat) (g : Gate A K) (k : K) (now : Nat) : Bool :=
  (g.last.get k).any fun last => decide (now < last + window)

variable (key : A → K) (window : Nat)

/-- An item at the gate. -/
def offer (g : Gate A K) (item : A × Nat) : Gate A K :=
  if g.refuses window (key item.1) item.2 then g
  else ⟨g.last.put (key item.1) item.2, item :: g.passed⟩

/-- The table has the newest passage of every key. -/
structure Inv (g : Gate A K) : Prop where
  newest : ∀ p ∈ g.passed, ∃ last, g.last.get (key p.1) = some last ∧ p.2 ≤ last
  known : ∀ k last, g.last.get k = some last → ∃ p ∈ g.passed, key p.1 = k ∧ p.2 = last

/-- Some passage of the key is not yet `window` old. -/
def Cooling (g : Gate A K) (k : K) (now : Nat) : Prop :=
  ∃ p ∈ g.passed, key p.1 = k ∧ now < p.2 + window

/-- The item itself passed less than `window` ago. -/
def PassedRecently (g : Gate A K) (a : A) (now : Nat) : Prop :=
  ∃ p ∈ g.passed, p.1 = a ∧ p.2 ≤ now ∧ now < p.2 + window

variable {key window}

/-- **Who is refused.** -/
theorem refuses_iff {g : Gate A K} (hinv : g.Inv key) (k : K) (now : Nat) :
    g.refuses window k now = true ↔ g.Cooling key window k now := by
  unfold refuses
  constructor
  · intro h
    obtain ⟨last, hlast, hnow⟩ := (Option.any_eq_true _ _).mp h
    obtain ⟨p, hp, hkey, htime⟩ := hinv.known k last hlast
    exact ⟨p, hp, hkey, by rw [htime]; exact of_decide_eq_true hnow⟩
  · rintro ⟨p, hp, rfl, hnow⟩
    obtain ⟨last, hlast, hle⟩ := hinv.newest p hp
    rw [hlast, Option.any_some, decide_eq_true_eq]
    omega

theorem new_inv : (new : Gate A K).Inv key where
  newest := by
    intro p hp
    cases hp
  known := by
    intro k last h
    rw [new, Table.get_empty] at h
    cases h

/-- The gate after an item that passes. -/
theorem offer_of_passes {g : Gate A K} {item : A × Nat}
    (h : g.refuses window (key item.1) item.2 = false) :
    g.offer key window item = ⟨g.last.put (key item.1) item.2, item :: g.passed⟩ := by
  unfold offer
  rw [if_neg (by rw [h]; decide)]

/-- The gate after an item that is refused. -/
theorem offer_of_refused {g : Gate A K} {item : A × Nat}
    (h : g.refuses window (key item.1) item.2 = true) : g.offer key window item = g := by
  unfold offer
  rw [if_pos h]

theorem offer_inv {g : Gate A K} (hinv : g.Inv key) (item : A × Nat) :
    (g.offer key window item).Inv key := by
  cases hrefuses : g.refuses window (key item.1) item.2 with
  | true =>
    rw [offer_of_refused hrefuses]
    exact hinv
  | false =>
    have hold : ∀ p ∈ g.passed, key p.1 = key item.1 → p.2 ≤ item.2 := by
      intro p hp hkey
      by_contra hlt
      have hcooling : g.Cooling key window (key item.1) item.2 := ⟨p, hp, hkey, by omega⟩
      rw [(refuses_iff hinv _ _).mpr hcooling] at hrefuses
      cases hrefuses
    rw [offer_of_passes hrefuses]
    constructor
    · intro p hp
      by_cases hkey : key p.1 = key item.1
      · refine ⟨item.2, by rw [hkey, Table.get_put_self], ?_⟩
        rcases List.mem_cons.mp hp with rfl | hp
        · exact le_refl _
        · exact hold p hp hkey
      · rcases List.mem_cons.mp hp with rfl | hp
        · exact absurd rfl hkey
        · obtain ⟨last, hlast, hle⟩ := hinv.newest p hp
          exact ⟨last, by rw [Table.get_put_of_ne _ _ hkey, hlast], hle⟩
    · intro k last h
      by_cases hkey : k = key item.1
      · subst hkey
        rw [Table.get_put_self, Option.some.injEq] at h
        exact ⟨item, List.mem_cons_self, rfl, h⟩
      · rw [Table.get_put_of_ne _ _ hkey] at h
        obtain ⟨p, hp, hpkey, htime⟩ := hinv.known k last h
        exact ⟨p, List.mem_cons_of_mem _ hp, hpkey, htime⟩

/-- **What the table knows after any items.** -/
theorem run_inv {g : Gate A K} (hinv : g.Inv key) (items : List (A × Nat)) :
    (run (offer key window) g items).Inv key := by
  have hstep : ∀ (g : Gate A K) (item : A × Nat), g.Inv key → (g.offer key window item).Inv key :=
    fun _ item h => offer_inv h item
  exact invariant_run hstep hinv items

/-- **Who passes.** -/
theorem passed_iff {g : Gate A K} (hinv : g.Inv key) (item : A × Nat) :
    (g.offer key window item).passed = item :: g.passed ↔
      ¬ g.Cooling key window (key item.1) item.2 := by
  rw [← refuses_iff hinv]
  cases hrefuses : g.refuses window (key item.1) item.2 with
  | true =>
    rw [offer_of_refused hrefuses]
    refine iff_of_false (fun h => ?_) (fun h => h rfl)
    exact absurd (congrArg List.length h) (Nat.ne_of_lt (Nat.lt_succ_self _))
  | false =>
    rw [offer_of_passes hrefuses]
    exact iff_of_true rfl (by decide)

omit [DecidableEq K] in
/-- **Only repetitions are refused** where what is not yet `window` old is the item itself. -/
theorem passed_recently {g : Gate A K} {a : A} {now : Nat}
    (hagree : ∀ p ∈ g.passed, key p.1 = key a → now < p.2 + window → p.1 = a ∧ p.2 ≤ now)
    (h : g.Cooling key window (key a) now) : g.PassedRecently window a now := by
  obtain ⟨p, hp, hkey, hnow⟩ := h
  obtain ⟨hsame, hle⟩ := hagree p hp hkey hnow
  exact ⟨p, hp, hsame, hle, hnow⟩

/-- What has passed was offered. -/
theorem mem_passed {items : List (A × Nat)} {p : A × Nat}
    (h : p ∈ (run (offer key window) new items).passed) : p ∈ items := by
  have hinv : ∀ {g : Gate A K} {items : List (A × Nat)},
      p ∈ (run (offer key window) g items).passed → p ∈ g.passed ∨ p ∈ items := by
    intro g items
    induction items generalizing g with
    | nil => exact Or.inl
    | cons item items ih =>
      intro h
      rcases ih h with h | h
      · unfold offer at h
        split at h
        · exact Or.inl h
        · rcases List.mem_cons.mp h with rfl | h
          · exact Or.inr List.mem_cons_self
          · exact Or.inl h
      · exact Or.inr (List.mem_cons_of_mem _ h)
  rcases hinv h with h | h
  · cases h
  · exact h

end Gate

end Cooldown
