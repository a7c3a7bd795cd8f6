import Mathlib.Data.List.Rotate

/-!
# Waiting for the first of several futures

The semantics of `select!` over futures that become ready at fixed times.  Each poll goes through
the branches from a random start, wrapping around; a branch whose precondition is false is left
out; the first branch that is not pending decides.  A future that has returned its value must not
be polled again: polling it panics.  With nothing ready, time moves to the next arrival.

* `poll`, `select` — one poll, and one execution of the macro.
* `select_fired` — **what a fired branch says**: it was enabled, unspent and ready, and no enabled
  branch was ready earlier.
* `select_panicked`, `select_disabled` — the two ways to panic; `select_ne_idle` — the macro never
  waits for ever; so `select_fires` — **with no enabled branch used up, one fires.**
* `select_fired_first` — what is polled first was not ready when another branch fired.
-/

namespace Select

/-- A branch: its precondition, when its future is ready, whether the future is used up. -/
structure Branch where
  enabled : Bool
  readyAt : Nat
  spent : Bool

/-- The answer of one poll. -/
inductive Polled where
  | fired (i : Nat)
  | panicked
  | pending
  deriving DecidableEq

/-- Poll the branches with the given indices in order. -/
def poll (now : Nat) (bs : List Branch) : List Nat → Polled
  | [] => .pending
  | i :: order =>
    match bs[i]? with
    | none => poll now bs order
    | some b =>
      if b.enabled = false then poll now bs order
      else if b.spent = true then .panicked
      else if b.readyAt ≤ now then .fired i
      else poll now bs order

/-- All indices, from `start` on and around. -/
def order (n start : Nat) : List Nat := (List.range n).rotate start

/-- The next arrival among the enabled branches; `none` if there is none. -/
def wake (bs : List Branch) : Option Nat := ((bs.filter (·.enabled)).map (·.readyAt)).min?

/-- How the macro ends, and when: with a branch, in one of two panics, or (never) without a
wake-up. -/
inductive Outcome where
  | fired (i t : Nat)
  | panicked (t : Nat)
  | disabled
  | idle
  deriving DecidableEq

/-- One execution at time `now`; `start` and `again` are the random starts of the two polls. -/
def select (bs : List Branch) (now start again : Nat) : Outcome :=
  match wake bs with
  | none => .disabled
  | some t =>
    match poll now bs (order bs.length start) with
    | .fired i => .fired i now
    | .panicked => .panicked now
    | .pending =>
      match poll t bs (order bs.length again) with
      | .fired i => .fired i t
      | .panicked => .panicked t
      | .pending => .idle

variable {bs : List Branch} {now t i start again : Nat}

/-! ## One poll -/

theorem poll_fired {is : List Nat} (h : poll now bs is = .fired i) :
    ∃ b, bs[i]? = some b ∧ b.enabled = true ∧ b.spent = false ∧ b.readyAt ≤ now := by
  induction is with
  | nil => cases h
  | cons j is ih =>
    unfold poll at h
    cases hj : bs[j]? with
    | none =>
      simp only [hj] at h
      exact ih h
    | some b =>
      simp only [hj] at h
      split at h
      · exact ih h
      · rename_i hen
        split at h
        · cases h
        · rename_i hsp
          split at h
          · rename_i hready
            cases h
            exact ⟨b, hj, by simpa using hen, by simpa using hsp, hready⟩
          · exact ih h

theorem poll_panicked {is : List Nat} (h : poll now bs is = .panicked) :
    ∃ b ∈ bs, b.enabled = true ∧ b.spent = true := by
  induction is with
  | nil => cases h
  | cons j is ih =>
    unfold poll at h
    cases hj : bs[j]? with
    | none =>
      simp only [hj] at h
      exact ih h
    | some b =>
      simp only [hj] at h
      split at h
      · exact ih h
      · rename_i hen
        split at h
        · rename_i hsp
          exact ⟨b, List.mem_of_getElem? hj, by simpa using hen, hsp⟩
        · split at h
          · cases h
          · exact ih h

/-- What is polled before the branch that fires is disabled or still to come. -/
theorem poll_fired_tail {j : Nat} {is : List Nat} (h : poll now bs (j :: is) = .fired i)
    (hij : i ≠ j) : poll now bs is = .fired i ∧
      ∀ b, bs[j]? = some b → b.enabled = true → now < b.readyAt := by
  unfold poll at h
  cases hj : bs[j]? with
  | none =>
    simp only [hj] at h
    exact ⟨h, fun b hb => (by cases hb)⟩
  | some b =>
    simp only [hj] at h
    split at h
    · rename_i hoff
      refine ⟨h, ?_⟩
      intro b' hb' hen
      cases hb'
      rw [hoff] at hen
      cases hen
    · split at h
      · cases h
      · split at h
        · cases h
          exact absurd rfl hij
        · rename_i hready
          refine ⟨h, ?_⟩
          intro b' hb' _
          cases hb'
          exact Nat.not_le.mp hready

theorem poll_pending {is : List Nat} (h : poll now bs is = .pending) {j : Nat} (hj : j ∈ is)
    {b : Branch} (hb : bs[j]? = some b) (hen : b.enabled = true) : now < b.readyAt := by
  induction is with
  | nil => cases hj
  | cons k is ih =>
    unfold poll at h
    rcases List.mem_cons.mp hj with rfl | hj
    · simp only [hb, hen] at h
      split at h
      · contradiction
      · split at h
        · cases h
        · split at h
          · cases h
          · omega
    · cases hk : bs[k]? with
      | none =>
        simp only [hk] at h
        exact ih h hj
      | some b' =>
        simp only [hk] at h
        split at h
        · exact ih h hj
        · split at h
          · cases h
          · split at h
            · cases h
            · exact ih h hj

theorem mem_order (hi : i < bs.length) (start : Nat) : i ∈ order bs.length start := by
  rw [order, List.mem_rotate, List.mem_range]
  exact hi

/-! ## The macro -/

theorem wake_le {t : Nat} (h : wake bs = some t) {b : Branch} (hb : b ∈ bs)
    (hen : b.enabled = true) : t ≤ b.readyAt := by
  have hmem : b.readyAt ∈ (bs.filter (·.enabled)).map (·.readyAt) :=
    List.mem_map.mpr ⟨b, List.mem_filter.mpr ⟨hb, hen⟩, rfl⟩
  exact (List.min?_eq_some_iff.mp h).2 _ hmem

theorem wake_mem (h : wake bs = some t) : ∃ b ∈ bs, b.enabled = true ∧ b.readyAt = t := by
  obtain ⟨b, hb, rfl⟩ := List.mem_map.mp (List.min?_eq_some_iff.mp h).1
  obtain ⟨hmem, hen⟩ := List.mem_filter.mp hb
  exact ⟨b, hmem, hen, rfl⟩

/-- **The rule of a fired branch.** -/
theorem select_fired (h : select bs now start again = .fired i t) :
    now ≤ t ∧ (∃ b, bs[i]? = some b ∧ b.enabled = true ∧ b.spent = false ∧ b.readyAt ≤ t) ∧
      ∀ b ∈ bs, b.enabled = true → t ≤ max now b.readyAt := by
  unfold select at h
  cases hw : wake bs with
  | none =>
    rw [hw] at h
    cases h
  | some w =>
    simp only [hw] at h
    cases hp : poll now bs (order bs.length start) with
    | fired j =>
      rw [hp] at h
      cases h
      exact ⟨Nat.le_refl _, poll_fired hp, fun b _ _ => Nat.le_max_left _ _⟩
    | panicked =>
      rw [hp] at h
      cases h
    | pending =>
      simp only [hp] at h
      cases hp' : poll w bs (order bs.length again) with
      | panicked =>
        rw [hp'] at h
        cases h
      | pending =>
        rw [hp'] at h
        cases h
      | fired j =>
        rw [hp'] at h
        cases h
        refine ⟨?_, poll_fired hp', ?_⟩
        · obtain ⟨b, hb, hen, rfl⟩ := wake_mem hw
          obtain ⟨k, hk, rfl⟩ := List.mem_iff_getElem.mp hb
          exact Nat.le_of_lt
            (poll_pending hp (mem_order hk start) (List.getElem?_eq_getElem hk) hen)
        · intro b hb hen
          have hwake := wake_le hw hb hen
          omega

/-- The branch fired in one of the two polls. -/
theorem select_fired_poll (h : select bs now start again = .fired i t) :
    poll t bs (order bs.length start) = .fired i ∨
      poll t bs (order bs.length again) = .fired i := by
  unfold select at h
  split at h
  · cases h
  · split at h
    · rename_i hp
      cases h
      exact Or.inl hp
    · cases h
    · split at h
      · rename_i hp
        cases h
        exact Or.inr hp
      · cases h
      · cases h

/-- A panic comes from an enabled branch that is used up. -/
theorem select_panicked (h : select bs now start again = .panicked t) :
    ∃ b ∈ bs, b.enabled = true ∧ b.spent = true := by
  unfold select at h
  split at h
  · cases h
  · split at h
    · cases h
    · rename_i hp
      exact poll_panicked hp
    · split at h
      · cases h
      · rename_i hp
        exact poll_panicked hp
      · cases h

/-- The other panic: nothing to wait for. -/
theorem select_disabled (h : select bs now start again = .disabled) :
    ∀ b ∈ bs, b.enabled = false := by
  unfold select at h
  split at h
  · rename_i hw
    intro b hb
    rw [wake, List.min?_eq_none_iff, List.map_eq_nil_iff, List.filter_eq_nil_iff] at hw
    simpa using hw b hb
  · split at h
    · cases h
    · cases h
    · split at h
      · cases h
      · cases h
      · cases h

/-- At the next arrival something is ready. -/
theorem select_ne_idle : select bs now start again ≠ .idle := by
  intro h
  unfold select at h
  split at h
  · cases h
  · rename_i w hw
    split at h
    · cases h
    · cases h
    · split at h
      · cases h
      · cases h
      · rename_i hp
        obtain ⟨b, hb, hen, hready⟩ := wake_mem hw
        obtain ⟨k, hk, rfl⟩ := List.mem_iff_getElem.mp hb
        have := poll_pending hp (mem_order hk again) (List.getElem?_eq_getElem hk) hen
        omega

/-- **A branch fires** when some branch is enabled and no enabled one is used up. -/
theorem select_fires (hunspent : ∀ b ∈ bs, b.enabled = true → b.spent = false)
    (henabled : ∃ b ∈ bs, b.enabled = true) (now start again : Nat) :
    ∃ i t b, select bs now start again = .fired i t ∧ now ≤ t ∧ bs[i]? = some b ∧
      b.enabled = true ∧ b.readyAt ≤ t ∧ ∀ b ∈ bs, b.enabled = true → t ≤ max now b.readyAt := by
  cases hsel : select bs now start again with
  | panicked t =>
    obtain ⟨b, hb, hen, hspent⟩ := select_panicked hsel
    rw [hunspent b hb hen] at hspent
    cases hspent
  | idle => exact absurd hsel select_ne_idle
  | disabled =>
    obtain ⟨b, hb, hen⟩ := henabled
    rw [select_disabled hsel b hb] at hen
    cases hen
  | fired i t =>
    obtain ⟨hnow, ⟨b, hbi, hen, -, hready⟩, hmin⟩ := select_fired hsel
    exact ⟨i, t, b, rfl, hnow, hbi, hen, hready, hmin⟩

/-- Which of two branches it is. -/
theorem pair_cases {a b x : Branch} {i : Nat} (h : [a, b][i]? = some x) :
    i = 0 ∧ x = a ∨ i = 1 ∧ x = b := by
  rcases i with _ | _ | i
  · exact Or.inl ⟨rfl, (Option.some.inj h).symm⟩
  · exact Or.inr ⟨rfl, (Option.some.inj h).symm⟩
  · cases h

/-- And which of three. -/
theorem triple_cases {a b c x : Branch} {i : Nat} (h : [a, b, c][i]? = some x) :
    i = 0 ∧ x = a ∨ i = 1 ∧ x = b ∨ i = 2 ∧ x = c := by
  rcases i with _ | i
  · exact Or.inl ⟨rfl, (Option.some.inj h).symm⟩
  · rcases pair_cases h with ⟨rfl, hx⟩ | ⟨rfl, hx⟩
    · exact Or.inr (Or.inl ⟨rfl, hx⟩)
    · exact Or.inr (Or.inr ⟨rfl, hx⟩)

theorem order_start {n k : Nat} (h : k < n) : ∃ rest, order n k = k :: rest := by
  have hdrop : (List.range n).drop k = k :: (List.range n).drop (k + 1) := by
    rw [List.drop_eq_getElem_cons (by simpa using h), List.getElem_range]
  refine ⟨(List.range n).drop (k + 1) ++ (List.range n).take k, ?_⟩
  rw [order, List.rotate_eq_drop_append_take (by simpa using Nat.le_of_lt h), hdrop]
  rfl

/-- **What is polled first was not ready** when another branch fired. -/
theorem select_fired_first {k : Nat} (h : select bs now k k = .fired i t) {b : Branch}
    (hb : bs[k]? = some b) (hen : b.enabled = true) (hik : i ≠ k) : t < b.readyAt := by
  obtain ⟨hk, -⟩ := List.getElem?_eq_some_iff.mp hb
  obtain ⟨rest, hrest⟩ := order_start hk
  have hpoll : poll t bs (k :: rest) = .fired i := by
    rw [← hrest]
    rcases select_fired_poll h with hp | hp
    · exact hp
    · exact hp
  exact (poll_fired_tail hpoll hik).2 b hb hen

end Select
