import Mathlib.Tactic.TypeStar

/-!
# Loops that end

* `loop step out n s` — iterate `step` from `s` until it ends, `n` times at most; an iteration may
  see its number, counted down.
* `loop_good` — **the rule for total correctness**: an invariant, and a measure below the number of
  iterations that every iteration decreases.
* `loop_avoids` — the rule for what no iteration does, whether or not the loop ends.
* `loop_map` — what every iteration commutes with, the loop commutes with.
* `loop_stable` — a loop that ends, ends so however many more iterations it is given.
-/

namespace Loop

variable {S E : Type*} {step : Nat → S → S ⊕ E} {out : E}

/-- Iterate at most the given number of times; then `out`. -/
def loop (step : Nat → S → S ⊕ E) (out : E) : Nat → S → E
  | 0, _ => out
  | n + 1, s =>
    match step n s with
    | .inl s' => loop step out n s'
    | .inr e => e

/-- What an iteration owes: a good end, or the invariant and a smaller measure. -/
def Owes (Inv : S → Prop) (measure : S → Nat) (Good : E → Prop) (s : S) : S ⊕ E → Prop
  | .inl s' => Inv s' ∧ measure s' < measure s
  | .inr e => Good e

/-- **The loop ends well** when every iteration pays what it owes. -/
theorem loop_good {Inv : S → Prop} {measure : S → Nat} {Good : E → Prop}
    (hstep : ∀ n s, Inv s → Owes Inv measure Good s (step n s)) {n : Nat} {s : S} (hs : Inv s)
    (hn : measure s < n) : Good (loop step out n s) := by
  induction n generalizing s with
  | zero => exact absurd hn (Nat.not_lt_zero _)
  | succ n ih =>
    unfold loop
    have howes := hstep n s hs
    cases hst : step n s with
    | inl s' =>
      rw [hst] at howes
      obtain ⟨hs', hlt⟩ := howes
      exact ih hs' (Nat.lt_of_lt_of_le hlt (Nat.le_of_lt_succ hn))
    | inr e =>
      rw [hst] at howes
      exact howes

/-- No iteration ends badly, so the loop does not. -/
theorem loop_avoids {Inv : S → Prop} {Good : E → Prop} (hout : Good out)
    (hinl : ∀ n s s', Inv s → step n s = .inl s' → Inv s')
    (hinr : ∀ n s e, Inv s → step n s = .inr e → Good e) {n : Nat} {s : S} (hs : Inv s) :
    Good (loop step out n s) := by
  induction n generalizing s with
  | zero => exact hout
  | succ n ih =>
    unfold loop
    cases hst : step n s with
    | inl s' => exact ih (hinl n s s' hs hst)
    | inr e => exact hinr n s e hs hst

/-- **What every iteration commutes with, the loop commutes with.** -/
theorem loop_map {T F : Type*} {step' : Nat → T → T ⊕ F} {g : S → T} {h : E → F}
    (hstep : ∀ n s, step' n (g s) = Sum.map g h (step n s)) (n : Nat) (s : S) :
    loop step' (h out) n (g s) = h (loop step out n s) := by
  induction n generalizing s with
  | zero => rfl
  | succ n ih =>
    unfold loop
    rw [hstep]
    cases step n s with
    | inl s' => exact ih s'
    | inr e => rfl

/-- A loop that ends has no use for more iterations. -/
theorem loop_stable {step : S → S ⊕ Option E} {n m : Nat} {s : S} {e : E}
    (h : loop (fun _ => step) none n s = some e) (hle : n ≤ m) :
    loop (fun _ => step) none m s = some e := by
  induction n generalizing m s with
  | zero => cases h
  | succ n ih =>
    obtain ⟨m, rfl⟩ : ∃ m', m = m' + 1 := ⟨m - 1, by omega⟩
    unfold loop at h ⊢
    cases hst : step s with
    | inl s' =>
      rw [hst] at h
      exact ih h (Nat.le_of_succ_le_succ hle)
    | inr e' =>
      rw [hst] at h
      exact h

end Loop
