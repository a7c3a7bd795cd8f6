import Mathlib.Tactic.TypeStar

/-!
# Iterated hashes

A digest computed one letter at a time from an initial state.  Such a digest forgets everything but
its state, so two words it confuses in every state stay confused inside every longer word:

* `digest step h w` — the state after the letters of `w`.
* `Collide step u v` — `u` and `v` lead to the same state, whatever the state before.
* `Collide.context` — **a collision survives every prefix and every suffix.**
* `digest_map` — letters the step identifies may be replaced.
-/

namespace IterHash

variable {H A : Type*} {step : H → A → H}

/-- The state after the letters of `w`, from `h`. -/
def digest (step : H → A → H) (h : H) (w : List A) : H := w.foldl step h

@[simp] theorem digest_nil (h : H) : digest step h [] = h := rfl

@[simp] theorem digest_cons (h : H) (a : A) (w : List A) :
    digest step h (a :: w) = digest step (step h a) w := rfl

theorem digest_append (h : H) (u v : List A) :
    digest step h (u ++ v) = digest step (digest step h u) v := List.foldl_append

theorem digest_map {f : A → A} (hf : ∀ h a, step h (f a) = step h a) (h : H) (w : List A) :
    digest step h (w.map f) = digest step h w := by
  induction w generalizing h with
  | nil => rfl
  | cons a w ih =>
    simp only [List.map_cons, digest_cons, hf]
    exact ih (step h a)

/-- Two words no state tells apart. -/
def Collide (step : H → A → H) (u v : List A) : Prop := ∀ h, digest step h u = digest step h v

/-- **A collision survives every context.** -/
theorem Collide.context {u v : List A} (huv : Collide step u v) (p s : List A) (h : H) :
    digest step h (p ++ u ++ s) = digest step h (p ++ v ++ s) := by
  rw [digest_append, digest_append, digest_append h (p ++ v), digest_append h p v, huv]

end IterHash
