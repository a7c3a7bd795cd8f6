import TitanDns.Lib.Run
import Mathlib.Logic.Function.Basic

/-!
# Atomic objects

An object that threads use by calls and returns, against a sequential specification of its
operations.

* `Spec` — `permits`: an operation takes effect at once, with an answer; `partly`: it may also have
  effects on the way there; `drifts`: the object changes by itself.
* `Legal` — a run of the atomic object: between the call of a thread and its return there is one
  point at which its operation takes effect.
* `Linearizable` — **the calls and returns are those of some legal run.**
* `linearizable_of_simulation` — **a machine whose every step is matched by some steps of the atomic
  object has linearizable histories.**
-/

namespace Atomic

open Run

/-- A sequential specification over the states `σ`. -/
structure Spec (σ Op Ans : Type*) where
  permits : σ → Op → Ans → σ → Prop
  partly : σ → Op → σ → Prop
  drifts : σ → σ → Prop

/-- What is seen from outside. -/
inductive Seen (C Op Ans : Type*) where
  | call (c : C) (op : Op)
  | ret (c : C) (answer : Ans)
  deriving DecidableEq

/-- What a thread is at. -/
inductive Status (Op Ans : Type*) where
  | idle
  | waiting (op : Op)
  | answered (answer : Ans)

/-- The atomic object and its threads. -/
structure Config (σ C Op Ans : Type*) where
  state : σ
  status : C → Status Op Ans

variable {σ C Op Ans S E : Type*} [DecidableEq C]

namespace Config

def start (state : σ) : Config σ C Op Ans := ⟨state, fun _ => .idle⟩

/-- One thread moves. -/
def move (t : Config σ C Op Ans) (c : C) (status : Status Op Ans) : Config σ C Op Ans :=
  { t with status := Function.update t.status c status }

/-- The object changes. -/
def become (t : Config σ C Op Ans) (state : σ) : Config σ C Op Ans := { t with state := state }

end Config

/-- The runs of the atomic object, with what is seen of them. -/
inductive Legal (spec : Spec σ Op Ans) :
    Config σ C Op Ans → List (Seen C Op Ans) → Config σ C Op Ans → Prop
  | nil (t : Config σ C Op Ans) : Legal spec t [] t
  | call {t t' : Config σ C Op Ans} {h : List (Seen C Op Ans)} {c : C} {op : Op}
      (hc : t.status c = .idle) (rest : Legal spec (t.move c (.waiting op)) h t') :
      Legal spec t (.call c op :: h) t'
  | partly {t t' : Config σ C Op Ans} {h : List (Seen C Op Ans)} {c : C} {op : Op} {state : σ}
      (hc : t.status c = .waiting op) (heffect : spec.partly t.state op state)
      (rest : Legal spec (t.become state) h t') : Legal spec t h t'
  | drift {t t' : Config σ C Op Ans} {h : List (Seen C Op Ans)} {state : σ}
      (heffect : spec.drifts t.state state) (rest : Legal spec (t.become state) h t') :
      Legal spec t h t'
  | take {t t' : Config σ C Op Ans} {h : List (Seen C Op Ans)} {c : C} {op : Op} {answer : Ans}
      {state : σ} (hc : t.status c = .waiting op) (heffect : spec.permits t.state op answer state)
      (rest : Legal spec ((t.move c (.answered answer)).become state) h t') :
      Legal spec t h t'
  | ret {t t' : Config σ C Op Ans} {h : List (Seen C Op Ans)} {c : C} {answer : Ans}
      (hc : t.status c = .answered answer) (rest : Legal spec (t.move c .idle) h t') :
      Legal spec t (.ret c answer :: h) t'

variable {spec : Spec σ Op Ans}

theorem Legal.append {t t' t'' : Config σ C Op Ans} {h h' : List (Seen C Op Ans)}
    (hl : Legal spec t h t') (hl' : Legal spec t' h' t'') : Legal spec t (h ++ h') t'' := by
  induction hl with
  | nil t => exact hl'
  | call hc _ ih => exact .call hc (ih hl')
  | partly hc heffect _ ih => exact .partly hc heffect (ih hl')
  | drift heffect _ ih => exact .drift heffect (ih hl')
  | take hc heffect _ ih => exact .take hc heffect (ih hl')
  | ret hc _ ih => exact .ret hc (ih hl')

/-- The calls and returns are those of a run of the atomic object. -/
def Linearizable (spec : Spec σ Op Ans) (state : σ) (h : List (Seen C Op Ans)) : Prop :=
  ∃ t, Legal spec (Config.start state) h t

/-- **Linearizability by forward simulation.** -/
theorem linearizable_of_simulation {step : S → E → S} {seen : S → E → List (Seen C Op Ans)}
    {R : S → Config σ C Op Ans → Prop}
    (hstep : ∀ s t e, R s t → ∃ t', Legal spec t (seen s e) t' ∧ R (step s e) t') {s : S}
    {state : σ} (hs : R s (Config.start state)) (es : List E) :
    Linearizable spec state (trace step seen s es) := by
  have hrun : ∀ (es : List E) (s : S) (t : Config σ C Op Ans), R s t →
      ∃ t', Legal spec t (trace step seen s es) t' := by
    intro es
    induction es with
    | nil => exact fun _ t _ => ⟨t, .nil t⟩
    | cons e es ih =>
      intro s t hR
      obtain ⟨t', hl, hR'⟩ := hstep s t e hR
      obtain ⟨t'', hl'⟩ := ih _ t' hR'
      exact ⟨t'', hl.append hl'⟩
  exact hrun es s _ hs

end Atomic
