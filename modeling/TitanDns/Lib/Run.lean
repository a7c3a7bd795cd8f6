import Mathlib.Tactic.TypeStar

/-!
# Runs of an event machine

A machine is a total step function `S → E → S`; its environment chooses the events.

* `run step s es` — the state after the events `es`, taken in order.
* `Meets step ok s es` — every event of the run meets `ok` in the state it is taken in.
* `invariant` — **what every permitted step keeps, every permitted run keeps**; `invariant_run` —
  the same where every step is permitted.
* `Always` — a property of every state a run comes through; `always_iff_under`, `always_iff` — **a
  property that a step keeps exactly when it is permitted holds throughout exactly in the permitted
  runs.**
* `simulation` — **what relates two machines step by step relates them along every run**; with a
  history machine on the right this is the induction behind every statement about "the last" event
  of a kind.
* `trace step emits s es` — the events a run emits for another machine; `simulation_trace`: **the
  simulation rule where the other machine takes what the run emits.**
-/

namespace Run

variable {S T E F : Type*} {step : S → E → S} {ok : S → E → Prop}

/-- The state after the events `es`, taken in order from `s`. -/
def run (step : S → E → S) (s : S) (es : List E) : S := es.foldl step s

@[simp] theorem run_nil (s : S) : run step s [] = s := rfl

@[simp] theorem run_cons (s : S) (e : E) (es : List E) :
    run step s (e :: es) = run step (step s e) es := rfl

theorem run_append (s : S) (es fs : List E) :
    run step s (es ++ fs) = run step (run step s es) fs := List.foldl_append

/-- Every event of the run meets `ok` in the state it is taken in. -/
def Meets (step : S → E → S) (ok : S → E → Prop) : S → List E → Prop
  | _, [] => True
  | s, e :: es => ok s e ∧ Meets step ok (step s e) es

theorem Meets.mono {ok' : S → E → Prop} (himp : ∀ s e, ok s e → ok' s e) :
    ∀ {es : List E} {s : S}, Meets step ok s es → Meets step ok' s es
  | [], _, _ => trivial
  | _ :: _, _, ⟨h, hs⟩ => ⟨himp _ _ h, Meets.mono himp hs⟩

/-- Two conditions that agree wherever a kept property holds. -/
theorem Meets.congr_under {ok' : S → E → Prop} {Inv : S → Prop}
    (hstep : ∀ s e, Inv s → Inv (step s e)) (h : ∀ s e, Inv s → (ok s e ↔ ok' s e)) {s : S}
    (hs : Inv s) (es : List E) : Meets step ok s es ↔ Meets step ok' s es := by
  induction es generalizing s with
  | nil => exact Iff.rfl
  | cons e es ih => exact and_congr (h s e hs) (ih (hstep s e hs))

theorem Meets.append {es fs : List E} {s : S} (hes : Meets step ok s es)
    (hfs : Meets step ok (run step s es) fs) : Meets step ok s (es ++ fs) := by
  induction es generalizing s with
  | nil => exact hfs
  | cons e es ih => exact ⟨hes.1, ih hes.2 hfs⟩

theorem Meets.congr {ok' : S → E → Prop} (h : ∀ s e, ok s e ↔ ok' s e) {es : List E} {s : S} :
    Meets step ok s es ↔ Meets step ok' s es :=
  ⟨Meets.mono fun s e => (h s e).mp, Meets.mono fun s e => (h s e).mpr⟩

theorem Meets.of_append_left {es fs : List E} {s : S} (h : Meets step ok s (es ++ fs)) :
    Meets step ok s es := by
  induction es generalizing s with
  | nil => trivial
  | cons e es ih => exact ⟨h.1, ih h.2⟩

theorem Meets.of_append_right {es fs : List E} {s : S} (h : Meets step ok s (es ++ fs)) :
    Meets step ok (run step s es) fs := by
  induction es generalizing s with
  | nil => exact h
  | cons e es ih => exact ih h.2

/-- The condition at a point where the run is cut. -/
theorem Meets.at_cut {s : S} {before rest : List E} {e : E}
    (h : Meets step ok s (before ++ e :: rest)) : ok (run step s before) e := h.of_append_right.1

/-- A condition on the events alone. -/
theorem meets_of_forall {P : E → Prop} {es : List E} (h : ∀ e ∈ es, P e) {s : S} :
    Meets step (fun _ e => P e) s es := by
  induction es generalizing s with
  | nil => trivial
  | cons e es ih => exact ⟨h e (by simp), ih fun e' he' => h e' (by simp [he'])⟩

/-- What holds at every point where the run can be cut holds of every event. -/
theorem meets_of_cuts {s : S} {es : List E}
    (h : ∀ before e rest, es = before ++ e :: rest → ok (run step s before) e) :
    Meets step ok s es := by
  induction es generalizing s with
  | nil => trivial
  | cons e es ih =>
    refine ⟨h [] e es rfl, ih fun before e' rest heq => ?_⟩
    exact h (e :: before) e' rest (by rw [heq]; rfl)

/-- **The invariant rule.** -/
theorem invariant {Inv : S → Prop} (hstep : ∀ s e, Inv s → ok s e → Inv (step s e))
    {s : S} (hs : Inv s) {es : List E} (hes : Meets step ok s es) : Inv (run step s es) := by
  induction es generalizing s with
  | nil => exact hs
  | cons e es ih => exact ih (hstep s e hs hes.1) hes.2

/-- **The invariant rule without a condition.** -/
theorem invariant_run {Inv : S → Prop} (hstep : ∀ s e, Inv s → Inv (step s e)) {s : S}
    (hs : Inv s) (es : List E) : Inv (run step s es) := by
  induction es generalizing s with
  | nil => exact hs
  | cons e es ih => exact ih (hstep s e hs)

/-- The property holds of every state the run comes through. -/
def Always (step : S → E → S) (Inv : S → Prop) : S → List E → Prop
  | s, [] => Inv s
  | s, e :: es => Inv s ∧ Always step Inv (step s e) es

theorem Always.first {Inv : S → Prop} {s : S} {es : List E} (h : Always step Inv s es) : Inv s := by
  cases es with
  | nil => exact h
  | cons e es => exact h.1

theorem Always.last {Inv : S → Prop} {es : List E} {s : S} (h : Always step Inv s es) :
    Inv (run step s es) := by
  induction es generalizing s with
  | nil => exact h
  | cons e es ih => exact ih h.2

/-- **The rule for exact conditions**: a property that a step keeps exactly when `ok` permits it
holds throughout a run exactly when the run is permitted.  `J` holds as long as the property
does. -/
theorem always_iff_under {J Inv : S → Prop} (hJ : ∀ s e, J s → Inv s → J (step s e))
    (hstep : ∀ s e, J s → Inv s → (Inv (step s e) ↔ ok s e)) {s : S} (hs : J s) (h : Inv s)
    (es : List E) : Always step Inv s es ↔ Meets step ok s es := by
  induction es generalizing s with
  | nil => exact ⟨fun _ => trivial, fun _ => h⟩
  | cons e es ih =>
    constructor
    · rintro ⟨-, hrest⟩
      have hnext := hrest.first
      exact ⟨(hstep s e hs h).mp hnext, (ih (hJ s e hs h) hnext).mp hrest⟩
    · rintro ⟨hok, hrest⟩
      have hnext := (hstep s e hs h).mpr hok
      exact ⟨h, (ih (hJ s e hs h) hnext).mpr hrest⟩

theorem always_iff {Inv : S → Prop} (hstep : ∀ s e, Inv s → (Inv (step s e) ↔ ok s e)) {s : S}
    (h : Inv s) (es : List E) : Always step Inv s es ↔ Meets step ok s es :=
  @always_iff_under S E step ok (fun _ => True) Inv (fun _ _ _ _ => trivial)
    (fun s e _ => hstep s e) s trivial h es

/-- **The simulation rule**: both machines take the same events. -/
theorem simulation {step' : T → E → T} {R : S → T → Prop}
    (hstep : ∀ s t e, R s t → R (step s e) (step' t e)) {s : S} {t : T} (hR : R s t)
    (es : List E) : R (run step s es) (run step' t es) := by
  induction es generalizing s t with
  | nil => exact hR
  | cons e es ih => exact ih (hstep s t e hR)

/-! ## Machines that emit -/

/-- What the run emits: at each event, what `emits` says of the state it is taken in. -/
def trace (step : S → E → S) (emits : S → E → List F) : S → List E → List F
  | _, [] => []
  | s, e :: es => emits s e ++ trace step emits (step s e) es

theorem trace_append (emits : S → E → List F) (s : S) (es fs : List E) :
    trace step emits s (es ++ fs) =
      trace step emits s es ++ trace step emits (run step s es) fs := by
  induction es generalizing s with
  | nil => rfl
  | cons e es ih => rw [List.cons_append, trace, ih, trace, run_cons, List.append_assoc]

/-- An emitted event was emitted at some event of the run. -/
theorem mem_trace {emits : S → E → List F} {x : F} {s : S} {es : List E}
    (h : x ∈ trace step emits s es) :
    ∃ es₁ e es₂, es = es₁ ++ e :: es₂ ∧ x ∈ emits (run step s es₁) e := by
  induction es generalizing s with
  | nil => cases h
  | cons e es ih =>
    rcases List.mem_append.mp h with h | h
    · exact ⟨[], e, es, rfl, h⟩
    · obtain ⟨es₁, e', es₂, rfl, hx⟩ := ih h
      exact ⟨e :: es₁, e', es₂, rfl, hx⟩

/-- A part of the state that moves only by what the run emits. -/
theorem run_trace {emits : S → E → List F} {stepT : T → F → T} {part : S → T}
    (hstep : ∀ s e, part (step s e) = run stepT (part s) (emits s e)) (s : S) (es : List E) :
    part (run step s es) = run stepT (part s) (trace step emits s es) := by
  induction es generalizing s with
  | nil => rfl
  | cons e es ih => rw [trace, run_append, run_cons, ih, hstep]

end Run
