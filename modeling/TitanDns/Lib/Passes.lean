import TitanDns.Lib.PartialMap

/-!
# Resolution in passes

Items with prerequisites are entered into a registry once everything they need is in it.  One pass
goes through the pending items in order and enters what is ready; passes are repeated until nothing
is pending, with a bound on those that make no progress.

* `ready`, `pass`, `passes` — the algorithm, with the registry and what was entered by it.
* `Resolvable` — what can be resolved at all: the least set that contains the registry and every
  item whose needs it contains.
* `passes_sound`, `passes_complete` — **the passes enter exactly the items whose needs are
  resolvable**, in whatever order the items come.
-/

namespace Passes

open PartialMap

variable {K V : Type*} [DecidableEq K]

/-- What is registered, and what was entered by the passes. -/
structure State (K V : Type*) where
  registry : K → Option V
  entered : K → Option V

namespace State

/-- Everything the item needs is registered. -/
def ready (s : State K V) (needs : List K) : Bool := needs.all fun need => (s.registry need).isSome

/-- Enter an item. -/
def enter (s : State K V) (key : K) (value : V) : State K V :=
  ⟨put s.registry key value, put s.entered key value⟩

end State

/-- One pass: what is ready is entered, the rest is pending again. -/
def pass (value : V) : List (K × List K) → State K V → State K V × List (K × List K)
  | [], s => (s, [])
  | (key, needs) :: items, s =>
    if s.ready needs then pass value items (s.enter key value)
    else
      let (t, pending) := pass value items s
      (t, (key, needs) :: pending)

/-- Repeated passes; after more than `bound` passes without progress the rest is given up. -/
def passes (value : V) (bound : Nat) : Nat → Nat → List (K × List K) → State K V → State K V
  | 0, _, _, s => s
  | fuel + 1, idle, pending, s =>
    if pending = [] then s
    else
      let (t, next) := pass value pending s
      if next.length < pending.length then passes value bound fuel idle next t
      else if bound < idle + 1 then t
      else passes value bound fuel (idle + 1) next t

/-- The least set with `base` and every item whose needs it contains. -/
inductive Resolvable (base : K → Prop) (items : List (K × List K)) : K → Prop
  | base {key : K} (h : base key) : Resolvable base items key
  | item {key : K} {needs : List K} (h : (key, needs) ∈ items)
      (hneeds : ∀ need ∈ needs, Resolvable base items need) : Resolvable base items key

omit [DecidableEq K] in
/-- Only membership in `items` matters. -/
theorem Resolvable.mono {base base' : K → Prop} {items items' : List (K × List K)}
    (hbase : ∀ key, base key → base' key) (hitems : ∀ item ∈ items, item ∈ items') {key : K}
    (h : Resolvable base items key) : Resolvable base' items' key := by
  induction h with
  | base h => exact .base (hbase _ h)
  | item h _ ih => exact .item (hitems _ h) ih

/-! ## What grows -/

/-- Nothing is taken out. -/
structure Grows (s t : State K V) : Prop where
  registry : ∀ key, (s.registry key).isSome = true → (t.registry key).isSome = true
  entered : ∀ key, (s.entered key).isSome = true → (t.entered key).isSome = true

omit [DecidableEq K] in
theorem Grows.refl (s : State K V) : Grows s s := ⟨fun _ h => h, fun _ h => h⟩

omit [DecidableEq K] in
theorem Grows.trans {s t u : State K V} (hst : Grows s t) (htu : Grows t u) : Grows s u :=
  ⟨fun key h => htu.registry key (hst.registry key h),
    fun key h => htu.entered key (hst.entered key h)⟩

theorem put_isSome {m : K → Option V} {key key' : K} {value : V} (h : (m key).isSome = true) :
    (put m key' value key).isSome = true := by
  by_cases hkey : key = key'
  · subst hkey
    simp
  · rwa [put_of_ne hkey]

omit [DecidableEq K] in
/-- What every step keeps, a fold keeps. -/
theorem foldl_isSome {P : Type*} {step : (K → Option V) → P → K → Option V}
    (hstep : ∀ registry item key, (registry key).isSome = true →
      (step registry item key).isSome = true)
    {key : K} (items : List P) {registry : K → Option V} (h : (registry key).isSome = true) :
    (items.foldl step registry key).isSome = true := by
  induction items generalizing registry with
  | nil => exact h
  | cons item items ih => exact ih (hstep registry item key h)

theorem grows_enter (s : State K V) (key : K) (value : V) : Grows s (s.enter key value) :=
  ⟨fun _ h => put_isSome h, fun _ h => put_isSome h⟩

theorem pass_grows (value : V) (items : List (K × List K)) (s : State K V) :
    Grows s (pass value items s).1 := by
  induction items generalizing s with
  | nil => exact .refl s
  | cons item items ih =>
    obtain ⟨key, needs⟩ := item
    unfold pass
    split
    · exact (grows_enter s key value).trans (ih _)
    · exact ih s

theorem passes_grows (value : V) (bound fuel idle : Nat) (pending : List (K × List K))
    (s : State K V) : Grows s (passes value bound fuel idle pending s) := by
  induction fuel generalizing idle pending s with
  | zero => exact .refl s
  | succ fuel ih =>
    have hpass := pass_grows value pending s
    unfold passes
    split
    · exact .refl s
    simp only
    split
    · exact hpass.trans (ih _ _ _)
    split
    · exact hpass
    · exact hpass.trans (ih _ _ _)

/-! ## Soundness -/

/-- Everything registered is resolvable, and everything entered has resolvable needs. -/
structure Sound (base : K → Prop) (items : List (K × List K)) (s : State K V) : Prop where
  registry : ∀ key, (s.registry key).isSome = true → Resolvable base items key
  entered : ∀ key, (s.entered key).isSome = true →
    ∃ needs, (key, needs) ∈ items ∧ ∀ need ∈ needs, Resolvable base items need

section
variable {base : K → Prop} {items : List (K × List K)} {s : State K V}

theorem sound_enter (h : Sound base items s) {key : K} {needs : List K}
    (hmem : (key, needs) ∈ items) (hready : s.ready needs = true) (value : V) :
    Sound base items (s.enter key value) := by
  have hneeds : ∀ need ∈ needs, Resolvable base items need := fun need hneed =>
    h.registry need (List.all_eq_true.mp hready need hneed)
  constructor
  · intro key' hkey'
    by_cases hsame : key' = key
    · subst hsame
      exact .item hmem hneeds
    · simp only [State.enter, put_of_ne hsame] at hkey'
      exact h.registry key' hkey'
  · intro key' hkey'
    by_cases hsame : key' = key
    · subst hsame
      exact ⟨needs, hmem, hneeds⟩
    · simp only [State.enter, put_of_ne hsame] at hkey'
      exact h.entered key' hkey'

/-- A pass over some of the items; what is pending again was pending. -/
theorem pass_sound (value : V) {pending : List (K × List K)} (hpending : ∀ i ∈ pending, i ∈ items)
    (h : Sound base items s) :
    Sound base items (pass value pending s).1 ∧ ∀ i ∈ (pass value pending s).2, i ∈ items := by
  induction pending generalizing s with
  | nil => exact ⟨h, fun i hi => absurd hi List.not_mem_nil⟩
  | cons item pending ih =>
    obtain ⟨key, needs⟩ := item
    have hmem := hpending _ List.mem_cons_self
    have hrest : ∀ i ∈ pending, i ∈ items := fun i hi => hpending i (List.mem_cons_of_mem _ hi)
    unfold pass
    split
    · rename_i hready
      exact ih hrest (sound_enter h hmem hready value)
    · obtain ⟨hsound, hnext⟩ := ih hrest h
      refine ⟨hsound, fun i hi => ?_⟩
      rcases List.mem_cons.mp hi with rfl | hi
      · exact hmem
      · exact hnext i hi

/-- **The passes register only what is resolvable.** -/
theorem passes_sound (value : V) (bound fuel idle : Nat) {pending : List (K × List K)}
    (hpending : ∀ i ∈ pending, i ∈ items) (h : Sound base items s) :
    Sound base items (passes value bound fuel idle pending s) := by
  induction fuel generalizing idle pending s with
  | zero => exact h
  | succ fuel ih =>
    obtain ⟨hsound, hnext⟩ := pass_sound value hpending h
    unfold passes
    split
    · exact h
    simp only
    split
    · exact ih _ hnext hsound
    split
    · exact hsound
    · exact ih _ hnext hsound

end

/-! ## Completeness -/

/-- The item has been entered. -/
def Entered (s : State K V) (item : K × List K) : Prop :=
  (s.registry item.1).isSome = true ∧ (s.entered item.1).isSome = true

omit [DecidableEq K] in
theorem Entered.mono {s t : State K V} {item : K × List K} (h : Entered s item) (hst : Grows s t) :
    Entered t item :=
  ⟨hst.registry _ h.1, hst.entered _ h.2⟩

theorem pass_length_le (value : V) (pending : List (K × List K)) (s : State K V) :
    (pass value pending s).2.length ≤ pending.length := by
  induction pending generalizing s with
  | nil => exact Nat.le_refl _
  | cons item pending ih =>
    obtain ⟨key, needs⟩ := item
    unfold pass
    split
    · exact Nat.le_succ_of_le (ih _)
    · exact Nat.succ_le_succ (ih s)

/-- After a pass an item has been entered or is pending. -/
theorem pass_cases (value : V) {pending : List (K × List K)} (s : State K V) {item : K × List K}
    (h : item ∈ pending) :
    Entered (pass value pending s).1 item ∨ item ∈ (pass value pending s).2 := by
  induction pending generalizing s with
  | nil => exact absurd h List.not_mem_nil
  | cons first pending ih =>
    obtain ⟨key, needs⟩ := first
    unfold pass
    split
    · rcases List.mem_cons.mp h with rfl | h
      · have hentered : Entered (s.enter key value) (key, needs) := by
          simp [Entered, State.enter]
        exact Or.inl (hentered.mono (pass_grows value pending _))
      · exact ih _ h
    · rcases List.mem_cons.mp h with rfl | h
      · exact Or.inr List.mem_cons_self
      · exact (ih s h).imp_right (List.mem_cons_of_mem _)

/-- A pass that leaves as many items pending changes nothing: none of them is ready. -/
theorem pass_stuck (value : V) {pending : List (K × List K)} {s : State K V}
    (h : ¬ (pass value pending s).2.length < pending.length) :
    pass value pending s = (s, pending) ∧ ∀ item ∈ pending, s.ready item.2 = false := by
  induction pending generalizing s with
  | nil => exact ⟨rfl, fun item hitem => absurd hitem List.not_mem_nil⟩
  | cons first pending ih =>
    obtain ⟨key, needs⟩ := first
    by_cases hready : s.ready needs = true
    · have hle := pass_length_le value pending (s.enter key value)
      rw [pass, if_pos hready, List.length_cons] at h
      omega
    · rw [pass, if_neg hready, List.length_cons, List.length_cons] at h
      obtain ⟨heq, hnone⟩ := ih fun hlt => h (Nat.succ_lt_succ hlt)
      refine ⟨by rw [pass, if_neg hready, heq], fun item hitem => ?_⟩
      rcases List.mem_cons.mp hitem with rfl | hitem
      · simpa using hready
      · exact hnone item hitem

theorem passes_stuck (value : V) (bound fuel idle : Nat) {pending : List (K × List K)}
    {s : State K V} (h : pass value pending s = (s, pending)) :
    passes value bound fuel idle pending s = s := by
  induction fuel generalizing idle with
  | zero => rfl
  | succ fuel ih =>
    unfold passes
    split
    · rfl
    · simp only [h, Nat.lt_irrefl, if_false]
      split
      · rfl
      · exact ih _

/-- Enough fuel: an item that is ready in the end has been entered. -/
theorem passes_closed (value : V) (bound fuel idle : Nat) {pending : List (K × List K)}
    {s : State K V} (hfuel : pending.length < fuel) {item : K × List K} (hitem : item ∈ pending)
    (hready : (passes value bound fuel idle pending s).ready item.2 = true) :
    Entered (passes value bound fuel idle pending s) item := by
  induction fuel generalizing idle pending s with
  | zero => omega
  | succ fuel ih =>
    unfold passes at hready ⊢
    split at hready
    · rename_i hnil
      rw [hnil] at hitem
      exact absurd hitem List.not_mem_nil
    rename_i hne
    rw [if_neg hne]
    simp only at hready ⊢
    by_cases hprogress : (pass value pending s).2.length < pending.length
    · rw [if_pos hprogress] at hready ⊢
      rcases pass_cases value s hitem with hentered | hnext
      · exact hentered.mono (passes_grows value bound fuel idle _ _)
      · exact ih idle (by omega) hnext hready
    · -- nothing was ready, and nothing will be
      obtain ⟨hstuck, hnone⟩ := pass_stuck value hprogress
      rw [if_neg hprogress, hstuck, passes_stuck value bound fuel _ hstuck, ite_self] at hready
      rw [hnone item hitem] at hready
      cases hready

/-- **The passes enter every item whose needs are resolvable.** -/
theorem passes_complete (value : V) (bound fuel : Nat) {items : List (K × List K)}
    {s : State K V} (hfuel : items.length < fuel) {item : K × List K} (hitem : item ∈ items)
    (hneeds : ∀ need ∈ item.2,
      Resolvable (fun key => (s.registry key).isSome = true) items need) :
    Entered (passes value bound fuel 0 items s) item := by
  have hgrows := passes_grows value bound fuel 0 items s
  have hregistered : ∀ key, Resolvable (fun key => (s.registry key).isSome = true) items key →
      ((passes value bound fuel 0 items s).registry key).isSome = true := by
    intro key h
    induction h with
    | base h => exact hgrows.registry _ h
    | item hmem _ ih =>
      exact (passes_closed value bound fuel 0 hfuel hmem (List.all_eq_true.mpr ih)).1
  exact passes_closed value bound fuel 0 hfuel hitem
    (List.all_eq_true.mpr fun need hneed => hregistered need (hneeds need hneed))

end Passes
