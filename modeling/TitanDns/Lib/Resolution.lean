import TitanDns.Lib.Loop
import TitanDns.Lib.Passes
import Mathlib.Data.List.Nodup

/-!
# Resolution with values

The passes of `Passes` with what they build.  An item is a list of steps that name keys; it is
built from its steps, each with what the registry holds for it, and from a view of the registry.
The loop repeats the sweeps until nothing is pending, or gives up after more than `bound` sweeps
without progress.

* `Builder`, `compile`, `sweep`, `resolve` — the algorithm.
* `Value` — what a key stands for, with no order at all.
* `resolve_ends` — **the loop ends**; `resolve_passes` — and, but for values, it does what
  `Passes.passes` does.
* `resolve_entered_iff` — **it enters exactly the items whose steps are resolvable.**
* `resolve_perm` — **items with distinct names are built alike in every order.**
-/

namespace Resolution

open PartialMap Passes

/-- How an item is built.  Nothing built changes the view. -/
structure Builder (K V W N : Type*) [DecidableEq K] where
  need : N → K
  view : (K → Option V) → W
  build : W → K → List (N × V) → V
  blind : ∀ registry key w compiled, registry key = none →
    view (put registry key (build w key compiled)) = view registry

/-- The loop's variables. -/
structure Turn (K V N : Type*) where
  pending : List (K × List N)
  state : State K V
  /-- The sweeps without progress so far. -/
  idle : Nat

variable {K V W N : Type*} [DecidableEq K]

namespace Builder

variable (b : Builder K V W N)

/-- Every step with what the registry holds for it, if it holds something for each. -/
def compile (registry : K → Option V) : List N → Option (List (N × V))
  | [] => some []
  | step :: steps =>
    match registry (b.need step) with
    | some v => (compile registry steps).map ((step, v) :: ·)
    | none => none

/-- One sweep: what compiles is built and entered, the rest is pending again. -/
def sweep : List (K × List N) → State K V → State K V × List (K × List N)
  | [], s => (s, [])
  | (key, steps) :: items, s =>
    match b.compile s.registry steps with
    | some compiled => sweep items (s.enter key (b.build (b.view s.registry) key compiled))
    | none =>
      let (t, pending) := sweep items s
      (t, (key, steps) :: pending)

/-- One turn of the loop. -/
def turn (bound : Nat) (t : Turn K V N) : Turn K V N ⊕ Option (State K V) :=
  if t.pending.isEmpty then .inr (some t.state)
  else
    let (s, next) := b.sweep t.pending t.state
    if next.length < t.pending.length then .inl ⟨next, s, t.idle⟩
    else if bound < t.idle + 1 then .inr (some s)
    else .inl ⟨next, s, t.idle + 1⟩

/-- The loop, with at most `n` turns. -/
def resolve (bound n : Nat) (items : List (K × List N)) (registry : K → Option V) :
    Option (State K V) :=
  Loop.loop (fun _ => b.turn bound) none n ⟨items, ⟨registry, empty⟩, 0⟩

/-- The items with the keys they need. -/
def needs (items : List (K × List N)) : List (K × List K) :=
  items.map fun i => (i.1, i.2.map b.need)

end Builder

variable {b : Builder K V W N}

/-! ## The loop ends -/

theorem sweep_length_le (items : List (K × List N)) (s : State K V) :
    (b.sweep items s).2.length ≤ items.length := by
  induction items generalizing s with
  | nil => exact Nat.le_refl _
  | cons item items ih =>
    obtain ⟨key, steps⟩ := item
    unfold Builder.sweep
    split
    · exact Nat.le_succ_of_le (ih _)
    · exact Nat.succ_le_succ (ih s)

/-- A turn leaves less to do: fewer items, or fewer idle sweeps. -/
theorem turn_owes (bound : Nat) (t : Turn K V N) :
    Loop.Owes (fun _ => True) (fun t => t.pending.length + (bound - t.idle))
      (fun e => e.isSome = true) t (b.turn bound t) := by
  unfold Builder.turn
  split
  · exact rfl
  · have hle := sweep_length_le (b := b) t.pending t.state
    simp only
    split
    · rename_i hlt
      refine ⟨trivial, ?_⟩
      show (b.sweep t.pending t.state).2.length + (bound - t.idle) <
        t.pending.length + (bound - t.idle)
      omega
    · split
      · exact rfl
      · rename_i hidle
        refine ⟨trivial, ?_⟩
        show (b.sweep t.pending t.state).2.length + (bound - (t.idle + 1)) <
          t.pending.length + (bound - t.idle)
        omega

/-- **The loop ends.** -/
theorem resolve_ends (b : Builder K V W N) (bound : Nat) (items : List (K × List N))
    (registry : K → Option V) :
    ∃ final, ∀ n, items.length + bound < n → b.resolve bound n items registry = some final := by
  have hends : (b.resolve bound (items.length + bound + 1) items registry).isSome = true :=
    Loop.loop_good (fun _ t _ => turn_owes bound t) trivial (Nat.lt_succ_self _)
  obtain ⟨final, hfinal⟩ := Option.isSome_iff_exists.mp hends
  exact ⟨final, fun n hn => Loop.loop_stable hfinal hn⟩

/-! ## Without values -/

section
variable {U : Type*} {f : V → U} {u : U}

/-- The state with other values. -/
def mapState (f : V → U) (s : State K V) : State K U :=
  ⟨fun key => (s.registry key).map f, fun key => (s.entered key).map f⟩

theorem put_map (m : K → Option V) (key : K) (v : V) (f : V → U) :
    (fun key' => (put m key v key').map f) = put (fun key' => (m key').map f) key (f v) := by
  funext key'
  by_cases h : key' = key
  · subst h
    simp
  · rw [put_of_ne h, put_of_ne h]

theorem mapState_enter (s : State K V) (key : K) (v : V) :
    mapState f (s.enter key v) = (mapState f s).enter key (f v) := by
  unfold mapState State.enter
  simp only [put_map]

omit [DecidableEq K] in
theorem ready_cons (s : State K U) (need : K) (needs : List K) :
    s.ready (need :: needs) = ((s.registry need).isSome && s.ready needs) := rfl

/-- An item compiles when it is ready. -/
theorem compile_isSome (b : Builder K V W N) (s : State K V) (steps : List N) :
    (b.compile s.registry steps).isSome = (mapState f s).ready (steps.map b.need) := by
  induction steps with
  | nil => rfl
  | cons step steps ih =>
    rw [List.map_cons, ready_cons, ← ih, Builder.compile]
    show _ = (((s.registry (b.need step)).map f).isSome && _)
    cases s.registry (b.need step) with
    | none => rfl
    | some v => exact Option.isSome_map

variable (hf : ∀ w key compiled, f (b.build w key compiled) = u)
include hf

/-- A sweep is a pass. -/
theorem sweep_pass (items : List (K × List N)) (s : State K V) :
    pass u (b.needs items) (mapState f s) =
      (mapState f (b.sweep items s).1, b.needs (b.sweep items s).2) := by
  induction items generalizing s with
  | nil => rfl
  | cons item items ih =>
    obtain ⟨key, steps⟩ := item
    have hready := compile_isSome (f := f) b s steps
    show pass u ((key, steps.map b.need) :: b.needs items) (mapState f s) = _
    unfold Passes.pass Builder.sweep
    cases hcompile : b.compile s.registry steps with
    | some compiled =>
      rw [hcompile] at hready
      have hyes : (mapState f s).ready (steps.map b.need) = true := hready.symm
      rw [if_pos hyes, ← hf (b.view s.registry) key compiled, ← mapState_enter]
      simp only [hf]
      exact ih _
    | none =>
      rw [hcompile] at hready
      have hnot : ¬ (mapState f s).ready (steps.map b.need) = true := by
        rw [← hready]
        exact Bool.false_ne_true
      rw [if_neg hnot, ih s]
      rfl

theorem loop_passes {bound n idle : Nat} {pending : List (K × List N)} {s final : State K V}
    (h : Loop.loop (fun _ => b.turn bound) none n ⟨pending, s, idle⟩ = some final) :
    passes u bound n idle (b.needs pending) (mapState f s) = mapState f final := by
  induction n generalizing pending s idle with
  | zero => cases h
  | succ n ih =>
    have hlength (items : List (K × List N)) : (b.needs items).length = items.length :=
      List.length_map _
    unfold Loop.loop Builder.turn at h
    unfold passes
    cases pending with
    | nil =>
      cases h
      rfl
    | cons item items =>
      have hne : b.needs (item :: items) ≠ [] := List.cons_ne_nil _ _
      rw [if_neg hne, sweep_pass hf]
      simp only [List.isEmpty_cons, Bool.false_eq_true, if_false] at h
      simp only [hlength]
      by_cases hprogress :
          (b.sweep (item :: items) s).2.length < (item :: items).length
      · rw [if_pos hprogress] at h ⊢
        exact ih h
      · rw [if_neg hprogress] at h ⊢
        by_cases hbound : bound < idle + 1
        · rw [if_pos hbound] at h ⊢
          cases h
          rfl
        · rw [if_neg hbound] at h ⊢
          exact ih h

/-- **But for its values, the loop is `passes`.** -/
theorem resolve_passes {bound n : Nat} {items : List (K × List N)} {registry : K → Option V}
    {final : State K V} (h : b.resolve bound n items registry = some final) :
    passes u bound n 0 (b.needs items) ⟨fun key => (registry key).map f, empty⟩ =
      mapState f final := loop_passes hf h

end

/-! ## What is entered -/

section
variable {bound n : Nat} {items : List (K × List N)} {registry : K → Option V} {final : State K V}

/-- The loop without values. -/
theorem resolve_unit (h : b.resolve bound n items registry = some final) :
    passes () bound n 0 (b.needs items) (mapState (fun _ => ()) ⟨registry, empty⟩) =
      mapState (fun _ => ()) final := resolve_passes (fun _ _ _ => rfl) h

theorem needs_mem {key : K} {ks : List K} :
    (key, ks) ∈ b.needs items ↔ ∃ steps, (key, steps) ∈ items ∧ ks = steps.map b.need := by
  unfold Builder.needs
  rw [List.mem_map]
  constructor
  · rintro ⟨⟨key', steps⟩, hmem, heq⟩
    cases heq
    exact ⟨steps, hmem, rfl⟩
  · rintro ⟨steps, hmem, rfl⟩
    exact ⟨(key, steps), hmem, rfl⟩

/-- A key that can be resolved from the registry at all. -/
def Resolves (b : Builder K V W N) (items : List (K × List N)) (registry : K → Option V) :
    K → Prop :=
  Resolvable (fun key => (registry key).isSome = true) (b.needs items)

theorem resolve_sound (h : b.resolve bound n items registry = some final) :
    Sound (fun key => (registry key).isSome = true) (b.needs items)
      (mapState (fun _ => ()) final) := by
  rw [← resolve_unit h]
  refine passes_sound () bound n 0 (fun _ h => h) ⟨fun key hkey => .base ?_, fun key hkey => ?_⟩
  · have hsome : ((registry key).map fun _ => ()).isSome = true := hkey
    rwa [Option.isSome_map] at hsome
  · cases hkey

theorem resolve_complete (hn : items.length < n)
    (h : b.resolve bound n items registry = some final) {key : K} {steps : List N}
    (hmem : (key, steps) ∈ items)
    (hsteps : ∀ step ∈ steps, Resolves b items registry (b.need step)) :
    (final.registry key).isSome = true ∧ (final.entered key).isSome = true := by
  have hlength : (b.needs items).length < n := by
    show (items.map _).length < n
    rw [List.length_map]
    exact hn
  have hcomplete := passes_complete () bound n
    (s := mapState (fun _ => ()) ⟨registry, empty⟩) hlength
    (needs_mem.mpr ⟨steps, hmem, rfl⟩) fun need hneed => by
      obtain ⟨step, hstep, rfl⟩ := List.mem_map.mp hneed
      refine (hsteps step hstep).mono (fun key hkey => ?_) fun _ h => h
      show ((registry key).map fun _ => ()).isSome = true
      rwa [Option.isSome_map]
  rw [resolve_unit h] at hcomplete
  obtain ⟨hregistry, hentered⟩ := hcomplete
  have hregistry' : ((final.registry key).map fun _ => ()).isSome = true := hregistry
  have hentered' : ((final.entered key).map fun _ => ()).isSome = true := hentered
  rw [Option.isSome_map] at hregistry' hentered'
  exact ⟨hregistry', hentered'⟩

/-- **The loop enters exactly the items whose steps are resolvable.** -/
theorem resolve_entered_iff (hn : items.length < n)
    (h : b.resolve bound n items registry = some final) (key : K) :
    (final.entered key).isSome = true ↔
      ∃ steps, (key, steps) ∈ items ∧ ∀ step ∈ steps, Resolves b items registry (b.need step) := by
  constructor
  · intro hkey
    have hkey' : ((final.entered key).map fun _ => ()).isSome = true := by
      rwa [Option.isSome_map]
    obtain ⟨ks, hmem, hks⟩ := (resolve_sound h).entered key hkey'
    obtain ⟨steps, hmem', rfl⟩ := needs_mem.mp hmem
    exact ⟨steps, hmem', fun step hstep => hks _ (List.mem_map_of_mem hstep)⟩
  · rintro ⟨steps, hmem, hsteps⟩
    exact (resolve_complete hn h hmem hsteps).2

/-- And registers nothing else. -/
theorem resolve_registry_iff (hn : items.length < n)
    (h : b.resolve bound n items registry = some final) (key : K) :
    (final.registry key).isSome = true ↔ Resolves b items registry key := by
  constructor
  · intro hkey
    have hkey' : ((final.registry key).map fun _ => ()).isSome = true := by
      rwa [Option.isSome_map]
    exact (resolve_sound h).registry key hkey'
  · intro hkey
    cases hkey with
    | base hbase =>
      have hgrows := passes_grows () bound n 0 (b.needs items)
        (mapState (fun _ => ()) ⟨registry, empty⟩)
      rw [resolve_unit h] at hgrows
      have hmapped : ((registry key).map fun _ => ()).isSome = true := by
        rwa [Option.isSome_map]
      have hfinal : ((final.registry key).map fun _ => ()).isSome = true :=
        hgrows.registry key hmapped
      rwa [Option.isSome_map] at hfinal
    | item hmem hneeds =>
      obtain ⟨steps, hmem', rfl⟩ := needs_mem.mp hmem
      exact (resolve_complete hn h hmem' fun step hstep =>
        hneeds _ (List.mem_map_of_mem hstep)).1

end

/-! ## Values -/

/-- What a key stands for. -/
inductive Value (b : Builder K V W N) (registry : K → Option V) (items : List (K × List N)) :
    K → V → Prop
  | registered {key : K} {v : V} (h : registry key = some v) : Value b registry items key v
  | built {key : K} {steps : List N} {compiled : List (N × V)} (h : (key, steps) ∈ items)
      (hsteps : compiled.map Prod.fst = steps)
      (hvalues : ∀ c ∈ compiled, Value b registry items (b.need c.1) c.2) :
      Value b registry items key (b.build (b.view registry) key compiled)

/-- The items have names of their own. -/
structure Distinct (registry : K → Option V) (items : List (K × List N)) : Prop where
  nodup : (items.map (·.1)).Nodup
  fresh : ∀ i ∈ items, registry i.1 = none

omit [DecidableEq K] in
theorem Distinct.perm {registry : K → Option V} {items items' : List (K × List N)}
    (h : Distinct registry items) (hperm : items.Perm items') : Distinct registry items' :=
  ⟨(hperm.map _).nodup_iff.mp h.nodup, fun i hi => h.fresh i (hperm.mem_iff.mpr hi)⟩

section
variable {registry : K → Option V} {items : List (K × List N)}

theorem Value.mono {items' : List (K × List N)} (hitems : ∀ i ∈ items, i ∈ items') {key : K}
    {v : V} (h : Value b registry items key v) : Value b registry items' key v := by
  induction h with
  | registered h => exact .registered h
  | built h hsteps _ ih => exact .built (hitems _ h) hsteps ih

omit [DecidableEq K] in
/-- Steps and their values determine what is compiled. -/
theorem compiled_unique {P : N → V → Prop} {compiled compiled' : List (N × V)}
    (hsteps : compiled.map Prod.fst = compiled'.map Prod.fst)
    (h : ∀ c ∈ compiled, ∀ v, P c.1 v → c.2 = v) (h' : ∀ c ∈ compiled', P c.1 c.2) :
    compiled = compiled' := by
  induction compiled generalizing compiled' with
  | nil => exact (List.map_eq_nil_iff.mp hsteps.symm).symm
  | cons c compiled ih =>
    cases compiled' with
    | nil => cases hsteps
    | cons c' compiled' =>
      obtain ⟨hstep, hrest⟩ := List.cons.inj hsteps
      have hvalue : c.2 = c'.2 := by
        apply h c List.mem_cons_self
        rw [hstep]
        exact h' c' List.mem_cons_self
      rw [Prod.ext hstep hvalue, ih hrest (fun c hc => h c (List.mem_cons_of_mem _ hc))
        fun c hc => h' c (List.mem_cons_of_mem _ hc)]

/-- **A key stands for one thing.** -/
theorem value_unique (hdistinct : Distinct registry items) {key : K} {v v' : V}
    (h : Value b registry items key v) (h' : Value b registry items key v') : v = v' := by
  induction h generalizing v' with
  | registered h =>
    cases h' with
    | registered h' => exact Option.some.inj (h.symm.trans h')
    | built hmem _ _ =>
      rw [hdistinct.fresh _ hmem] at h
      cases h
  | built hmem hsteps _ ih =>
    cases h' with
    | registered h' =>
      rw [hdistinct.fresh _ hmem] at h'
      cases h'
    | built hmem' hsteps' hvalues' =>
      have hsame := congrArg Prod.snd
        (List.inj_on_of_nodup_map hdistinct.nodup hmem hmem' rfl)
      have hcompiled := compiled_unique (P := fun step v => Value b registry items (b.need step) v)
        (hsteps.trans (hsame.trans hsteps'.symm)) (fun c hc v hv => ih c hc hv) hvalues'
      rw [hcompiled]

/-- The state holds only what its keys stand for. -/
structure Stands (b : Builder K V W N) (registry : K → Option V) (items : List (K × List N))
    (s : State K V) : Prop where
  registered : ∀ key v, s.registry key = some v → Value b registry items key v
  entered : ∀ key v, s.entered key = some v → Value b registry items key v

/-- What the loop keeps. -/
structure Kept (b : Builder K V W N) (registry : K → Option V) (items pending : List (K × List N))
    (s : State K V) : Prop where
  nodup : (pending.map (·.1)).Nodup
  pending : ∀ i ∈ pending, i ∈ items ∧ s.registry i.1 = none
  view : b.view s.registry = b.view registry
  stands : Stands b registry items s

theorem compile_some {r : K → Option V} {steps : List N} {compiled : List (N × V)}
    (h : b.compile r steps = some compiled) :
    compiled.map Prod.fst = steps ∧ ∀ c ∈ compiled, r (b.need c.1) = some c.2 := by
  induction steps generalizing compiled with
  | nil =>
    cases h
    exact ⟨rfl, fun c hc => absurd hc List.not_mem_nil⟩
  | cons step steps ih =>
    rw [Builder.compile] at h
    split at h
    · rename_i v hv
      obtain ⟨rest, hrest, rfl⟩ := Option.map_eq_some_iff.mp h
      obtain ⟨hsteps, hvalues⟩ := ih hrest
      refine ⟨by rw [List.map_cons, hsteps], fun c hc => ?_⟩
      rcases List.mem_cons.mp hc with rfl | hc
      · exact hv
      · exact hvalues c hc
    · cases h

/-- A sweep enters no other keys. -/
theorem sweep_of_ne {pending : List (K × List N)} {s : State K V} {key : K}
    (h : ∀ i ∈ pending, i.1 ≠ key) : (b.sweep pending s).1.registry key = s.registry key := by
  induction pending generalizing s with
  | nil => rfl
  | cons item pending ih =>
    obtain ⟨key', steps⟩ := item
    have hrest : ∀ i ∈ pending, i.1 ≠ key := fun i hi => h i (List.mem_cons_of_mem _ hi)
    have hne : key ≠ key' := Ne.symm (h _ List.mem_cons_self)
    unfold Builder.sweep
    split
    · rw [ih hrest]
      exact put_of_ne hne _ _
    · exact ih hrest

theorem sweep_sublist (pending : List (K × List N)) (s : State K V) :
    (b.sweep pending s).2.Sublist pending := by
  induction pending generalizing s with
  | nil => exact List.Sublist.refl _
  | cons item pending ih =>
    obtain ⟨key, steps⟩ := item
    unfold Builder.sweep
    split
    · exact (ih _).cons _
    · exact (ih s).cons_cons _

/-- What is built from what the registry holds stands for its key. -/
theorem Kept.enter {item : K × List N} {pending : List (K × List N)} {s : State K V}
    (h : Kept b registry items (item :: pending) s) {compiled : List (N × V)}
    (hcompile : b.compile s.registry item.2 = some compiled) :
    Kept b registry items pending
      (s.enter item.1 (b.build (b.view s.registry) item.1 compiled)) := by
  obtain ⟨hmem, hfresh⟩ := h.pending item List.mem_cons_self
  obtain ⟨hsteps, hvalues⟩ := compile_some hcompile
  obtain ⟨hnew, hnodup⟩ := List.nodup_cons.mp h.nodup
  have hvalue : Value b registry items item.1 (b.build (b.view s.registry) item.1 compiled) := by
    rw [h.view]
    exact .built hmem hsteps fun c hc => h.stands.registered _ _ (hvalues c hc)
  refine ⟨hnodup, fun i hi => ?_, ?_, fun key v hv => ?_, fun key v hv => ?_⟩
  · obtain ⟨himem, hifresh⟩ := h.pending i (List.mem_cons_of_mem _ hi)
    have hne : i.1 ≠ item.1 := fun heq => hnew (List.mem_map.mpr ⟨i, hi, heq⟩)
    exact ⟨himem, (put_of_ne hne _ _).trans hifresh⟩
  · exact (b.blind _ _ _ _ hfresh).trans h.view
  · rcases put_some hv with ⟨rfl, rfl⟩ | ⟨-, hold⟩
    · exact hvalue
    · exact h.stands.registered key v hold
  · rcases put_some hv with ⟨rfl, rfl⟩ | ⟨-, hold⟩
    · exact hvalue
    · exact h.stands.entered key v hold

theorem sweep_kept {pending : List (K × List N)} {s : State K V}
    (h : Kept b registry items pending s) :
    Kept b registry items (b.sweep pending s).2 (b.sweep pending s).1 := by
  induction pending generalizing s with
  | nil => exact h
  | cons item pending ih =>
    obtain ⟨key, steps⟩ := item
    unfold Builder.sweep
    cases hcompile : b.compile s.registry steps with
    | some compiled => exact ih (h.enter hcompile)
    | none =>
      obtain ⟨hnew, hnodup⟩ := List.nodup_cons.mp h.nodup
      have hrest : Kept b registry items pending s :=
        ⟨hnodup, fun i hi => h.pending i (List.mem_cons_of_mem _ hi), h.view, h.stands⟩
      have hkept := ih hrest
      have hsub := sweep_sublist (b := b) pending s
      refine ⟨?_, fun i hi => ?_, hkept.view, hkept.stands⟩
      · refine List.nodup_cons.mpr ⟨fun hmem => hnew ?_, hkept.nodup⟩
        exact (hsub.map _).subset hmem
      · rcases List.mem_cons.mp hi with rfl | hi
        · obtain ⟨hmem, hfresh⟩ := h.pending (key, steps) List.mem_cons_self
          exact ⟨hmem, (sweep_of_ne fun i hi heq => hnew (List.mem_map.mpr ⟨i, hi, heq⟩)).trans
            hfresh⟩
        · exact hkept.pending i hi

/-- **What the loop enters is what its name stands for.** -/
theorem resolve_values (hdistinct : Distinct registry items) {bound n : Nat} {final : State K V}
    (h : b.resolve bound n items registry = some final) : Stands b registry items final := by
  have hstart : Kept b registry items items ⟨registry, empty⟩ :=
    ⟨hdistinct.nodup, fun i hi => ⟨hi, hdistinct.fresh i hi⟩, rfl,
      fun key v hv => .registered hv, fun key v hv => (by cases hv)⟩
  have hinl : ∀ (_ : Nat) (t t' : Turn K V N), Kept b registry items t.pending t.state →
      b.turn bound t = .inl t' → Kept b registry items t'.pending t'.state := by
    intro _ t t' hkept hstep
    have hswept := sweep_kept hkept
    unfold Builder.turn at hstep
    split at hstep
    · cases hstep
    · simp only at hstep
      split at hstep
      · cases hstep
        exact hswept
      · split at hstep
        · cases hstep
        · cases hstep
          exact hswept
  have hinr : ∀ (_ : Nat) (t : Turn K V N) (e : Option (State K V)),
      Kept b registry items t.pending t.state → b.turn bound t = .inr e →
      ∀ final ∈ e, Stands b registry items final := by
    intro _ t e hkept hstep final hfinal
    have hswept := sweep_kept hkept
    unfold Builder.turn at hstep
    split at hstep
    · cases hstep
      cases hfinal
      exact hkept.stands
    · simp only at hstep
      split at hstep
      · cases hstep
      · split at hstep
        · cases hstep
          cases hfinal
          exact hswept.stands
        · cases hstep
  have hnone : ∀ final ∈ (none : Option (State K V)), Stands b registry items final :=
    fun _ hmem => by cases hmem
  have hend : ∀ final ∈ b.resolve bound n items registry, Stands b registry items final := by
    unfold Builder.resolve
    exact Loop.loop_avoids hnone hinl hinr hstart
  exact hend final h

/-- **The order of items with distinct names does not matter.** -/
theorem resolve_perm (hdistinct : Distinct registry items) {items' : List (K × List N)}
    (hperm : items.Perm items') {bound n n' : Nat} (hn : items.length < n)
    (hn' : items'.length < n') {final final' : State K V}
    (h : b.resolve bound n items registry = some final)
    (h' : b.resolve bound n' items' registry = some final') : final = final' := by
  have hmem : ∀ i, i ∈ items ↔ i ∈ items' := fun _ => hperm.mem_iff
  have hstands := resolve_values hdistinct h
  have hstands' := resolve_values (hdistinct.perm hperm) h'
  have hback : ∀ key v, Value b registry items' key v → Value b registry items key v :=
    fun _ _ => Value.mono fun i => (hmem i).mpr
  have hresolves (key : K) : Resolves b items registry key ↔ Resolves b items' registry key := by
    constructor
    · exact Resolvable.mono (fun _ h => h) fun i hi => by
        obtain ⟨steps, hi', hks⟩ := needs_mem.mp hi
        exact needs_mem.mpr ⟨steps, (hmem _).mp hi', hks⟩
    · exact Resolvable.mono (fun _ h => h) fun i hi => by
        obtain ⟨steps, hi', hks⟩ := needs_mem.mp hi
        exact needs_mem.mpr ⟨steps, (hmem _).mpr hi', hks⟩
  have hext : ∀ m m' : K → Option V, (∀ key v, m key = some v → Value b registry items key v) →
      (∀ key v, m' key = some v → Value b registry items key v) →
      (∀ key, (m key).isSome = true ↔ (m' key).isSome = true) → m = m' := by
    intro m m' hm hm' hsome
    funext key
    cases hv : m key with
    | none =>
      cases hv' : m' key with
      | none => rfl
      | some v' =>
        have := (hsome key).mpr (by rw [hv']; rfl)
        rw [hv] at this
        cases this
    | some v =>
      obtain ⟨v', hv'⟩ := Option.isSome_iff_exists.mp ((hsome key).mp (by rw [hv]; rfl))
      rw [hv', value_unique hdistinct (hm key v hv) (hm' key v' hv')]
  obtain ⟨r, e⟩ := final
  obtain ⟨r', e'⟩ := final'
  have hr : r = r' :=
    hext r r' hstands.registered (fun key v hv => hback key v (hstands'.registered key v hv))
      fun key => (resolve_registry_iff hn h key).trans
        ((hresolves key).trans (resolve_registry_iff hn' h' key).symm)
  have he : e = e' := by
    refine hext e e' hstands.entered
      (fun key v hv => hback key v (hstands'.entered key v hv)) fun key => ?_
    rw [resolve_entered_iff hn h key, resolve_entered_iff hn' h' key]
    simp only [hmem, hresolves]
  rw [hr, he]

end

end Resolution
