import TitanDns.Lib.PartialMap
import TitanDns.Lib.Run

/-!
# `Singleflight`

Callers of `do_work` whose atomic steps interleave in any order.

* `State` — the map `inflight`, the once-cells, the callers, and every execution of a caller's
  function; `step` — one atomic step of one caller, who may also be dropped.
* `Deduplicated` — **at most one execution is in flight for a key, and every caller returns the
  result of an execution of its own key that overlaps its call.**
* `Flight` — the invariant; its heart is that the map leads to every unfinished cell at which
  somebody still waits or works.
* `deduplicated_of_clean` — **it holds in every run in which no removal takes such a cell away and
  no call joins a finished one**; `duplicate_work` — two runs with one of these each.
-/

namespace TitanDns.Singleflight

open Run

variable {K V : Type}

/-- A call, by number: the callers of one `Singleflight` are as many as there are. -/
abbrev Caller := Nat

/-- `Arc<OnceCell<..>>`, by address. -/
abbrev CellId := Nat

/-- One execution of a caller's function, with the moments at which it began and ended. -/
structure Execution (K V : Type) where
  key : K
  leader : Caller
  result : Except String V
  began : Nat
  ended : Nat

/-- A once-cell: nobody initialises it, a leader does, or it holds what an execution gave. -/
inductive Cell (K V : Type) where
  | empty
  | running (leader : Caller) (began : Nat)
  | done (e : Execution K V)

def Cell.isDone : Cell K V → Bool
  | .done _ => true
  | _ => false

/-- What a caller has returned. -/
structure Returned (K V : Type) where
  key : K
  of : Execution K V
  entered : Nat
  returned : Nat

/-- The execution and the call have a moment in common. -/
def Returned.Overlaps (r : Returned K V) : Prop :=
  r.of.began ≤ r.returned ∧ r.entered ≤ r.of.ended

/-- Where a caller stands in `do_work`. -/
inductive Phase (K V : Type) where
  | idle
  /-- It has its cell and is about to call `get_or_init`, or waits in it. -/
  | entered (key : K) (cell : CellId) (since : Nat)
  /-- It runs its own function. -/
  | leading (key : K) (cell : CellId) (since began : Nat)
  /-- `get_or_init` has given it a result; the removal is next. -/
  | woken (key : K) (of : Execution K V) (since : Nat)
  | returned (r : Returned K V)
  /-- Its future was dropped. -/
  | dropped

/-- The key and the cell of a caller that has not got a result yet. -/
def Phase.place : Phase K V → Option (K × CellId)
  | .entered key i _ => some (key, i)
  | .leading key i _ _ => some (key, i)
  | _ => none

structure State (K V : Type) where
  inflight : K → Option CellId
  cells : CellId → Cell K V
  /-- The next new cell. -/
  fresh : CellId
  callers : Caller → Phase K V
  executions : List (Execution K V)
  clock : Nat

/-- `Singleflight::new` -/
def new : State K V where
  inflight := fun _ => none
  cells := fun _ => .empty
  fresh := 0
  callers := fun _ => .idle
  executions := []
  clock := 0

inductive Event (K V : Type) where
  /-- `entry(key).or_insert_with(..).clone()` -/
  | enter (c : Caller) (key : K)
  /-- `get_or_init` is polled. -/
  | getOrInit (c : Caller)
  /-- The function of a leader is ready. -/
  | finish (c : Caller) (result : Except String V)
  /-- `inflight.remove(&key)`, and the return -/
  | remove (c : Caller)
  /-- The caller's future is dropped at an await. -/
  | drop (c : Caller)

namespace State

section

variable (s : State K V)

def setCaller (c : Caller) (p : Phase K V) : State K V :=
  { s with callers := Function.update s.callers c p }

def setCell (i : CellId) (cell : Cell K V) : State K V :=
  { s with cells := Function.update s.cells i cell }

@[simp] theorem setCell_self (i : CellId) (cell : Cell K V) :
    (s.setCell i cell).cells i = cell := Function.update_self ..

theorem setCell_of_ne {i j : CellId} (h : j ≠ i) (cell : Cell K V) :
    (s.setCell i cell).cells j = s.cells j := Function.update_of_ne h ..

end

section

variable [DecidableEq K] (s : State K V)

/-- The first statement of `do_work`. -/
def enter (c : Caller) (key : K) : State K V :=
  match s.inflight key with
  | some i => s.setCaller c (.entered key i s.clock)
  | none =>
    { s.setCaller c (.entered key s.fresh s.clock) with
      inflight := PartialMap.put s.inflight key s.fresh
      fresh := s.fresh + 1 }

/-- `get_or_init` of a caller that holds no permit. -/
def getOrInit (c : Caller) (key : K) (i : CellId) (since : Nat) : State K V :=
  match s.cells i with
  | .done e => s.setCaller c (.woken key e since)
  | .running _ _ => s
  | .empty =>
    (s.setCell i (.running c s.clock)).setCaller c (.leading key i since s.clock)

/-- The leader's function is ready: the cell is set. -/
def finish (c : Caller) (key : K) (i : CellId) (since began : Nat) (result : Except String V) :
    State K V :=
  let e : Execution K V := ⟨key, c, result, began, s.clock⟩
  { (s.setCell i (.done e)).setCaller c (.woken key e since) with
    executions := s.executions ++ [e] }

/-- The caller removes whatever the map holds for its key, and returns. -/
def remove (c : Caller) (key : K) (of : Execution K V) (since : Nat) : State K V :=
  { s.setCaller c (.returned ⟨key, of, since, s.clock⟩) with
    inflight := PartialMap.forget s.inflight key }

/-- One atomic step; a caller that is not at that step stays as it is. -/
def act : Event K V → State K V
  | .enter c key =>
    match s.callers c with
    | .idle => s.enter c key
    | _ => s
  | .getOrInit c =>
    match s.callers c with
    | .entered key i since => s.getOrInit c key i since
    | _ => s
  | .finish c result =>
    match s.callers c with
    | .leading key i since began => s.finish c key i since began result
    | _ => s
  | .remove c =>
    match s.callers c with
    | .woken key of since => s.remove c key of since
    | _ => s
  | .drop c =>
    match s.callers c with
    | .entered _ _ _ => s.setCaller c .dropped
    -- the permit of the cell goes back, so that another caller may initialise it
    | .leading _ i _ _ => (s.setCell i .empty).setCaller c .dropped
    | _ => s

def step (ev : Event K V) : State K V :=
  let acted := s.act ev
  { acted with clock := acted.clock + 1 }

end

/-! ## What callers are promised -/

/-- The caller runs its function for the key. -/
def Leads (s : State K V) (c : Caller) (key : K) : Prop :=
  ∃ i since began, s.callers c = .leading key i since began

/-- At most one execution is in flight for a key, and every caller that returned gave the result of
an execution of its own key that overlaps its call. -/
structure Deduplicated (s : State K V) : Prop where
  single : ∀ c c' key, s.Leads c key → s.Leads c' key → c = c'
  own : ∀ c r, s.callers c = .returned r →
    r.of ∈ s.executions ∧ r.of.key = r.key ∧ r.Overlaps

/-- A removal takes no unfinished cell away from those who hold it, and a call joins none that is
finished. -/
def Clean (s : State K V) : Event K V → Prop
  | .enter c key =>
    s.callers c = .idle → ∀ i, s.inflight key = some i → (s.cells i).isDone = false
  | .remove c =>
    ∀ key of since, s.callers c = .woken key of since →
      ∀ c' i, (s.callers c').place = some (key, i) → (s.cells i).isDone = true
  | _ => True

/-! ## The invariant -/

/-- What a caller in the phase relies on: the map leads to its cell as long as that is unfinished,
and what the cell holds afterwards is its own. -/
def Stands (s : State K V) (c : Caller) : Phase K V → Prop
  | .idle => True
  | .entered key i since =>
    ((s.cells i).isDone = false → s.inflight key = some i) ∧
      (∀ e, s.cells i = .done e → e.key = key ∧ since ≤ e.ended) ∧ since ≤ s.clock
  | .leading key i since began =>
    s.cells i = .running c began ∧ s.inflight key = some i ∧ since ≤ s.clock ∧ began ≤ s.clock
  | .woken key of since => of ∈ s.executions ∧ of.key = key ∧ since ≤ of.ended
  | .returned r => r.of ∈ s.executions ∧ r.of.key = r.key ∧ r.Overlaps
  | .dropped => True

structure Flight (s : State K V) : Prop where
  bound : ∀ key i, s.inflight key = some i → i < s.fresh
  blank : ∀ i, s.fresh ≤ i → s.cells i = .empty
  apart : ∀ key key' i, s.inflight key = some i → s.inflight key' = some i → key = key'
  kept : ∀ i e, s.cells i = .done e → e ∈ s.executions
  past : ∀ e ∈ s.executions, e.began ≤ s.clock
  stands : ∀ c, s.Stands c (s.callers c)

theorem flight_new : Flight (new : State K V) where
  bound := by
    intro key i hi
    cases hi
  blank := fun _ _ => rfl
  apart := by
    intro key key' i hi
    cases hi
  kept := by
    intro i e he
    cases he
  past := by
    intro e he
    cases he
  stands := fun _ => trivial

variable {s : State K V}

/-- The map leads one caller of a key only, and what a caller returns was made while it waited. -/
theorem Flight.deduplicated (h : s.Flight) : s.Deduplicated where
  single := by
    rintro c c' key ⟨i, since, began, hc⟩ ⟨i', since', began', hc'⟩
    have hs := h.stands c
    have hs' := h.stands c'
    rw [hc] at hs
    rw [hc'] at hs'
    obtain ⟨hcell, hmap, -, -⟩ := hs
    obtain ⟨hcell', hmap', -, -⟩ := hs'
    have hi : i = i' := Option.some.inj (hmap.symm.trans hmap')
    subst hi
    rw [hcell] at hcell'
    cases hcell'
    rfl
  own := by
    intro c r hc
    have hs := h.stands c
    rw [hc] at hs
    exact hs

/-! ## One step -/

/-- When one caller moves, the others have to stand as before. -/
theorem stands_set {s' : State K V} {c : Caller} {p : Phase K V} (h : s.Flight)
    (hcallers : s'.callers = Function.update s.callers c p) (hp : s'.Stands c p)
    (hothers : ∀ c', c' ≠ c → s.Stands c' (s.callers c') → s'.Stands c' (s.callers c'))
    (c' : Caller) : s'.Stands c' (s'.callers c') := by
  rw [hcallers]
  by_cases hc : c' = c
  · subst hc
    rw [Function.update_self]
    exact hp
  · rw [Function.update_of_ne hc]
    exact hothers c' hc (h.stands c')

/-- A caller stands as long as its cell is left alone and the map still leads there. -/
theorem Stands.frame {s' : State K V} {c : Caller} {p : Phase K V} (hs : s.Stands c p)
    (hcells : s'.cells = s.cells) (hexec : ∀ e ∈ s.executions, e ∈ s'.executions)
    (hclock : s.clock ≤ s'.clock)
    (hmap : ∀ key i, p.place = some (key, i) → (s.cells i).isDone = false →
      s.inflight key = some i → s'.inflight key = some i) : s'.Stands c p := by
  cases p with
  | idle => trivial
  | dropped => trivial
  | entered key i since =>
    obtain ⟨hlead, hdone, hsince⟩ := hs
    unfold Stands
    rw [hcells]
    exact ⟨fun hd => hmap key i rfl hd (hlead hd), hdone, Nat.le_trans hsince hclock⟩
  | leading key i since began =>
    obtain ⟨hcell, hlead, hsince, hbegan⟩ := hs
    have hd : (s.cells i).isDone = false := by rw [hcell]; rfl
    unfold Stands
    rw [hcells]
    exact ⟨hcell, hmap key i rfl hd hlead, Nat.le_trans hsince hclock, Nat.le_trans hbegan hclock⟩
  | woken key of since => exact ⟨hexec of hs.1, hs.2⟩
  | returned r => exact ⟨hexec r.of hs.1, hs.2⟩

/-- A caller stands when a cell is written that it does not lead, and what an execution leaves there
is its own. -/
theorem Stands.setCell {c : Caller} {p : Phase K V} (hs : s.Stands c p) {i : CellId}
    {cell : Cell K V} (hopen : (s.cells i).isDone = false)
    (hnot : ∀ key since began, p ≠ .leading key i since began)
    (hown : ∀ e key since, cell = .done e → p = .entered key i since → s.inflight key = some i →
      since ≤ s.clock → e.key = key ∧ since ≤ e.ended) : (s.setCell i cell).Stands c p := by
  cases p with
  | entered key j since =>
    obtain ⟨hlead, hdone, hsince⟩ := hs
    by_cases hj : j = i
    · subst hj
      refine ⟨fun _ => hlead hopen, ?_, hsince⟩
      intro e he
      rw [setCell_self] at he
      exact hown e key since he rfl (hlead hopen) hsince
    · have hcell := setCell_of_ne s hj cell
      refine ⟨fun hd => hlead (hcell ▸ hd), fun e he => hdone e (hcell ▸ he), hsince⟩
  | leading key j since began =>
    have hj : j ≠ i := by
      rintro rfl
      exact hnot key since began rfl
    exact ⟨(setCell_of_ne s hj cell).trans hs.1, hs.2⟩
  | idle => trivial
  | dropped => trivial
  | woken key of since => exact hs
  | returned r => exact hs

/-- Time passes. -/
theorem Flight.tick (h : s.Flight) : Flight { s with clock := s.clock + 1 } where
  bound := h.bound
  blank := h.blank
  apart := h.apart
  kept := h.kept
  past := fun e he => Nat.le_succ_of_le (h.past e he)
  stands := fun c =>
    (h.stands c).frame rfl (fun _ he => he) (Nat.le_succ _) fun _ _ _ _ hmap => hmap

/-- A caller that moves by itself. -/
theorem Flight.setCaller (h : s.Flight) {c : Caller} {p : Phase K V} (hp : s.Stands c p) :
    (s.setCaller c p).Flight where
  bound := h.bound
  blank := h.blank
  apart := h.apart
  kept := h.kept
  past := h.past
  stands := stands_set h rfl hp fun _ _ hs => hs

theorem Flight.enter [DecidableEq K] (h : s.Flight) (c : Caller) {key : K}
    (hjoin : ∀ i, s.inflight key = some i → (s.cells i).isDone = false) :
    (s.enter c key).Flight := by
  unfold State.enter
  split
  · rename_i i hmap
    refine h.setCaller ⟨fun _ => hmap, ?_, Nat.le_refl _⟩
    intro e he
    have hdone := hjoin i hmap
    rw [he] at hdone
    cases hdone
  · rename_i hmap
    have hfresh : s.cells s.fresh = .empty := h.blank _ (Nat.le_refl _)
    constructor
    · intro key' i hi
      rcases PartialMap.put_some hi with ⟨-, rfl⟩ | ⟨-, hi⟩
      · exact Nat.lt_succ_self _
      · exact Nat.lt_succ_of_lt (h.bound key' i hi)
    · intro i hi
      exact h.blank i (Nat.le_of_succ_le hi)
    · intro key₁ key₂ i h₁ h₂
      rcases PartialMap.put_some h₁ with ⟨hk₁, hi₁⟩ | ⟨-, h₁⟩
      · rcases PartialMap.put_some h₂ with ⟨hk₂, -⟩ | ⟨-, h₂⟩
        · rw [hk₁, hk₂]
        · exact absurd (h.bound key₂ i h₂) (hi₁ ▸ Nat.lt_irrefl _)
      · rcases PartialMap.put_some h₂ with ⟨-, hi₂⟩ | ⟨-, h₂⟩
        · exact absurd (h.bound key₁ i h₁) (hi₂ ▸ Nat.lt_irrefl _)
        · exact h.apart key₁ key₂ i h₁ h₂
    · exact h.kept
    · exact h.past
    · apply stands_set h rfl
      · refine ⟨fun _ => PartialMap.put_self .., ?_, Nat.le_refl _⟩
        intro e he
        change s.cells s.fresh = .done e at he
        rw [hfresh] at he
        cases he
      · intro c' _ hs
        refine hs.frame rfl (fun _ he => he) (Nat.le_refl _) fun key' i _ _ hi => ?_
        have hne : key' ≠ key := by
          rintro rfl
          rw [hmap] at hi
          cases hi
        exact (PartialMap.put_of_ne hne _ _).trans hi

/-- What a step does at an unfinished cell that nobody else leads: it writes the cell, moves its own
caller, and may put executions on record. -/
theorem Flight.write (h : s.Flight) {c : Caller} {p : Phase K V} {key : K} {i : CellId}
    {cell : Cell K V} {es : List (Execution K V)} (hmap : s.inflight key = some i)
    (hopen : (s.cells i).isDone = false)
    (hsole : ∀ c' began, s.cells i = .running c' began → c' = c)
    (hes : ∀ e ∈ es, e.began ≤ s.clock)
    (hcell : ∀ e, cell = .done e → e ∈ es ∧ e.key = key ∧ e.ended = s.clock)
    (hp : Stands { (s.setCell i cell).setCaller c p with executions := s.executions ++ es } c p) :
    Flight { (s.setCell i cell).setCaller c p with executions := s.executions ++ es } where
  bound := h.bound
  blank := by
    intro j hj
    have hne : j ≠ i := by
      rintro rfl
      exact absurd (h.bound key j hmap) (Nat.not_lt_of_le hj)
    exact (setCell_of_ne s hne cell).trans (h.blank j hj)
  apart := h.apart
  kept := by
    intro j e he
    change (s.setCell i cell).cells j = .done e at he
    by_cases hj : j = i
    · subst hj
      rw [setCell_self] at he
      exact List.mem_append_right _ (hcell e he).1
    · rw [setCell_of_ne s hj] at he
      exact List.mem_append_left _ (h.kept j e he)
  past := by
    intro e he
    rcases List.mem_append.mp he with he | he
    · exact h.past e he
    · exact hes e he
  stands := by
    apply stands_set h rfl hp
    intro c' hc' hs
    have hset : (s.setCell i cell).Stands c' (s.callers c') := by
      refine hs.setCell hopen ?_ ?_
      · intro key' since began heq
        rw [heq] at hs
        exact hc' (hsole c' began hs.1)
      · intro e key' since he _ hmap' hsince
        obtain ⟨-, hkey, hended⟩ := hcell e he
        rw [hkey, hended]
        exact ⟨h.apart key key' i hmap hmap', hsince⟩
    exact hset.frame rfl (fun _ he => List.mem_append_left _ he) (Nat.le_refl _)
      fun _ _ _ _ hmap => hmap

theorem Flight.getOrInit (h : s.Flight) {c : Caller} {key : K} {i : CellId} {since : Nat}
    (hc : s.callers c = .entered key i since) : (s.getOrInit c key i since).Flight := by
  have hs := h.stands c
  rw [hc] at hs
  obtain ⟨hlead, hdone, hsince⟩ := hs
  unfold State.getOrInit
  split
  · rename_i e he
    exact h.setCaller ⟨h.kept i e he, hdone e he⟩
  · exact h
  · rename_i hempty
    have hopen : (s.cells i).isDone = false := by rw [hempty]; rfl
    have hmap : s.inflight key = some i := hlead hopen
    have hwrite := @Flight.write K V s h c (.leading key i since s.clock) key i
      (.running c s.clock) [] hmap hopen ?_ ?_ ?_ ?_
    · rw [List.append_nil] at hwrite
      exact hwrite
    · intro c' began hrun
      rw [hempty] at hrun
      cases hrun
    · intro e he
      cases he
    · intro e he
      cases he
    · exact ⟨setCell_self .., hmap, hsince, Nat.le_refl _⟩

theorem Flight.finish (h : s.Flight) {c : Caller} {key : K} {i : CellId} {since began : Nat}
    (hc : s.callers c = .leading key i since began) (result : Except String V) :
    (s.finish c key i since began result).Flight := by
  have hs := h.stands c
  rw [hc] at hs
  obtain ⟨hcell, hmap, hsince, hbegan⟩ := hs
  refine h.write hmap (by rw [hcell]; rfl) ?_ ?_ ?_ ?_
  · intro c' began' hrun
    rw [hcell] at hrun
    cases hrun
    rfl
  · intro e he
    cases List.mem_singleton.mp he
    exact hbegan
  · intro e he
    cases he
    exact ⟨List.mem_singleton_self _, rfl, rfl⟩
  · exact ⟨List.mem_append_right _ (List.mem_singleton_self _), rfl, hsince⟩

/-- A leader that is dropped leaves the cell to the others. -/
theorem Flight.release (h : s.Flight) {c : Caller} {key : K} {i : CellId} {since began : Nat}
    (hc : s.callers c = .leading key i since began) :
    ((s.setCell i .empty).setCaller c .dropped).Flight := by
  have hs := h.stands c
  rw [hc] at hs
  obtain ⟨hcell, hmap, -, -⟩ := hs
  have hwrite := @Flight.write K V s h c .dropped key i .empty [] hmap (by rw [hcell]; rfl) ?_ ?_ ?_
    trivial
  · rw [List.append_nil] at hwrite
    exact hwrite
  · intro c' began' hrun
    rw [hcell] at hrun
    cases hrun
    rfl
  · intro e he
    cases he
  · intro e he
    cases he

theorem Flight.remove [DecidableEq K] (h : s.Flight) {c : Caller} {key : K}
    {of : Execution K V} {since : Nat} (hc : s.callers c = .woken key of since)
    (hclean : ∀ c' i, (s.callers c').place = some (key, i) → (s.cells i).isDone = true) :
    (s.remove c key of since).Flight where
  bound := fun key' i hi => h.bound key' i (PartialMap.forget_some hi).2
  blank := h.blank
  apart := fun key₁ key₂ i h₁ h₂ =>
    h.apart key₁ key₂ i (PartialMap.forget_some h₁).2 (PartialMap.forget_some h₂).2
  kept := h.kept
  past := h.past
  stands := by
    have hs := h.stands c
    rw [hc] at hs
    obtain ⟨hof, hkey, hsince⟩ := hs
    apply stands_set h rfl
    · exact ⟨hof, hkey, h.past of hof, hsince⟩
    · intro c' _ hs'
      refine hs'.frame rfl (fun _ he => he) (Nat.le_refl _) fun key' i hplace hopen hmap => ?_
      -- a caller at this key would lose an unfinished cell
      have hne : key' ≠ key := by
        rintro rfl
        rw [hclean c' i hplace] at hopen
        cases hopen
      exact (PartialMap.forget_of_ne hne _).trans hmap

/-- **One step.** -/
theorem Flight.act [DecidableEq K] (h : s.Flight) (ev : Event K V) (hclean : s.Clean ev) :
    (s.act ev).Flight := by
  cases ev with
  | enter c key =>
    rw [State.act]
    split
    · rename_i hc
      exact h.enter c (hclean hc)
    · exact h
  | getOrInit c =>
    rw [State.act]
    split
    · rename_i hc
      exact h.getOrInit hc
    · exact h
  | finish c result =>
    rw [State.act]
    split
    · rename_i hc
      exact h.finish hc result
    · exact h
  | remove c =>
    rw [State.act]
    split
    · rename_i hc
      exact h.remove hc (hclean _ _ _ hc)
    · exact h
  | drop c =>
    rw [State.act]
    split
    · exact h.setCaller trivial
    · rename_i hc
      exact h.release hc
    · exact h

theorem Flight.step [DecidableEq K] (h : s.Flight) (ev : Event K V) (hclean : s.Clean ev) :
    (s.step ev).Flight :=
  (h.act ev hclean).tick

end State

/-! ## Runs -/

variable [DecidableEq K]

/-- **Singleflight**, in every run in which no removal takes an unfinished cell away from its
callers and no call joins a finished one. -/
theorem deduplicated_of_clean (es : List (Event K V)) (h : Meets State.step State.Clean new es) :
    (run State.step new es).Deduplicated := by
  have hstep : ∀ (s : State K V) ev, s.Flight → s.Clean ev → (s.step ev).Flight :=
    fun _ ev hs hclean => hs.step ev hclean
  exact (invariant hstep State.flight_new h).deduplicated

/-- One wave of callers, as in the test. -/
def oneWave : List (Event Nat Nat) :=
  [.enter 0 7, .enter 1 7, .getOrInit 0, .getOrInit 1, .finish 0 (.ok 5), .getOrInit 1, .remove 0,
    .remove 1]

/-- After the first wave has its result, a waiter of it (1) takes away the cell of the next leader
(2), and a fourth caller (3) starts the same work again. -/
def lateWaiter : List (Event Nat Nat) :=
  [.enter 0 7, .getOrInit 0, .enter 1 7, .finish 0 (.ok 5), .getOrInit 1, .remove 0, .enter 2 7,
    .getOrInit 2, .remove 1, .enter 3 7, .getOrInit 3]

/-- Between the end of the execution and the removal, another caller enters. -/
def finishedCell : List (Event Nat Nat) :=
  [.enter 0 7, .getOrInit 0, .finish 0 (.ok 5), .enter 1 7, .getOrInit 1, .remove 1]

theorem deduplicated_of_clean_oneWave : (run State.step new oneWave).Deduplicated := by
  refine deduplicated_of_clean oneWave ⟨?_, ?_, trivial, trivial, trivial, trivial, ?_, ?_, trivial⟩
  · intro _ i hi
    cases hi
  · intro _ i hi
    cases hi
    rfl
  -- at the removals both callers have their result
  · intro key of since _ c' i hplace
    match c' with
    | 0 => cases hplace
    | 1 => cases hplace
    | _ + 2 => cases hplace
  · intro key of since _ c' i hplace
    match c' with
    | 0 => cases hplace
    | 1 => cases hplace
    | _ + 2 => cases hplace

theorem duplicate_work :
    ¬ (run State.step new lateWaiter).Deduplicated ∧
      ¬ (run State.step new finishedCell).Deduplicated := by
  constructor
  · intro h
    have hsame := h.single 2 3 7 ⟨1, 6, 7, rfl⟩ ⟨2, 9, 10, rfl⟩
    cases hsame
  · intro h
    obtain ⟨-, -, -, hlate⟩ := h.own 1 ⟨7, ⟨7, 0, .ok 5, 1, 2⟩, 3, 5⟩ rfl
    exact absurd hlate (by decide)

end TitanDns.Singleflight
