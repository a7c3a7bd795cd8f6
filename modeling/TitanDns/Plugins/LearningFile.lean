import TitanDns.Plugins.Learning
import Mathlib.Data.Finmap

/-!
# The file of learned verdicts

What `start_persistence_task` writes of `persist_data`, over whole lives of a plugin: inserts, trims
at capacity, ticks of the task and saves that fail, in every order.

* `LearningFile`, `LearningFile.step` — persisted data, the trims under way, the file, the count at
  the last save.
* `same_data` — **`persist_data` here is the one of `Learning`**: the two move by the same changes.
* `Lossless` — a tick leaves in the file what it saves, and saves what is not in the file.
* `Outgrows` — data that is not in the file has more entries than at every earlier tick.

Principal results: `file_of_written` — **a save that succeeds leaves the data in the file**;
`lossless_iff_outgrows` — **what changed is saved exactly when there is more of it than ever
before**; `file_frozen_at_capacity` — **once as many entries as the plugin keeps have been counted,
the file stays as it is.**
-/

namespace TitanDns.SmartForward

open PartialMap Run

/-- A `DashMap` or a JSON object of verdicts by domain. -/
abbrev Verdicts := Finmap fun _ : String => Bool

/-- How a save ends: it is written, it fails before the file is touched, or it leaves less than the
whole text in it, which is no JSON. -/
inductive SaveOutcome where
  | written
  | failed
  | spoiled
  deriving DecidableEq, Repr

/-- A plugin with a persistence file and its background task. -/
structure LearningFile where
  /-- `persist_max_entries` -/
  maxEntries : Nat
  persistData : Verdicts
  /-- The keys that the trims under way have collected and not removed yet. -/
  doomed : List String
  /-- What the file holds; nothing where it is missing or cannot be read. -/
  file : Verdicts
  /-- `last_count` -/
  lastCount : Nat

namespace LearningFile

inductive Event where
  /-- A task of `record_learning` writes `persist_data`. -/
  | insert (key : String) (isCn : Bool)
  /-- `trim_persist_data` collects its keys; the map is iterated in this order. -/
  | trim (order : List String)
  /-- A trim removes a key it has collected. -/
  | remove (i : Nat)
  /-- A turn of the loop of `start_persistence_task` that is not skipped. -/
  | tick (outcome : SaveOutcome)
  deriving DecidableEq

/-- `persist_data.len()` -/
def count (s : LearningFile) : Nat := s.persistData.keys.card

/-- The keys that `trim_persist_data` collects. -/
def trimKeys (s : LearningFile) (order : List String) : List String :=
  if s.count ≤ s.maxEntries then []
  else (order.filter (· ∈ s.persistData)).take (s.count - s.maxEntries)

/-- `save_learning_cache`; the file afterwards. -/
def saveLearningCache (s : LearningFile) : SaveOutcome → Verdicts
  | .written => s.persistData
  | .failed => s.file
  | .spoiled => ∅

/-- A turn of the loop: whether it calls `save_learning_cache`, and the state it leaves. -/
def tick (s : LearningFile) (outcome : SaveOutcome) : Bool × LearningFile :=
  if s.lastCount < s.count then
    -- an error of the save is logged, and the count taken over all the same
    (true, { s with file := s.saveLearningCache outcome, lastCount := s.count })
  else (false, s)

def step (s : LearningFile) : Event → LearningFile
  | .insert key isCn => { s with persistData := s.persistData.insert key isCn }
  | .trim order => { s with doomed := s.doomed ++ s.trimKeys order }
  | .remove i =>
    match s.doomed[i]? with
    | none => s
    | some key =>
      { s with persistData := s.persistData.erase key, doomed := s.doomed.eraseIdx i }
  | .tick outcome => (s.tick outcome).2

/-- What `new` takes over from the entries of the file, in the order of the iteration. -/
def load (maxEntries : Nat) : Nat → List (String × Bool) → Verdicts → Verdicts
  | _, [], data => data
  | inserted, (domain, isCn) :: rest, data =>
    if maxEntries ≤ inserted then data
    else
      match learnedKey domain with
      | none => load maxEntries inserted rest data
      | some key => load maxEntries (inserted + 1) rest (data.insert key isCn)

/-- `new`, with a file of these entries, and the task that has just been started. -/
def start (maxEntries : Nat) (entries : List (String × Bool)) : LearningFile where
  maxEntries := maxEntries
  persistData := load maxEntries 0 entries ∅
  doomed := []
  file := entries.foldl (fun data p => data.insert p.1 p.2) ∅
  lastCount := 0

/-! ## The data is that of `Learning` -/

/-- A change of one key: a verdict, or none. -/
def change (data : String → Option Bool) (c : String × Option Bool) : String → Option Bool :=
  match c.2 with
  | some isCn => put data c.1 isCn
  | none => forget data c.1

/-- What an event changes of the data. -/
def changes (s : LearningFile) : Event → List (String × Option Bool)
  | .insert key isCn => [(key, some isCn)]
  | .trim _ => []
  | .remove i => (s.doomed[i]?).toList.map fun key => (key, none)
  | .tick _ => []

/-- The data as a partial map. -/
def data (s : LearningFile) : String → Option Bool := fun key => s.persistData.lookup key

theorem lookup_insert_eq_put (m : Verdicts) (key : String) (isCn : Bool) :
    (fun k => (m.insert key isCn).lookup k) = put (fun k => m.lookup k) key isCn := by
  funext k
  by_cases hk : k = key
  · subst hk
    rw [Finmap.lookup_insert, put_self]
  · rw [Finmap.lookup_insert_of_ne _ hk, put_of_ne hk]

theorem lookup_erase_eq_forget (m : Verdicts) (key : String) :
    (fun k => (m.erase key).lookup k) = forget (fun k => m.lookup k) key := by
  funext k
  by_cases hk : k = key
  · subst hk
    rw [Finmap.lookup_erase, forget_self]
  · rw [Finmap.lookup_erase_ne hk, forget_of_ne hk]

theorem tick_data (s : LearningFile) (outcome : SaveOutcome) :
    (s.tick outcome).2.persistData = s.persistData := by
  unfold tick
  split <;> rfl

theorem step_data (s : LearningFile) (e : Event) :
    (step s e).data = run change s.data (s.changes e) := by
  cases e with
  | insert key isCn => exact lookup_insert_eq_put s.persistData key isCn
  | trim order => rfl
  | remove i =>
    cases hi : s.doomed[i]? with
    | none => simp [step, changes, hi]
    | some key =>
      simp only [step, changes, hi, Option.toList_some, List.map_cons, List.map_nil]
      exact lookup_erase_eq_forget s.persistData key
  | tick outcome =>
    show (s.tick outcome).2.data = s.data
    unfold data
    rw [tick_data]

/-- The same of an event of `Learning`. -/
def learningChanges (l : Learning) : Learning.Event → List (String × Option Bool)
  | .learn _ =>
    match l.learner with
    | some ⟨key, verdict, .persistData :: _⟩ => [(key, some verdict)]
    | _ => []
  | .spill i _ =>
    match l.overflow.drop i with
    | ⟨key, verdict, .persistData :: _⟩ :: _ => [(key, some verdict)]
    | _ => []
  | .lose .persistData key => [(key, none)]
  | _ => []

theorem learning_step_data (l : Learning) (e : Learning.Event) :
    (l.step e).stores.persistData = run change l.stores.persistData (learningChanges l e) := by
  cases e with
  | record domain isCn inRuntime =>
    show (l.recordLearning domain isCn inRuntime).stores.persistData = _
    unfold Learning.recordLearning
    split
    · rfl
    · split <;> rfl
  | receive =>
    show l.receive.stores.persistData = _
    unfold Learning.receive
    split <;> rfl
  | learn now =>
    show (l.learn now).stores.persistData = run change _ (learningChanges l (.learn now))
    unfold Learning.learn learningChanges
    rcases l.learner with _ | ⟨key, verdict, _ | ⟨store, rest⟩⟩
    · rfl
    · rfl
    · cases store <;> rfl
  | spill i now =>
    show (l.spill i now).stores.persistData = run change _ (learningChanges l (.spill i now))
    unfold Learning.spill learningChanges
    simp only
    rcases l.overflow.drop i with _ | ⟨⟨key, verdict, _ | ⟨store, rest⟩⟩, later⟩
    · rfl
    · rfl
    · cases store <;> rfl
  | lose store key => cases store <;> rfl

/-- **The data of the file machine is the `persist_data` of `Learning`**, as long as the two see the
same changes. -/
theorem same_data {s : LearningFile} {l : Learning} (h : s.data = l.stores.persistData)
    {es : List Event} {ls : List Learning.Event}
    (hsame : trace step changes s es = trace Learning.step learningChanges l ls) :
    (run step s es).data = (run Learning.step l ls).stores.persistData := by
  have hlearning : (run Learning.step l ls).stores.persistData =
      run change l.stores.persistData (trace Learning.step learningChanges l ls) :=
    @run_trace Learning _ _ _ Learning.step learningChanges change
      (fun l => l.stores.persistData) learning_step_data l ls
  rw [run_trace step_data, h, hsame]
  exact hlearning.symm

/-! ## What a tick saves -/

/-- What the law asks of an event: a save that succeeds leaves the data in the file, and data that
is not in the file is saved. -/
def Kept (s : LearningFile) : Event → Prop
  | .tick outcome =>
    ((s.tick outcome).1 = true → outcome = .written → (s.tick outcome).2.file = s.persistData) ∧
      (s.persistData ≠ s.file → (s.tick outcome).1 = true)
  | _ => True

/-- The law holds at every event. -/
def Lossless (s : LearningFile) (es : List Event) : Prop := Meets step Kept s es

/-- How many entries each tick of the run comes by. -/
def tickCounts (s : LearningFile) (es : List Event) : List Nat :=
  trace step (fun s e => match e with | .tick _ => [s.count] | _ => []) s es

/-- At every tick at which the data is not what the file holds, there is an entry, and there are
more of them than at every earlier tick. -/
def Outgrows (s : LearningFile) (es : List Event) : Prop :=
  ∀ before outcome rest, es = before ++ .tick outcome :: rest →
    (run step s before).persistData ≠ (run step s before).file →
      0 < (run step s before).count ∧
        ∀ n ∈ tickCounts s before, n < (run step s before).count

section
variable {s : LearningFile}

theorem tick_saves (outcome : SaveOutcome) :
    (s.tick outcome).1 = true ↔ s.lastCount < s.count := by
  unfold tick
  split <;> simp [*]

/-- **A save that succeeds leaves the data in the file.** -/
theorem file_of_written (h : (s.tick .written).1 = true) :
    (s.tick .written).2.file = s.persistData := by
  unfold tick
  rw [if_pos ((tick_saves .written).mp h)]
  rfl

theorem kept_tick (outcome : SaveOutcome) :
    s.Kept (.tick outcome) ↔ (s.persistData ≠ s.file → s.lastCount < s.count) := by
  constructor
  · rintro ⟨-, h⟩ hne
    exact (tick_saves outcome).mp (h hne)
  · intro h
    refine ⟨?_, fun hne => (tick_saves outcome).mpr (h hne)⟩
    rintro hsaves rfl
    exact file_of_written hsaves

/-! ## The count is the largest so far -/

theorem tick_lastCount (outcome : SaveOutcome) :
    (s.tick outcome).2.lastCount = max s.lastCount s.count := by
  unfold tick
  split
  · show s.count = max s.lastCount s.count
    omega
  · show s.lastCount = max s.lastCount s.count
    omega

/-- **`last_count` is the largest count of all ticks so far.** -/
theorem lastCount_run (s : LearningFile) (es : List Event) :
    (run step s es).lastCount = run max s.lastCount (tickCounts s es) := by
  apply run_trace
  intro s e
  cases e with
  | insert key isCn => rfl
  | trim order => rfl
  | remove i =>
    show (step s (.remove i)).lastCount = s.lastCount
    simp only [step]
    split <;> rfl
  | tick outcome => exact tick_lastCount outcome

theorem run_max_lt {m n : Nat} {ns : List Nat} :
    run max m ns < n ↔ m < n ∧ ∀ k ∈ ns, k < n := by
  induction ns generalizing m with
  | nil => simp
  | cons k ns ih =>
    rw [run_cons, ih, List.forall_mem_cons, Nat.max_lt, and_assoc]

end

/-- **What changed is saved exactly when there is more of it than ever before.** -/
theorem lossless_iff_outgrows (maxEntries : Nat) (entries : List (String × Bool))
    (es : List Event) :
    (start maxEntries entries).Lossless es ↔ (start maxEntries entries).Outgrows es := by
  have hlast : ∀ before, (run step (start maxEntries entries) before).lastCount <
      (run step (start maxEntries entries) before).count ↔
        0 < (run step (start maxEntries entries) before).count ∧
          ∀ n ∈ tickCounts (start maxEntries entries) before,
            n < (run step (start maxEntries entries) before).count := by
    intro before
    rw [lastCount_run, run_max_lt]
    rfl
  constructor
  · intro h before outcome rest hes hne
    unfold Lossless at h
    rw [hes] at h
    exact (hlast before).mp ((kept_tick outcome).mp h.at_cut hne)
  · intro h
    apply meets_of_cuts
    intro before e rest hes
    cases e with
    | insert key isCn => trivial
    | trim order => trivial
    | remove i => trivial
    | tick outcome =>
      apply (kept_tick outcome).mpr
      intro hne
      exact (hlast before).mpr (h before outcome rest hes hne)

/-- A verdict is corrected after it was saved; a first save fails.  The next tick does nothing. -/
theorem correction_not_saved :
    ¬ (start 10000 []).Lossless
        [.insert "a.example" true, .tick .written, .insert "a.example" false, .tick .written] ∧
      ¬ (start 10000 []).Lossless
        [.insert "a.example" true, .tick .failed, .tick .written] := by
  constructor
  · rintro ⟨-, -, -, h, -⟩
    exact absurd ((kept_tick .written).mp h (by decide +kernel)) (by decide +kernel)
  · rintro ⟨-, -, h, -⟩
    exact absurd ((kept_tick .written).mp h (by decide +kernel)) (by decide +kernel)

/-! ## At capacity -/

/-- A tick that does not count more entries than the last save did. -/
theorem tick_of_counted {s : LearningFile} (h : s.count ≤ s.lastCount) (outcome : SaveOutcome) :
    s.tick outcome = (false, s) := by
  unfold tick
  rw [if_neg (Nat.not_lt.mpr h)]

/-- When a tick comes, the trims have brought the data down to what the plugin keeps. -/
def Trimmed (s : LearningFile) : Event → Prop
  | .tick _ => s.count ≤ s.maxEntries
  | _ => True

theorem step_at_capacity {s : LearningFile} {e : Event} (hfull : s.maxEntries ≤ s.lastCount)
    (h : s.Trimmed e) :
    (step s e).file = s.file ∧ (step s e).maxEntries ≤ (step s e).lastCount := by
  cases e with
  | insert key isCn => exact ⟨rfl, hfull⟩
  | trim order => exact ⟨rfl, hfull⟩
  | remove i =>
    simp only [step]
    split <;> exact ⟨rfl, hfull⟩
  | tick outcome =>
    have hcounted : s.count ≤ s.lastCount := Nat.le_trans h hfull
    show (s.tick outcome).2.file = _ ∧ (s.tick outcome).2.maxEntries ≤ _
    rw [tick_of_counted hcounted]
    exact ⟨rfl, by rw [step, tick_of_counted hcounted]; exact hfull⟩

/-- **Once as many entries as the plugin keeps have been counted, the file stays as it is**,
whatever is learned, when the trims keep up with the ticks. -/
theorem file_frozen_at_capacity {s : LearningFile} (hfull : s.maxEntries ≤ s.lastCount)
    {es : List Event} (hes : Meets step Trimmed s es) : (run step s es).file = s.file := by
  have hstep : ∀ s' e, s'.file = s.file ∧ s'.maxEntries ≤ s'.lastCount → s'.Trimmed e →
      (step s' e).file = s.file ∧ (step s' e).maxEntries ≤ (step s' e).lastCount := by
    rintro s' e ⟨hfile, hcap⟩ htrimmed
    obtain ⟨hsame, hnext⟩ := step_at_capacity hcap htrimmed
    exact ⟨hsame.trans hfile, hnext⟩
  exact (invariant hstep ⟨rfl, hfull⟩ hes).1

end LearningFile

end TitanDns.SmartForward
