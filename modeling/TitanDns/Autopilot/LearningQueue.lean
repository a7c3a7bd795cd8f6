import TitanDns.Autopilot.MemoryBounds
import TitanDns.Lib.Batcher

/-!
# The queue before the domain memory

Results are not stored by the queries that bring them: they wait in a queue, and a task stores them
in batches.  Where there is no task, or no room, a query stores its result itself.  Results are
stored one after another: none comes between the steps by which another is looked up, stored and
cleaned up after.

* `LearningUpdate`, `updateOf` — what a call sends.
* `LearnerTask`, `Learner.step` — the task over its life, with calls, its steps and ticks in any
  order.
* `learned` — the state after a run, with the calls that took effect, in that order.

Principal results: `learning_refines` — **the memories are those of calls without a queue, made in
the order of effect; each call took effect once or waits, and those that waited keep their order**;
`learner_drains` — enough steps of the task and a tick leave nothing waiting; `learning_stays_sound`
— the bounds of the memories hold behind the queue too.
-/

namespace TitanDns.Autopilot

open Run

inductive LearningUpdate where
  | «global» (domain upstream : String) (latencyMs : Nat)
  | client (key domain upstream : String) (latencyMs : Nat)

/-- One round of `apply_learning_batch`. -/
def LearningUpdate.apply (s : Memories) (env : Moment) : LearningUpdate → Except Fault Memories
  | .global domain upstream latencyMs => s.applyDomainResultClean env domain upstream latencyMs
  | .client key domain upstream latencyMs =>
    s.applyClientResultClean env key domain upstream latencyMs

/-- What `record_domain_result_lower` and `record_domain_result_for_client_lower` send; slow results
are dropped, and the other calls send nothing. -/
def updateOf : MemoryCall → Option LearningUpdate
  | .record domainLower upstream latencyMs =>
    if DOMAIN_MEMORY_MAX_LATENCY_MS < latencyMs then none
    else some (.global (trimDots domainLower) upstream latencyMs)
  | .recordForClient domainLower upstream latencyMs clientIp =>
    if CLIENT_MEMORY_MAX_LATENCY_MS < latencyMs then none
    else
      let domainClean := trimDots domainLower
      some (.client (clientMemoryKeyLower domainClean clientIp) domainClean upstream latencyMs)
  | _ => none

/-- An update, and the call that it comes from. -/
structure Queued where
  update : LearningUpdate
  call : MemoryCall
  updateOf_call : updateOf call = some update

/-- The queue of `get_learning_tx`, and the size of a batch. -/
def LEARNING_QUEUE : Nat := 4096

def LEARNING_BATCH : Nat := 1024

/-- `LEARNING_TX` and its task, which ends with the runtime. -/
inductive LearnerTask where
  | notStarted
  | running (b : Batcher Queued)
  | stopped

namespace LearnerTask

/-- `get_learning_tx`: the first call inside a runtime starts the task. -/
def getLearningTx (inRuntime : Bool) : LearnerTask → LearnerTask
  | .notStarted => if inRuntime then .running .empty else .notStarted
  | task => task

/-- `try_send`, where there is something to send to. -/
def trySend (task : LearnerTask) (q : Queued) : Option LearnerTask :=
  match task with
  | .running b => (b.offer LEARNING_QUEUE q).map .running
  | _ => none

def waiting : LearnerTask → List Queued
  | .running b => b.waiting
  | _ => []

end LearnerTask

structure Learner where
  task : LearnerTask
  memories : Except Fault Memories
  /-- History: the calls that took effect. -/
  applied : List MemoryEvent
  /-- History: what entered the queue; when the task has stopped, what waits in it is lost. -/
  account : Account Queued

inductive LearnerEvent where
  | call (e : MemoryEvent) (inRuntime : Bool)
  | task (env : Moment)
  | tick
  | stop

namespace Learner

def init : Learner := ⟨.notStarted, .ok .init, [], .empty⟩

/-- An update takes effect, and no other meanwhile. -/
def effect (s : Learner) (env : Moment) (q : Queued) : Learner :=
  { s with
    memories := s.memories.bind fun memories => q.update.apply memories env
    applied := s.applied ++ [⟨env, q.call⟩] }

/-- The end of the recording functions: what cannot be sent is applied at once. -/
def submit (s : Learner) (env : Moment) (inRuntime : Bool) (q : Queued) : Learner :=
  let task := s.task.getLearningTx inRuntime
  match task.trySend q with
  | some task =>
    { s with task := task, account := s.account.move [q] [] (s.account.waiting ++ [q]) }
  | none => { s with task := task }.effect env q

/-- A call: a result is submitted, the others act on the memories. -/
def call (s : Learner) (e : MemoryEvent) (inRuntime : Bool) : Learner :=
  match h : updateOf e.call with
  | some update => s.submit e.env inRuntime ⟨update, e.call, h⟩
  | none =>
    { s with memories := s.memories.bind (·.act e), applied := s.applied ++ [e] }

/-- A step of the task. -/
def advance (s : Learner) (env : Moment) : Learner :=
  match s.task with
  | .running b =>
    match b.advance LEARNING_BATCH with
    | (some q, b) =>
      { s with
        task := .running b
        account := s.account.move [] [q] (s.account.waiting.drop 1) }.effect env q
    | (none, b) => { s with task := .running b }
  | _ => s

def tick (s : Learner) : Learner :=
  match s.task with
  | .running b => { s with task := .running b.tick }
  | _ => s

/-- The runtime ends; a task that settles a batch is not interrupted. -/
def stop (s : Learner) : Learner :=
  match s.task with
  | .running b => if b.draining then s else { s with task := .stopped }
  | _ => s

def step (s : Learner) : LearnerEvent → Learner
  | .call e inRuntime => s.call e inRuntime
  | .task env => s.advance env
  | .tick => s.tick
  | .stop => s.stop

end Learner

/-- The state after the events `es`, taken in order from the start. -/
def learned (es : List LearnerEvent) : Learner := run Learner.step .init es

/-- The calls of a run. -/
def callsOf (es : List LearnerEvent) : List MemoryCall :=
  es.filterMap fun
    | .call e _ => some e.call
    | _ => none

/-! ## One step -/

/-- **An update has the effect of its call.** -/
theorem apply_act (q : Queued) (s : Memories) (env : Moment) :
    q.update.apply s env = s.act ⟨env, q.call⟩ := by
  obtain ⟨update, call, h⟩ := q
  cases call with
  | record domainLower upstream latencyMs =>
    have hsent := h
    simp only [updateOf] at hsent
    split at hsent
    · cases hsent
    · rename_i hfast
      cases hsent
      exact (if_neg hfast).symm
  | recordForClient domainLower upstream latencyMs clientIp =>
    have hsent := h
    simp only [updateOf] at hsent
    split at hsent
    · cases hsent
    · rename_i hfast
      cases hsent
      exact (if_neg hfast).symm
  | _ => cases h

theorem history_append (es : List MemoryEvent) (e : MemoryEvent) :
    (history (es ++ [e])).state = (history es).state.bind (·.act e) := by
  unfold history
  rw [run_append]
  rfl

/-- What holds along a run. -/
structure Learner.Inv (calls : List MemoryCall) (s : Learner) : Prop where
  memories : s.memories = (history s.applied).state
  /-- Every call took effect or waits. -/
  once : (s.applied.map (·.call) ++ s.account.waiting.map (·.call)).Perm calls
  balanced : s.account.Balanced
  entered : (s.account.entered.map (·.call)).Sublist calls
  /-- What was settled took effect in that order. -/
  order : (s.account.settled.map (·.call)).Sublist (s.applied.map (·.call))
  notStarted : s.task = .notStarted → s.account.waiting = []
  running : ∀ b, s.task = .running b →
    b.waiting = s.account.waiting ∧ b.Sound LEARNING_QUEUE LEARNING_BATCH

namespace Learner.Inv

variable {calls : List MemoryCall} {s : Learner}

theorem init : Inv [] .init where
  memories := rfl
  once := .refl _
  balanced := Account.empty_balanced
  entered := .refl _
  order := .refl _
  notStarted _ := rfl
  running _ h := by cases h

/-- A call that takes effect at once. -/
theorem applied (h : Inv calls s) (e : MemoryEvent) {s' : Learner}
    (hmemories : s'.memories = s.memories.bind (·.act e))
    (happlied : s'.applied = s.applied ++ [e]) (haccount : s'.account = s.account)
    (htask : s'.task = s.task) : Inv (calls ++ [e.call]) s' where
  memories := by rw [hmemories, happlied, history_append, h.memories]
  once := by
    rw [happlied, haccount, List.map_append, List.map_singleton, List.append_assoc]
    refine (List.Perm.append_left _ List.perm_append_comm).trans ?_
    rw [← List.append_assoc]
    exact h.once.append_right _
  balanced := by
    rw [haccount]
    exact h.balanced
  entered := by
    rw [haccount]
    exact h.entered.trans (List.sublist_append_left _ _)
  order := by
    rw [haccount, happlied, List.map_append]
    exact h.order.trans (List.sublist_append_left _ _)
  notStarted := by
    rw [htask, haccount]
    exact h.notStarted
  running := by
    rw [htask, haccount]
    exact h.running

/-- The task is started, or not. -/
theorem started (h : Inv calls s) (inRuntime : Bool) :
    Inv calls { s with task := s.task.getLearningTx inRuntime } where
  memories := h.memories
  once := h.once
  balanced := h.balanced
  entered := h.entered
  order := h.order
  notStarted htask := by
    cases hold : s.task with
    | notStarted => exact h.notStarted hold
    | running b => simp [LearnerTask.getLearningTx, hold] at htask
    | stopped => simp [LearnerTask.getLearningTx, hold] at htask
  running b htask := by
    cases hold : s.task with
    | notStarted =>
      simp only [LearnerTask.getLearningTx, hold] at htask
      split at htask
      · cases htask
        exact ⟨(h.notStarted hold).symm, Batcher.sound_empty (by decide)⟩
      · cases htask
    | running b' =>
      simp only [LearnerTask.getLearningTx, hold] at htask
      cases htask
      exact h.running b hold
    | stopped => simp [LearnerTask.getLearningTx, hold] at htask

/-- A result enters the queue. -/
theorem queued (h : Inv calls s) (q : Queued) {task : LearnerTask}
    (hsend : s.task.trySend q = some task) : Inv (calls ++ [q.call])
      { s with task := task, account := s.account.move [q] [] (s.account.waiting ++ [q]) } := by
  cases hold : s.task with
  | notStarted => simp [LearnerTask.trySend, hold] at hsend
  | stopped => simp [LearnerTask.trySend, hold] at hsend
  | running b =>
    simp only [LearnerTask.trySend, hold, Option.map_eq_some_iff] at hsend
    obtain ⟨b', hoffer, rfl⟩ := hsend
    obtain ⟨hwaiting, hsound⟩ := h.running b hold
    refine ⟨h.memories, ?_, h.balanced.enter [q], ?_, ?_, by simp, fun b'' hb'' => ?_⟩
    · simp only [Account.move, List.map_append, List.map_singleton]
      rw [← List.append_assoc]
      exact h.once.append_right _
    · simp only [Account.move, List.map_append, List.map_singleton]
      exact h.entered.append_right _
    · simpa [Account.move] using h.order
    · cases hb''
      exact ⟨by rw [Batcher.offer_waiting hoffer, hwaiting]; rfl, hsound.offer hoffer⟩

theorem call (h : Inv calls s) (e : MemoryEvent) (inRuntime : Bool) :
    Inv (calls ++ [e.call]) (s.call e inRuntime) := by
  unfold Learner.call
  split
  · rename_i update hupdate
    have hstarted := h.started inRuntime
    simp only [submit]
    split
    · rename_i task hsend
      exact hstarted.queued ⟨update, e.call, hupdate⟩ hsend
    · refine hstarted.applied e ?_ rfl rfl rfl
      refine congrArg s.memories.bind (funext fun memories => ?_)
      exact apply_act ⟨update, e.call, hupdate⟩ memories e.env
  · exact h.applied e rfl rfl rfl rfl

/-- **A step of the task settles what waits longest.** -/
theorem advance (h : Inv calls s) (env : Moment) : Inv calls (s.advance env) := by
  unfold Learner.advance
  cases hold : s.task with
  | notStarted => exact h
  | stopped => exact h
  | running b =>
    obtain ⟨hwaiting, hsound⟩ := h.running b hold
    have hsettles := b.advance_waiting LEARNING_BATCH
    have hnext := hsound.advance
    simp only
    cases hstep : b.advance LEARNING_BATCH with
    | mk settled b' =>
      rw [hstep] at hsettles hnext
      cases settled with
      | none =>
        refine ⟨h.memories, h.once, h.balanced, h.entered, h.order, by simp, fun b'' hb'' => ?_⟩
        cases hb''
        exact ⟨by rw [← hwaiting, ← hsettles]; rfl, hnext⟩
      | some q =>
        have hfront : s.account.waiting = q :: b'.waiting := by rw [← hwaiting, ← hsettles]; rfl
        refine ⟨?_, ?_, ?_, ?_, ?_, by simp [effect], fun b'' hb'' => ?_⟩
        · simp only [effect]
          rw [history_append, h.memories]
          exact congrArg _ (funext fun memories => apply_act q memories env)
        · have hcalls := h.once
          rw [hfront] at hcalls
          simpa [effect, Account.move, hfront] using hcalls
        · exact (h.balanced.move_iff [] [q] _).mpr (by simp [hfront])
        · simpa [effect, Account.move] using h.entered
        · simp only [effect, Account.move, List.map_append]
          exact h.order.append_right _
        · cases hb''
          exact ⟨by simp [effect, Account.move, hfront], hnext⟩

theorem tick (h : Inv calls s) : Inv calls s.tick := by
  unfold Learner.tick
  cases hold : s.task with
  | notStarted => exact h
  | stopped => exact h
  | running b =>
    obtain ⟨hwaiting, hsound⟩ := h.running b hold
    refine ⟨h.memories, h.once, h.balanced, h.entered, h.order, by simp, fun b' hb' => ?_⟩
    cases hb'
    exact ⟨b.tick_waiting.trans hwaiting, hsound.tick⟩

theorem stop (h : Inv calls s) : Inv calls s.stop := by
  unfold Learner.stop
  cases hold : s.task with
  | notStarted => exact h
  | stopped => exact h
  | running b =>
    simp only
    split
    · exact h
    · exact ⟨h.memories, h.once, h.balanced, h.entered, h.order, by simp, by simp⟩

end Learner.Inv

theorem learned_append (es : List LearnerEvent) (e : LearnerEvent) :
    learned (es ++ [e]) = (learned es).step e := run_append _ _ _

/-- **The invariant of a run**, by its last event. -/
theorem learned_inv (es : List LearnerEvent) : (learned es).Inv (callsOf es) := by
  induction es using List.reverseRecOn with
  | nil => exact Learner.Inv.init
  | append_singleton es e ih =>
    rw [learned_append]
    cases e with
    | call e inRuntime =>
      have hcalls : callsOf (es ++ [.call e inRuntime]) = callsOf es ++ [e.call] := by
        simp [callsOf]
      rw [hcalls]
      exact ih.call e inRuntime
    | task env =>
      have hcalls : callsOf (es ++ [.task env]) = callsOf es := by simp [callsOf]
      rw [hcalls]
      exact ih.advance env
    | tick =>
      have hcalls : callsOf (es ++ [.tick]) = callsOf es := by simp [callsOf]
      rw [hcalls]
      exact ih.tick
    | stop =>
      have hcalls : callsOf (es ++ [.stop]) = callsOf es := by simp [callsOf]
      rw [hcalls]
      exact ih.stop

/-! ## The memories behind the queue -/

/-- **The queue changes only when results take effect**: the memories are those of calls without it,
every call took effect once or waits, and what waits is not overtaken in the queue. -/
theorem learning_refines (es : List LearnerEvent) :
    (learned es).memories = (history (learned es).applied).state ∧
      ((learned es).applied.map (·.call) ++ (learned es).account.waiting.map (·.call)).Perm
        (callsOf es) ∧
      (((learned es).account.settled ++ (learned es).account.waiting).map (·.call)).Sublist
        (callsOf es) ∧
      ((learned es).account.settled.map (·.call)).Sublist
        ((learned es).applied.map (·.call)) ∧
      ∀ b, (learned es).task = .running b →
        (learned es).account.waiting.length ≤ LEARNING_QUEUE + LEARNING_BATCH := by
  have h := learned_inv es
  refine ⟨h.memories, h.once, ?_, h.order, fun b hb => ?_⟩
  · rw [h.balanced]
    exact h.entered
  · obtain ⟨hwaiting, hsound⟩ := h.running b hb
    have hqueue := hsound.queue
    have hbuffer := hsound.buffer
    rw [← hwaiting, Batcher.waiting, List.length_append]
    omega

/-- How many of the calls bring a result of a domain. -/
def resultsOf (calls : List MemoryCall) (domain : String) : Nat :=
  calls.countP fun call => call.domainResult.any (·.key = domain)

theorem domainResults_eq (es : List MemoryEvent) (domain : String) :
    domainResults es domain = resultsOf (es.map (·.call)) domain := by
  unfold domainResults resultsOf
  rw [List.countP_map]
  rfl

/-- **The bounds of the memories hold behind the queue.** -/
theorem learning_stays_sound (es : List LearnerEvent)
    (hfew : ∀ domain, resultsOf (callsOf es) domain < 2 ^ 32 - 1) :
    ∃ memories, (learned es).memories = .ok memories ∧ memories.WithinBounds := by
  have h := learned_inv es
  have happlied : FewResults (learned es).applied := by
    intro domain
    have hcalls : resultsOf (callsOf es) domain =
        resultsOf ((learned es).applied.map (·.call)) domain +
          resultsOf ((learned es).account.waiting.map (·.call)) domain := by
      unfold resultsOf
      rw [← h.once.countP_eq, List.countP_append]
    have hlt := hfew domain
    rw [domainResults_eq]
    omega
  obtain ⟨memories, hinv⟩ := history_inv _ happlied
  exact ⟨memories, h.memories.trans hinv.state, hinv.bounds⟩

theorem learning_stays_sound_two :
    ∃ memories, (learned [.call ⟨firstMoment, .record "a." "udp://192.0.2.1:53" 20⟩ true,
      .call ⟨firstMoment, .record "A" "udp://192.0.2.2:53" 90⟩ true, .task firstMoment, .tick,
      .task firstMoment]).memories = .ok memories ∧ memories.WithinBounds :=
  learning_stays_sound _ fun domain => by
    refine Nat.lt_of_le_of_lt List.countP_le_length ?_
    decide

/-! ## Draining -/

/-- Steps of the task alone. -/
theorem task_steps {s : Learner} {b : Batcher Queued} (h : s.task = .running b)
    (envs : List Moment) :
    (run Learner.step s (envs.map .task)).task =
      .running (b.advances LEARNING_BATCH envs.length) := by
  induction envs generalizing s b with
  | nil => exact h
  | cons env envs ih =>
    have hnext : (s.step (.task env)).task = .running (b.advance LEARNING_BATCH).2 := by
      simp only [Learner.step, Learner.advance, h]
      split <;> simp [Learner.effect, *]
    exact ih hnext

/-- Without a task nothing waits, and its steps and ticks do nothing. -/
theorem task_steps_notStarted {s : Learner} (h : s.task = .notStarted) (envs : List Moment) :
    run Learner.step s (envs.map .task) = s := by
  induction envs with
  | nil => rfl
  | cons env envs ih =>
    have hstay : s.step (.task env) = s := by simp [Learner.step, Learner.advance, h]
    rw [List.map_cons, run_cons, hstay, ih]

theorem getLearningTx_not_stopped {task : LearnerTask} (h : task ≠ .stopped) (inRuntime : Bool) :
    task.getLearningTx inRuntime ≠ .stopped := by
  cases task with
  | notStarted => cases inRuntime <;> simp [LearnerTask.getLearningTx]
  | running b => simp [LearnerTask.getLearningTx]
  | stopped => exact absurd rfl h

theorem trySend_running {task task' : LearnerTask} {q : Queued} (h : task.trySend q = some task') :
    ∃ b, task' = .running b := by
  cases task with
  | running b =>
    obtain ⟨b', -, hb'⟩ := Option.map_eq_some_iff.mp h
    exact ⟨b', hb'.symm⟩
  | _ => cases h

/-- Only the end of the runtime stops the task. -/
theorem not_stopped_step {s : Learner} (h : s.task ≠ .stopped) {e : LearnerEvent} (he : e ≠ .stop) :
    (s.step e).task ≠ .stopped := by
  cases e with
  | call e inRuntime =>
    simp only [Learner.step, Learner.call]
    split
    · simp only [Learner.submit]
      split
      · rename_i hsend
        obtain ⟨b, hb⟩ := trySend_running hsend
        simp [hb]
      · exact getLearningTx_not_stopped h inRuntime
    · exact h
  | task env =>
    simp only [Learner.step, Learner.advance]
    split
    · split <;> simp [Learner.effect]
    · exact h
  | tick =>
    simp only [Learner.step, Learner.tick]
    split
    · simp
    · exact h
  | stop => exact absurd rfl he

theorem not_stopped {es : List LearnerEvent} (h : LearnerEvent.stop ∉ es) :
    (learned es).task ≠ .stopped := by
  have hother : ∀ e ∈ es, e ≠ LearnerEvent.stop := fun e he hstop => h (by rwa [← hstop])
  have hok : Meets Learner.step (fun _ e => e ≠ LearnerEvent.stop) .init es :=
    meets_of_forall hother
  have hstep : ∀ (s : Learner) (e : LearnerEvent), s.task ≠ .stopped → e ≠ .stop →
      (s.step e).task ≠ .stopped := fun s e hs he => not_stopped_step hs he
  have hstart : Learner.init.task ≠ .stopped := by simp [Learner.init]
  have hrun := invariant hstep hstart hok
  exact hrun

/-- Steps of the task, a tick, and steps of the task. -/
def drainSteps (envs envs' : List Moment) : List LearnerEvent :=
  envs.map .task ++ (.tick :: envs'.map .task)

theorem callsOf_drainSteps (es : List LearnerEvent) (envs envs' : List Moment) :
    callsOf (es ++ drainSteps envs envs') = callsOf es := by
  have hnone : ∀ envs : List Moment, callsOf (envs.map .task) = [] := by
    intro envs
    induction envs with
    | nil => rfl
    | cons env envs ih => exact ih
  have htick : callsOf (.tick :: envs'.map .task) = callsOf (envs'.map .task) := rfl
  have happend : ∀ fs gs, callsOf (fs ++ gs) = callsOf fs ++ callsOf gs :=
    fun _ _ => List.filterMap_append
  rw [happend, drainSteps, happend, htick, hnone, hnone, List.append_nil, List.append_nil]

/-- **Enough steps of the task and a tick leave nothing waiting**, as long as the runtime lives:
every call of the run has taken effect. -/
theorem learner_drains (es : List LearnerEvent) (envs envs' : List Moment)
    (hruns : LearnerEvent.stop ∉ es) (henvs : 2 * LEARNING_QUEUE + LEARNING_BATCH ≤ envs.length)
    (henvs' : LEARNING_BATCH ≤ envs'.length) :
    (learned (es ++ drainSteps envs envs')).account.waiting = [] ∧
      ((learned (es ++ drainSteps envs envs')).applied.map (·.call)).Perm (callsOf es) := by
  have h := learned_inv (es ++ drainSteps envs envs')
  have hbefore := learned_inv es
  rw [callsOf_drainSteps] at h
  have hnothing : (learned (es ++ drainSteps envs envs')).account.waiting = [] := by
    have hrun : learned (es ++ drainSteps envs envs') =
        run Learner.step ((run Learner.step (learned es) (envs.map .task)).tick)
          (envs'.map .task) := by
      rw [learned, run_append, drainSteps, run_append, run_cons]
      rfl
    cases htask : (learned es).task with
    | stopped => exact absurd htask (not_stopped hruns)
    | notStarted =>
      have htick : (learned es).tick = learned es := by simp [Learner.tick, htask]
      rw [hrun, task_steps_notStarted htask, htick, task_steps_notStarted htask]
      exact hbefore.notStarted htask
    | running b =>
      have hfirst := task_steps htask envs
      have hticked : ((run Learner.step (learned es) (envs.map .task)).tick).task =
          .running (b.advances LEARNING_BATCH envs.length).tick := by
        simp [Learner.tick, hfirst]
      have hlast := task_steps hticked envs'
      rw [← hrun] at hlast
      rw [← (h.running _ hlast).1]
      exact (hbefore.running b htask).2.drained henvs henvs'
  have honce := h.once
  rw [hnothing, List.map_nil, List.append_nil] at honce
  exact ⟨hnothing, honce⟩

theorem learner_drains_two :
    ((learned ([.call ⟨firstMoment, .record "a." "udp://192.0.2.1:53" 20⟩ true,
        .call ⟨firstMoment, .record "b" "udp://192.0.2.2:53" 30⟩ false] ++
      drainSteps (List.replicate 9216 firstMoment) (List.replicate 1024 firstMoment))).applied.map
        (·.call)).Perm
      [.record "a." "udp://192.0.2.1:53" 20, .record "b" "udp://192.0.2.2:53" 30] :=
  (learner_drains _ _ _ (by simp) (by rw [List.length_replicate]; decide)
    (by rw [List.length_replicate]; decide)).2

end TitanDns.Autopilot
