import TitanDns.Lib.Channel
import TitanDns.Lib.Tally
import Mathlib.Algebra.GroupWithZero.Nat
import Mathlib.Data.List.Count
import Mathlib.Data.List.Infix
import Mathlib.Data.List.Perm.Subperm

/-!
# Worker pools

Workers take jobs from a bounded queue, one at a time, and hand on a result or none.

* `Pool`, its operations — a worker takes a job, ends it, panics over it, or lets its result go.
* `Pool.Sound` — what every operation keeps: **every job admitted waits, is at a worker, was handled
  or was lost, each once, and so is every result.**
* `subperm_of_sums` — sums over all weights tell how often something occurs.
* `Pool.InOrder` — **with one worker jobs and results keep the order of the queue.**
* `Pool.load` — what is left to do; `take_load`, `finish_load`, `deliver_load` — **every step does
  some of it.**
-/

/-- Where a worker is. -/
inductive Worker (J R : Type*) where
  | idle
  | busy (job : J)
  | delivering (result : R)
  /-- It panicked, or there will be no more jobs. -/
  | gone

namespace Worker

variable {J R : Type*}

def job? : Worker J R → List J
  | .busy job => [job]
  | _ => []

def result? : Worker J R → List R
  | .delivering r => [r]
  | _ => []

@[simp] theorem job?_idle : (idle : Worker J R).job? = [] := rfl

@[simp] theorem job?_busy (job : J) : (busy job : Worker J R).job? = [job] := rfl

@[simp] theorem job?_delivering (r : R) : (delivering r : Worker J R).job? = [] := rfl

@[simp] theorem job?_gone : (gone : Worker J R).job? = [] := rfl

@[simp] theorem result?_idle : (idle : Worker J R).result? = [] := rfl

@[simp] theorem result?_busy (job : J) : (busy job : Worker J R).result? = [] := rfl

@[simp] theorem result?_delivering (r : R) : (delivering r : Worker J R).result? = [r] := rfl

@[simp] theorem result?_gone : (gone : Worker J R).result? = [] := rfl

/-- What is left to do. -/
def load : Worker J R → Nat
  | .idle => 1
  | .busy _ => 5
  | .delivering _ => 4
  | .gone => 0

end Worker

/-- The sum of the weights of a list. -/
def weigh {α : Type*} (f : α → Nat) (l : List α) : Nat := (l.map f).sum

section
variable {α : Type*} (f : α → Nat)

@[simp] theorem weigh_nil : weigh f [] = 0 := rfl

@[simp] theorem weigh_singleton (a : α) : weigh f [a] = f a := by simp [weigh]

@[simp] theorem weigh_append (l l' : List α) : weigh f (l ++ l') = weigh f l + weigh f l' := by
  simp [weigh]

theorem weigh_one (l : List α) : weigh (fun _ => 1) l = l.length := by simp [weigh]

theorem weigh_count [DecidableEq α] (a : α) (l : List α) :
    weigh (fun b => if b = a then 1 else 0) l = l.count a := by
  induction l with
  | nil => rfl
  | cons b l ih =>
    have hcons : weigh (fun b => if b = a then 1 else 0) (b :: l) =
        (if b = a then 1 else 0) + weigh (fun b => if b = a then 1 else 0) l := by simp [weigh]
    rw [hcons, ih, List.count_cons, Nat.add_comm]
    simp

end

/-- **Sums over all weights tell how often something occurs.** -/
theorem subperm_of_sums {α : Type*} {l l' : List α} (h : ∀ f : α → Nat, weigh f l ≤ weigh f l') :
    l.Subperm l' := by
  classical
  rw [List.subperm_ext_iff]
  intro a _
  have hweigh := h fun b => if b = a then 1 else 0
  rwa [weigh_count, weigh_count] at hweigh

theorem subperm_map {α β : Type*} (f : α → β) {l l' : List α} (h : l.Subperm l') :
    (l.map f).Subperm (l'.map f) := by
  obtain ⟨k, hperm, hsub⟩ := h
  exact ⟨k.map f, hperm.map f, hsub.map f⟩

theorem perm_of_sums {α : Type*} {l l' : List α} (h : ∀ f : α → Nat, weigh f l = weigh f l') :
    l.Perm l' := by
  classical
  rw [List.perm_iff_count]
  intro a
  have hweigh := h fun b => if b = a then 1 else 0
  rwa [weigh_count, weigh_count] at hweigh

/-- The workers, and the queue. -/
structure Pool (W J R : Type*) where
  queue : Channel J
  worker : W → Worker J R
  /-- History: the jobs that came into the queue, and those taken out of it. -/
  admitted : List J
  taken : List J
  /-- The jobs that ended, with their results, and those whose worker panicked. -/
  handled : List (J × Option R)
  lost : List J
  /-- The results that a worker let go. -/
  delivered : List R

namespace Pool

variable {W J R : Type*}

def new (capacity : Nat) : Pool W J R := ⟨.new capacity, fun _ => .idle, [], [], [], [], []⟩

/-- A job is dropped when there is no room for it. -/
def offer (p : Pool W J R) (job : J) : Pool W J R :=
  match p.queue.trySend job with
  | .sent c => { p with queue := c, admitted := p.admitted ++ [job] }
  | _ => p

/-- There will be no more jobs. -/
def close (p : Pool W J R) : Pool W J R := { p with queue := { p.queue with senders := false } }

section
variable [DecidableEq W]

def put (p : Pool W J R) (w : W) (x : Worker J R) : Pool W J R :=
  { p with worker := Function.update p.worker w x }

/-- An idle worker takes the next job; it ends when there will be none. -/
def take (p : Pool W J R) (w : W) : Pool W J R :=
  match p.worker w with
  | .idle =>
    match p.queue.recv with
    | .message job c => { p with queue := c, taken := p.taken ++ [job] }.put w (.busy job)
    | .empty => p
    | .closed => p.put w .gone
  | _ => p

/-- A job ends, with a result or without. -/
def finish (p : Pool W J R) (w : W) (result : J → Option R) : Pool W J R :=
  match p.worker w with
  | .busy job =>
    { p with handled := p.handled ++ [(job, result job)] }.put w
      (match result job with
        | some r => .delivering r
        | none => .idle)
  | _ => p

def abandon (p : Pool W J R) (w : W) : Pool W J R :=
  match p.worker w with
  | .busy job => { p with lost := p.lost ++ [job] }.put w .gone
  | _ => p

/-- A worker lets its result go. -/
def deliver (p : Pool W J R) (w : W) : Pool W J R :=
  match p.worker w with
  | .delivering r => { p with delivered := p.delivered ++ [r] }.put w .idle
  | _ => p

end

/-! ### What an operation writes down -/

theorem admitted_offer (p : Pool W J R) (job : J) :
    (p.offer job).admitted = p.admitted ∨ (p.offer job).admitted = p.admitted ++ [job] := by
  unfold offer
  split
  · exact .inr rfl
  · exact .inl rfl

theorem handled_offer (p : Pool W J R) (job : J) : (p.offer job).handled = p.handled := by
  unfold offer
  split <;> rfl

theorem delivered_offer (p : Pool W J R) (job : J) : (p.offer job).delivered = p.delivered := by
  unfold offer
  split <;> rfl

section
variable [DecidableEq W]

theorem take_books (p : Pool W J R) (w : W) :
    (p.take w).handled = p.handled ∧ (p.take w).delivered = p.delivered := by
  unfold take
  split
  · split <;> exact ⟨rfl, rfl⟩
  · exact ⟨rfl, rfl⟩

theorem abandon_books (p : Pool W J R) (w : W) :
    (p.abandon w).handled = p.handled ∧ (p.abandon w).delivered = p.delivered := by
  unfold abandon
  split <;> exact ⟨rfl, rfl⟩

theorem admitted_take (p : Pool W J R) (w : W) : (p.take w).admitted = p.admitted := by
  unfold take
  split
  · split <;> rfl
  · rfl

theorem admitted_finish (p : Pool W J R) (w : W) (result : J → Option R) :
    (p.finish w result).admitted = p.admitted := by
  unfold finish
  split <;> rfl

theorem admitted_abandon (p : Pool W J R) (w : W) : (p.abandon w).admitted = p.admitted := by
  unfold abandon
  split <;> rfl

theorem admitted_deliver (p : Pool W J R) (w : W) : (p.deliver w).admitted = p.admitted := by
  unfold deliver
  split <;> rfl

theorem deliver_books {p : Pool W J R} {w : W} {r : R} (hw : p.worker w = .delivering r) :
    (p.deliver w).handled = p.handled ∧ (p.deliver w).delivered = p.delivered ++ [r] := by
  unfold deliver
  rw [hw]
  exact ⟨rfl, rfl⟩

theorem delivered_finish (p : Pool W J R) (w : W) (result : J → Option R) :
    (p.finish w result).delivered = p.delivered := by
  unfold finish
  split <;> rfl

/-- A job that ends was at the worker, and has the result that was given. -/
theorem mem_finish (p : Pool W J R) {w : W} {result : J → Option R} {job : J} {r : Option R}
    (h : (job, r) ∈ (p.finish w result).handled) :
    (job, r) ∈ p.handled ∨ p.worker w = .busy job ∧ r = result job := by
  unfold finish at h
  split at h
  · rename_i job' hw
    rcases List.mem_append.mp h with hold | hnew
    · exact .inl hold
    · obtain ⟨rfl, rfl⟩ := Prod.mk.inj (List.mem_singleton.mp hnew)
      exact .inr ⟨hw, rfl⟩
  · exact .inl h

end

/-! ## Nothing is lost and nothing is doubled -/

open Tally

section
variable [Fintype W]

/-- The jobs at the workers, and the results, weighed. -/
def jobsAt (f : J → Nat) (worker : W → Worker J R) : Nat := tally (fun x => weigh f x.job?) worker

def resultsAt (f : R → Nat) (worker : W → Worker J R) : Nat :=
  tally (fun x => weigh f x.result?) worker

/-- What every operation keeps, for every way of weighing jobs and results. -/
structure Sound (capacity : Nat) (p : Pool W J R) : Prop where
  fifo : p.taken ++ p.queue.buffer = p.admitted
  size : p.queue.capacity = capacity
  room : p.queue.buffer.length ≤ capacity
  jobs : ∀ f : J → Nat,
    weigh f (p.handled.map Prod.fst) + weigh f p.lost + jobsAt f p.worker = weigh f p.taken
  results : ∀ f : R → Nat,
    weigh f p.delivered + resultsAt f p.worker = weigh f (p.handled.filterMap Prod.snd)

theorem Sound.new (capacity : Nat) : Sound capacity (Pool.new capacity : Pool W J R) where
  fifo := rfl
  size := rfl
  room := Nat.zero_le _
  jobs f := by
    have hnone : jobsAt f (fun _ : W => (.idle : Worker J R)) = 0 := tally_eq_zero fun _ => rfl
    simp [Pool.new, hnone]
  results f := by
    have hnone : resultsAt f (fun _ : W => (.idle : Worker J R)) = 0 := tally_eq_zero fun _ => rfl
    simp [Pool.new, hnone]

section
variable {p : Pool W J R} {capacity : Nat}

theorem Sound.offer (h : p.Sound capacity) (job : J) : (p.offer job).Sound capacity := by
  unfold Pool.offer
  cases hsend : p.queue.trySend job with
  | sent c =>
    have hc := Channel.trySend_sent hsend
    have hroom := (Channel.trySend_room hsend).1
    subst hc
    rw [h.size] at hroom
    refine ⟨?_, h.size, ?_, h.jobs, h.results⟩
    · simp only [← h.fifo, List.append_assoc]
    · simp only [List.length_append, List.length_singleton]
      omega
  | _ => exact h

theorem Sound.close (h : p.Sound capacity) : p.close.Sound capacity :=
  ⟨h.fifo, h.size, h.room, h.jobs, h.results⟩

end

variable [DecidableEq W]

theorem jobsAt_update (f : J → Nat) (worker : W → Worker J R) (w : W) (x : Worker J R) :
    jobsAt f (Function.update worker w x) + weigh f (worker w).job? =
      jobsAt f worker + weigh f x.job? := tally_update _ worker w x

theorem resultsAt_update (f : R → Nat) (worker : W → Worker J R) (w : W) (x : Worker J R) :
    resultsAt f (Function.update worker w x) + weigh f (worker w).result? =
      resultsAt f worker + weigh f x.result? := tally_update _ worker w x

namespace Sound

variable {p q : Pool W J R} {capacity : Nat} {w : W} {x : Worker J R}

/-- **One worker moves**: the books stay balanced when what it held and what it holds make up for
what was written down. -/
theorem move (h : p.Sound capacity) (hworker : q.worker = Function.update p.worker w x)
    (hfifo : q.taken ++ q.queue.buffer = q.admitted)
    (hsize : q.queue.capacity = capacity) (hroom : q.queue.buffer.length ≤ capacity)
    (hjobs : ∀ f : J → Nat,
      weigh f (q.handled.map Prod.fst) + weigh f q.lost + weigh f x.job? + weigh f p.taken =
        weigh f (p.handled.map Prod.fst) + weigh f p.lost + weigh f (p.worker w).job? +
          weigh f q.taken)
    (hresults : ∀ f : R → Nat,
      weigh f q.delivered + weigh f x.result? + weigh f (p.handled.filterMap Prod.snd) =
        weigh f p.delivered + weigh f (p.worker w).result? +
          weigh f (q.handled.filterMap Prod.snd)) : q.Sound capacity where
  fifo := hfifo
  size := hsize
  room := hroom
  jobs f := by
    have hmove := jobsAt_update f p.worker w x
    have hbefore := h.jobs f
    have hmade := hjobs f
    rw [hworker]
    omega
  results f := by
    have hmove := resultsAt_update f p.worker w x
    have hbefore := h.results f
    have hmade := hresults f
    rw [hworker]
    omega

theorem take (h : p.Sound capacity) (w : W) : (p.take w).Sound capacity := by
  unfold Pool.take
  cases hw : p.worker w with
  | idle =>
    simp only
    cases hrecv : p.queue.recv with
    | message job c =>
      obtain ⟨hfront, hc⟩ := Channel.recv_message hrecv
      have hfifo := h.fifo
      have hroom := h.room
      rw [hfront] at hfifo hroom
      refine h.move rfl ?_ ?_ ?_ (fun f => ?_) (fun f => ?_)
      · simpa [put] using hfifo
      · simp only [put]
        rw [hc]
        exact h.size
      · exact (Nat.le_succ _).trans hroom
      · simp only [put, hw, Worker.job?_busy, Worker.job?_idle, weigh_append, weigh_singleton,
          weigh_nil]
        omega
      · simp only [put, hw, Worker.result?_busy, Worker.result?_idle]
    | empty => exact h
    | closed =>
      refine h.move rfl h.fifo h.size h.room (fun f => ?_) (fun f => ?_)
      · simp only [put, hw, Worker.job?_gone, Worker.job?_idle]
      · simp only [put, hw, Worker.result?_gone, Worker.result?_idle]
  | _ => exact h

theorem finish (h : p.Sound capacity) (w : W) (result : J → Option R) :
    (p.finish w result).Sound capacity := by
  unfold Pool.finish
  cases hw : p.worker w with
  | busy job =>
    refine h.move rfl h.fifo h.size h.room (fun f => ?_) (fun f => ?_)
    · cases hr : result job with
      | none =>
        simp only [put, hw, Worker.job?_busy, Worker.job?_idle, List.map_append, List.map_cons,
          List.map_nil, weigh_append, weigh_singleton, weigh_nil]
        omega
      | some r =>
        simp only [put, hw, Worker.job?_busy, Worker.job?_delivering, List.map_append,
          List.map_cons, List.map_nil, weigh_append, weigh_singleton, weigh_nil]
        omega
    · cases hr : result job with
      | none =>
        simp only [put, hw, hr, Worker.result?_busy, Worker.result?_idle, List.filterMap_append,
          List.filterMap_cons, List.filterMap_nil, weigh_append, weigh_nil]
        omega
      | some r =>
        simp only [put, hw, hr, Worker.result?_busy, Worker.result?_delivering,
          List.filterMap_append, List.filterMap_cons, List.filterMap_nil, weigh_append,
          weigh_singleton, weigh_nil]
        omega
  | _ => exact h

theorem abandon (h : p.Sound capacity) (w : W) : (p.abandon w).Sound capacity := by
  unfold Pool.abandon
  cases hw : p.worker w with
  | busy job =>
    refine h.move rfl h.fifo h.size h.room (fun f => ?_) (fun f => ?_)
    · simp only [put, hw, Worker.job?_busy, Worker.job?_gone, weigh_append, weigh_singleton,
        weigh_nil]
      omega
    · simp only [put, hw, Worker.result?_busy, Worker.result?_gone]
  | _ => exact h

theorem deliver (h : p.Sound capacity) (w : W) : (p.deliver w).Sound capacity := by
  unfold Pool.deliver
  cases hw : p.worker w with
  | delivering r =>
    refine h.move rfl h.fifo h.size h.room (fun f => ?_) (fun f => ?_)
    · simp only [put, hw, Worker.job?_delivering, Worker.job?_idle]
    · simp only [put, hw, Worker.result?_delivering, Worker.result?_idle, weigh_append,
        weigh_singleton, weigh_nil]
      omega
  | _ => exact h

end Sound

/-! ### What the books tell -/

section
variable {p : Pool W J R} {capacity : Nat}

omit [DecidableEq W] in
/-- **No job is handled more often than it was admitted.** -/
theorem Sound.subperm_jobs (h : p.Sound capacity) :
    (p.handled.map Prod.fst ++ p.lost).Subperm p.admitted := by
  refine subperm_of_sums fun f => ?_
  have hjobs := h.jobs f
  rw [← h.fifo, weigh_append, weigh_append]
  omega

omit [DecidableEq W] in
/-- **No result is let go more often than it came out.** -/
theorem Sound.subperm_results (h : p.Sound capacity) :
    p.delivered.Subperm (p.handled.filterMap Prod.snd) := by
  refine subperm_of_sums fun f => ?_
  have hresults := h.results f
  omega

omit [DecidableEq W] in
/-- What is under way fits into the queue and the workers. -/
theorem Sound.under_way (h : p.Sound capacity) :
    p.admitted.length ≤ p.handled.length + p.lost.length + capacity + Fintype.card W ∧
      (p.handled.filterMap Prod.snd).length ≤ p.delivered.length + Fintype.card W := by
  have hjobs := h.jobs fun _ => 1
  have hresults := h.results fun _ => 1
  have hatmost : jobsAt (fun _ => 1) p.worker ≤ Fintype.card W :=
    tally_le_card (fun x => by cases x <;> simp) p.worker
  have hatmost' : resultsAt (fun _ => 1) p.worker ≤ Fintype.card W :=
    tally_le_card (fun x => by cases x <;> simp) p.worker
  have hroom := h.room
  simp only [weigh_one, List.length_map] at hjobs hresults
  rw [← h.fifo, List.length_append]
  omega

omit [DecidableEq W] in
/-- **With nothing under way** every job was handled or lost, and every result let go. -/
theorem Sound.settled (h : p.Sound capacity) (hqueue : p.queue.buffer = [])
    (hjob : ∀ w, (p.worker w).job? = []) (hresult : ∀ w, (p.worker w).result? = []) :
    (p.handled.map Prod.fst ++ p.lost).Perm p.admitted ∧
      p.delivered.Perm (p.handled.filterMap Prod.snd) := by
  refine ⟨perm_of_sums fun f => ?_, perm_of_sums fun f => ?_⟩
  · have hnone : jobsAt f p.worker = 0 := tally_eq_zero fun w => by rw [hjob w, weigh_nil]
    have hjobs := h.jobs f
    rw [← h.fifo, hqueue, List.append_nil, weigh_append]
    omega
  · have hnone : resultsAt f p.worker = 0 := tally_eq_zero fun w => by rw [hresult w, weigh_nil]
    have hresults := h.results f
    omega

end

end

/-! ## The order of the queue -/

variable [DecidableEq W]

/-- The only worker keeps the order. -/
structure InOrder (p : Pool W J R) (w : W) : Prop where
  jobs : p.worker w = .gone ∨ p.handled.map Prod.fst ++ (p.worker w).job? = p.taken
  handled : p.handled.map Prod.fst <+: p.taken
  results : p.delivered ++ (p.worker w).result? = p.handled.filterMap Prod.snd

namespace InOrder

variable {p : Pool W J R} {w : W}

omit [DecidableEq W] in
theorem new (capacity : Nat) (w : W) : InOrder (Pool.new capacity : Pool W J R) w :=
  ⟨.inr rfl, List.prefix_refl _, rfl⟩

omit [DecidableEq W] in
theorem offer (h : p.InOrder w) (job : J) : (p.offer job).InOrder w := by
  unfold Pool.offer
  split
  · exact ⟨h.jobs, h.handled, h.results⟩
  · exact h

omit [DecidableEq W] in
theorem close (h : p.InOrder w) : p.close.InOrder w := ⟨h.jobs, h.handled, h.results⟩

variable [Subsingleton W]

theorem take (h : p.InOrder w) (w' : W) : (p.take w').InOrder w := by
  obtain rfl := Subsingleton.elim w w'
  unfold Pool.take
  cases hw : p.worker w with
  | idle =>
    have hjobs := h.jobs.resolve_left (by simp [hw])
    have hresults := h.results
    simp only [hw, Worker.job?_idle, Worker.result?_idle, List.append_nil] at hjobs hresults
    simp only
    split
    · refine ⟨.inr ?_, ?_, ?_⟩
      · simp only [put, Function.update_self, Worker.job?_busy, hjobs]
      · simp only [put, hjobs]
        exact List.prefix_append _ _
      · simp only [put, Function.update_self, Worker.result?_busy, List.append_nil, hresults]
    · exact h
    · refine ⟨.inl ?_, h.handled, ?_⟩
      · simp only [put, Function.update_self]
      · simp only [put, Function.update_self, Worker.result?_gone, List.append_nil, hresults]
  | _ => exact h

theorem finish (h : p.InOrder w) (w' : W) (result : J → Option R) :
    (p.finish w' result).InOrder w := by
  obtain rfl := Subsingleton.elim w w'
  unfold Pool.finish
  cases hw : p.worker w with
  | busy job =>
    have hjobs := h.jobs.resolve_left (by simp [hw])
    have hresults := h.results
    simp only [hw, Worker.job?_busy, Worker.result?_busy, List.append_nil] at hjobs hresults
    have hhandled : (p.handled ++ [(job, result job)]).map Prod.fst = p.taken := by
      rw [List.map_append, ← hjobs]
      rfl
    refine ⟨.inr ?_, ?_, ?_⟩
    · simp only [put, Function.update_self, hhandled]
      cases result job <;> simp
    · simp only [put, hhandled]
      exact List.prefix_refl _
    · simp only [put, Function.update_self, List.filterMap_append, ← hresults]
      cases hr : result job <;> simp
  | _ => exact h

theorem abandon (h : p.InOrder w) (w' : W) : (p.abandon w').InOrder w := by
  obtain rfl := Subsingleton.elim w w'
  unfold Pool.abandon
  cases hw : p.worker w with
  | busy job =>
    have hresults := h.results
    simp only [hw, Worker.result?_busy, List.append_nil] at hresults
    refine ⟨.inl ?_, h.handled, ?_⟩
    · simp only [put, Function.update_self]
    · simp only [put, Function.update_self, Worker.result?_gone, List.append_nil, hresults]
  | _ => exact h

theorem deliver (h : p.InOrder w) (w' : W) : (p.deliver w').InOrder w := by
  obtain rfl := Subsingleton.elim w w'
  unfold Pool.deliver
  cases hw : p.worker w with
  | delivering r =>
    have hjobs := h.jobs.resolve_left (by simp [hw])
    have hresults := h.results
    simp only [hw, Worker.job?_delivering, Worker.result?_delivering, List.append_nil]
      at hjobs hresults
    refine ⟨.inr ?_, h.handled, ?_⟩
    · simp only [put, Function.update_self, Worker.job?_idle, List.append_nil, hjobs]
    · simp only [put, Function.update_self, Worker.result?_idle, List.append_nil, hresults]
  | _ => exact h

end InOrder

/-! ## What is left to do -/

variable [Fintype W]

def load (p : Pool W J R) : Nat := 5 * p.queue.buffer.length + tally Worker.load p.worker

section
variable {p : Pool W J R} {w : W}

theorem load_put (p : Pool W J R) (w : W) (x : Worker J R) :
    (p.put w x).load + (p.worker w).load = p.load + x.load := by
  have hmove := tally_update Worker.load p.worker w x
  unfold load put
  simp only
  omega

/-- **Taking a job does some of the work**, and leaves all as it is only where there is nothing to
take. -/
theorem take_load (p : Pool W J R) (w : W) :
    (p.take w = p ∧ (p.worker w = .idle → p.queue.buffer = [])) ∨ (p.take w).load < p.load := by
  unfold take
  cases hw : p.worker w with
  | idle =>
    simp only
    cases hrecv : p.queue.recv with
    | message job c =>
      have hmove := load_put { p with queue := c, taken := p.taken ++ [job] } w (.busy job)
      have hfront := (Channel.recv_message hrecv).1
      have hlength : p.queue.buffer.length = c.buffer.length + 1 := by rw [hfront, List.length_cons]
      simp only [hw, Worker.load] at hmove
      have hload : p.load =
          ({ p with queue := c, taken := p.taken ++ [job] } : Pool W J R).load + 5 := by
        simp only [load]
        omega
      simp only
      omega
    | empty =>
      refine .inl ⟨rfl, fun _ => ?_⟩
      exact Channel.recv_empty hrecv
    | closed =>
      have hmove := load_put p w .gone
      simp only [hw, Worker.load] at hmove
      simp only
      omega
  | _ => exact .inl ⟨rfl, fun hidle => by simp at hidle⟩

/-- **So does ending one.** -/
theorem finish_load (p : Pool W J R) (w : W) (result : J → Option R) :
    (p.finish w result = p ∧ (p.worker w).job? = []) ∨ (p.finish w result).load < p.load := by
  unfold finish
  cases hw : p.worker w with
  | busy job =>
    simp only
    cases result job with
    | none =>
      have hmove := load_put { p with handled := p.handled ++ [(job, none)] } w .idle
      simp only [hw, Worker.load] at hmove
      have hload : ({ p with handled := p.handled ++ [(job, none)] } : Pool W J R).load = p.load :=
        rfl
      simp only
      omega
    | some r =>
      have hmove := load_put { p with handled := p.handled ++ [(job, some r)] } w (.delivering r)
      simp only [hw, Worker.load] at hmove
      have hload : ({ p with handled := p.handled ++ [(job, some r)] } : Pool W J R).load =
        p.load := rfl
      simp only
      omega
  | _ => exact .inl ⟨rfl, rfl⟩

/-- A result that is let go leaves room for what is made of it. -/
theorem deliver_load {r : R} (hw : p.worker w = .delivering r) :
    (p.deliver w).load + 3 = p.load := by
  unfold deliver
  rw [hw]
  simp only
  have hmove := load_put { p with delivered := p.delivered ++ [r] } w .idle
  simp only [hw, Worker.load] at hmove
  have hload : ({ p with delivered := p.delivered ++ [r] } : Pool W J R).load = p.load := rfl
  omega

omit [DecidableEq W] in
/-- No more is left than fits. -/
theorem Sound.load_le {capacity : Nat} (h : p.Sound capacity) :
    p.load ≤ 5 * capacity + 5 * Fintype.card W := by
  have hroom := h.room
  have hworkers : tally Worker.load p.worker ≤ ∑ _w : W, 5 :=
    Finset.sum_le_sum fun w _ => by cases p.worker w <;> simp [Worker.load]
  have hcard : ∑ _w : W, 5 = 5 * Fintype.card W := by simp [mul_comm]
  unfold load
  omega

end

end Pool
