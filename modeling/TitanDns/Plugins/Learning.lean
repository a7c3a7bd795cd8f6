import TitanDns.Lib.PartialMap
import TitanDns.Lib.Run
import TitanDns.Plugins.SmartForward
import Mathlib.Data.List.DropRight

/-!
# What `SmartForwardPlugin` learns

The three stores of learned verdicts and the two ways into them: a bounded queue with one learner
task, and a task of its own for a verdict that the queue has no room for.  A task writes the
stores one after another, so all of them are under way at once.

* `Stores`, `Store` — learning cache, domain cache, persisted data; entries may be dropped.
* `learnedKey` — the spelling under which a verdict is stored.
* `Learning.step` — the calls of `record_learning`, the learner, the overflow tasks.
* `Clean` — **no stored key ends in a dot**, in every reachable state.
* `Ordered` — a call does not pass an earlier verdict for its name on the other path.

Principal results: `learned_not_found` — **the name of a request is looked up in the learning cache
with its trailing dot, so what was learned of it is never found there**; `last_verdict_wins` —
**when no call passes an earlier verdict, the stores hold the last one.**
-/

namespace TitanDns.SmartForward

open PartialMap Run

/-! ## The stores -/

/-- The stores in the order in which a task writes them. -/
inductive Store where
  | learningCache
  | persistData
  | domainCache
  deriving DecidableEq, Repr

structure Stores where
  learningCache : String → Option Bool
  persistData : String → Option Bool
  /-- With the second at which the entry expires. -/
  domainCache : String → Option (Bool × Nat)

/-- `DOMAIN_CLASS_CACHE_TTL_SECS` -/
def DOMAIN_CLASS_CACHE_TTL_SECS : Nat := 900

namespace Stores

def empty : Stores := ⟨PartialMap.empty, PartialMap.empty, PartialMap.empty⟩

/-- The verdict that a store holds for a key, expired or not. -/
def verdict (s : Stores) (key : String) : Store → Option Bool
  | .learningCache => s.learningCache key
  | .persistData => s.persistData key
  | .domainCache => (s.domainCache key).map (·.1)

/-- The write of one store at second `now`. -/
def insert (s : Stores) (now : Nat) (key : String) (isCn : Bool) : Store → Stores
  | .learningCache => { s with learningCache := put s.learningCache key isCn }
  | .persistData => { s with persistData := put s.persistData key isCn }
  | .domainCache =>
    { s with domainCache := put s.domainCache key (isCn, now + DOMAIN_CLASS_CACHE_TTL_SECS) }

/-- An entry expires, is evicted or is trimmed. -/
def drop (s : Stores) (key : String) : Store → Stores
  | .learningCache => { s with learningCache := forget s.learningCache key }
  | .persistData => { s with persistData := forget s.persistData key }
  | .domainCache => { s with domainCache := forget s.domainCache key }

/-- `get_domain_cache`; what is not there, or no more, is removed. -/
def getDomainCache (s : Stores) (now : Nat) (domain : String) : Option Bool × Stores :=
  match s.domainCache (trimDots domain) with
  | some (isCn, expiresAt) =>
    if now ≤ expiresAt then (some isCn, s) else (none, s.drop (trimDots domain) .domainCache)
  | none => (none, s.drop (trimDots domain) .domainCache)

theorem verdict_insert (s : Stores) (now : Nat) (key key' : String) (isCn : Bool)
    (store store' : Store) :
    (s.insert now key isCn store).verdict key' store' =
      if store' = store ∧ key' = key then some isCn else s.verdict key' store' := by
  by_cases hkey : key' = key
  · subst hkey
    cases store <;> cases store' <;> simp [insert, verdict]
  · cases store <;> cases store' <;> simp [insert, verdict, put_of_ne hkey, hkey]

theorem verdict_drop_of_ne {store store' : Store} {key key' : String}
    (h : ¬ (store' = store ∧ key' = key)) (s : Stores) :
    (s.drop key store).verdict key' store' = s.verdict key' store' := by
  by_cases hkey : key' = key
  · subst hkey
    cases store <;> cases store' <;> simp_all [drop, verdict]
  · cases store <;> cases store' <;> simp [drop, verdict, forget_of_ne hkey]

end Stores

/-! ## The tasks -/

/-- The key of `record_learning`; the root is not recorded. -/
def learnedKey (domain : String) : Option String :=
  let clean := trimDots (normalizeDomainLower domain)
  if clean = "" then none else some clean

/-- A verdict under way, with the stores still to be written. -/
structure Task where
  key : String
  verdict : Bool
  todo : List Store

/-- The capacity of `learning_tx`. -/
def LEARNING_QUEUE : Nat := 4096

/-- The plugin's stores, the learning queue, the learner and the overflow tasks. -/
structure Learning where
  persistEnabled : Bool
  stores : Stores
  queue : List (String × Bool)
  learner : Option Task
  overflow : List Task

namespace Learning

/-- Nothing under way. -/
def idle (persistEnabled : Bool) (stores : Stores) : Learning :=
  ⟨persistEnabled, stores, [], none, []⟩

/-- The stores that a verdict is written to. -/
def stages (s : Learning) : List Store :=
  [.learningCache] ++ (if s.persistEnabled then [.persistData] else []) ++ [.domainCache]

inductive Event where
  /-- A call of `record_learning`, in a runtime or outside. -/
  | record (domain : String) (isCn : Bool) (inRuntime : Bool)
  | receive
  | learn (now : Nat)
  /-- The `i`-th overflow task writes a store. -/
  | spill (i : Nat) (now : Nat)
  /-- A store loses an entry. -/
  | lose (store : Store) (key : String)
  deriving DecidableEq

/-- What is left of a task after a write. -/
def remaining (key : String) (verdict : Bool) : List Store → Option Task
  | [] => none
  | todo => some ⟨key, verdict, todo⟩

/-- `record_learning`.  A caller outside a runtime writes on the spot what it writes, which may
interleave with the other tasks, so it is a task too; it leaves the learning cache alone. -/
def recordLearning (s : Learning) (domain : String) (isCn inRuntime : Bool) : Learning :=
  match learnedKey domain with
  | none => s
  | some key =>
    if s.queue.length < LEARNING_QUEUE then { s with queue := s.queue ++ [(key, isCn)] }
    else
      let todo := if inRuntime then s.stages else s.stages.tail
      { s with overflow := s.overflow ++ [⟨key, isCn, todo⟩] }

/-- The learner takes a verdict from the queue. -/
def receive (s : Learning) : Learning :=
  match s.learner, s.queue with
  | none, (key, isCn) :: rest => { s with queue := rest, learner := some ⟨key, isCn, s.stages⟩ }
  | _, _ => s

/-- The learner writes the next store. -/
def learn (s : Learning) (now : Nat) : Learning :=
  match s.learner with
  | some ⟨key, verdict, store :: rest⟩ =>
    { s with
      stores := s.stores.insert now key verdict store
      learner := remaining key verdict rest }
  | _ => s

/-- An overflow task writes its next store. -/
def spill (s : Learning) (i now : Nat) : Learning :=
  match s.overflow.drop i with
  | ⟨key, verdict, store :: rest⟩ :: later =>
    { s with
      stores := s.stores.insert now key verdict store
      overflow := s.overflow.take i ++ (remaining key verdict rest).toList ++ later }
  | _ => s

def step (s : Learning) : Event → Learning
  | .record domain isCn inRuntime => s.recordLearning domain isCn inRuntime
  | .receive => s.receive
  | .learn now => s.learn now
  | .spill i now => s.spill i now
  | .lose store key => { s with stores := s.stores.drop key store }

/-- Queue and tasks have drained. -/
structure Drained (s : Learning) : Prop where
  queue : s.queue = []
  learner : s.learner = none
  overflow : s.overflow = []

end Learning

/-! ## The keys -/

theorem trimDots_dot (s : String) : trimDots (s ++ ".") = trimDots s := by
  rw [← String.toList_inj, trimDots_toList, trimDots_toList, String.toList_append]
  exact List.rdropWhile_concat_pos _ _ _ rfl

/-- A key without a trailing dot. -/
def Clean (key : String) : Prop := trimDots key = key

theorem learnedKey_clean {domain key : String} (h : learnedKey domain = some key) : Clean key := by
  unfold learnedKey at h
  simp only at h
  split at h
  · cases h
  · cases h
    exact trimDots_trimDots _

theorem not_clean_dot (s : String) : ¬ Clean (s ++ ".") := by
  intro h
  unfold Clean at h
  rw [trimDots_dot] at h
  have hshort : (trimDots s).toList.length ≤ s.toList.length := by
    rw [trimDots_toList]
    exact (List.rdropWhile_prefix _ _).length_le
  rw [h, String.toList_append, List.length_append] at hshort
  have hdot : ".".toList.length = 1 := rfl
  omega

/-- A spelling of the domain with a trailing dot, in any letter case. -/
def FullyQualified (domain spelling : String) : Prop :=
  ∃ t, spelling = t ++ "." ∧ t.map Char.toLower = normalizeDomainLower domain

theorem fullyQualified_lower {domain spelling : String} (h : FullyQualified domain spelling) :
    spelling.map Char.toLower = normalizeDomainLower domain ++ "." := by
  obtain ⟨t, rfl, ht⟩ := h
  rw [← ht, ← String.toList_inj]
  simp

theorem learnedKey_eq {domain key : String} (h : learnedKey domain = some key) :
    key = trimDots (normalizeDomainLower domain) := by
  unfold learnedKey at h
  simp only at h
  split at h
  · cases h
  · exact (Option.some.inj h).symm

/-- Every key of every store is clean. -/
def Stores.AllClean (s : Stores) : Prop :=
  ∀ key store isCn, s.verdict key store = some isCn → Clean key

theorem Stores.AllClean.insert {s : Stores} (hs : s.AllClean) {key : String} (hkey : Clean key)
    (now : Nat) (isCn : Bool) (store : Store) : (s.insert now key isCn store).AllClean := by
  intro key' store' isCn' h
  rw [Stores.verdict_insert] at h
  split at h
  · rename_i hsame
    rw [hsame.2]
    exact hkey
  · exact hs _ _ _ h

theorem Stores.AllClean.drop {s : Stores} (hs : s.AllClean) (key : String) (store : Store) :
    (s.drop key store).AllClean := by
  intro key' store' isCn h
  by_cases hsame : store' = store ∧ key' = key
  · obtain ⟨rfl, rfl⟩ := hsame
    cases store' <;> simp [Stores.drop, Stores.verdict] at h
  · rw [Stores.verdict_drop_of_ne hsame] at h
    exact hs _ _ _ h

/-- The persisted verdicts as `new` loads them, at second `now`. -/
def Stores.load (now maxEntries : Nat) : List (String × Bool) → Nat → Stores → Stores
  | [], _, s => s
  | (domain, isCn) :: rest, inserted, s =>
    if maxEntries ≤ inserted then s
    else
      match learnedKey domain with
      | none => load now maxEntries rest inserted s
      | some key =>
        load now maxEntries rest (inserted + 1)
          (((s.insert now key isCn .learningCache).insert now key isCn .persistData).insert
            now key isCn .domainCache)

theorem Stores.AllClean.load {s : Stores} (hs : s.AllClean) (now maxEntries : Nat)
    (data : List (String × Bool)) (inserted : Nat) :
    (Stores.load now maxEntries data inserted s).AllClean := by
  induction data generalizing inserted s with
  | nil => exact hs
  | cons entry rest ih =>
    obtain ⟨domain, isCn⟩ := entry
    unfold Stores.load
    split
    · exact hs
    split
    · exact ih hs _
    · rename_i key hkey
      have hclean := learnedKey_clean hkey
      exact ih (((hs.insert hclean _ _ _).insert hclean _ _ _).insert hclean _ _ _) _

namespace Learning

/-- Stores and everything under way have clean keys. -/
structure AllClean (s : Learning) : Prop where
  stores : s.stores.AllClean
  queue : ∀ update ∈ s.queue, Clean update.1
  learner : ∀ task, s.learner = some task → Clean task.key
  overflow : ∀ task ∈ s.overflow, Clean task.key

theorem remaining_key {key : String} {verdict : Bool} {todo : List Store} {task : Task}
    (h : remaining key verdict todo = some task) :
    task = ⟨key, verdict, todo⟩ ∧ todo ≠ [] := by
  unfold remaining at h
  split at h
  · cases h
  · rename_i hne
    exact ⟨(Option.some.inj h).symm, hne⟩

theorem allClean_record {s : Learning} (hs : s.AllClean) (domain : String)
    (isCn inRuntime : Bool) : (s.recordLearning domain isCn inRuntime).AllClean := by
  unfold recordLearning
  split
  · exact hs
  rename_i key hkey
  have hclean := learnedKey_clean hkey
  split
  · refine { hs with queue := fun update h => ?_ }
    rcases List.mem_append.mp h with h | h
    · exact hs.queue _ h
    · rw [List.mem_singleton.mp h]
      exact hclean
  · refine { hs with overflow := fun task h => ?_ }
    rcases List.mem_append.mp h with h | h
    · exact hs.overflow _ h
    · rw [List.mem_singleton.mp h]
      exact hclean

theorem allClean_receive {s : Learning} (hs : s.AllClean) : s.receive.AllClean := by
  unfold receive
  split
  · rename_i key isCn rest _ hqueue
    have hkey : Clean key := hs.queue (key, isCn) (by rw [hqueue]; exact List.mem_cons_self)
    refine { hs with queue := fun update h => hs.queue _ ?_, learner := fun task h => ?_ }
    · rw [hqueue]
      exact List.mem_cons_of_mem _ h
    · cases h
      exact hkey
  · exact hs

theorem allClean_learn {s : Learning} (hs : s.AllClean) (now : Nat) : (s.learn now).AllClean := by
  unfold learn
  split
  · rename_i key verdict store rest hlearner
    have hkey : Clean key := hs.learner ⟨key, verdict, store :: rest⟩ hlearner
    have hstores := hs.stores.insert hkey now verdict store
    refine ⟨hstores, hs.queue, fun task h => ?_, hs.overflow⟩
    rw [(remaining_key h).1]
    exact hkey
  · exact hs

theorem allClean_spill {s : Learning} (hs : s.AllClean) (i now : Nat) :
    (s.spill i now).AllClean := by
  unfold spill
  split
  · rename_i key verdict store rest later hdrop
    have hmem : ∀ task ∈ ⟨key, verdict, store :: rest⟩ :: later, task ∈ s.overflow :=
      fun task h => List.mem_of_mem_drop (hdrop ▸ h)
    have hkey : Clean key :=
      hs.overflow ⟨key, verdict, store :: rest⟩ (hmem _ List.mem_cons_self)
    have hstores := hs.stores.insert hkey now verdict store
    refine ⟨hstores, hs.queue, hs.learner, fun task h => ?_⟩
    rcases List.mem_append.mp h with h | h
    · rcases List.mem_append.mp h with h | h
      · exact hs.overflow _ (List.mem_of_mem_take h)
      · rw [(remaining_key (Option.mem_toList.mp h)).1]
        exact hkey
    · exact hs.overflow _ (hmem _ (List.mem_cons_of_mem _ h))
  · exact hs

theorem allClean_step (s : Learning) (e : Event) (hs : s.AllClean) : (s.step e).AllClean := by
  cases e with
  | record domain isCn inRuntime => exact allClean_record hs domain isCn inRuntime
  | receive => exact allClean_receive hs
  | learn now => exact allClean_learn hs now
  | spill i now => exact allClean_spill hs i now
  | lose store key => exact { hs with stores := hs.stores.drop key store }

/-- The plugin as `new` leaves it: the persisted verdicts loaded, nothing under way. -/
def start (persistEnabled : Bool) (now maxEntries : Nat) (data : List (String × Bool)) : Learning :=
  idle persistEnabled (.load now maxEntries data 0 .empty)

theorem allClean_run (persistEnabled : Bool) (now maxEntries : Nat) (data : List (String × Bool))
    (es : List Event) : (run step (start persistEnabled now maxEntries data) es).AllClean := by
  have hempty : Stores.empty.AllClean := by
    intro key store isCn h
    cases store <;> cases h
  have hstart : (start persistEnabled now maxEntries data).AllClean :=
    ⟨hempty.load _ _ _ _, fun _ h => absurd h List.not_mem_nil, fun _ h => (by cases h),
      fun _ h => absurd h List.not_mem_nil⟩
  exact invariant_run allClean_step hstart es

end Learning

/-! ## Finding a verdict again -/

/-- What the two lookups of `handle` find at second `now`. -/
def lookups (stores : Stores) (now : Nat) (codec : Codec) (ctx : Context)
    (env : SmartForwardEnv) : SmartForwardEnv :=
  { env with
    domainCache := (stores.getDomainCache now (ctx.qnameLower codec)).1
    learningCache := stores.learningCache (ctx.qnameLower codec) }

/-- Both lookups find the verdict. -/
def FoundAgain (env : SmartForwardEnv) (isCn : Bool) : Prop :=
  env.domainCache = some isCn ∧ env.learningCache = some isCn

/-- Both stores hold the verdict, the domain cache for some time yet. -/
def Stands (stores : Stores) (now : Nat) (key : String) (isCn : Bool) : Prop :=
  stores.learningCache key = some isCn ∧
    ∃ expiresAt, stores.domainCache key = some (isCn, expiresAt) ∧ now ≤ expiresAt

/-- **What was learned of a name is never found again in both stores**: the domain cache finds it,
the learning cache is asked for another key. -/
theorem learned_not_found (persistEnabled : Bool) (started maxEntries : Nat)
    (data : List (String × Bool)) (es : List Learning.Event) (now : Nat) (codec : Codec)
    (ctx : Context) (env : SmartForwardEnv) (domain key : String) (isCn : Bool)
    (hkey : learnedKey domain = some key) (hname : FullyQualified domain (ctx.qname codec)) :
    let stores := (run Learning.step (.start persistEnabled started maxEntries data) es).stores
    ¬ FoundAgain (lookups stores now codec ctx env) isCn ∧
      (lookups stores now codec ctx env).learningCache = none ∧
      (Stands stores now key isCn →
        (lookups stores now codec ctx env).domainCache = some isCn) := by
  intro stores
  have hclean : stores.AllClean :=
    (Learning.allClean_run persistEnabled started maxEntries data es).stores
  have hlower : ctx.qnameLower codec = normalizeDomainLower domain ++ "." :=
    fullyQualified_lower hname
  have hmissed : (lookups stores now codec ctx env).learningCache = none := by
    unfold lookups
    simp only [hlower]
    cases hfound : stores.learningCache (normalizeDomainLower domain ++ ".") with
    | none => rfl
    | some verdict => exact absurd (hclean _ .learningCache _ hfound) (not_clean_dot _)
  refine ⟨fun ⟨_, hfound⟩ => ?_, hmissed, fun ⟨_, expiresAt, hstands, hnow⟩ => ?_⟩
  · rw [hmissed] at hfound
    cases hfound
  · have htrimmed : trimDots (ctx.qnameLower codec) = key := by
      rw [hlower, trimDots_dot, learnedKey_eq hkey]
    simp [lookups, Stores.getDomainCache, htrimmed, hstands, hnow]

/-- One verdict recorded and processed by the learner. -/
def exampleLearned : Stores :=
  (run Learning.step (.start false 0 10000 [])
    [.record "www.example.com" true true, .receive, .learn 0, .learn 0]).stores

def exampleAsked : Context := .new exampleRequest (.v4 ⟨10, 0, 0, 2⟩)

/-- A minute later both stores hold the verdict, and the request does not find it in both. -/
theorem learned_example_lost :
    learnedKey "www.example.com" = some "www.example.com" ∧
    FullyQualified "www.example.com" (exampleAsked.qname exampleCodec) ∧
    Stands exampleLearned 60 "www.example.com" true ∧
    ¬ FoundAgain (lookups exampleLearned 60 exampleCodec exampleAsked (foreignEnv .timedOut))
      true := by
  refine ⟨by decide +kernel, ⟨"www.example.com", by decide +kernel, by decide +kernel⟩,
    ⟨by decide +kernel, 900, by decide +kernel, by decide⟩, fun h => ?_⟩
  exact absurd h.2 (by decide +kernel)

theorem learned_not_found_example :
    ¬ FoundAgain (lookups exampleLearned 60 exampleCodec exampleAsked (foreignEnv .timedOut))
        true ∧
      (lookups exampleLearned 60 exampleCodec exampleAsked (foreignEnv .timedOut)).learningCache =
        none ∧
      (Stands exampleLearned 60 "www.example.com" true →
        (lookups exampleLearned 60 exampleCodec exampleAsked (foreignEnv .timedOut)).domainCache =
          some true) :=
  learned_not_found false 0 10000 [] _ 60 exampleCodec exampleAsked (foreignEnv .timedOut)
    "www.example.com" "www.example.com" true (by decide +kernel)
    ⟨"www.example.com", by decide +kernel, by decide +kernel⟩

/-! ## The last verdict -/

/-- What a call does to the last verdict recorded for a key. -/
def recorded (key : String) (last : Option Bool) : Learning.Event → Option Bool
  | .record domain isCn _ => if learnedKey domain = some key then some isCn else last
  | _ => last

/-- The last verdict recorded for the key. -/
def lastVerdict (key : String) (es : List Learning.Event) : Option Bool :=
  es.foldl (recorded key) none

namespace Learning

/-- The verdicts for the key that learner and queue are still to write to the store, in order. -/
def behind (s : Learning) (key : String) (store : Store) : List Bool :=
  ((s.learner.toList.filter fun task => task.key = key ∧ store ∈ task.todo).map (·.verdict)) ++
    (s.queue.filter (·.1 = key)).map (·.2)

/-- An overflow task for the key has the store still to write. -/
def Outstanding (s : Learning) (key : String) (store : Store) : Prop :=
  ∃ task ∈ s.overflow, task.key = key ∧ store ∈ task.todo

/-- The store will come to hold what the overflow tasks for the key have to write, or holds it. -/
def Settling (s : Learning) (key : String) (isCn : Bool) (store : Store) : Prop :=
  s.stores.verdict key store = some isCn ∨ s.Outstanding key store

/-- No overflow task for the key has another verdict. -/
def SpillsAgree (s : Learning) (key : String) (isCn : Bool) : Prop :=
  ∀ task ∈ s.overflow, task.key = key → task.verdict = isCn

/-- The newest verdict for the key in learner and queue is no other. -/
def QueueAgrees (s : Learning) (key : String) (isCn : Bool) : Prop :=
  ∀ store ∈ s.stages, ∀ w, (s.behind key store).getLast? = some w → w = isCn

/-- **A call does not pass an earlier verdict for its key on the other path**: no overflow task has
another one, nor, where the queue is full, has the queue; and where the caller will not write the
learning cache it already has the verdict. -/
def Ordered (key : String) (s : Learning) : Event → Prop
  | .record domain isCn inRuntime =>
    learnedKey domain = some key →
      s.SpillsAgree key isCn ∧
      (LEARNING_QUEUE ≤ s.queue.length → s.QueueAgrees key isCn ∧
        (inRuntime = false →
          s.behind key .learningCache ≠ [] ∨ s.Settling key isCn .learningCache))
  | _ => True

/-- The invariant for one key and one of the stores, with the last verdict recorded. -/
structure Converging (key : String) (store : Store) (last : Option Bool) (s : Learning) : Prop where
  stage : store ∈ s.stages
  spills : ∀ task ∈ s.overflow, task.key = key → last = some task.verdict
  newest : ∀ w, (s.behind key store).getLast? = some w → last = some w
  settles : ∀ v, last = some v → s.behind key store = [] → s.Settling key v store

section
variable {s : Learning} {key : String} {store : Store} {last : Option Bool}

theorem step_stages (s : Learning) (e : Event) : (s.step e).stages = s.stages := by
  have hstages : ∀ t : Learning, t.persistEnabled = s.persistEnabled → t.stages = s.stages := by
    intro t ht
    simp [stages, ht]
  apply hstages
  cases e with
  | record domain isCn inRuntime =>
    simp only [step, recordLearning]
    split
    · rfl
    split
    · rfl
    · rfl
  | receive =>
    simp only [step, receive]
    split
    · rfl
    · rfl
  | learn now =>
    simp only [step, learn]
    split
    · rfl
    · rfl
  | spill i now =>
    simp only [step, spill]
    split
    · rfl
    · rfl
  | lose store key => rfl

/-- A step that leaves alone what the invariant is about. -/
theorem Converging.congr (h : Converging key store last s) {t : Learning}
    (hstages : t.stages = s.stages) (hbehind : t.behind key store = s.behind key store)
    (hoverflow : t.overflow = s.overflow)
    (hverdict : t.stores.verdict key store = s.stores.verdict key store) :
    Converging key store last t where
  stage := hstages ▸ h.stage
  spills := hoverflow ▸ h.spills
  newest := hbehind ▸ h.newest
  settles v hv hnil := by
    have hsettling := h.settles v hv (hbehind ▸ hnil)
    unfold Settling Outstanding
    rw [hverdict, hoverflow]
    exact hsettling

theorem behind_enqueue (s : Learning) (key : String) (store : Store) (update : String × Bool) :
    behind { s with queue := s.queue ++ [update] } key store =
      s.behind key store ++ if update.1 = key then [update.2] else [] := by
  unfold behind
  rw [List.filter_append, List.map_append, ← List.append_assoc]
  congr 1
  by_cases hkey : update.1 = key <;> simp [hkey]

theorem Settling.of_overflow {isCn : Bool} (h : s.Settling key isCn store) {t : Learning}
    (hverdict : t.stores.verdict key store = s.stores.verdict key store)
    (hoverflow : ∀ task ∈ s.overflow, task ∈ t.overflow) : t.Settling key isCn store := by
  rcases h with h | ⟨task, htask, hrest⟩
  · exact Or.inl (hverdict.trans h)
  · exact Or.inr ⟨task, hoverflow _ htask, hrest⟩

theorem converging_enqueue (h : Converging key store last s) {isCn : Bool}
    (hspills : s.SpillsAgree key isCn) :
    Converging key store (some isCn) { s with queue := s.queue ++ [(key, isCn)] } where
  stage := h.stage
  spills task htask hkey := by rw [hspills task htask hkey]
  newest w hw := by
    rw [behind_enqueue, if_pos rfl, List.getLast?_concat] at hw
    exact hw
  settles v _ hnil := by
    rw [behind_enqueue, if_pos rfl] at hnil
    exact absurd hnil (List.append_ne_nil_of_right_ne_nil _ (List.cons_ne_nil _ _))

theorem converging_overflow (h : Converging key store last s) {isCn inRuntime : Bool}
    (hspills : s.SpillsAgree key isCn) (hqueue : s.QueueAgrees key isCn)
    (hcache : inRuntime = false →
      s.behind key .learningCache ≠ [] ∨ s.Settling key isCn .learningCache) :
    Converging key store (some isCn)
      { s with overflow := s.overflow ++
          [⟨key, isCn, if inRuntime then s.stages else s.stages.tail⟩] } where
  stage := h.stage
  spills task htask hkey := by
    rcases List.mem_append.mp htask with hold | hnew
    · rw [hspills task hold hkey]
    · rw [List.mem_singleton.mp hnew]
  newest w hw := by rw [hqueue store h.stage w hw]
  settles v hv hnil := by
    cases hv
    by_cases htodo : store ∈ if inRuntime then s.stages else s.stages.tail
    · exact Or.inr ⟨_, List.mem_append_right _ List.mem_cons_self, rfl, htodo⟩
    · -- only the learning cache is left out, by a caller outside a runtime
      have hout : inRuntime = false ∧ store = .learningCache := by
        have hstage := h.stage
        cases inRuntime with
        | true => exact absurd hstage htodo
        | false => cases store <;> simp_all [stages]
      obtain ⟨hruntime, rfl⟩ := hout
      rcases hcache hruntime with hne | hsettling
      · exact absurd hnil hne
      · exact hsettling.of_overflow rfl fun task htask => List.mem_append_left _ htask

theorem converging_record (h : Converging key store last s) {domain : String}
    {isCn inRuntime : Bool} (hok : Ordered key s (.record domain isCn inRuntime)) :
    Converging key store (recorded key last (.record domain isCn inRuntime))
      (s.recordLearning domain isCn inRuntime) := by
  have hlast : recorded key last (.record domain isCn inRuntime) =
      if learnedKey domain = some key then some isCn else last := rfl
  rw [hlast]
  unfold recordLearning
  cases hlearned : learnedKey domain with
  | none =>
    rw [if_neg (by simp)]
    exact h
  | some key' =>
    by_cases hkey : key' = key
    · subst hkey
      obtain ⟨hspills, hfull⟩ := hok hlearned
      rw [if_pos rfl]
      simp only
      split
      · exact converging_enqueue h hspills
      · rename_i hroom
        obtain ⟨hqueue, hcache⟩ := hfull (Nat.le_of_not_lt hroom)
        exact converging_overflow h hspills hqueue hcache
    · rw [if_neg fun heq => hkey (Option.some.inj heq)]
      simp only
      split
      · have hbehind := behind_enqueue s key store (key', isCn)
        rw [if_neg hkey, List.append_nil] at hbehind
        exact h.congr rfl hbehind rfl rfl
      · refine ⟨h.stage, fun task htask hk => ?_, h.newest, fun v hv hnil => ?_⟩
        · rcases List.mem_append.mp htask with hold | hnew
          · exact h.spills task hold hk
          · rw [List.mem_singleton.mp hnew] at hk
            exact absurd hk hkey
        · exact (h.settles v hv hnil).of_overflow rfl
            fun task htask => List.mem_append_left _ htask

theorem converging_receive (h : Converging key store last s) :
    Converging key store last s.receive := by
  unfold receive
  split
  · rename_i key' isCn rest hlearner hqueue
    refine h.congr rfl ?_ rfl rfl
    have hstage := h.stage
    by_cases hkey : key' = key
    · simp [behind, hlearner, hqueue, hkey, hstage]
    · simp [behind, hlearner, hqueue, hkey]
  · exact h

/-- The verdicts behind the learner's task. -/
theorem behind_learner {key' : String} {verdict : Bool} {todo : List Store}
    (hlearner : s.learner = some ⟨key', verdict, todo⟩) :
    s.behind key store = (if key' = key ∧ store ∈ todo then [verdict] else []) ++
      (s.queue.filter (·.1 = key)).map (·.2) := by
  unfold behind
  rw [hlearner]
  by_cases hmine : key' = key ∧ store ∈ todo <;> simp [hmine]

section
variable {key' : String} {verdict : Bool} {store' : Store} {rest : List Store}
  (hlearner : s.learner = some ⟨key', verdict, store' :: rest⟩) (now : Nat)
include hlearner

theorem learn_eq :
    s.learn now =
      { s with
        stores := s.stores.insert now key' verdict store'
        learner := remaining key' verdict rest } := by
  unfold learn
  rw [hlearner]

theorem behind_learn :
    (s.learn now).behind key store = (if key' = key ∧ store ∈ rest then [verdict] else []) ++
      (s.queue.filter (·.1 = key)).map (·.2) := by
  rw [learn_eq hlearner]
  cases rest with
  | nil => simp [behind, remaining]
  | cons next rest => exact behind_learner rfl

theorem verdict_learn :
    (s.learn now).stores.verdict key store =
      if store = store' ∧ key = key' then some verdict else s.stores.verdict key store := by
  rw [learn_eq hlearner]
  exact Stores.verdict_insert _ _ _ _ _ _ _

/-- The learner's write of the store in question. -/
theorem converging_write (h : Converging key store last s) (hmine : key' = key ∧ store = store') :
    Converging key store last (s.learn now) := by
  have hstages : (s.learn now).stages = s.stages := step_stages s (.learn now)
  have hoverflow : (s.learn now).overflow = s.overflow := by rw [learn_eq hlearner]
  have hbefore : s.behind key store =
      (if key' = key ∧ store ∈ store' :: rest then [verdict] else []) ++
        (s.queue.filter (·.1 = key)).map (·.2) := behind_learner hlearner
  have hafter : (s.learn now).behind key store =
      (if key' = key ∧ store ∈ rest then [verdict] else []) ++
        (s.queue.filter (·.1 = key)).map (·.2) := behind_learn hlearner now
  obtain ⟨rfl, rfl⟩ := hmine
  rw [if_pos ⟨rfl, List.mem_cons_self⟩] at hbefore
  refine ⟨hstages ▸ h.stage, hoverflow ▸ h.spills, fun w hw => h.newest w ?_,
    fun v hv hnil => Or.inl ?_⟩
  · rw [hafter] at hw
    rw [hbefore]
    split at hw
    · exact hw
    · rw [List.nil_append] at hw
      rw [List.singleton_append, List.getLast?_cons, hw]
      rfl
  · rw [hafter] at hnil
    rw [(List.append_eq_nil_iff.mp hnil).2] at hbefore
    have hlast := h.newest verdict (by rw [hbefore]; rfl)
    rw [verdict_learn hlearner, if_pos ⟨rfl, rfl⟩, ← hlast, hv]

/-- The learner's write of another store, or of another key. -/
theorem converging_write_other (h : Converging key store last s)
    (hother : ¬ (key' = key ∧ store = store')) : Converging key store last (s.learn now) := by
  refine h.congr (step_stages s (.learn now)) ?_ (by rw [learn_eq hlearner]) ?_
  · rw [behind_learn hlearner, behind_learner hlearner]
    congr 2
    by_cases hkey : key' = key
    · have hne : store ≠ store' := fun heq => hother ⟨hkey, heq⟩
      simp [hkey, hne]
    · simp [hkey]
  · rw [verdict_learn hlearner, if_neg]
    exact fun hsame => hother ⟨hsame.2.symm, hsame.1⟩

end

theorem converging_learn (h : Converging key store last s) (now : Nat) :
    Converging key store last (s.learn now) := by
  cases hlearner : s.learner with
  | none =>
    have hsame : s.learn now = s := by simp [learn, hlearner]
    rwa [hsame]
  | some task =>
    obtain ⟨key', verdict, todo⟩ := task
    cases todo with
    | nil =>
      have hsame : s.learn now = s := by simp [learn, hlearner]
      rwa [hsame]
    | cons store' rest =>
      by_cases hmine : key' = key ∧ store = store'
      · exact converging_write hlearner now h hmine
      · exact converging_write_other hlearner now h hmine

theorem converging_spill (h : Converging key store last s) (i now : Nat) :
    Converging key store last (s.spill i now) := by
  unfold spill
  split
  · rename_i key' verdict store' rest later hdrop
    have hsplit : s.overflow = s.overflow.take i ++ ⟨key', verdict, store' :: rest⟩ :: later := by
      rw [← hdrop, List.take_append_drop]
    have htask : ⟨key', verdict, store' :: rest⟩ ∈ s.overflow := by
      rw [hsplit]
      exact List.mem_append_right _ List.mem_cons_self
    have hlast : key' = key → last = some verdict := h.spills _ htask
    refine ⟨h.stage, fun task hmem hkey => ?_, h.newest, fun v hv hnil => ?_⟩
    · simp only [List.mem_append, Option.mem_toList] at hmem
      rcases hmem with (hmem | hmem) | hmem
      · exact h.spills task (List.mem_of_mem_take hmem) hkey
      · obtain ⟨rfl, _⟩ := remaining_key hmem
        exact hlast hkey
      · exact h.spills task (by rw [hsplit]; simp [hmem]) hkey
    · by_cases hwritten : key' = key ∧ store = store'
      · -- the write is of the last verdict
        obtain ⟨rfl, rfl⟩ := hwritten
        refine Or.inl ?_
        rw [Stores.verdict_insert, if_pos ⟨rfl, rfl⟩, ← hlast rfl, hv]
      rcases h.settles v hv hnil with hholds | ⟨task, hmem, hkey, htodo⟩
      · refine Or.inl ?_
        rw [Stores.verdict_insert, if_neg fun hsame => hwritten ⟨hsame.2.symm, hsame.1⟩]
        exact hholds
      · rw [hsplit] at hmem
        simp only [List.mem_append, List.mem_cons] at hmem
        rcases hmem with hmem | rfl | hmem
        · exact Or.inr ⟨task, by simp [hmem], hkey, htodo⟩
        · have hrest : store ∈ rest := by
            rcases List.mem_cons.mp htodo with heq | hrest
            · exact absurd ⟨hkey, heq⟩ hwritten
            · exact hrest
          have hleft : remaining key' verdict rest = some ⟨key', verdict, rest⟩ := by
            cases rest with
            | nil => cases hrest
            | cons next rest => rfl
          exact Or.inr ⟨⟨key', verdict, rest⟩, by simp [hleft], hkey, hrest⟩
        · exact Or.inr ⟨task, by simp [hmem], hkey, htodo⟩
  · exact h

/-- What one event must not do: pass an earlier verdict, or drop the entry. -/
def Keeps (key : String) (store : Store) (s : Learning) (e : Event) : Prop :=
  Ordered key s e ∧ e ≠ .lose store key

theorem converging_step (h : Converging key store last s) {e : Event}
    (hok : Keeps key store s e) : Converging key store (recorded key last e) (s.step e) := by
  cases e with
  | record domain isCn inRuntime => exact converging_record h hok.1
  | receive => exact converging_receive h
  | learn now => exact converging_learn h now
  | spill i now => exact converging_spill h i now
  | lose store' key' =>
    refine h.congr rfl rfl rfl (Stores.verdict_drop_of_ne ?_ _)
    rintro ⟨rfl, rfl⟩
    exact hok.2 rfl

theorem converging_run {es : List Event} (h : Converging key store last s)
    (hes : Meets step (Keeps key store) s es) :
    Converging key store (es.foldl (recorded key) last) (run step s es) := by
  induction es generalizing s last with
  | nil => exact h
  | cons e es ih => exact ih (converging_step h hes.1) hes.2

end

/-- Once queue and tasks have drained, every store that a verdict is written to holds the last one
recorded for the key, unless it lost the entry. -/
def LastWins (s : Learning) (key : String) (es : List Event) : Prop :=
  Drained (run step s es) → ∀ isCn, lastVerdict key es = some isCn →
    ∀ store ∈ s.stages, Event.lose store key ∉ es →
      (run step s es).stores.verdict key store = some isCn

/-- **The last verdict wins** in every run in which no call passes an earlier verdict for its key
on the other path. -/
theorem last_verdict_wins (persistEnabled : Bool) (stores : Stores) (key : String)
    (es : List Event) (hordered : Meets step (Ordered key) (idle persistEnabled stores) es) :
    LastWins (idle persistEnabled stores) key es := by
  intro hdrained isCn hlast store hstage hkept
  have hidle : Converging key store none (idle persistEnabled stores) :=
    ⟨hstage, fun _ h => absurd h List.not_mem_nil, fun _ h => (by cases h), fun _ h => (by cases h)⟩
  have hkeeps : Meets step (Keeps key store) (idle persistEnabled stores) es := by
    apply meets_of_cuts
    intro before e rest hcut
    subst hcut
    refine ⟨hordered.at_cut, ?_⟩
    rintro rfl
    exact hkept (List.mem_append_right _ List.mem_cons_self)
  have hrun := converging_run hidle hkeeps
  have hbehind : (run step (idle persistEnabled stores) es).behind key store = [] := by
    unfold behind
    rw [hdrained.learner, hdrained.queue]
    rfl
  rcases hrun.settles isCn hlast hbehind with hholds | ⟨task, htask, _⟩
  · exact hholds
  · rw [hdrained.overflow] at htask
    exact absurd htask List.not_mem_nil

/-- Two opposite verdicts for one name, both through the queue. -/
def exampleVerdicts : List Event :=
  [.record "www.example.com" true true, .record "WWW.example.com." false true, .receive, .learn 0,
    .learn 0, .receive, .learn 1, .learn 1]

theorem last_verdict_wins_example :
    (run step (idle false .empty) exampleVerdicts).stores.verdict "www.example.com"
      .learningCache = some false := by
  have hfree : ∀ s : Learning, s.overflow = [] → s.queue.length < LEARNING_QUEUE →
      ∀ e, Ordered "www.example.com" s e := by
    intro s hspills hroom e
    cases e with
    | record domain isCn inRuntime =>
      exact fun _ => ⟨fun task htask => absurd (hspills ▸ htask) List.not_mem_nil,
        fun hfull => absurd hroom (Nat.not_lt_of_le hfull)⟩
    | receive | learn now | spill i now | lose store key => trivial
  have hordered : Meets step (Ordered "www.example.com") (idle false .empty) exampleVerdicts :=
    ⟨hfree _ rfl (by decide +kernel) _, hfree _ (by decide +kernel) (by decide +kernel) _,
      trivial, trivial, trivial, trivial, trivial, trivial, trivial⟩
  exact last_verdict_wins false .empty "www.example.com" exampleVerdicts hordered
    ⟨by decide +kernel, by decide +kernel, by decide +kernel⟩ false (by decide +kernel)
    .learningCache List.mem_cons_self (by decide +kernel)

/-! ## A burst -/

section
variable {domain key : String} (hkey : learnedKey domain = some key) {s : Learning}
include hkey

theorem record_room (isCn inRuntime : Bool) (hroom : s.queue.length < LEARNING_QUEUE) :
    s.step (.record domain isCn inRuntime) = { s with queue := s.queue ++ [(key, isCn)] } := by
  simp only [step, recordLearning, hkey, if_pos hroom]

theorem record_full (isCn : Bool) (hfull : ¬ s.queue.length < LEARNING_QUEUE) :
    s.step (.record domain isCn true) =
      { s with overflow := s.overflow ++ [⟨key, isCn, s.stages⟩] } := by
  simp only [step, recordLearning, hkey, if_neg hfull, if_true]

/-- Calls that the queue has room for. -/
theorem run_fill (isCn : Bool) (n : Nat) (hroom : s.queue.length + n ≤ LEARNING_QUEUE) :
    run step s (List.replicate n (.record domain isCn true)) =
      { s with queue := s.queue ++ List.replicate n (key, isCn) } := by
  induction n generalizing s with
  | zero => simp
  | succ n ih =>
    rw [List.replicate_succ, run_cons, record_room hkey isCn true (by omega), ih (by simp; omega)]
    simp [List.replicate_succ]

end

/-- What the learner does with one verdict. -/
def absorb (now : Nat) (stores : Stores) (update : String × Bool) : Stores :=
  (stores.insert now update.1 update.2 .learningCache).insert now update.1 update.2 .domainCache

/-- The learner takes and writes `n` verdicts. -/
def drain (now n : Nat) : List Event :=
  (List.replicate n [.receive, .learn now, .learn now]).flatten

theorem mem_drain {now n : Nat} {e : Event} (h : e ∈ drain now n) :
    e = .receive ∨ e = .learn now := by
  obtain ⟨round, hround, he⟩ := List.mem_flatten.mp h
  rw [(List.mem_replicate.mp hround).2] at he
  simpa using he

theorem run_drain (now : Nat) (queue : List (String × Bool)) (stores : Stores)
    (overflow : List Task) :
    run step ⟨false, stores, queue, none, overflow⟩ (drain now queue.length) =
      ⟨false, queue.foldl (absorb now) stores, [], none, overflow⟩ := by
  induction queue generalizing stores with
  | nil => rfl
  | cons update rest ih => exact ih (absorb now stores update)

theorem lastVerdict_append {key : String} {es fs : List Event}
    (h : ∀ e ∈ fs, ∀ last, recorded key last e = last) :
    lastVerdict key (es ++ fs) = lastVerdict key es := by
  have hfold : ∀ last, fs.foldl (recorded key) last = last := by
    intro last
    induction fs with
    | nil => rfl
    | cons e fs ih =>
      rw [List.foldl_cons, h e List.mem_cons_self]
      exact ih fun e' he' => h e' (List.mem_cons_of_mem _ he')
  rw [lastVerdict, List.foldl_append, hfold]
  rfl

/-- The last place of the queue for one verdict, an overflow task for the opposite one; the overflow
task ends before the learner begins. -/
theorem run_overtake {domain key : String} (hkey : learnedKey domain = some key) (isCn : Bool)
    (stores : Stores) {queue : List (String × Bool)} (hlast : queue.length + 1 = LEARNING_QUEUE) :
    run step ⟨false, stores, queue, none, []⟩
        [.record domain isCn true, .record domain (!isCn) true, .spill 0 0, .spill 0 0] =
      ⟨false, absorb 0 stores (key, !isCn), queue ++ [(key, isCn)], none, []⟩ := by
  rw [run_cons, record_room hkey isCn true (by simp only; omega), run_cons,
    record_full hkey (!isCn) (by simp; omega)]
  rfl

/-- The queue filled up to its last place, then two opposite verdicts for one name. -/
def burst : List Event :=
  List.replicate (LEARNING_QUEUE - 1) (.record "filler.example" true true) ++
    ([.record "www.example.com" true true, .record "www.example.com" false true, .spill 0 0,
      .spill 0 0] ++ drain 0 LEARNING_QUEUE)

theorem burst_run :
    ∃ stores, run step (idle false .empty) burst =
      idle false (absorb 0 stores ("www.example.com", true)) := by
  have hfiller : learnedKey "filler.example" = some "filler.example" := by decide +kernel
  have hname : learnedKey "www.example.com" = some "www.example.com" := by decide +kernel
  have hfill := run_fill hfiller (s := idle false .empty) true (LEARNING_QUEUE - 1) (by decide)
  have hqueue : (List.replicate (LEARNING_QUEUE - 1) ("filler.example", true)).length + 1 =
      LEARNING_QUEUE := by rw [List.length_replicate]; rfl
  generalize List.replicate (LEARNING_QUEUE - 1) ("filler.example", true) = queue at hfill hqueue
  have hdrain := run_drain 0 (queue ++ [("www.example.com", true)])
    (absorb 0 .empty ("www.example.com", false)) []
  rw [List.length_append, List.length_singleton, hqueue, List.foldl_append] at hdrain
  refine ⟨queue.foldl (absorb 0) (absorb 0 .empty ("www.example.com", false)), ?_⟩
  rw [burst, run_append, hfill, run_append]
  exact (congrArg (run step · _) (run_overtake hname true .empty hqueue)).trans hdrain

/-- **After a burst the stores keep the earlier of two verdicts.** -/
theorem burst_keeps_stale :
    lastVerdict "www.example.com" burst = some false ∧
    Drained (run step (idle false .empty) burst) ∧
    (run step (idle false .empty) burst).stores.verdict "www.example.com" .learningCache =
      some true ∧
    ¬ LastWins (idle false .empty) "www.example.com" burst := by
  obtain ⟨stores, hrun⟩ := burst_run
  have hlast : lastVerdict "www.example.com" burst = some false := by
    have hname : learnedKey "www.example.com" = some "www.example.com" := by decide +kernel
    rw [burst, ← List.append_assoc, lastVerdict_append]
    · simp [lastVerdict, recorded, hname]
    · intro e he last
      rcases mem_drain he with rfl | rfl
      · rfl
      · rfl
  have hdrained : Drained (run step (idle false .empty) burst) := by
    rw [hrun]
    exact ⟨rfl, rfl, rfl⟩
  have hstale : (run step (idle false .empty) burst).stores.verdict "www.example.com"
      .learningCache = some true := by
    rw [hrun]
    simp [idle, absorb, Stores.verdict_insert]
  refine ⟨hlast, hdrained, hstale, fun hwins => ?_⟩
  have hkept : Event.lose .learningCache "www.example.com" ∉ burst := by
    intro hlost
    rcases List.mem_append.mp hlost with h | h
    · cases (List.mem_replicate.mp h).2
    rcases List.mem_append.mp h with h | h
    · simp at h
    · rcases mem_drain h with h | h
      · cases h
      · cases h
  have hfresh := hwins hdrained false hlast .learningCache List.mem_cons_self hkept
  rw [hstale] at hfresh
  cases hfresh

end Learning

end TitanDns.SmartForward
