import TitanDns.Lib.Run
import Mathlib.Data.Set.Function

/-!
# The hash guard of the reload handler

The reload branch of `main` read by read, among writes and removals of the config file.  Each of
them is followed by an event for the handler; events that wait are one event.

* `Guard.step` — hash read, comparison, load read, re-hash.
* `Settled` — the running configuration is the parse of the file, if the file parses.
* `Faithful` — the hash that is stored is that of the contents that were loaded.
* `Sound` — the invariant: **whatever has the stored hash has the running configuration as its
  parse**, except between the load and the storing of the hash.

Principal result: `guard_hides_nothing` — **in every run in which only faithful hashes are stored,
an idle handler without a waiting event leaves the file settled.**
-/

namespace TitanDns

open Run

/-- Where the handler is. -/
inductive Phase where
  | idle
  /-- Before the first read. -/
  | hashing
  /-- Before the load; with `new_hash`. -/
  | loading (newHash : Option UInt64)
  /-- After the load of `loaded`, before the hash is stored. -/
  | recording (newHash : Option UInt64) (loaded : List UInt8)
  deriving DecidableEq

/-- The config file and the reload handler; `running` is what the entry points are built from. -/
structure Guard (Config : Type) where
  file : Option (List UInt8)
  /-- An event waits in `reload_rx`. -/
  pending : Bool
  phase : Phase
  lastConfigHash : UInt64
  running : Config

namespace Guard

variable {Config : Type} (hash : List UInt8 → UInt64) (parse : List UInt8 → Option Config)

inductive Event where
  | write (contents : List UInt8)
  | remove
  /-- An event without a change. -/
  | touch
  | recv
  | readHash
  | load
  | record
  deriving DecidableEq

/-- `compute_file_hash`: nothing for a file that cannot be read. -/
def computeFileHash (g : Guard Config) : Option UInt64 := g.file.map hash

/-- The first read and the comparison. -/
def readHash (g : Guard Config) : Guard Config :=
  match g.phase with
  | .hashing =>
    if g.computeFileHash hash = some g.lastConfigHash then { g with phase := .idle }
    else { g with phase := .loading (g.computeFileHash hash) }
  | _ => g

/-- `Config::load_from_file`, and the new configuration in service. -/
def load (g : Guard Config) : Guard Config :=
  match g.phase with
  | .loading newHash =>
    match g.file with
    | none => { g with phase := .idle }
    | some contents =>
      match parse contents with
      | none => { g with phase := .idle }
      | some config => { g with running := config, phase := .recording newHash contents }
  | _ => g

/-- `last_config_hash` is set, from a second hash read if the first found nothing. -/
def record (g : Guard Config) : Guard Config :=
  match g.phase with
  | .recording newHash _ =>
    { g with
      phase := .idle
      lastConfigHash := (newHash <|> g.computeFileHash hash).getD g.lastConfigHash }
  | _ => g

def step (g : Guard Config) : Event → Guard Config
  | .write contents => { g with file := some contents, pending := true }
  | .remove => { g with file := none, pending := true }
  | .touch => { g with pending := true }
  | .recv =>
    if g.phase = .idle ∧ g.pending = true then { g with phase := .hashing, pending := false } else g
  | .readHash => g.readHash hash
  | .load => g.load parse
  | .record => g.record hash

/-- The contents `contents` in service, with their hash stored. -/
def start (contents : List UInt8) (config : Config) : Guard Config :=
  ⟨some contents, false, .idle, hash contents, config⟩

/-- The file's contents run, if they load. -/
def Settled (g : Guard Config) : Prop :=
  ∀ contents, g.file = some contents → ∀ config, parse contents = some config →
    g.running = config

/-- The stored hash is that of the contents that were loaded. -/
def Faithful (g : Guard Config) : Event → Prop
  | .record =>
    match g.phase with
    | .recording newHash loaded => (newHash <|> g.computeFileHash hash) = some (hash loaded)
    | _ => True
  | _ => True

/-- The contents that the file ever has. -/
def involved (contents : List UInt8) (es : List Event) : Set (List UInt8) :=
  {c | c = contents ∨ .write c ∈ es}

/-! ## The invariant -/

/-- Whatever of `known` has the stored hash has the running configuration as its parse. -/
def Guarded (known : Set (List UInt8)) (g : Guard Config) : Prop :=
  ∀ contents ∈ known, hash contents = g.lastConfigHash → ∀ config, parse contents = some config →
    g.running = config

/-- What holds in each phase. -/
def AtPhase (known : Set (List UInt8)) (g : Guard Config) : Phase → Prop
  | .idle => g.Guarded hash parse known ∧ (g.pending = false → g.Settled parse)
  | .hashing => g.Guarded hash parse known
  | .loading _ => g.Guarded hash parse known
  | .recording _ loaded =>
    loaded ∈ known ∧ parse loaded = some g.running ∧ (g.pending = false → g.file = some loaded)

/-- The invariant; `known` are the contents that may turn up. -/
structure Sound (known : Set (List UInt8)) (g : Guard Config) : Prop where
  file : ∀ contents, g.file = some contents → contents ∈ known
  phase : g.AtPhase hash parse known g.phase

section
variable {hash : List UInt8 → UInt64} {parse : List UInt8 → Option Config}
  {known : Set (List UInt8)} {g : Guard Config}

/-- A change of the file: an event waits, so nothing is promised of the file yet. -/
theorem sound_change (h : g.Sound hash parse known) {file : Option (List UInt8)}
    (hfile : ∀ contents, file = some contents → contents ∈ known) :
    Sound hash parse known { g with file := file, pending := true } where
  file := hfile
  phase := by
    have hphase := h.phase
    cases hat : g.phase with
    | idle =>
      rw [hat] at hphase
      exact ⟨hphase.1, fun hpending => (by cases hpending)⟩
    | hashing =>
      rw [hat] at hphase
      exact hphase
    | loading newHash =>
      rw [hat] at hphase
      exact hphase
    | recording newHash loaded =>
      rw [hat] at hphase
      exact ⟨hphase.1, hphase.2.1, fun hpending => (by cases hpending)⟩

theorem sound_recv (h : g.Sound hash parse known) (hidle : g.phase = .idle) :
    Sound hash parse known { g with phase := .hashing, pending := false } := by
  have hphase := h.phase
  rw [hidle] at hphase
  exact ⟨h.file, hphase.1⟩

theorem sound_readHash (h : g.Sound hash parse known) :
    Sound hash parse known (g.readHash hash) := by
  unfold readHash
  split
  · rename_i hhashing
    have hguarded := h.phase
    rw [hhashing] at hguarded
    split
    · -- the file has the stored hash, so the guard speaks of its contents
      rename_i hsame
      refine ⟨h.file, hguarded, fun _ contents hfile config hparse => ?_⟩
      have hhash : hash contents = g.lastConfigHash := by
        simp only [computeFileHash] at hsame hfile
        rw [hfile] at hsame
        exact Option.some.inj hsame
      exact hguarded contents (h.file contents hfile) hhash config hparse
    · exact ⟨h.file, hguarded⟩
  · exact h

theorem sound_load (h : g.Sound hash parse known) : Sound hash parse known (g.load parse) := by
  unfold load
  split
  · rename_i newHash hloading
    have hguarded := h.phase
    rw [hloading] at hguarded
    split
    · rename_i hnone
      refine ⟨h.file, hguarded, fun _ contents hfile => ?_⟩
      simp only [hnone] at hfile
      cases hfile
    · rename_i contents hfile
      split
      · rename_i hfails
        refine ⟨h.file, hguarded, fun _ contents' hfile' config hparse => ?_⟩
        obtain rfl : contents = contents' := Option.some.inj (hfile.symm.trans hfile')
        rw [hfails] at hparse
        cases hparse
      · rename_i config hparse
        exact ⟨h.file, h.file contents hfile, hparse, fun _ => hfile⟩
  · exact h

theorem sound_record (hinj : Set.InjOn hash known) (h : g.Sound hash parse known)
    (hfaithful : g.Faithful hash .record) : Sound hash parse known (g.record hash) := by
  unfold record
  split
  · rename_i newHash loaded hrecording
    have hphase := h.phase
    unfold Faithful at hfaithful
    rw [hrecording] at hphase hfaithful
    obtain ⟨hknown, hparse, hfile⟩ := hphase
    simp only at hfaithful
    rw [hfaithful]
    refine ⟨h.file, fun contents hcontents hhash config hconfig => ?_,
      fun hpending contents hcontents config hconfig => ?_⟩
    · -- the hash tells the contents that run from all others
      obtain rfl : contents = loaded := hinj hcontents hknown hhash
      exact Option.some.inj (hparse.symm.trans hconfig)
    · obtain rfl : loaded = contents := Option.some.inj ((hfile hpending).symm.trans hcontents)
      exact Option.some.inj (hparse.symm.trans hconfig)
  · exact h

theorem sound_step (hinj : Set.InjOn hash known) (h : g.Sound hash parse known) {e : Event}
    (hwrite : ∀ contents, e = .write contents → contents ∈ known)
    (hfaithful : g.Faithful hash e) : Sound hash parse known (step hash parse g e) := by
  cases e with
  | write contents =>
    refine sound_change h fun contents' hfile => ?_
    cases hfile
    exact hwrite contents rfl
  | remove => exact sound_change h fun contents hfile => (by cases hfile)
  | touch => exact sound_change h h.file
  | recv =>
    rw [step]
    split
    · rename_i hidle
      exact sound_recv h hidle.1
    · exact h
  | readHash => exact sound_readHash h
  | load => exact sound_load h
  | record => exact sound_record hinj h hfaithful

theorem sound_start {contents : List UInt8} {config : Config}
    (hparse : parse contents = some config) (hknown : contents ∈ known)
    (hinj : Set.InjOn hash known) :
    (start hash contents config).Sound hash parse known := by
  refine ⟨fun contents' hfile => ?_, fun contents' hcontents' hhash config' hconfig' => ?_,
    fun _ contents' hfile config' hconfig' => ?_⟩
  · cases hfile
    exact hknown
  · obtain rfl : contents' = contents := hinj hcontents' hknown hhash
    exact Option.some.inj (hparse.symm.trans hconfig')
  · obtain rfl : contents = contents' := Option.some.inj hfile
    exact Option.some.inj (hparse.symm.trans hconfig')

end

/-- **The guard hides no change** in a run that stores only faithful hashes: when the handler is
idle and no event waits, the file's contents run, if they load. -/
theorem guard_hides_nothing (hash : List UInt8 → UInt64) (parse : List UInt8 → Option Config)
    (contents : List UInt8) (config : Config) (hparse : parse contents = some config)
    (es : List Event) (hinj : Set.InjOn hash (involved contents es))
    (hfaithful : Meets (step hash parse) (Faithful hash) (start hash contents config) es)
    (hidle : (run (step hash parse) (start hash contents config) es).phase = .idle)
    (hpending : (run (step hash parse) (start hash contents config) es).pending = false) :
    (run (step hash parse) (start hash contents config) es).Settled parse := by
  let known := involved contents es
  have hstart : (start hash contents config).Sound hash parse known :=
    sound_start hparse (Or.inl rfl) hinj
  have hok : Meets (step hash parse)
      (fun g e => (∀ contents, e = .write contents → contents ∈ known) ∧ g.Faithful hash e)
      (start hash contents config) es := by
    apply meets_of_cuts
    rintro before e rest rfl
    refine ⟨?_, hfaithful.at_cut⟩
    rintro written rfl
    exact Or.inr (List.mem_append_right _ List.mem_cons_self)
  have hstep : ∀ g e, Sound hash parse known g →
      (∀ contents, e = .write contents → contents ∈ known) ∧ g.Faithful hash e →
      Sound hash parse known (step hash parse g e) :=
    fun g e hg he => sound_step hinj hg he.1 he.2
  have hphase := (invariant hstep hstart hok).phase
  rw [hidle] at hphase
  exact hphase.2 hpending

/-! ## Two runs that hide a change -/

/-- `log: {level: info}` and a line break. -/
def infoContents : List UInt8 :=
  [108, 111, 103, 58, 32, 123, 108, 101, 118, 101, 108, 58, 32, 105, 110, 102, 111, 125, 10]

/-- `log: {level: debug}` and a line break. -/
def debugContents : List UInt8 :=
  [108, 111, 103, 58, 32, 123, 108, 101, 118, 101, 108, 58, 32, 100, 101, 98, 117, 103, 125, 10]

/-- The first eight bytes of the SHA-256 hashes of the two. -/
def exampleHash (contents : List UInt8) : UInt64 :=
  if contents = infoContents then 2033361677669489846
  else if contents = debugContents then 14297601710264904372
  else 0

/-- The two configurations by their log level. -/
def exampleParse (contents : List UInt8) : Option String :=
  if contents = infoContents then some "info"
  else if contents = debugContents then some "debug"
  else none

/-- The file is removed before the first read, written before the load, and written again before
the second hash read. -/
def rehashRun : List Event :=
  [.remove, .recv, .readHash, .write infoContents, .load, .write debugContents, .record, .recv,
    .readHash]

/-- The file changes and changes back between hash read and load. -/
def changedBackRun : List Event :=
  [.write debugContents, .recv, .readHash, .write infoContents, .load, .write debugContents,
    .record, .recv, .readHash]

theorem exampleHash_injOn {es : List Event}
    (h : ∀ c, .write c ∈ es → c = infoContents ∨ c = debugContents) :
    Set.InjOn exampleHash (involved infoContents es) := by
  have htwo : ∀ c ∈ involved infoContents es, c = infoContents ∨ c = debugContents := by
    rintro c (hc | hc)
    · exact Or.inl hc
    · exact h c hc
  have hne : exampleHash infoContents ≠ exampleHash debugContents := by decide +kernel
  intro c hc c' hc' hsame
  rcases htwo c hc with rfl | rfl
  · rcases htwo c' hc' with rfl | rfl
    · rfl
    · exact absurd hsame hne
  · rcases htwo c' hc' with rfl | rfl
    · exact absurd hsame.symm hne
    · rfl

/-- The program started on `infoContents`, after the events. -/
def exampleRun (es : List Event) : Guard String :=
  run (step exampleHash exampleParse) (start exampleHash infoContents "info") es

/-- After the run the handler is idle and no event waits, but the running configuration is not that
of the file. -/
def Hides (es : List Event) : Prop :=
  Set.InjOn exampleHash (involved infoContents es) ∧ (exampleRun es).phase = .idle ∧
    (exampleRun es).pending = false ∧ ¬ (exampleRun es).Settled exampleParse

theorem hides_of {es : List Event}
    (hwritten : ∀ c, Event.write c ∈ es → c = infoContents ∨ c = debugContents)
    (hphase : (exampleRun es).phase = .idle) (hpending : (exampleRun es).pending = false)
    (hfile : (exampleRun es).file = some debugContents)
    (hrunning : (exampleRun es).running = "info") : Hides es := by
  refine ⟨exampleHash_injOn hwritten, hphase, hpending, fun hsettled => ?_⟩
  have hdebug := hsettled debugContents hfile "debug" (by decide +kernel)
  rw [hrunning] at hdebug
  exact absurd hdebug (by decide)

/-- **The guard hides a change** in both runs. -/
theorem guard_hides_change : Hides rehashRun ∧ Hides changedBackRun := by
  constructor
  · refine hides_of (fun c hc => ?_) (by decide +kernel) (by decide +kernel) (by decide +kernel)
      (by decide +kernel)
    simpa [rehashRun] using hc
  · refine hides_of (fun c hc => ?_) (by decide +kernel) (by decide +kernel) (by decide +kernel)
      (by decide +kernel)
    have hc' : c = debugContents ∨ c = infoContents ∨ c = debugContents := by
      simpa [changedBackRun] using hc
    exact hc'.elim Or.inr id

/-- One change, handled undisturbed. -/
def plainRun : List Event := [.write debugContents, .recv, .readHash, .load, .record]

theorem guard_hides_nothing_example :
    (run (step exampleHash exampleParse) (start exampleHash infoContents "info") plainRun).Settled
      exampleParse := by
  have hinj : Set.InjOn exampleHash (involved infoContents plainRun) :=
    exampleHash_injOn fun c hc => Or.inr (by simpa [plainRun] using hc)
  have hload : (run (step exampleHash exampleParse) (start exampleHash infoContents "info")
      [.write debugContents, .recv, .readHash, .load]).phase =
        .recording (some (exampleHash debugContents)) debugContents := by decide +kernel
  have hfaithful : Faithful exampleHash (run (step exampleHash exampleParse)
      (start exampleHash infoContents "info") [.write debugContents, .recv, .readHash, .load])
      .record := by
    unfold Faithful
    rw [hload]
    rfl
  exact guard_hides_nothing exampleHash exampleParse infoContents "info" (by decide +kernel)
    plainRun hinj ⟨trivial, trivial, trivial, trivial, hfaithful, trivial⟩ (by decide +kernel)
    (by decide +kernel)

end Guard

end TitanDns
