import TitanDns.Autopilot.Ranking

/-!
# The ranking cache

`get_ranked_upstreams_cached` over a history of registrations, recorded outcomes and calls.

* `Standing` — what a ranking is computed from: the registered upstreams, and the score that each
  had at its last outcome.
* `RankLife`, `step` — the snapshots of the three scopes, and the standing of every past moment.
* `Faithful` — a call returns what a plain computation would have returned at some moment of the
  last 200 ms.
* `Unchanged` — since the list was computed nothing was registered for the scope and no cooldown in
  it has run out; neither of these moves the epoch.
* `faithful_of_unchanged` — **every call of a run is faithful in which a list is only reused by
  epoch while that is so**; `registered_not_ranked` — a run with a registration in between.
-/

namespace TitanDns.Autopilot

open Run UpstreamMetrics AutoPilot

/-! ## Histories with calls -/

structure Standing where
  autopilot : AutoPilot
  /-- The score of each label; a new upstream has 1000. -/
  scores : String → Nat

namespace Standing

/-- `compute_ranked_upstreams` -/
def rank (st : Standing) (now : Nat) (scope : NetworkScope) : List String :=
  computeRankedUpstreams (fun m => st.scores m.label) st.autopilot now scope

def register (st : Standing) (now : Nat) (label : String) : Standing :=
  { st with autopilot := st.autopilot.register now label }

/-- `record_probe` of the upstream, which ends with its new score. -/
def record (st : Standing) (now : Nat) (label : String) (latency : Option Nat) (score : Nat) :
    Standing where
  autopilot := st.autopilot.record now label latency
  scores :=
    if (st.autopilot.get label).isSome then Function.update st.scores label score else st.scores

end Standing

/-- What stood from one moment to another. -/
structure Period where
  start : Nat
  stop : Nat
  standing : Standing

structure RankLife where
  now : Nat
  standing : Standing
  snapshots : NetworkScope → RankSnapshot
  /-- When, and from what, the list of the snapshot was computed. -/
  basis : NetworkScope → Nat × Standing
  past : List Period

inductive RankAction where
  | register (label : String)
  /-- The outcome of a query or of a probe, and the score that comes of it. -/
  | record (label : String) (latency : Option Nat) (score : Nat)
  /-- A call of `get_ranked_upstreams_cached`. -/
  | rank (scope : NetworkScope)

/-- An action, the given time after the one before. -/
structure RankEvent where
  after : Nat
  action : RankAction

namespace RankLife

def init : RankLife where
  now := 0
  standing := ⟨.empty, fun _ => 1000⟩
  snapshots := fun _ => ⟨0, 0, []⟩
  basis := fun _ => (0, ⟨.empty, fun _ => 1000⟩)
  past := []

/-- Time passes. -/
def pass (s : RankLife) (d : Nat) : RankLife :=
  { s with now := s.now + d, past := s.past ++ [⟨s.now, s.now + d, s.standing⟩] }

/-- The call. -/
def getRanked (s : RankLife) (scope : NetworkScope) : List String × RankSnapshot :=
  getRankedUpstreamsCached (fun m => s.standing.scores m.label) s.standing.autopilot s.now scope
    (s.snapshots scope)

def act (s : RankLife) : RankAction → RankLife
  | .register label => { s with standing := s.standing.register s.now label }
  | .record label latency score =>
    { s with standing := s.standing.record s.now label latency score }
  | .rank scope =>
    { s with
      snapshots := Function.update s.snapshots scope (s.getRanked scope).2
      basis :=
        if (s.snapshots scope).reused s.standing.autopilot s.now then s.basis
        else Function.update s.basis scope (s.now, s.standing) }

def step (s : RankLife) (e : RankEvent) : RankLife := (s.pass e.after).act e.action

/-! ## What a call promises -/

/-- The list is what the plain computation gives at some moment of the last 200 ms. -/
def Recent (s : RankLife) (scope : NetworkScope) (ranks : List String) : Prop :=
  ∃ p ∈ s.past, ∃ t, p.start ≤ t ∧ t ≤ p.stop ∧ s.now < t + UPSTREAM_RANK_CACHE_TTL ∧
    ranks = p.standing.rank t scope

/-- A call returns such a list. -/
def Faithful (s : RankLife) (e : RankEvent) : Prop :=
  ∀ scope, e.action = .rank scope →
    (s.pass e.after).Recent scope ((s.pass e.after).getRanked scope).1

/-- The upstreams of the scope are those of the basis, and each is as available as it was then. -/
def Unchanged (s : RankLife) (scope : NetworkScope) : Prop :=
  scopedUpstreams scope s.standing.autopilot.upstreams =
      scopedUpstreams scope (s.basis scope).2.autopilot.upstreams ∧
    ∀ m ∈ scopedUpstreams scope s.standing.autopilot.upstreams,
      m.isAvailable s.now = m.isAvailable (s.basis scope).1

/-- The snapshot is old and not empty, and its epoch is the present one. -/
def ReusedByEpoch (s : RankLife) (scope : NetworkScope) : Prop :=
  (s.snapshots scope).ranks ≠ [] ∧ (s.snapshots scope).ts + UPSTREAM_RANK_CACHE_TTL ≤ s.now ∧
    (s.snapshots scope).epoch = s.standing.autopilot.epoch

/-- A snapshot is reused by its epoch only where nothing has changed. -/
def Permitted (s : RankLife) (e : RankEvent) : Prop :=
  ∀ scope, e.action = .rank scope → (s.pass e.after).ReusedByEpoch scope →
    (s.pass e.after).Unchanged scope

/-! ## The invariant -/

/-- What is known of the snapshot of a scope. -/
structure Snapped (s : RankLife) (scope : NetworkScope) : Prop where
  epoch : (s.snapshots scope).epoch ≤ s.standing.autopilot.epoch
  computed : (s.snapshots scope).ranks ≠ [] → ∃ p ∈ s.past, p.start ≤ (s.snapshots scope).ts ∧
    (s.snapshots scope).ts ≤ p.stop ∧
      (s.snapshots scope).ranks = p.standing.rank (s.snapshots scope).ts scope
  basis : (s.snapshots scope).ranks ≠ [] →
    (s.snapshots scope).ranks = (s.basis scope).2.rank (s.basis scope).1 scope
  /-- As long as the epoch stands, so do the scores. -/
  scores : (s.snapshots scope).ranks ≠ [] →
    (s.snapshots scope).epoch = s.standing.autopilot.epoch →
      s.standing.scores = (s.basis scope).2.scores

variable {s : RankLife} {scope : NetworkScope}

theorem snapped_init (scope : NetworkScope) : init.Snapped scope where
  epoch := Nat.le_refl _
  computed := fun h => absurd rfl h
  basis := fun h => absurd rfl h
  scores := fun h => absurd rfl h

theorem Snapped.pass (h : s.Snapped scope) (d : Nat) : (s.pass d).Snapped scope where
  epoch := h.epoch
  computed := by
    intro hne
    obtain ⟨p, hp, hcomputed⟩ := h.computed hne
    exact ⟨p, List.mem_append_left _ hp, hcomputed⟩
  basis := h.basis
  scores := h.scores

theorem register_epoch (a : AutoPilot) (now : Nat) (label : String) :
    (a.register now label).epoch = a.epoch := by
  unfold AutoPilot.register
  split <;> rfl

/-- A registration changes neither scores nor epoch. -/
theorem Snapped.register (h : s.Snapped scope) (label : String) :
    (s.act (.register label)).Snapped scope := by
  have hepoch : (s.act (.register label)).standing.autopilot.epoch = s.standing.autopilot.epoch :=
    register_epoch _ _ _
  constructor
  · rw [hepoch]
    exact h.epoch
  · exact h.computed
  · exact h.basis
  · rw [hepoch]
    exact h.scores

/-- An outcome that changes a score moves the epoch. -/
theorem Snapped.record (h : s.Snapped scope) (label : String) (latency : Option Nat)
    (score : Nat) : (s.act (.record label latency score)).Snapped scope := by
  have hle := h.epoch
  cases hget : s.standing.autopilot.get label with
  | none =>
    have hepoch : (s.act (.record label latency score)).standing.autopilot.epoch =
        s.standing.autopilot.epoch := by
      show (if (s.standing.autopilot.get label).isSome then _ else _) = _
      rw [hget]
      rfl
    have hscores : (s.act (.record label latency score)).standing.scores = s.standing.scores := by
      show (if (s.standing.autopilot.get label).isSome then _ else _) = _
      rw [hget]
      rfl
    constructor
    · rw [hepoch]
      exact hle
    · exact h.computed
    · exact h.basis
    · rw [hepoch, hscores]
      exact h.scores
  | some m =>
    have hepoch : (s.act (.record label latency score)).standing.autopilot.epoch =
        s.standing.autopilot.epoch + 1 := by
      show (if (s.standing.autopilot.get label).isSome then _ else _) = _
      rw [hget]
      rfl
    constructor
    · rw [hepoch]
      exact Nat.le_succ_of_le hle
    · exact h.computed
    · exact h.basis
    · intro _ heq
      rw [hepoch] at heq
      change (s.snapshots scope).epoch = _ at heq
      omega

/-! ## A call -/

/-- Where nothing has changed, the list is the one that would be computed now. -/
theorem Snapped.unchanged (h : s.Snapped scope) (hreused : s.ReusedByEpoch scope)
    (hsame : s.Unchanged scope) : (s.snapshots scope).ranks = s.standing.rank s.now scope := by
  obtain ⟨hne, -, hepoch⟩ := hreused
  obtain ⟨hscoped, havailable⟩ := hsame
  rw [h.basis hne, Standing.rank, Standing.rank, computeRankedUpstreams, computeRankedUpstreams,
    h.scores hne hepoch, ← hscoped, List.filter_congr havailable]

/-- **What a call does**: it returns a young list, or an old one with the present epoch, or computes
a new one. -/
theorem getRanked_cases (s : RankLife) (scope : NetworkScope) :
    ((s.snapshots scope).ranks ≠ [] ∧ s.now < (s.snapshots scope).ts + UPSTREAM_RANK_CACHE_TTL ∧
      (s.snapshots scope).reused s.standing.autopilot s.now = true ∧
      s.getRanked scope = ((s.snapshots scope).ranks, s.snapshots scope)) ∨
    (s.ReusedByEpoch scope ∧ (s.snapshots scope).reused s.standing.autopilot s.now = true ∧
      s.getRanked scope =
        ((s.snapshots scope).ranks, { s.snapshots scope with ts := s.now })) ∨
    ((s.snapshots scope).reused s.standing.autopilot s.now = false ∧
      s.getRanked scope = (s.standing.rank s.now scope,
        ⟨s.now, s.standing.autopilot.epoch, s.standing.rank s.now scope⟩)) := by
  have hpos : 0 < UPSTREAM_RANK_CACHE_TTL := by decide
  unfold getRanked getRankedUpstreamsCached RankSnapshot.reused ReusedByEpoch
  cases hranks : (s.snapshots scope).ranks with
  | nil =>
    right
    right
    simp [Standing.rank]
  | cons label rest =>
    by_cases hyoung : s.now - (s.snapshots scope).ts < UPSTREAM_RANK_CACHE_TTL
    · left
      simp only [hyoung]
      refine ⟨List.cons_ne_nil _ _, by omega, by simp, by simp⟩
    · by_cases hepoch : (s.snapshots scope).epoch = s.standing.autopilot.epoch
      · right
        left
        refine ⟨⟨List.cons_ne_nil _ _, by omega, hepoch⟩, ?_, ?_⟩
        · simp [hepoch]
        · simpa [hyoung, hepoch] using hranks.symm
      · right
        right
        refine ⟨?_, ?_⟩
        · simp [hyoung, hepoch]
        · simp [hyoung, hepoch, Standing.rank]

/-- The present moment, after time has passed. -/
def Now (s : RankLife) : Prop :=
  ∃ p ∈ s.past, p.start ≤ s.now ∧ s.now ≤ p.stop ∧ p.standing = s.standing

theorem now_pass (s : RankLife) (d : Nat) : (s.pass d).Now :=
  ⟨⟨s.now, s.now + d, s.standing⟩, List.mem_append_right _ (List.mem_singleton_self _),
    Nat.le_add_right _ _, Nat.le_refl _, rfl⟩

/-- What would be computed now is recent. -/
theorem Now.recent (h : s.Now) (scope : NetworkScope) :
    s.Recent scope (s.standing.rank s.now scope) := by
  obtain ⟨p, hp, hstart, hstop, hstanding⟩ := h
  refine ⟨p, hp, s.now, hstart, hstop, ?_, by rw [hstanding]⟩
  exact Nat.lt_add_of_pos_right (by decide)

/-- **A permitted call returns a recent list.** -/
theorem Snapped.recent (h : s.Snapped scope) (hnow : s.Now)
    (hpermitted : s.ReusedByEpoch scope → s.Unchanged scope) :
    s.Recent scope (s.getRanked scope).1 := by
  rcases s.getRanked_cases scope with ⟨hne, hyoung, -, hget⟩ | ⟨hreused, -, hget⟩ | ⟨-, hget⟩
  · obtain ⟨p, hp, hstart, hstop, hranks⟩ := h.computed hne
    rw [hget]
    exact ⟨p, hp, _, hstart, hstop, hyoung, hranks⟩
  · rw [hget, h.unchanged hreused (hpermitted hreused)]
    exact hnow.recent scope
  · rw [hget]
    exact hnow.recent scope

/-- **A permitted call leaves a snapshot of which as much is known.** -/
theorem Snapped.rank (h : s.Snapped scope) (hnow : s.Now)
    (hpermitted : s.ReusedByEpoch scope → s.Unchanged scope) :
    (s.act (.rank scope)).Snapped scope := by
  obtain ⟨p, hp, hstart, hstop, hstanding⟩ := hnow
  have hsnapshot : (s.act (.rank scope)).snapshots scope = (s.getRanked scope).2 :=
    Function.update_self ..
  have hkept : (s.snapshots scope).reused s.standing.autopilot s.now = true →
      (s.act (.rank scope)).basis scope = s.basis scope := by
    intro hreused
    show (if _ then _ else _ : NetworkScope → Nat × Standing) scope = _
    rw [if_pos hreused]
  rcases s.getRanked_cases scope with ⟨hne, hyoung, hr, hget⟩ | ⟨hreused, hr, hget⟩ | ⟨hr, hget⟩
  · constructor
    · rw [hsnapshot, hget]
      exact h.epoch
    · rw [hsnapshot, hget]
      exact h.computed
    · rw [hsnapshot, hget, hkept hr]
      exact h.basis
    · rw [hsnapshot, hget, hkept hr]
      exact h.scores
  · constructor
    · rw [hsnapshot, hget]
      exact h.epoch
    · rw [hsnapshot, hget]
      intro _
      refine ⟨p, hp, hstart, hstop, ?_⟩
      rw [hstanding]
      exact h.unchanged hreused (hpermitted hreused)
    · rw [hsnapshot, hget, hkept hr]
      exact h.basis
    · rw [hsnapshot, hget, hkept hr]
      exact h.scores
  · have hbasis : (s.act (.rank scope)).basis scope = (s.now, s.standing) := by
      show (if _ then _ else _ : NetworkScope → Nat × Standing) scope = _
      rw [hr]
      exact Function.update_self ..
    constructor
    · rw [hsnapshot, hget]
      exact Nat.le_refl _
    · rw [hsnapshot, hget]
      intro _
      exact ⟨p, hp, hstart, hstop, by rw [hstanding]⟩
    · rw [hsnapshot, hget, hbasis]
      exact fun _ => rfl
    · rw [hsnapshot, hget, hbasis]
      exact fun _ _ => rfl

/-- A call for another scope leaves the snapshot alone. -/
theorem Snapped.rank_other (h : s.Snapped scope) {scope' : NetworkScope} (hne : scope ≠ scope') :
    (s.act (.rank scope')).Snapped scope := by
  have hsnapshot : (s.act (.rank scope')).snapshots scope = s.snapshots scope :=
    Function.update_of_ne hne ..
  have hbasis : (s.act (.rank scope')).basis scope = s.basis scope := by
    show (if _ then _ else _ : NetworkScope → Nat × Standing) scope = _
    split
    · rfl
    · exact Function.update_of_ne hne ..
  constructor
  · rw [hsnapshot]
    exact h.epoch
  · rw [hsnapshot]
    exact h.computed
  · rw [hsnapshot, hbasis]
    exact h.basis
  · rw [hsnapshot, hbasis]
    exact h.scores

/-- **One step.** -/
theorem step_snapped (h : ∀ scope, s.Snapped scope) {e : RankEvent} (hpermitted : s.Permitted e)
    (scope : NetworkScope) : (s.step e).Snapped scope := by
  have hpass := (h scope).pass e.after
  unfold step
  cases haction : e.action with
  | register label => exact hpass.register label
  | record label latency score => exact hpass.record label latency score
  | rank scope' =>
    by_cases hscope : scope = scope'
    · subst hscope
      exact hpass.rank (now_pass s e.after) (hpermitted scope haction)
    · exact hpass.rank_other hscope

theorem step_faithful (h : ∀ scope, s.Snapped scope) {e : RankEvent} (hpermitted : s.Permitted e) :
    s.Faithful e := by
  intro scope haction
  exact ((h scope).pass e.after).recent (now_pass s e.after) (hpermitted scope haction)

end RankLife

/-- **The cache refines the plain computation** in every run in which a list is only reused by its
epoch while nothing was registered for its scope and no cooldown in it has run out. -/
theorem faithful_of_unchanged {es : List RankEvent}
    (h : Meets RankLife.step RankLife.Permitted .init es) :
    Meets RankLife.step RankLife.Faithful .init es := by
  have hstep : ∀ (s : RankLife) e, (∀ scope, s.Snapped scope) → s.Permitted e →
      ∀ scope, (s.step e).Snapped scope := fun _ _ hs hp => RankLife.step_snapped hs hp
  apply meets_of_cuts
  rintro before e rest rfl
  have hbefore : Meets RankLife.step RankLife.Permitted .init before := h.of_append_left
  have hinv := invariant hstep RankLife.snapped_init hbefore
  exact RankLife.step_faithful hinv h.at_cut

/-! ## Two upstreams -/

def firstUdp : String := "udp://223.5.5.5:53"

def secondUdp : String := "udp://119.29.29.29:53"

/-- The list is reused by its epoch, and nothing has changed. -/
def calmRun : List RankEvent :=
  [⟨0, .register firstUdp⟩, ⟨0, .rank .global⟩, ⟨SECOND, .rank .global⟩]

theorem faithful_of_unchanged_calm : Meets RankLife.step RankLife.Faithful .init calmRun := by
  refine faithful_of_unchanged ⟨?_, ?_, ?_, trivial⟩
  · intro scope h
    cases h
  · intro scope _ hreused
    exact absurd rfl hreused.1
  · intro scope h _
    cases h
    exact ⟨rfl, by decide⟩

/-- A second upstream is registered after the list was computed. -/
def registeringRun : List RankEvent :=
  [⟨0, .register firstUdp⟩, ⟨0, .rank .global⟩, ⟨SECOND, .register secondUdp⟩,
    ⟨SECOND, .rank .global⟩]

/-- One upstream, in good health. -/
theorem rank_single {m : UpstreamMetrics} {st : Standing} (hall : st.autopilot.upstreams = [m])
    (hhealthy : m.healthy = true) (now : Nat) : st.rank now .global = [m.label] := by
  have havailable : m.isAvailable now = true := by rw [isAvailable, hhealthy, Bool.true_or]
  unfold Standing.rank computeRankedUpstreams
  rw [hall]
  simp [scopedUpstreams, filterUpstreamsByScope, havailable]

theorem registered_not_ranked : ¬ Meets RankLife.step RankLife.Faithful .init registeringRun := by
  rintro ⟨-, -, -, hcall, -⟩
  have hrecent := hcall .global rfl
  generalize hs : RankLife.pass _ _ = s at hrecent
  have hranks : (s.snapshots .global).ranks = [firstUdp] := by
    rw [← hs]
    exact @rank_single (.new firstUdp 0) _ rfl rfl 0
  have hresult : (s.getRanked .global).1 = [firstUdp] := by
    have hreused : (s.snapshots .global).reused s.standing.autopilot s.now = true := by
      rw [RankSnapshot.reused, hranks, ← hs]
      rfl
    rw [← hranks]
    exact getRanked_reused hreused
  rw [hresult] at hrecent
  obtain ⟨p, hp, t, hstart, hstop, ht, hlist⟩ := hrecent
  have hnow : s.now = 2 * SECOND := by
    rw [← hs]
    rfl
  have hpast : ∀ p ∈ s.past, SECOND < p.stop →
      p.standing.autopilot.upstreams = [.new firstUdp 0, .new secondUdp SECOND] := by
    rw [← hs]
    intro p hp hstop
    simp only [RankLife.pass, RankLife.step, RankLife.act, RankLife.init, List.nil_append,
      List.cons_append, List.mem_cons, List.not_mem_nil, or_false] at hp
    rcases hp with rfl | rfl | rfl | rfl
    · exact absurd hstop (by decide)
    · exact absurd hstop (by decide)
    · exact absurd hstop (by decide)
    · rfl
  rw [hnow] at ht
  have hlate : SECOND < p.stop := by
    have httl : UPSTREAM_RANK_CACHE_TTL < SECOND := by decide
    omega
  -- the second upstream is ranked throughout the last second
  have hmem : secondUdp ∈ p.standing.rank t .global := by
    unfold Standing.rank computeRankedUpstreams
    rw [hpast p hp hlate]
    refine List.mem_map.mpr ⟨.new secondUdp SECOND, List.mem_mergeSort.mpr ?_, rfl⟩
    exact List.mem_filter.mpr ⟨List.mem_cons_of_mem _ (List.mem_singleton_self _), rfl⟩
  rw [← hlist] at hmem
  revert hmem
  decide

end TitanDns.Autopilot
