import TitanDns.Lib.Passes
import TitanDns.Lib.Run
import Mathlib.Data.List.Nodup
import Mathlib.Data.List.Induction

/-!
# Building the registry, at start and on reload

`create_shared_plugins` and `create_runtime_registry` of `plugin_factory.rs`, and the reloads of
`main`, which build every new configuration over the shared plugins of the first one.

* `Config` — plugins and sequences in the iteration order of their maps, and which plugins could be
  created at the time.
* `createSharedPlugins`, `createRuntimeRegistry` — the two phases; sequences are resolved by
  `Passes.passes`.
* `Buildable`, `Needed` — what a fresh start can build, and what an entry rests on.
* `fresh_buildable` — **a fresh start registers only buildable plugins**, in any order of the maps.
* `reload_registers` — **a reload registers a needed plugin that is buildable**, if the
  configuration is covered by the first one and its fallbacks are in order.

Principal results: `reload_keeps_entry` — **in every run of such reloads an entry stays up**;
`unshared_lost` — **a step that needs a new plugin of a shared kind takes its sequence down.**
-/

namespace TitanDns.PluginFactory

open PartialMap Run

/-- The kinds that `create_shared_plugins` builds. -/
inductive SharedKind where
  | cache
  | reject
  | hosts
  | geoSite
  | ecs
  | geoIp
  | matcher
  | queryLog
  | fakeIp
  | dns64
  | dnssec
  | adBlock
  | ipv6Filter
  | dga
  | ipMatcher
  | smartResolve
  | ttl
  | rateLimit
  | aliApi
  deriving DecidableEq, Repr

/-- `PluginType`, as far as it names other plugins. -/
inductive PluginType where
  | shared (kind : SharedKind)
  | forward
  | smartForward (geoip : String) (ipMatcher : Option String)
  | fallback (primary secondary : String)
  | unknown
  deriving DecidableEq, Repr

/-- The variants of `AnyPlugin` that are built here. -/
inductive Variant where
  | shared (kind : SharedKind)
  | forward
  | smartForward
  | fallback
  | sequence
  deriving DecidableEq, Repr

abbrev Registry := String → Option Variant

/-- A configuration; a sequence is the list of its steps' `exec`. -/
structure Config where
  plugins : List (String × PluginType)
  sequences : List (String × List String)
  /-- The settings of the plugin pass their checks and its files load. -/
  creates : String → Bool
  plugins_nodup : (plugins.map (·.1)).Nodup
  sequences_nodup : (sequences.map (·.1)).Nodup

/-! ## Phase 1: shared plugins -/

def sharedStep (c : Config) (registry : Registry) (plugin : String × PluginType) : Registry :=
  match plugin.2 with
  | .shared kind => if c.creates plugin.1 then put registry plugin.1 (.shared kind) else registry
  | _ => registry

/-- `create_shared_plugins`; composite and runtime-dependent plugins are skipped. -/
def createSharedPlugins (c : Config) : Registry := c.plugins.foldl (sharedStep c) empty

/-! ## Phase 2: the runtime registry -/

/-- Forward and SmartForward; the latter needs its GeoIp plugin, and does without its IpMatcher. -/
def runtimeStep (c : Config) (registry : Registry) (plugin : String × PluginType) : Registry :=
  match plugin.2 with
  | .forward => if c.creates plugin.1 then put registry plugin.1 .forward else registry
  | .smartForward geoip _ =>
    if registry geoip = some (.shared .geoIp) ∧ c.creates plugin.1 = true then
      put registry plugin.1 .smartForward
    else registry
  | _ => registry

/-- Fallback: both plugins are in the registry by now. -/
def fallbackStep (registry : Registry) (plugin : String × PluginType) : Registry :=
  match plugin.2 with
  | .fallback primary secondary =>
    if (registry primary).isSome && (registry secondary).isSome then
      put registry plugin.1 .fallback
    else registry
  | _ => registry

/-- The registry before the sequences. -/
def assembled (c : Config) (shared : Registry) : Registry :=
  c.plugins.foldl fallbackStep (c.plugins.foldl (runtimeStep c) shared)

/-- `create_runtime_registry`: the registry, and in `entered` the entry points. -/
def createRuntimeRegistry (c : Config) (shared : Registry) : Passes.State String Variant :=
  Passes.passes .sequence 20 (c.sequences.length + 21) 0 c.sequences
    ⟨assembled c shared, empty⟩

/-- The entry points of a fresh start. -/
def startFresh (c : Config) : Registry := (createRuntimeRegistry c (createSharedPlugins c)).entered

/-! ## What a step leaves alone -/

theorem put_cases {registry : Registry} {name name' : String} {p q : Variant}
    (h : put registry name p name' = some q) :
    (name' = name ∧ q = p) ∨ registry name' = some q := by
  rcases put_some h with hsame | ⟨_, hold⟩
  · exact Or.inl hsame
  · exact Or.inr hold

section
variable {c : Config} {registry : Registry} {plugin : String × PluginType} {name : String}
  {p : Variant}

/-- A step writes, if anything, the plugin's own name. -/
theorem sharedStep_cases (h : sharedStep c registry plugin name = some p) :
    (∃ kind, plugin = (name, .shared kind) ∧ c.creates name = true ∧ p = .shared kind) ∨
      registry name = some p := by
  obtain ⟨name', type⟩ := plugin
  cases type with
  | shared kind =>
    simp only [sharedStep] at h
    split at h
    · rename_i hcreates
      rcases put_cases h with ⟨rfl, rfl⟩ | hold
      · exact Or.inl ⟨kind, rfl, hcreates, rfl⟩
      · exact Or.inr hold
    · exact Or.inr h
  | forward | smartForward geoip ipMatcher | fallback primary secondary | unknown => exact Or.inr h

theorem runtimeStep_cases (h : runtimeStep c registry plugin name = some p) :
    (plugin = (name, .forward) ∧ c.creates name = true ∧ p = .forward) ∨
      (∃ geoip ipMatcher, plugin = (name, .smartForward geoip ipMatcher) ∧
        c.creates name = true ∧ registry geoip = some (.shared .geoIp) ∧ p = .smartForward) ∨
      registry name = some p := by
  obtain ⟨name', type⟩ := plugin
  cases type with
  | forward =>
    simp only [runtimeStep] at h
    split at h
    · rename_i hcreates
      rcases put_cases h with ⟨rfl, rfl⟩ | hold
      · exact Or.inl ⟨rfl, hcreates, rfl⟩
      · exact Or.inr (Or.inr hold)
    · exact Or.inr (Or.inr h)
  | smartForward geoip ipMatcher =>
    simp only [runtimeStep] at h
    split at h
    · rename_i hready
      rcases put_cases h with ⟨rfl, rfl⟩ | hold
      · exact Or.inr (Or.inl ⟨geoip, ipMatcher, rfl, hready.2, hready.1, rfl⟩)
      · exact Or.inr (Or.inr hold)
    · exact Or.inr (Or.inr h)
  | shared kind | fallback primary secondary | unknown => exact Or.inr (Or.inr h)

theorem fallbackStep_cases (h : fallbackStep registry plugin name = some p) :
    (∃ primary secondary, plugin = (name, .fallback primary secondary) ∧
      (registry primary).isSome = true ∧ (registry secondary).isSome = true) ∨
      registry name = some p := by
  obtain ⟨name', type⟩ := plugin
  cases type with
  | fallback primary secondary =>
    simp only [fallbackStep] at h
    split at h
    · rename_i hready
      rw [Bool.and_eq_true] at hready
      rcases put_cases h with ⟨rfl, _⟩ | hold
      · exact Or.inl ⟨primary, secondary, rfl, hready⟩
      · exact Or.inr hold
    · exact Or.inr h
  | shared kind | forward | smartForward geoip ipMatcher | unknown => exact Or.inr h

/-- No step takes a plugin out. -/
theorem runtimeStep_isSome (h : (registry name).isSome = true) :
    (runtimeStep c registry plugin name).isSome = true := by
  obtain ⟨name', type⟩ := plugin
  cases type with
  | forward =>
    simp only [runtimeStep]
    split
    · exact Passes.put_isSome h
    · exact h
  | smartForward geoip ipMatcher =>
    simp only [runtimeStep]
    split
    · exact Passes.put_isSome h
    · exact h
  | shared kind | fallback primary secondary | unknown => exact h

theorem fallbackStep_isSome (h : (registry name).isSome = true) :
    (fallbackStep registry plugin name).isSome = true := by
  obtain ⟨name', type⟩ := plugin
  cases type with
  | fallback primary secondary =>
    simp only [fallbackStep]
    split
    · exact Passes.put_isSome h
    · exact h
  | shared kind | forward | smartForward geoip ipMatcher | unknown => exact h

end

/-! ## What a fresh start can build -/

/-- A plugin whose settings and references allow it to be built. -/
inductive Buildable (c : Config) : String → Prop
  | shared {name : String} {kind : SharedKind} (h : (name, .shared kind) ∈ c.plugins)
      (hcreates : c.creates name = true) : Buildable c name
  | forward {name : String} (h : (name, .forward) ∈ c.plugins)
      (hcreates : c.creates name = true) : Buildable c name
  | smartForward {name geoip : String} {ipMatcher : Option String}
      (h : (name, .smartForward geoip ipMatcher) ∈ c.plugins) (hcreates : c.creates name = true)
      (hgeoip : (geoip, .shared .geoIp) ∈ c.plugins) (hgeoipCreates : c.creates geoip = true) :
      Buildable c name
  | fallback {name primary secondary : String}
      (h : (name, .fallback primary secondary) ∈ c.plugins) (hprimary : Buildable c primary)
      (hsecondary : Buildable c secondary) : Buildable c name

/-- Everything registered is buildable, and what is of a shared kind was built as such. -/
def BuildableOnly (c : Config) (registry : Registry) : Prop :=
  ∀ name p, registry name = some p →
    Buildable c name ∧ ∀ kind, p = .shared kind →
      (name, .shared kind) ∈ c.plugins ∧ c.creates name = true

section
variable {c : Config} {registry : Registry} {plugin : String × PluginType}

theorem sharedStep_buildable (hmem : plugin ∈ c.plugins) (h : BuildableOnly c registry) :
    BuildableOnly c (sharedStep c registry plugin) := by
  intro name p hp
  rcases sharedStep_cases hp with ⟨kind, rfl, hcreates, rfl⟩ | hold
  · refine ⟨.shared hmem hcreates, fun kind' hkind => ?_⟩
    cases hkind
    exact ⟨hmem, hcreates⟩
  · exact h name p hold

theorem runtimeStep_buildable (hmem : plugin ∈ c.plugins) (h : BuildableOnly c registry) :
    BuildableOnly c (runtimeStep c registry plugin) := by
  intro name p hp
  rcases runtimeStep_cases hp with ⟨rfl, hcreates, rfl⟩ |
    ⟨geoip, ipMatcher, rfl, hcreates, hgeoip, rfl⟩ | hold
  · exact ⟨.forward hmem hcreates, fun kind hkind => (by cases hkind)⟩
  · obtain ⟨hshared, hsharedCreates⟩ := (h geoip _ hgeoip).2 .geoIp rfl
    exact ⟨.smartForward hmem hcreates hshared hsharedCreates, fun kind hkind => (by cases hkind)⟩
  · exact h name p hold

theorem isSome_buildable (h : BuildableOnly c registry) {name : String}
    (hname : (registry name).isSome = true) : Buildable c name := by
  obtain ⟨p, hp⟩ := Option.isSome_iff_exists.mp hname
  exact (h name p hp).1

theorem fallbackStep_buildable (hmem : plugin ∈ c.plugins)
    (h : ∀ name, (registry name).isSome = true → Buildable c name) (name : String)
    (hname : (fallbackStep registry plugin name).isSome = true) : Buildable c name := by
  obtain ⟨p, hp⟩ := Option.isSome_iff_exists.mp hname
  rcases fallbackStep_cases hp with ⟨primary, secondary, rfl, hprimary, hsecondary⟩ | hold
  · exact .fallback hmem (h primary hprimary) (h secondary hsecondary)
  · exact h name (by rw [hold]; rfl)

end

/-- What every step over the configuration's plugins keeps holds after the phase. -/
theorem foldl_keeps {P : Registry → Prop} {step : Registry → String × PluginType → Registry}
    {all : List (String × PluginType)}
    (hstep : ∀ registry, ∀ plugin ∈ all, P registry → P (step registry plugin))
    (plugins : List (String × PluginType)) (hsub : ∀ plugin ∈ plugins, plugin ∈ all)
    {registry : Registry} (h : P registry) : P (plugins.foldl step registry) := by
  induction plugins generalizing registry with
  | nil => exact h
  | cons plugin plugins ih =>
    exact ih (fun p hp => hsub p (List.mem_cons_of_mem _ hp))
      (hstep registry plugin (hsub plugin List.mem_cons_self) h)

theorem createSharedPlugins_buildable (c : Config) : BuildableOnly c (createSharedPlugins c) :=
  foldl_keeps (fun _ _ hmem h => sharedStep_buildable hmem h) c.plugins (fun _ h => h)
    fun _ _ h => (by cases h)

/-- **A fresh start registers only buildable plugins** before its sequences. -/
theorem fresh_buildable (c : Config) {name : String}
    (h : (assembled c (createSharedPlugins c) name).isSome = true) : Buildable c name := by
  have hruntime : BuildableOnly c (c.plugins.foldl (runtimeStep c) (createSharedPlugins c)) :=
    foldl_keeps (fun _ _ hmem h => runtimeStep_buildable hmem h) c.plugins (fun _ h => h)
      (createSharedPlugins_buildable c)
  have hfallback := foldl_keeps
    (P := fun registry => ∀ name, (registry name).isSome = true → Buildable c name)
    (fun _ _ hmem h name hname => fallbackStep_buildable hmem h name hname) c.plugins
    (fun _ h => h) fun _ hname => isSome_buildable hruntime hname
  exact hfallback name h

/-! ## What a reload registers -/

/-- A shared plugin of the configuration that could be created. -/
def SharedBy (c : Config) (name : String) : Prop :=
  ∃ kind, (name, .shared kind) ∈ c.plugins ∧ c.creates name = true

/-- The names that an entry rests on: its steps, the steps of sequences and the plugins of
fallbacks among them. -/
inductive Needed (c : Config) (entry : String) : String → Prop
  | entry : Needed c entry entry
  | step {name exec : String} {steps : List String} (h : Needed c entry name)
      (hsequence : (name, steps) ∈ c.sequences) (hstep : exec ∈ steps) : Needed c entry exec
  | primary {name primary secondary : String} (h : Needed c entry name)
      (hfallback : (name, .fallback primary secondary) ∈ c.plugins) : Needed c entry primary
  | secondary {name primary secondary : String} (h : Needed c entry name)
      (hfallback : (name, .fallback primary secondary) ∈ c.plugins) : Needed c entry secondary

/-- **What the entry needs of the shared kinds the first configuration has**, and of two needed
fallbacks one of which names the other, the other comes first. -/
structure Covered (first c : Config) (entry : String) : Prop where
  shared : ∀ name kind, Needed c entry name → (name, .shared kind) ∈ c.plugins →
    c.creates name = true → SharedBy first name
  geoip : ∀ name geoip ipMatcher, Needed c entry name →
    (name, .smartForward geoip ipMatcher) ∈ c.plugins → (geoip, .shared .geoIp) ∈ c.plugins →
    c.creates geoip = true → (geoip, .shared .geoIp) ∈ first.plugins ∧ first.creates geoip = true
  ordered : ∀ before name primary secondary after,
    c.plugins = before ++ (name, .fallback primary secondary) :: after → Needed c entry name →
    ∀ dep ∈ [primary, secondary], ∀ p s, (dep, .fallback p s) ∈ c.plugins →
      (dep, .fallback p s) ∈ before ∨ SharedBy first dep

/-- A name has one type. -/
theorem type_unique (c : Config) {name : String} {t u : PluginType} (ht : (name, t) ∈ c.plugins)
    (hu : (name, u) ∈ c.plugins) : t = u :=
  congrArg Prod.snd (List.inj_on_of_nodup_map c.plugins_nodup ht hu rfl)

theorem sharedStep_of_ne (c : Config) (registry : Registry) {plugin : String × PluginType}
    {name : String} (h : plugin.1 ≠ name) :
    sharedStep c registry plugin name = registry name := by
  obtain ⟨name', type⟩ := plugin
  cases type with
  | shared kind =>
    simp only [sharedStep]
    split
    · exact put_of_ne (Ne.symm h) _ _
    · rfl
  | forward | smartForward geoip ipMatcher | fallback primary secondary | unknown => rfl

theorem createSharedPlugins_eq (c : Config) {name : String} {kind : SharedKind}
    (hmem : (name, .shared kind) ∈ c.plugins) (hcreates : c.creates name = true) :
    createSharedPlugins c name = some (.shared kind) := by
  obtain ⟨before, after, hsplit⟩ := List.append_of_mem hmem
  have hafter : ∀ plugin ∈ after, plugin.1 ≠ name := by
    intro plugin hplugin heq
    have hnodup := c.plugins_nodup
    rw [hsplit, List.map_append, List.map_cons] at hnodup
    have hfresh := (List.nodup_cons.mp (List.nodup_append.mp hnodup).2.1).1
    exact hfresh (List.mem_map.mpr ⟨plugin, hplugin, heq⟩)
  have hwritten : sharedStep c (before.foldl (sharedStep c) empty) (name, .shared kind) name =
      some (.shared kind) := by simp [sharedStep, hcreates]
  rw [createSharedPlugins, hsplit, List.foldl_append, List.foldl_cons]
  refine foldl_keeps (P := fun registry => registry name = some (.shared kind)) ?_ after
    (fun _ h => h) hwritten
  intro registry plugin hplugin h
  rw [sharedStep_of_ne c registry (hafter plugin hplugin)]
  exact h

theorem createSharedPlugins_isSome {c : Config} {name : String} (h : SharedBy c name) :
    (createSharedPlugins c name).isSome = true := by
  obtain ⟨kind, hmem, hcreates⟩ := h
  rw [createSharedPlugins_eq c hmem hcreates]
  rfl

/-- A step that writes a name registers it for the rest of its phase. -/
theorem foldl_registers {step : Registry → String × PluginType → Registry}
    (hkeeps : ∀ registry plugin name, (registry name).isSome = true →
      (step registry plugin name).isSome = true)
    {plugins before after : List (String × PluginType)} {plugin : String × PluginType}
    (hsplit : plugins = before ++ plugin :: after) {name : String} {registry : Registry}
    (h : (step (before.foldl step registry) plugin name).isSome = true) :
    (plugins.foldl step registry name).isSome = true := by
  rw [hsplit, List.foldl_append, List.foldl_cons]
  exact Passes.foldl_isSome hkeeps after h

section
variable {first c : Config} {entry : String} (hcovered : Covered first c entry)

/-- The registry of a reload after Forward and SmartForward. -/
def reloadRuntime (first c : Config) : Registry :=
  c.plugins.foldl (runtimeStep c) (createSharedPlugins first)

theorem runtime_of_shared {name : String} (h : SharedBy first name) :
    (reloadRuntime first c name).isSome = true :=
  Passes.foldl_isSome (fun _ _ _ h => runtimeStep_isSome h) c.plugins (createSharedPlugins_isSome h)

theorem runtime_forward {name : String} (hmem : (name, .forward) ∈ c.plugins)
    (hcreates : c.creates name = true) : (reloadRuntime first c name).isSome = true := by
  obtain ⟨before, after, hsplit⟩ := List.append_of_mem hmem
  exact foldl_registers (fun _ _ _ h => runtimeStep_isSome h) hsplit
    (by simp [runtimeStep, hcreates])

/-- A GeoIp plugin of both configurations stays what it is until a SmartForward asks for it. -/
theorem runtime_geoip {geoip : String} (hmem : (geoip, .shared .geoIp) ∈ c.plugins)
    (hfirst : (geoip, .shared .geoIp) ∈ first.plugins) (hcreates : first.creates geoip = true)
    {plugins : List (String × PluginType)} (hsub : ∀ plugin ∈ plugins, plugin ∈ c.plugins) :
    plugins.foldl (runtimeStep c) (createSharedPlugins first) geoip = some (.shared .geoIp) := by
  refine foldl_keeps (P := fun registry => registry geoip = some (.shared .geoIp)) ?_ plugins hsub
    (createSharedPlugins_eq first hfirst hcreates)
  rintro registry ⟨name, type⟩ hplugin h
  cases type with
  | forward =>
    have hne : geoip ≠ name := by
      rintro rfl
      cases type_unique c hmem hplugin
    simp only [runtimeStep]
    split
    · rwa [put_of_ne hne]
    · exact h
  | smartForward geoip' ipMatcher =>
    have hne : geoip ≠ name := by
      rintro rfl
      cases type_unique c hmem hplugin
    simp only [runtimeStep]
    split
    · rwa [put_of_ne hne]
    · exact h
  | shared kind | fallback primary secondary | unknown => exact h

theorem runtimeStep_smartForward {registry : Registry} {name geoip : String}
    (ipMatcher : Option String) (hready : registry geoip = some (.shared .geoIp))
    (hcreates : c.creates name = true) :
    runtimeStep c registry (name, .smartForward geoip ipMatcher) =
      put registry name .smartForward := if_pos ⟨hready, hcreates⟩

theorem runtime_smartForward {name geoip : String} {ipMatcher : Option String}
    (hmem : (name, .smartForward geoip ipMatcher) ∈ c.plugins) (hcreates : c.creates name = true)
    (hgeoip : (geoip, .shared .geoIp) ∈ c.plugins)
    (hfirst : (geoip, .shared .geoIp) ∈ first.plugins)
    (hgeoipCreates : first.creates geoip = true) :
    (reloadRuntime first c name).isSome = true := by
  obtain ⟨before, after, hsplit⟩ := List.append_of_mem hmem
  have hsub : ∀ plugin ∈ before, plugin ∈ c.plugins := fun plugin h => by
    rw [hsplit]
    exact List.mem_append_left _ h
  have hready := runtime_geoip hgeoip hfirst hgeoipCreates hsub
  refine foldl_registers (fun _ _ _ h => runtimeStep_isSome h) hsplit ?_
  rw [runtimeStep_smartForward ipMatcher hready hcreates, put_self]
  rfl

include hcovered

/-- What is needed and buildable but no fallback is there before the fallbacks. -/
theorem runtime_registers {name : String} (hneeded : Needed c entry name)
    (hbuildable : Buildable c name)
    (hno : ∀ primary secondary, (name, .fallback primary secondary) ∉ c.plugins) :
    (reloadRuntime first c name).isSome = true := by
  cases hbuildable with
  | shared hmem hcreates => exact runtime_of_shared (hcovered.shared _ _ hneeded hmem hcreates)
  | forward hmem hcreates => exact runtime_forward hmem hcreates
  | smartForward hmem hcreates hgeoip hgeoipCreates =>
    obtain ⟨hfirst, hfirstCreates⟩ := hcovered.geoip _ _ _ hneeded hmem hgeoip hgeoipCreates
    exact runtime_smartForward hmem hcreates hgeoip hfirst hfirstCreates
  | fallback hmem _ _ => exact absurd hmem (hno _ _)

/-- Up to any point of the fallback phase the needed fallbacks passed so far are registered; by
induction on what was passed, since a fallback needs earlier ones. -/
theorem fallback_registers {before after : List (String × PluginType)}
    (hsplit : c.plugins = before ++ after) {name primary secondary : String}
    (hmem : (name, .fallback primary secondary) ∈ before) (hneeded : Needed c entry name)
    (hbuildable : Buildable c name) :
    (before.foldl fallbackStep (reloadRuntime first c) name).isSome = true := by
  induction before using List.reverseRecOn generalizing after name primary secondary with
  | nil => exact absurd hmem List.not_mem_nil
  | append_singleton before plugin ih =>
    have hsplit' : c.plugins = before ++ plugin :: after := by simpa using hsplit
    rw [List.foldl_append, List.foldl_cons, List.foldl_nil]
    rcases List.mem_append.mp hmem with hold | hnew
    · exact fallbackStep_isSome (ih hsplit' hold hneeded hbuildable)
    obtain rfl := List.mem_singleton.mp hnew
    have hall : (name, .fallback primary secondary) ∈ c.plugins := by
      rw [hsplit']
      exact List.mem_append_right _ List.mem_cons_self
    have hdep : ∀ dep ∈ [primary, secondary], Needed c entry dep → Buildable c dep →
        (before.foldl fallbackStep (reloadRuntime first c) dep).isSome = true := by
      intro dep hdep hdepNeeded hdepBuildable
      have hkeeps : (reloadRuntime first c dep).isSome = true →
          (before.foldl fallbackStep (reloadRuntime first c) dep).isSome = true :=
        Passes.foldl_isSome (fun _ _ _ h => fallbackStep_isSome h) before
      by_cases hfallback : ∃ p s, (dep, PluginType.fallback p s) ∈ c.plugins
      · obtain ⟨p, s, hfallback⟩ := hfallback
        rcases hcovered.ordered before name primary secondary after hsplit' hneeded dep hdep p s
          hfallback with hearlier | hshared
        · exact ih hsplit' hearlier hdepNeeded hdepBuildable
        · exact hkeeps (runtime_of_shared hshared)
      · exact hkeeps (runtime_registers hcovered hdepNeeded hdepBuildable
          fun p s h => hfallback ⟨p, s, h⟩)
    have hparts : Buildable c primary ∧ Buildable c secondary := by
      cases hbuildable with
      | shared h _ => cases type_unique c h hall
      | forward h _ => cases type_unique c h hall
      | smartForward h _ _ _ => cases type_unique c h hall
      | fallback h hprimary hsecondary =>
        cases type_unique c h hall
        exact ⟨hprimary, hsecondary⟩
    have hprimary := hdep primary List.mem_cons_self (.primary hneeded hall) hparts.1
    have hsecondary := hdep secondary (List.mem_cons_of_mem _ List.mem_cons_self)
      (.secondary hneeded hall) hparts.2
    simp [fallbackStep, hprimary, hsecondary]

/-- **A reload registers every needed plugin that is buildable.** -/
theorem reload_registers {name : String} (hneeded : Needed c entry name)
    (hbuildable : Buildable c name) :
    (assembled c (createSharedPlugins first) name).isSome = true := by
  by_cases hfallback : ∃ p s, (name, PluginType.fallback p s) ∈ c.plugins
  · obtain ⟨p, s, hmem⟩ := hfallback
    exact fallback_registers hcovered (List.append_nil _).symm hmem hneeded hbuildable
  · exact Passes.foldl_isSome (fun _ _ _ h => fallbackStep_isSome h) c.plugins
      (runtime_registers hcovered hneeded hbuildable fun p s h => hfallback ⟨p, s, h⟩)

end

/-! ## The program's runs -/

/-- Another reading of the configuration: its maps iterate in any order. -/
structure Same (c fresh : Config) : Prop where
  plugins : c.plugins.Perm fresh.plugins
  sequences : c.sequences.Perm fresh.sequences
  creates : c.creates = fresh.creates

/-- A fresh start of the program can resolve the entry. -/
def ResolvesFresh (c : Config) (entry : String) : Prop :=
  ∃ fresh, Same c fresh ∧ (startFresh fresh entry).isSome = true

/-- What `main` keeps: the shared plugins of the first configuration, and the entry points of its
hot reload manager. -/
structure Program where
  shared : Registry
  entryPoints : Registry

def Program.getEntry (program : Program) (name : String) : Option Variant :=
  program.entryPoints name

def start (first : Config) : Program :=
  ⟨createSharedPlugins first, (createRuntimeRegistry first (createSharedPlugins first)).entered⟩

/-- A reload whose file changed and could be loaded. -/
def reload (program : Program) (c : Config) : Program :=
  { program with entryPoints := (createRuntimeRegistry c program.shared).entered }

/-- An entry that resolved at start resolves after each reload whose configuration would resolve it
on a fresh start. -/
def StaysUp (first : Config) (entry : String) (reloads : List Config) : Prop :=
  ((start first).getEntry entry).isSome = true →
    Meets reload (fun program c => ResolvesFresh c entry →
      ((reload program c).getEntry entry).isSome = true) (start first) reloads

theorem run_shared (first : Config) (reloads : List Config) :
    (run reload (start first) reloads).shared = createSharedPlugins first := by
  have hstep : ∀ (program : Program) (c : Config), program.shared = createSharedPlugins first →
      (reload program c).shared = createSharedPlugins first := fun _ _ h => h
  exact invariant_run hstep rfl reloads

theorem Same.buildable {c fresh : Config} (h : Same c fresh) {name : String}
    (hname : Buildable fresh name) : Buildable c name := by
  have hmem : ∀ plugin, plugin ∈ fresh.plugins → plugin ∈ c.plugins := fun _ =>
    h.plugins.mem_iff.mpr
  induction hname with
  | shared hplugin hcreates => exact .shared (hmem _ hplugin) (h.creates ▸ hcreates)
  | forward hplugin hcreates => exact .forward (hmem _ hplugin) (h.creates ▸ hcreates)
  | smartForward hplugin hcreates hgeoip hgeoipCreates =>
    exact .smartForward (hmem _ hplugin) (h.creates ▸ hcreates) (hmem _ hgeoip)
      (h.creates ▸ hgeoipCreates)
  | fallback hplugin _ _ ihPrimary ihSecondary =>
    exact .fallback (hmem _ hplugin) ihPrimary ihSecondary

/-- What a fresh start entered is a sequence with resolvable steps. -/
theorem startFresh_sound {fresh : Config} {entry : String}
    (h : (startFresh fresh entry).isSome = true) :
    ∃ steps, (entry, steps) ∈ fresh.sequences ∧
      ∀ exec ∈ steps, Passes.Resolvable (Buildable fresh) fresh.sequences exec := by
  have hassembled : Passes.Sound (Buildable fresh) fresh.sequences
      (⟨assembled fresh (createSharedPlugins fresh), empty⟩ : Passes.State String Variant) :=
    ⟨fun _ hname => .base (fresh_buildable fresh hname), fun _ hname => (by cases hname)⟩
  have hsound := Passes.passes_sound Variant.sequence 20 (fresh.sequences.length + 21) 0
    (fun _ h => h) hassembled
  exact hsound.entered entry h

/-- What is needed and resolvable from what a fresh start can build is resolvable on the reload. -/
theorem reload_resolvable {first c : Config} {entry name : String}
    (hcovered : Covered first c entry) (hneeded : Needed c entry name)
    (h : Passes.Resolvable (Buildable c) c.sequences name) :
    Passes.Resolvable (fun name => (assembled c (createSharedPlugins first) name).isSome = true)
      c.sequences name := by
  induction h with
  | base hbuildable => exact .base (reload_registers hcovered hneeded hbuildable)
  | item hmem _ ih => exact .item hmem fun exec hexec => ih exec hexec (.step hneeded hmem hexec)

/-- **A covered reload resolves what a fresh start resolves.** -/
theorem reload_resolves {first c : Config} {entry : String} (hcovered : Covered first c entry)
    (hfresh : ResolvesFresh c entry) :
    ((createRuntimeRegistry c (createSharedPlugins first)).entered entry).isSome = true := by
  obtain ⟨fresh, hsame, hstart⟩ := hfresh
  obtain ⟨steps, hmem, hsteps⟩ := startFresh_sound hstart
  have hmem' : (entry, steps) ∈ c.sequences := hsame.sequences.mem_iff.mpr hmem
  have hneeds : ∀ exec ∈ steps, Passes.Resolvable
      (fun name => (assembled c (createSharedPlugins first) name).isSome = true)
      c.sequences exec := by
    intro exec hexec
    have hbuildable : Passes.Resolvable (Buildable c) c.sequences exec :=
      (hsteps exec hexec).mono (fun _ h => hsame.buildable h)
        fun _ h => hsame.sequences.mem_iff.mpr h
    exact reload_resolvable hcovered (.step .entry hmem' hexec) hbuildable
  exact (Passes.passes_complete Variant.sequence 20 (c.sequences.length + 21)
    (s := ⟨assembled c (createSharedPlugins first), empty⟩) (by omega) hmem' hneeds).2

/-- **An entry stays up along every run of covered reloads.** -/
theorem reload_keeps_entry (first : Config) (entry : String) (reloads : List Config)
    (hcovered : ∀ c ∈ reloads, Covered first c entry) : StaysUp first entry reloads := by
  intro _
  refine meets_of_cuts fun before c after hcut hfresh => ?_
  have hmem : c ∈ reloads := by
    rw [hcut]
    exact List.mem_append_right _ List.mem_cons_self
  simp only [Program.getEntry, reload, run_shared]
  exact reload_resolves (hcovered c hmem) hfresh

/-- One Forward plugin behind `main`. -/
def forwardOnly : Config where
  plugins := [("forward", .forward)]
  sequences := [("main", ["forward"])]
  creates := fun _ => true
  plugins_nodup := by decide
  sequences_nodup := by decide

/-- The same behind a cache. -/
def cacheAdded : Config where
  plugins := [("cache", .shared .cache), ("forward", .forward)]
  sequences := [("main", ["cache", "forward"])]
  creates := fun _ => true
  plugins_nodup := by decide
  sequences_nodup := by decide

/-- Without fallbacks and SmartForwards only the shared plugins matter. -/
theorem covered_of_shared {first c : Config} {entry : String}
    (h : ∀ plugin ∈ c.plugins, plugin.2 = .forward ∨
      (∃ kind, plugin.2 = .shared kind) ∧ SharedBy first plugin.1) : Covered first c entry where
  shared name kind _ hmem _ := by
    rcases h _ hmem with hforward | ⟨_, hshared⟩
    · cases hforward
    · exact hshared
  geoip name geoip ipMatcher _ hmem _ _ := by
    rcases h _ hmem with hforward | ⟨⟨kind, hkind⟩, _⟩
    · cases hforward
    · cases hkind
  ordered before name primary secondary after hsplit _ := by
    have hmem : (name, PluginType.fallback primary secondary) ∈ c.plugins := by
      rw [hsplit]
      exact List.mem_append_right _ List.mem_cons_self
    rcases h _ hmem with hforward | ⟨⟨kind, hkind⟩, _⟩
    · cases hforward
    · cases hkind

/-- The cache can be taken out and put back. -/
theorem reload_keeps_entry_cache :
    ResolvesFresh forwardOnly "main" ∧ ResolvesFresh cacheAdded "main" ∧
      StaysUp cacheAdded "main" [forwardOnly, cacheAdded] := by
  refine ⟨⟨forwardOnly, ⟨.refl _, .refl _, rfl⟩, by decide +kernel⟩,
    ⟨cacheAdded, ⟨.refl _, .refl _, rfl⟩, by decide +kernel⟩,
    reload_keeps_entry cacheAdded "main" [forwardOnly, cacheAdded] fun c hc => ?_⟩
  have hcache : SharedBy cacheAdded "cache" := ⟨.cache, List.mem_cons_self, rfl⟩
  rcases List.mem_cons.mp hc with rfl | hc
  · refine covered_of_shared fun plugin hplugin => Or.inl ?_
    rw [List.mem_singleton.mp hplugin]
  · obtain rfl := List.mem_singleton.mp hc
    refine covered_of_shared fun plugin hplugin => ?_
    rcases List.mem_cons.mp hplugin with rfl | hplugin
    · exact Or.inr ⟨⟨.cache, rfl⟩, hcache⟩
    · exact Or.inl (by rw [List.mem_singleton.mp hplugin])

/-- A cache that the first configuration did not have takes `main` down until the next restart. -/
theorem added_cache_lost : ¬ StaysUp forwardOnly "main" [cacheAdded] := by
  intro h
  have hfresh : ResolvesFresh cacheAdded "main" :=
    ⟨cacheAdded, ⟨.refl _, .refl _, rfl⟩, by decide +kernel⟩
  have hup := (h (by decide +kernel)).1 hfresh
  revert hup
  decide +kernel

/-! ## A step that only a restart would build -/

theorem createSharedPlugins_only {c : Config} {name : String}
    (h : (createSharedPlugins c name).isSome = true) : SharedBy c name := by
  have hkeeps : ∀ registry, ∀ plugin ∈ c.plugins,
      (∀ name, (registry name).isSome = true → SharedBy c name) →
      ∀ name, (sharedStep c registry plugin name).isSome = true → SharedBy c name := by
    intro registry plugin hmem hregistry name hname
    obtain ⟨p, hp⟩ := Option.isSome_iff_exists.mp hname
    rcases sharedStep_cases hp with ⟨kind, rfl, hcreates, _⟩ | hold
    · exact ⟨kind, hmem, hcreates⟩
    · exact hregistry name (by rw [hold]; rfl)
  exact foldl_keeps hkeeps c.plugins (fun _ h => h) (fun _ hname => (by cases hname)) name h

/-- A plugin of a shared kind is registered by no other phase. -/
theorem assembled_shared {first c : Config} {name : String} {kind : SharedKind}
    (hmem : (name, .shared kind) ∈ c.plugins)
    (h : (assembled c (createSharedPlugins first) name).isSome = true) : SharedBy first name := by
  have hruntime : ∀ registry, ∀ plugin ∈ c.plugins,
      ((registry name).isSome = true → SharedBy first name) →
      (runtimeStep c registry plugin name).isSome = true → SharedBy first name := by
    intro registry plugin hplugin hregistry hname
    obtain ⟨p, hp⟩ := Option.isSome_iff_exists.mp hname
    rcases runtimeStep_cases hp with ⟨rfl, _, _⟩ | ⟨geoip, ipMatcher, rfl, _, _, _⟩ | hold
    · cases type_unique c hmem hplugin
    · cases type_unique c hmem hplugin
    · exact hregistry (by rw [hold]; rfl)
  have hfallback : ∀ registry, ∀ plugin ∈ c.plugins,
      ((registry name).isSome = true → SharedBy first name) →
      (fallbackStep registry plugin name).isSome = true → SharedBy first name := by
    intro registry plugin hplugin hregistry hname
    obtain ⟨p, hp⟩ := Option.isSome_iff_exists.mp hname
    rcases fallbackStep_cases hp with ⟨primary, secondary, rfl, _, _⟩ | hold
    · cases type_unique c hmem hplugin
    · exact hregistry (by rw [hold]; rfl)
  exact foldl_keeps hfallback c.plugins (fun _ h => h)
    (foldl_keeps hruntime c.plugins (fun _ h => h) createSharedPlugins_only) h

/-- **A step that needs a new plugin of a shared kind takes its sequence down**, whatever a fresh
start would make of it. -/
theorem unshared_lost {first c : Config} {entry exec : String} {steps : List String}
    {kind : SharedKind} (hsequence : (entry, steps) ∈ c.sequences) (hstep : exec ∈ steps)
    (hmem : (exec, .shared kind) ∈ c.plugins) (hno : ∀ s, (exec, s) ∉ c.sequences)
    (hunshared : ¬ SharedBy first exec) :
    (createRuntimeRegistry c (createSharedPlugins first)).entered entry = none := by
  by_contra hentered
  have hassembled : Passes.Sound
      (fun name => (assembled c (createSharedPlugins first) name).isSome = true) c.sequences
      (⟨assembled c (createSharedPlugins first), empty⟩ : Passes.State String Variant) :=
    ⟨fun _ hname => .base hname, fun _ hname => (by cases hname)⟩
  obtain ⟨needs, hneeds, hresolvable⟩ :=
    (Passes.passes_sound Variant.sequence 20 (c.sequences.length + 21) 0 (fun _ h => h)
      hassembled).entered entry (Option.isSome_iff_ne_none.mpr hentered)
  obtain rfl : needs = steps :=
    congrArg Prod.snd (List.inj_on_of_nodup_map c.sequences_nodup hneeds hsequence rfl)
  cases hresolvable exec hstep with
  | base hregistered => exact hunshared (assembled_shared hmem hregistered)
  | item hsequence' _ => exact hno _ hsequence'

end TitanDns.PluginFactory
