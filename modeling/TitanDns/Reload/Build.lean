import TitanDns.Lib.Resolution
import TitanDns.Plugins.Pipeline
import TitanDns.Reload.Registry

/-!
# The plugins that are built

`create_shared_plugins` and `create_runtime_registry` again, with the plugins they build: a fallback
holds the two plugins that the registry had for its references, a sequence those that it had for its
steps, and the registry of that time for its matchers.

* `Config`, `createSharedPlugins`, `assembled`, `createRuntimeRegistry` — the two phases.
* `sequenceBuilder` — how a sequence is built; the loop over them is `Resolution.resolve`.
* `assembled_variant`, `createRuntimeRegistry_variant` — **but for what the plugins hold, this is
  the registry of `PluginFactory`.**

Principal result: `resolution_least_fixpoint` — **the loop over the sequences ends with the least
fixpoint, in every order.**
-/

namespace TitanDns

def AnyPlugin.variant : AnyPlugin → PluginFactory.Variant
  | .cache _ => .shared .cache
  | .forward _ => .forward
  | .smartForward _ _ => .smartForward
  | .sequence _ _ => .sequence
  | .reject _ => .shared .reject
  | .log => .shared .queryLog
  | .hosts _ => .shared .hosts
  | .geoSite _ => .shared .geoSite
  | .geoIp _ => .shared .geoIp
  | .matcher _ => .shared .matcher
  | .fallback _ _ _ _ => .fallback
  | .ecs _ => .shared .ecs
  | .fakeIp => .shared .fakeIp
  | .dns64 _ => .shared .dns64
  | .dnssec => .shared .dnssec
  | .adBlock _ => .shared .adBlock
  | .ipv6Filter _ => .shared .ipv6Filter
  | .dga _ => .shared .dga
  | .ipMatcher _ => .shared .ipMatcher
  | .smartResolve => .shared .smartResolve
  | .aliApi => .shared .aliApi
  | .rateLimit => .shared .rateLimit
  | .ttl _ => .shared .ttl

namespace PluginFactory.Built

open PartialMap

abbrev Registry := String → Option AnyPlugin

/-- `PluginType`, with the plugin that its settings come to, if they pass their checks and their
files load. -/
inductive PluginType where
  | shared (kind : SharedKind) (created : Option { p : AnyPlugin // p.variant = .shared kind })
  | forward (created : Option ForwardPlugin)
  /-- The IpMatcher is handed over, and may be missing. -/
  | smartForward (geoip : String) (ipMatcher : Option String) (created : Bool)
  | fallback (primary secondary : String) (threshold : Nat) (alwaysStandby : Bool)
  | unknown

/-- `SequenceStep`; `conditions` are its `matches`. -/
structure SequenceStep where
  conditions : List MatchCondition
  exec : String

structure Config where
  plugins : List (String × PluginType)
  sequences : List (String × List SequenceStep)
  plugins_nodup : (plugins.map (·.1)).Nodup
  sequences_nodup : (sequences.map (·.1)).Nodup

/-- `create_shared_plugins`. -/
def sharedStep (registry : Registry) (plugin : String × PluginType) : Registry :=
  match plugin.2 with
  | .shared _ (some p) => put registry plugin.1 p.1
  | _ => registry

def createSharedPlugins (c : Config) : Registry := c.plugins.foldl sharedStep empty

/-- The IpMatcher that a SmartForward gets; where it is missing the SmartForward is built without
one. -/
def ipMatcherPlugin (registry : Registry) (ipMatcher : Option String) : Option IpMatcherPlugin :=
  match ipMatcher.bind registry with
  | some (.ipMatcher m) => some m
  | _ => none

/-- Forward and SmartForward. -/
def runtimeStep (registry : Registry) (plugin : String × PluginType) : Registry :=
  match plugin.2 with
  | .forward (some p) => put registry plugin.1 (.forward p)
  | .smartForward geoip ipMatcher true =>
    match registry geoip with
    | some (.geoIp g) =>
      put registry plugin.1 (.smartForward g (ipMatcherPlugin registry ipMatcher))
    | _ => registry
  | _ => registry

def fallbackStep (registry : Registry) (plugin : String × PluginType) : Registry :=
  match plugin.2 with
  | .fallback primary secondary threshold alwaysStandby =>
    match registry primary, registry secondary with
    | some p, some s => put registry plugin.1 (.fallback p s threshold alwaysStandby)
    | _, _ => registry
  | _ => registry

/-- The registry before the sequences. -/
def assembled (c : Config) (shared : Registry) : Registry :=
  c.plugins.foldl fallbackStep (c.plugins.foldl runtimeStep shared)

/-- What `matchers_registry` is asked for. -/
def matchers (registry : Registry) : String → Option MatcherPlugin := fun name =>
  match registry name with
  | some (.matcher m) => some m
  | _ => none

/-- How a sequence is built. -/
def sequenceBuilder :
    Resolution.Builder String AnyPlugin (String → Option MatcherPlugin) SequenceStep where
  need := SequenceStep.exec
  view := matchers
  build registry _ compiled := .sequence registry (compiled.map fun c => .mk c.1.conditions c.2)
  blind registry key w compiled hfresh := by
    funext name
    by_cases hname : name = key
    · subst hname
      unfold matchers
      rw [put_self, hfresh]
    · unfold matchers
      rw [put_of_ne hname]

/-- `create_runtime_registry`, its `while` loop with at most `n` turns. -/
def createRuntimeRegistry (n : Nat) (c : Config) (shared : Registry) :
    Option (Passes.State String AnyPlugin) :=
  sequenceBuilder.resolve 20 n c.sequences (assembled c shared)

/-! ## What a step does -/

section
variable {registry : Registry} {plugin : String × PluginType} {name : String}

theorem sharedStep_cases (registry : Registry) (plugin : String × PluginType) :
    (∃ kind p, plugin.2 = .shared kind (some p) ∧
      sharedStep registry plugin = put registry plugin.1 p.1) ∨
    sharedStep registry plugin = registry := by
  unfold sharedStep
  split
  · rename_i kind p htype
    exact Or.inl ⟨kind, p, htype, rfl⟩
  · exact Or.inr rfl

theorem runtimeStep_cases (registry : Registry) (plugin : String × PluginType) :
    (∃ p, plugin.2 = .forward (some p) ∧
      runtimeStep registry plugin = put registry plugin.1 (.forward p)) ∨
    (∃ geoip ipMatcher g, plugin.2 = .smartForward geoip ipMatcher true ∧
      registry geoip = some (.geoIp g) ∧
      runtimeStep registry plugin =
        put registry plugin.1 (.smartForward g (ipMatcherPlugin registry ipMatcher))) ∨
    runtimeStep registry plugin = registry := by
  unfold runtimeStep
  split
  · rename_i p htype
    exact Or.inl ⟨p, htype, rfl⟩
  · rename_i geoip ipMatcher htype
    split
    · rename_i g hg
      exact Or.inr (Or.inl ⟨geoip, ipMatcher, g, htype, hg, rfl⟩)
    · exact Or.inr (Or.inr rfl)
  · exact Or.inr (Or.inr rfl)

theorem fallbackStep_cases (registry : Registry) (plugin : String × PluginType) :
    (∃ primary secondary threshold alwaysStandby p s,
      plugin.2 = .fallback primary secondary threshold alwaysStandby ∧
      registry primary = some p ∧ registry secondary = some s ∧
      fallbackStep registry plugin =
        put registry plugin.1 (.fallback p s threshold alwaysStandby)) ∨
    fallbackStep registry plugin = registry := by
  unfold fallbackStep
  split
  · rename_i primary secondary threshold alwaysStandby htype
    split
    · rename_i p s hp hs
      exact Or.inl ⟨primary, secondary, threshold, alwaysStandby, p, s, htype, hp, hs, rfl⟩
    · exact Or.inr rfl
  · exact Or.inr rfl

theorem sharedStep_of_ne (h : plugin.1 ≠ name) :
    sharedStep registry plugin name = registry name := by
  rcases sharedStep_cases registry plugin with ⟨_, _, -, hstep⟩ | hstep
  · rw [hstep, put_of_ne (Ne.symm h)]
  · rw [hstep]

theorem runtimeStep_of_ne (h : plugin.1 ≠ name) :
    runtimeStep registry plugin name = registry name := by
  rcases runtimeStep_cases registry plugin with ⟨p, -, hstep⟩ | ⟨_, _, _, -, -, hstep⟩ | hstep
  · rw [hstep, put_of_ne (Ne.symm h)]
  · rw [hstep, put_of_ne (Ne.symm h)]
  · rw [hstep]

theorem fallbackStep_of_ne (h : plugin.1 ≠ name) :
    fallbackStep registry plugin name = registry name := by
  rcases fallbackStep_cases registry plugin with ⟨_, _, _, _, _, _, -, -, -, hstep⟩ | hstep
  · rw [hstep, put_of_ne (Ne.symm h)]
  · rw [hstep]

/-- What no step writes stays. -/
theorem foldl_of_ne {step : Registry → String × PluginType → Registry}
    (hstep : ∀ registry plugin, plugin.1 ≠ name → step registry plugin name = registry name)
    {plugins : List (String × PluginType)} (h : ∀ plugin ∈ plugins, plugin.1 ≠ name)
    (registry : Registry) : plugins.foldl step registry name = registry name := by
  induction plugins generalizing registry with
  | nil => rfl
  | cons plugin plugins ih =>
    rw [List.foldl_cons, ih fun p hp => h p (List.mem_cons_of_mem _ hp)]
    exact hstep registry plugin (h plugin List.mem_cons_self)

theorem assembled_of_ne {c : Config} (h : ∀ plugin ∈ c.plugins, plugin.1 ≠ name)
    (shared : Registry) : assembled c shared name = shared name := by
  unfold assembled
  rw [foldl_of_ne (fun _ _ => fallbackStep_of_ne) h, foldl_of_ne (fun _ _ => runtimeStep_of_ne) h]

end

/-! ## But for what the plugins hold -/

namespace PluginType

def forget : PluginType → PluginFactory.PluginType
  | .shared kind _ => .shared kind
  | .forward _ => .forward
  | .smartForward geoip ipMatcher _ => .smartForward geoip ipMatcher
  | .fallback primary secondary _ _ => .fallback primary secondary
  | .unknown => .unknown

def creates : PluginType → Bool
  | .shared _ created => created.isSome
  | .forward created => created.isSome
  | .smartForward _ _ created => created
  | _ => false

end PluginType

def forgetPlugin (plugin : String × PluginType) : String × PluginFactory.PluginType :=
  (plugin.1, plugin.2.forget)

def Config.forget (c : Config) : PluginFactory.Config where
  plugins := c.plugins.map forgetPlugin
  sequences := sequenceBuilder.needs c.sequences
  creates name := c.plugins.any fun plugin => plugin.1 == name && plugin.2.creates
  plugins_nodup := by
    rw [List.map_map]
    exact c.plugins_nodup
  sequences_nodup := by
    unfold Resolution.Builder.needs
    rw [List.map_map]
    exact c.sequences_nodup

def variants (registry : Registry) : PluginFactory.Registry := fun name =>
  (registry name).map AnyPlugin.variant

theorem variants_put (registry : Registry) (name : String) (p : AnyPlugin) :
    variants (put registry name p) = put (variants registry) name p.variant :=
  Resolution.put_map registry name p AnyPlugin.variant

theorem variants_geoIp {registry : Registry} {name : String} :
    variants registry name = some (.shared .geoIp) ↔ ∃ g, registry name = some (.geoIp g) := by
  unfold variants
  rw [Option.map_eq_some_iff]
  constructor
  · rintro ⟨p, hp, hvariant⟩
    cases p with
    | geoIp g => exact ⟨g, hp⟩
    | _ => cases hvariant
  · rintro ⟨g, hg⟩
    exact ⟨.geoIp g, hg, rfl⟩

theorem forget_creates (c : Config) {plugin : String × PluginType} (h : plugin ∈ c.plugins) :
    c.forget.creates plugin.1 = plugin.2.creates := by
  rw [Bool.eq_iff_iff]
  show (c.plugins.any fun p => p.1 == plugin.1 && p.2.creates) = true ↔ _
  rw [List.any_eq_true]
  constructor
  · rintro ⟨p, hp, hcreates⟩
    rw [Bool.and_eq_true, beq_iff_eq] at hcreates
    rw [← List.inj_on_of_nodup_map c.plugins_nodup hp h hcreates.1]
    exact hcreates.2
  · intro hcreates
    exact ⟨plugin, h, by rw [Bool.and_eq_true, beq_iff_eq]; exact ⟨rfl, hcreates⟩⟩

/-- A phase whose steps agree agrees. -/
theorem foldl_variants {step : Registry → String × PluginType → Registry}
    {step' : PluginFactory.Registry → String × PluginFactory.PluginType → PluginFactory.Registry}
    (plugins : List (String × PluginType))
    (hstep : ∀ registry, ∀ plugin ∈ plugins,
      variants (step registry plugin) = step' (variants registry) (forgetPlugin plugin))
    (registry : Registry) :
    variants (plugins.foldl step registry) =
      (plugins.map forgetPlugin).foldl step' (variants registry) := by
  induction plugins generalizing registry with
  | nil => rfl
  | cons plugin plugins ih =>
    rw [List.foldl_cons, List.map_cons, List.foldl_cons,
      ih fun registry p hp => hstep registry p (List.mem_cons_of_mem _ hp),
      hstep registry plugin List.mem_cons_self]

theorem sharedStep_variants (c : Config) (registry : Registry) {plugin : String × PluginType}
    (h : plugin ∈ c.plugins) :
    variants (sharedStep registry plugin) =
      PluginFactory.sharedStep c.forget (variants registry) (forgetPlugin plugin) := by
  have hcreates := forget_creates c h
  obtain ⟨name, type⟩ := plugin
  cases type with
  | shared kind created =>
    show _ = if c.forget.creates name = true then _ else _
    rw [hcreates]
    cases created with
    | none => rfl
    | some p =>
      show variants (put registry name p.1) = put (variants registry) name (.shared kind)
      rw [variants_put, p.2]
  | _ => rfl

theorem runtimeStep_variants (c : Config) (registry : Registry) {plugin : String × PluginType}
    (h : plugin ∈ c.plugins) :
    variants (runtimeStep registry plugin) =
      PluginFactory.runtimeStep c.forget (variants registry) (forgetPlugin plugin) := by
  have hcreates := forget_creates c h
  obtain ⟨name, type⟩ := plugin
  cases type with
  | forward created =>
    show _ = if c.forget.creates name = true then _ else _
    rw [hcreates]
    cases created with
    | none => rfl
    | some p => exact variants_put registry name (.forward p)
  | smartForward geoip ipMatcher created =>
    show _ = if variants registry geoip = some (.shared .geoIp) ∧ c.forget.creates name = true then
      _ else _
    rw [hcreates]
    cases created with
    | false => rw [if_neg (by rintro ⟨-, hfalse⟩; cases hfalse)]; rfl
    | true =>
      show variants (match registry geoip with
        | some (.geoIp g) =>
          put registry name (.smartForward g (ipMatcherPlugin registry ipMatcher))
        | _ => registry) = _
      by_cases hgeoip : ∃ g, registry geoip = some (.geoIp g)
      · rw [if_pos ⟨variants_geoIp.mpr hgeoip, rfl⟩]
        obtain ⟨g, hg⟩ := hgeoip
        rw [hg]
        exact variants_put registry name (.smartForward g _)
      · rw [if_neg fun hboth => hgeoip (variants_geoIp.mp hboth.1)]
        split
        · rename_i g hg
          exact absurd ⟨g, hg⟩ hgeoip
        · rfl
  | _ => rfl

theorem fallbackStep_variants (registry : Registry) (plugin : String × PluginType) :
    variants (fallbackStep registry plugin) =
      PluginFactory.fallbackStep (variants registry) (forgetPlugin plugin) := by
  obtain ⟨name, type⟩ := plugin
  cases type with
  | fallback primary secondary threshold alwaysStandby =>
    show variants (match registry primary, registry secondary with
      | some p, some s => put registry name (.fallback p s threshold alwaysStandby)
      | _, _ => registry) =
        if ((registry primary).map _).isSome && ((registry secondary).map _).isSome then _ else _
    rw [Option.isSome_map, Option.isSome_map]
    cases registry primary with
    | none => rfl
    | some p =>
      cases registry secondary with
      | none => rfl
      | some s => exact variants_put registry name (.fallback p s threshold alwaysStandby)
  | _ => rfl

theorem createSharedPlugins_variant (c : Config) :
    variants (createSharedPlugins c) = PluginFactory.createSharedPlugins c.forget :=
  foldl_variants c.plugins (fun registry _ h => sharedStep_variants c registry h) empty

/-- **The registry before the sequences, but for what its plugins hold.** -/
theorem assembled_variant (c : Config) (shared : Registry) :
    variants (assembled c shared) = PluginFactory.assembled c.forget (variants shared) := by
  unfold assembled PluginFactory.assembled
  rw [foldl_variants c.plugins (fun registry plugin _ => fallbackStep_variants registry plugin),
    foldl_variants c.plugins (fun registry _ h => runtimeStep_variants c registry h)]
  rfl

/-- **And the registry after them.** -/
theorem createRuntimeRegistry_variant (c : Config) (shared : Registry)
    {final : Passes.State String AnyPlugin}
    (h : createRuntimeRegistry (c.sequences.length + 21) c shared = some final) :
    PluginFactory.createRuntimeRegistry c.forget (variants shared) =
      ⟨variants final.registry, variants final.entered⟩ := by
  have hpasses := Resolution.resolve_passes (f := AnyPlugin.variant) (u := Variant.sequence)
    (fun _ _ _ => rfl) h
  have hlength : c.forget.sequences.length = c.sequences.length := List.length_map _
  unfold PluginFactory.createRuntimeRegistry
  rw [← assembled_variant, hlength]
  exact hpasses

/-! ## The order of the sequences -/

/-- The sequences that the configuration allows to be built over what is registered: all their steps
are resolvable. -/
def SequenceResolves (c : Config) (shared : Registry) (name : String) : Prop :=
  ∃ steps, (name, steps) ∈ c.sequences ∧ ∀ step ∈ steps,
    Resolution.Resolves sequenceBuilder c.sequences (assembled c shared) step.exec

/-- No sequence has the name of a plugin. -/
structure DistinctNames (c : Config) (shared : Registry) : Prop where
  plugins : ∀ sequence ∈ c.sequences, ∀ plugin ∈ c.plugins, plugin.1 ≠ sequence.1
  shared : ∀ sequence ∈ c.sequences, shared sequence.1 = none

theorem DistinctNames.distinct {c : Config} {shared : Registry} (h : DistinctNames c shared) :
    Resolution.Distinct (assembled c shared) c.sequences :=
  ⟨c.sequences_nodup, fun sequence hmem =>
    (assembled_of_ne (h.plugins sequence hmem) shared).trans (h.shared sequence hmem)⟩

/-- **The loop over the sequences ends with the least fixpoint**: it enters exactly the sequences
that are resolvable, and builds the same ones whatever the order. -/
theorem resolution_least_fixpoint (c : Config) (shared : Registry)
    (hdistinct : DistinctNames c shared) :
    ∃ final, (∀ name, (final.entered name).isSome = true ↔ SequenceResolves c shared name) ∧
      ∀ c' : Config, c'.sequences.Perm c.sequences →
        assembled c' shared = assembled c shared →
        ∀ n, c.sequences.length + 20 < n → createRuntimeRegistry n c' shared = some final := by
  obtain ⟨final, hfinal⟩ :=
    Resolution.resolve_ends sequenceBuilder 20 c.sequences (assembled c shared)
  have hbound : c.sequences.length + 20 < c.sequences.length + 21 := Nat.lt_succ_self _
  refine ⟨final, fun name => ?_, fun c' hperm hsame n hn => ?_⟩
  · exact Resolution.resolve_entered_iff (by omega) (hfinal _ hbound) name
  · have hlength := hperm.length_eq
    obtain ⟨final', hfinal'⟩ :=
      Resolution.resolve_ends sequenceBuilder 20 c'.sequences (assembled c shared)
    have hrun := hfinal' n (by omega)
    have hequal : final = final' :=
      Resolution.resolve_perm hdistinct.distinct hperm.symm (by omega) (by omega)
        (hfinal _ hbound) hrun
    unfold createRuntimeRegistry
    rw [hsame, hequal]
    exact hrun

/-- Two sequences of which the first needs the second, and a third that needs itself. -/
def chained : Config where
  plugins := [("forward", .forward (some singleForward))]
  sequences := [("main", [⟨[], "inner"⟩]), ("inner", [⟨[], "forward"⟩]), ("loop", [⟨[], "loop"⟩])]
  plugins_nodup := by decide
  sequences_nodup := by decide

/-- The two are built in every order, the third never. -/
theorem resolution_least_fixpoint_chained :
    ∃ final, ((final.entered "main").isSome = true ↔ SequenceResolves chained empty "main") ∧
      ((final.entered "loop").isSome = true ↔ SequenceResolves chained empty "loop") ∧
      createRuntimeRegistry 24 chained empty = some final := by
  obtain ⟨final, hentered, hends⟩ := resolution_least_fixpoint chained empty
    ⟨by decide +kernel, fun _ _ => rfl⟩
  exact ⟨final, hentered "main", hentered "loop",
    hends chained (List.Perm.refl _) rfl 24 (by decide)⟩

end PluginFactory.Built

end TitanDns
