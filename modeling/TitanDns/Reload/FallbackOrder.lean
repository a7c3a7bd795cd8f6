import TitanDns.Reload.Build

/-!
# Fallbacks and the order of the plugin map

Fallbacks are registered in one pass over the plugin map, each if the registry holds its two
references by then.  What that comes to depends on the order in which the map iterates.

* `SharedPlugins` — what `create_runtime_registry` is handed; `fallbacks` — the fallbacks of a
  registry with their plugins; `OrderFree` — they are the same in every order.
* `Registers` — what some order registers; `Shifting` — a SmartForward that some orders do not
  build, or build without its IpMatcher, since a plugin of the first configuration is written over.
* `Settled` — no fallback that some order registers refers to another such fallback, or to a
  shifting SmartForward.

Principal result: `fallbacks_order_free_iff` — **the fallbacks are the same in every order exactly
if the references are settled.**
-/

namespace TitanDns.PluginFactory.Built

open PartialMap

/-- The shared plugins that `create_runtime_registry` starts with. -/
structure SharedPlugins where
  get : Registry
  kinds : ∀ name p, get name = some p → ∃ kind, p.variant = .shared kind

/-- A registered fallback: its primary and its secondary. -/
def fallbacks (registry : Registry) (name : String) : Option (AnyPlugin × AnyPlugin) :=
  match registry name with
  | some (.fallback p s _ _) => some (p, s)
  | _ => none

/-- Every order of the plugin map registers the same fallbacks. -/
def OrderFree (c : Config) (shared : SharedPlugins) : Prop :=
  ∀ c' : Config, c'.plugins.Perm c.plugins →
    fallbacks (assembled c' shared.get) = fallbacks (assembled c shared.get)

section
variable (c : Config) (shared : SharedPlugins)

/-- Forward and SmartForward plugins that are built when they come first. -/
def Rewrites (name : String) : Prop :=
  (∃ p, (name, .forward (some p)) ∈ c.plugins) ∨
    ∃ geoip ipMatcher g, (name, .smartForward geoip ipMatcher true) ∈ c.plugins ∧
      shared.get geoip = some (.geoIp g)

/-- A SmartForward whose GeoIp plugin or whose IpMatcher is of another kind in this
configuration. -/
def Shifting (name : String) : Prop :=
  ∃ geoip ipMatcher g dep, (name, .smartForward geoip ipMatcher true) ∈ c.plugins ∧
    shared.get geoip = some (.geoIp g) ∧
    (dep = geoip ∨ (ipMatcher = some dep ∧ ∃ m, shared.get dep = some (.ipMatcher m))) ∧
    dep ≠ name ∧ Rewrites c shared dep

/-- What is registered in some order. -/
inductive Registers : String → Prop
  | shared {name : String} (h : (shared.get name).isSome = true) : Registers name
  | runtime {name : String} (h : Rewrites c shared name) : Registers name
  | fallback {name primary secondary : String} {threshold : Nat} {alwaysStandby : Bool}
      (h : (name, .fallback primary secondary threshold alwaysStandby) ∈ c.plugins)
      (hprimary : Registers primary) (hsecondary : Registers secondary) : Registers name

/-- A fallback that is registered in some order. -/
def FallsBack (name : String) : Prop :=
  ∃ primary secondary threshold alwaysStandby,
    (name, .fallback primary secondary threshold alwaysStandby) ∈ c.plugins ∧
      Registers c shared primary ∧ Registers c shared secondary

/-- The references of such fallbacks do not depend on the order. -/
def Settled : Prop :=
  ∀ name primary secondary threshold alwaysStandby,
    (name, .fallback primary secondary threshold alwaysStandby) ∈ c.plugins →
    Registers c shared primary → Registers c shared secondary →
    ∀ dep ∈ [primary, secondary], ¬ Shifting c shared dep ∧ (dep = name ∨ ¬ FallsBack c shared dep)

end

/-! ## Orders -/

/-- The configuration with its plugin map in another order. -/
def Config.reorder (c : Config) (plugins : List (String × PluginType))
    (h : plugins.Perm c.plugins) : Config where
  plugins := plugins
  sequences := c.sequences
  plugins_nodup := (h.map _).nodup_iff.mpr c.plugins_nodup
  sequences_nodup := c.sequences_nodup

section
variable {c : Config} {plugins : List (String × PluginType)}

theorem type_unique (c : Config) {name : String} {t u : PluginType} (ht : (name, t) ∈ c.plugins)
    (hu : (name, u) ∈ c.plugins) : t = u :=
  congrArg Prod.snd (List.inj_on_of_nodup_map c.plugins_nodup ht hu rfl)

/-- Around a plugin the others have other names. -/
theorem split_ne (h : plugins.Perm c.plugins) {before after : List (String × PluginType)}
    {plugin : String × PluginType} (hsplit : plugins = before ++ plugin :: after) :
    (∀ p ∈ before, p.1 ≠ plugin.1) ∧ ∀ p ∈ after, p.1 ≠ plugin.1 := by
  have hnodup : (plugins.map (·.1)).Nodup := (h.map _).nodup_iff.mpr c.plugins_nodup
  rw [hsplit, List.map_append, List.map_cons] at hnodup
  obtain ⟨-, htail, hdisjoint⟩ := List.nodup_append.mp hnodup
  obtain ⟨hnew, -⟩ := List.nodup_cons.mp htail
  refine ⟨fun p hp heq => ?_, fun p hp heq => hnew (List.mem_map.mpr ⟨p, hp, heq⟩)⟩
  exact hdisjoint p.1 (List.mem_map_of_mem hp) plugin.1 List.mem_cons_self heq

/-- Any plugin may come first. -/
theorem exists_front {plugin : String × PluginType} (h : plugin ∈ c.plugins) :
    ∃ rest, (plugin :: rest).Perm c.plugins := by
  obtain ⟨before, after, hsplit⟩ := List.append_of_mem h
  exact ⟨before ++ after, by rw [hsplit]; exact List.perm_middle.symm⟩

/-- And any two. -/
theorem exists_front_two {p q : String × PluginType} (hp : p ∈ c.plugins) (hq : q ∈ c.plugins)
    (hne : p ≠ q) : ∃ rest, (p :: q :: rest).Perm c.plugins := by
  obtain ⟨rest, hrest⟩ := exists_front hp
  have hmem : q ∈ rest :=
    (List.mem_cons.mp (hrest.mem_iff.mpr hq)).resolve_left (Ne.symm hne)
  obtain ⟨before, after, hsplit⟩ := List.append_of_mem hmem
  refine ⟨before ++ after, List.Perm.trans ?_ hrest⟩
  rw [hsplit]
  exact List.Perm.cons p List.perm_middle.symm

end

/-! ## Before the fallbacks -/

section
variable {c : Config} {shared : SharedPlugins} {plugins : List (String × PluginType)}

/-- A phase ends with what its step for the name left. -/
theorem foldl_at {step : Registry → String × PluginType → Registry}
    (hstep : ∀ name registry plugin, plugin.1 ≠ name → step registry plugin name = registry name)
    (h : plugins.Perm c.plugins) {before after : List (String × PluginType)}
    {plugin : String × PluginType} (hsplit : plugins = before ++ plugin :: after)
    (registry : Registry) :
    plugins.foldl step registry plugin.1 =
      step (before.foldl step registry) plugin plugin.1 ∧
    before.foldl step registry plugin.1 = registry plugin.1 := by
  obtain ⟨hbefore, hafter⟩ := split_ne h hsplit
  refine ⟨?_, foldl_of_ne (hstep plugin.1) hbefore registry⟩
  rw [hsplit, List.foldl_append, List.foldl_cons]
  exact foldl_of_ne (hstep plugin.1) hafter _

/-- No plugin of a shared kind is new. -/
theorem runtime_shared {registry : Registry} {name : String} {p : AnyPlugin} {kind : SharedKind}
    (hkind : p.variant = .shared kind) (h : plugins.foldl runtimeStep registry name = some p) :
    registry name = some p := by
  induction plugins generalizing registry with
  | nil => exact h
  | cons plugin plugins ih =>
    have hstep := ih h
    rcases runtimeStep_cases registry plugin with ⟨p', -, heq⟩ | ⟨_, _, _, -, -, heq⟩ | heq
    · rw [heq] at hstep
      rcases put_some hstep with ⟨-, rfl⟩ | ⟨-, hold⟩
      · cases hkind
      · exact hold
    · rw [heq] at hstep
      rcases put_some hstep with ⟨-, rfl⟩ | ⟨-, hold⟩
      · cases hkind
      · exact hold
    · rw [heq] at hstep
      exact hstep

/-- What this phase registers could also come first. -/
theorem runtime_cases (hsub : ∀ plugin ∈ plugins, plugin ∈ c.plugins) (name : String) :
    plugins.foldl runtimeStep shared.get name = shared.get name ∨ Rewrites c shared name := by
  induction plugins using List.reverseRecOn with
  | nil => exact Or.inl rfl
  | append_singleton plugins plugin ih =>
    have hmem := hsub plugin (List.mem_append_right _ List.mem_cons_self)
    have hold := ih fun p hp => hsub p (List.mem_append_left _ hp)
    rw [List.foldl_append, List.foldl_cons, List.foldl_nil]
    by_cases hname : plugin.1 = name
    · obtain ⟨name', type⟩ := plugin
      obtain rfl : name' = name := hname
      rcases runtimeStep_cases (plugins.foldl runtimeStep shared.get) (name', type) with
        ⟨p, rfl, -⟩ | ⟨geoip, ipMatcher, g, rfl, hg, -⟩ | heq
      · exact Or.inr (Or.inl ⟨p, hmem⟩)
      · exact Or.inr (Or.inr ⟨geoip, ipMatcher, g, hmem, runtime_shared rfl hg⟩)
      · rw [heq]
        exact hold
    · rw [runtimeStep_of_ne hname]
      exact hold

/-- A SmartForward is built where its GeoIp plugin is. -/
theorem runtimeStep_smartForward {registry : Registry} {name geoip : String}
    {ipMatcher : Option String} {g : GeoIpPlugin} (hg : registry geoip = some (.geoIp g)) :
    runtimeStep registry (name, .smartForward geoip ipMatcher true) name =
      some (.smartForward g (ipMatcherPlugin registry ipMatcher)) := by
  unfold runtimeStep
  simp only [hg, put_self]

/-- And nowhere else. -/
theorem runtimeStep_noGeoIp {registry : Registry} {name geoip : String}
    {ipMatcher : Option String} (hno : ∀ g, registry geoip ≠ some (.geoIp g)) :
    runtimeStep registry (name, .smartForward geoip ipMatcher true) = registry := by
  rcases runtimeStep_cases registry (name, .smartForward geoip ipMatcher true) with
    ⟨_, htype, -⟩ | ⟨_, _, g, htype, hg, -⟩ | heq
  · cases htype
  · cases htype
    exact absurd hg (hno g)
  · exact heq

theorem ipMatcherPlugin_missing {registry : Registry} {dep : String}
    (hno : ∀ m, registry dep ≠ some (.ipMatcher m)) :
    ipMatcherPlugin registry (some dep) = none := by
  unfold ipMatcherPlugin
  split
  · rename_i m hm
    exact absurd hm (hno m)
  · rfl

/-- At the turn of a plugin a reference of it that is not written over is still there. -/
theorem reference_kept {before : List (String × PluginType)} {name dep : String}
    (h : ¬ (dep ≠ name ∧ Rewrites c shared dep)) (hsub : ∀ plugin ∈ before, plugin ∈ c.plugins)
    (hne : ∀ plugin ∈ before, plugin.1 ≠ name) :
    before.foldl runtimeStep shared.get dep = shared.get dep := by
  by_cases hself : dep = name
  · rw [hself]
    exact foldl_of_ne (fun _ _ => runtimeStep_of_ne) hne _
  · rcases @runtime_cases c shared before hsub dep with hsame | hrewrites
    · exact hsame
    · exact absurd ⟨hself, hrewrites⟩ h

/-- And an IpMatcher that is missing stays missing. -/
theorem ipMatcherPlugin_kept {before : List (String × PluginType)} {ipMatcher : Option String}
    (h : ∀ dep m, ipMatcher = some dep → shared.get dep = some (.ipMatcher m) →
      before.foldl runtimeStep shared.get dep = shared.get dep) :
    ipMatcherPlugin (before.foldl runtimeStep shared.get) ipMatcher =
      ipMatcherPlugin shared.get ipMatcher := by
  cases ipMatcher with
  | none => rfl
  | some dep =>
    by_cases hm : ∃ m, shared.get dep = some (.ipMatcher m)
    · obtain ⟨m, hm⟩ := hm
      unfold ipMatcherPlugin
      rw [Option.bind_some, Option.bind_some, h dep m rfl hm]
    · rw [ipMatcherPlugin_missing fun m hshared => hm ⟨m, hshared⟩,
        ipMatcherPlugin_missing fun m hfound => hm ⟨m, runtime_shared rfl hfound⟩]

/-- What the step for a name leaves in every order, the phase leaves. -/
theorem runtime_value {name : String} {type : PluginType} (hmem : (name, type) ∈ c.plugins)
    {v : Option AnyPlugin}
    (hv : ∀ before : List (String × PluginType), (∀ plugin ∈ before, plugin ∈ c.plugins) →
      (∀ plugin ∈ before, plugin.1 ≠ name) →
      before.foldl runtimeStep shared.get name = shared.get name →
      runtimeStep (before.foldl runtimeStep shared.get) (name, type) name = v)
    (hperm : plugins.Perm c.plugins) : plugins.foldl runtimeStep shared.get name = v := by
  obtain ⟨before, after, hsplit⟩ := List.append_of_mem (hperm.mem_iff.mpr hmem)
  obtain ⟨hend, hbefore⟩ := foldl_at (fun _ _ _ => runtimeStep_of_ne) hperm hsplit shared.get
  refine hend.trans (hv before (fun p hp => ?_) (split_ne hperm hsplit).1 hbefore)
  apply hperm.mem_iff.mp
  rw [hsplit]
  exact List.mem_append_left _ hp

/-- **What is not shifting is the same in every order.** -/
theorem runtime_settled {name : String} (h : ¬ Shifting c shared name) :
    ∃ v, ∀ plugins : List (String × PluginType), plugins.Perm c.plugins →
      plugins.foldl runtimeStep shared.get name = v := by
  by_cases hname : ∃ type, (name, type) ∈ c.plugins
  swap
  · refine ⟨shared.get name, fun plugins hperm => foldl_of_ne (fun _ _ => runtimeStep_of_ne) ?_ _⟩
    intro plugin hmem heq
    obtain ⟨name', type⟩ := plugin
    obtain rfl : name' = name := heq
    exact hname ⟨type, hperm.mem_iff.mp hmem⟩
  obtain ⟨type, hmem⟩ := hname
  -- a plugin of the first phase, or one that is not built, leaves what was there
  cases type with
  | forward created =>
    cases created with
    | none => exact ⟨_, fun _ => runtime_value hmem fun _ _ _ hbefore => hbefore⟩
    | some p =>
      exact ⟨some (.forward p), fun _ => runtime_value hmem fun _ _ _ _ => put_self _ _ _⟩
  | smartForward geoip ipMatcher created =>
    cases created with
    | false => exact ⟨_, fun _ => runtime_value hmem fun _ _ _ hbefore => hbefore⟩
    | true =>
      by_cases hgeoip : ∃ g, shared.get geoip = some (.geoIp g)
      · obtain ⟨g, hg⟩ := hgeoip
        refine ⟨some (.smartForward g (ipMatcherPlugin shared.get ipMatcher)),
          fun _ => runtime_value hmem fun before hsub hne _ => ?_⟩
        have hgeoip := @reference_kept c shared before name geoip
          (fun hover => h ⟨geoip, ipMatcher, g, geoip, hmem, hg, .inl rfl, hover⟩) hsub hne
        have hmatcher := @ipMatcherPlugin_kept shared before ipMatcher fun dep m hdep hm =>
          @reference_kept c shared before name dep
            (fun hover => h ⟨geoip, ipMatcher, g, dep, hmem, hg, .inr ⟨hdep, m, hm⟩, hover⟩)
            hsub hne
        rw [runtimeStep_smartForward (hgeoip.trans hg), hmatcher]
      · refine ⟨shared.get name, fun _ => runtime_value hmem fun before _ _ hbefore => ?_⟩
        rw [runtimeStep_noGeoIp fun g hg => hgeoip ⟨g, runtime_shared rfl hg⟩]
        exact hbefore
  | shared kind created => exact ⟨_, fun _ => runtime_value hmem fun _ _ _ hbefore => hbefore⟩
  | fallback p s t a => exact ⟨_, fun _ => runtime_value hmem fun _ _ _ hbefore => hbefore⟩
  | unknown => exact ⟨_, fun _ => runtime_value hmem fun _ _ _ hbefore => hbefore⟩

end

/-! ## The fallbacks -/

section
variable {c : Config} {shared : SharedPlugins} {plugins : List (String × PluginType)}
  {registry : Registry}

/-- There is none before its phase. -/
theorem runtime_noFallback (name : String) :
    fallbacks (plugins.foldl runtimeStep shared.get) name = none := by
  have hshared : fallbacks shared.get name = none := by
    unfold fallbacks
    split
    · rename_i p s t a hp
      obtain ⟨kind, hkind⟩ := shared.kinds name _ hp
      cases hkind
    · rfl
  induction plugins using List.reverseRecOn with
  | nil => exact hshared
  | append_singleton plugins plugin ih =>
    rw [List.foldl_append, List.foldl_cons, List.foldl_nil]
    by_cases hname : name = plugin.1
    · subst hname
      rcases runtimeStep_cases (plugins.foldl runtimeStep shared.get) plugin with
        ⟨p, -, heq⟩ | ⟨_, _, _, -, -, heq⟩ | heq
      · rw [heq, fallbacks, put_self]
      · rw [heq, fallbacks, put_self]
      · rw [heq]
        exact ih
    · rw [fallbacks, runtimeStep_of_ne (Ne.symm hname)]
      exact ih

/-- Everything registered is registered in some order. -/
def RegistersOnly (c : Config) (shared : SharedPlugins) (registry : Registry) : Prop :=
  ∀ name, (registry name).isSome = true → Registers c shared name

theorem runtime_registersOnly (hsub : ∀ plugin ∈ plugins, plugin ∈ c.plugins) :
    RegistersOnly c shared (plugins.foldl runtimeStep shared.get) := by
  intro name hname
  rcases @runtime_cases c shared plugins hsub name with hsame | hrewrites
  · rw [hsame] at hname
    exact .shared hname
  · exact .runtime hrewrites

theorem fallbackStep_registersOnly (h : RegistersOnly c shared registry)
    {plugin : String × PluginType} (hmem : plugin ∈ c.plugins) :
    RegistersOnly c shared (fallbackStep registry plugin) := by
  intro name hname
  obtain ⟨name', type⟩ := plugin
  rcases fallbackStep_cases registry (name', type) with
    ⟨primary, secondary, t, a, p, s, rfl, hp, hs, heq⟩ | heq
  · rw [heq] at hname
    obtain ⟨v, hv⟩ := Option.isSome_iff_exists.mp hname
    rcases put_some hv with ⟨rfl, -⟩ | ⟨-, hold⟩
    · exact .fallback hmem (h primary (by rw [hp]; rfl)) (h secondary (by rw [hs]; rfl))
    · exact h name (by rw [hold]; rfl)
  · rw [heq] at hname
    exact h name hname

/-- The phase leaves alone what no order makes a fallback. -/
theorem fallback_keeps (h : RegistersOnly c shared registry)
    (hsub : ∀ plugin ∈ plugins, plugin ∈ c.plugins) {name : String}
    (hno : ¬ FallsBack c shared name) :
    plugins.foldl fallbackStep registry name = registry name := by
  induction plugins generalizing registry with
  | nil => rfl
  | cons plugin plugins ih =>
    have hmem := hsub plugin List.mem_cons_self
    rw [List.foldl_cons, ih (fallbackStep_registersOnly h hmem)
      fun p hp => hsub p (List.mem_cons_of_mem _ hp)]
    obtain ⟨name', type⟩ := plugin
    rcases fallbackStep_cases registry (name', type) with
      ⟨primary, secondary, t, a, p, s, rfl, hp, hs, heq⟩ | heq
    · have hne : name ≠ name' := by
        rintro rfl
        exact hno ⟨primary, secondary, t, a, hmem, h primary (by rw [hp]; rfl),
          h secondary (by rw [hs]; rfl)⟩
      rw [heq, put_of_ne hne]
    · rw [heq]

theorem fallbackStep_fallbacks {name : String} (h : fallbacks registry name = none)
    (primary secondary : String) (threshold : Nat) (alwaysStandby : Bool) :
    fallbacks (fallbackStep registry (name, .fallback primary secondary threshold alwaysStandby))
        name =
      match registry primary, registry secondary with
      | some p, some s => some (p, s)
      | _, _ => none := by
  unfold fallbackStep
  simp only
  cases registry primary with
  | none => exact h
  | some p =>
    cases registry secondary with
    | none => exact h
    | some s =>
      simp only [fallbacks, put_self]

/-- What a fallback becomes: it takes what its references are at its turn. -/
theorem fallback_at (hperm : plugins.Perm c.plugins) {name primary secondary : String}
    {threshold : Nat} {alwaysStandby : Bool} {before after : List (String × PluginType)}
    (hsplit : plugins =
      before ++ (name, .fallback primary secondary threshold alwaysStandby) :: after) :
    fallbacks (plugins.foldl fallbackStep (plugins.foldl runtimeStep shared.get)) name =
      match before.foldl fallbackStep (plugins.foldl runtimeStep shared.get) primary,
        before.foldl fallbackStep (plugins.foldl runtimeStep shared.get) secondary with
      | some p, some s => some (p, s)
      | _, _ => none := by
  obtain ⟨hend, hbefore⟩ := foldl_at (fun _ _ _ => fallbackStep_of_ne) hperm hsplit
    (plugins.foldl runtimeStep shared.get)
  have hnone : fallbacks (before.foldl fallbackStep (plugins.foldl runtimeStep shared.get)) name =
      none := by
    rw [fallbacks, hbefore]
    exact runtime_noFallback name
  have hstep : fallbacks (plugins.foldl fallbackStep (plugins.foldl runtimeStep shared.get)) name =
      fallbacks (fallbackStep (before.foldl fallbackStep (plugins.foldl runtimeStep shared.get))
        (name, .fallback primary secondary threshold alwaysStandby)) name := by
    unfold fallbacks
    rw [hend]
  exact hstep.trans (fallbackStep_fallbacks hnone primary secondary threshold alwaysStandby)

/-- A settled reference is at that turn what it was before the phase. -/
theorem settled_at (hperm : plugins.Perm c.plugins) {before after : List (String × PluginType)}
    {plugin : String × PluginType} (hsplit : plugins = before ++ plugin :: after) {dep : String}
    (h : dep = plugin.1 ∨ ¬ FallsBack c shared dep) :
    before.foldl fallbackStep (plugins.foldl runtimeStep shared.get) dep =
      plugins.foldl runtimeStep shared.get dep := by
  have hsub : ∀ p ∈ plugins, p ∈ c.plugins := fun p => hperm.mem_iff.mp
  rcases h with rfl | hno
  · exact foldl_of_ne (fun _ _ => fallbackStep_of_ne) (split_ne hperm hsplit).1 _
  · refine fallback_keeps (runtime_registersOnly hsub) (fun p hp => hsub p ?_) hno
    rw [hsplit]
    exact List.mem_append_left _ hp

/-- **Settled references make the order irrelevant.** -/
theorem Settled.orderFree (h : Settled c shared) : OrderFree c shared := by
  intro c' hperm
  funext name
  have hsame : ∀ dep, ¬ Shifting c shared dep →
      c'.plugins.foldl runtimeStep shared.get dep = c.plugins.foldl runtimeStep shared.get dep := by
    intro dep hdep
    obtain ⟨v, hv⟩ := runtime_settled hdep
    rw [hv _ hperm, hv _ (List.Perm.refl _)]
  unfold assembled
  by_cases hfalls : FallsBack c shared name
  · obtain ⟨primary, secondary, t, a, hmem, hprimary, hsecondary⟩ := hfalls
    have hdeps := h name primary secondary t a hmem hprimary hsecondary
    obtain ⟨hshiftP, hkeepP⟩ := hdeps primary (by simp)
    obtain ⟨hshiftS, hkeepS⟩ := hdeps secondary (by simp)
    have hexpected : ∀ plugins : List (String × PluginType), plugins.Perm c.plugins →
        fallbacks (plugins.foldl fallbackStep (plugins.foldl runtimeStep shared.get)) name =
          match plugins.foldl runtimeStep shared.get primary,
            plugins.foldl runtimeStep shared.get secondary with
          | some p, some s => some (p, s)
          | _, _ => none := by
      intro plugins hplugins
      obtain ⟨before, after, hsplit⟩ := List.append_of_mem (hplugins.mem_iff.mpr hmem)
      rw [fallback_at hplugins hsplit, settled_at hplugins hsplit hkeepP,
        settled_at hplugins hsplit hkeepS]
    rw [hexpected _ hperm, hexpected _ (List.Perm.refl _), hsame _ hshiftP, hsame _ hshiftS]
  · have hnone : ∀ plugins : List (String × PluginType), plugins.Perm c.plugins →
        fallbacks (plugins.foldl fallbackStep (plugins.foldl runtimeStep shared.get)) name =
          none := by
      intro plugins hplugins
      have hsub : ∀ p ∈ plugins, p ∈ c.plugins := fun p => hplugins.mem_iff.mp
      rw [fallbacks, fallback_keeps (runtime_registersOnly hsub) hsub hfalls]
      exact runtime_noFallback name
    rw [hnone _ hperm, hnone _ (List.Perm.refl _)]

end

/-! ## Unsettled references -/

section
variable {c : Config} {shared : SharedPlugins} {plugins : List (String × PluginType)}

/-- The fallbacks of the configuration in some order. -/
def fallbacksOf (shared : SharedPlugins) (plugins : List (String × PluginType)) :
    String → Option (AnyPlugin × AnyPlugin) :=
  fallbacks (plugins.foldl fallbackStep (plugins.foldl runtimeStep shared.get))

theorem OrderFree.same (h : OrderFree c shared) (hperm : plugins.Perm c.plugins) :
    fallbacksOf shared plugins = fallbacksOf shared c.plugins := h (c.reorder plugins hperm) hperm

theorem runtimeStep_isSome {registry : Registry} {plugin : String × PluginType} {name : String}
    (h : (registry name).isSome = true) : (runtimeStep registry plugin name).isSome = true := by
  rcases runtimeStep_cases registry plugin with ⟨p, -, heq⟩ | ⟨_, _, _, -, -, heq⟩ | heq
  · rw [heq]
    exact Passes.put_isSome h
  · rw [heq]
    exact Passes.put_isSome h
  · rw [heq]
    exact h

theorem fallbackStep_isSome {registry : Registry} {plugin : String × PluginType} {name : String}
    (h : (registry name).isSome = true) : (fallbackStep registry plugin name).isSome = true := by
  rcases fallbackStep_cases registry plugin with ⟨_, _, _, _, _, _, -, -, -, heq⟩ | heq
  · rw [heq]
    exact Passes.put_isSome h
  · rw [heq]
    exact h

/-- An order in which the plugins with new names come first builds every SmartForward that any
order builds: no GeoIp plugin has a new name. -/
theorem exists_eager (c : Config) (shared : SharedPlugins) :
    ∃ plugins : List (String × PluginType), plugins.Perm c.plugins ∧
      ∀ name, (shared.get name).isSome = true ∨ Rewrites c shared name →
        (plugins.foldl runtimeStep shared.get name).isSome = true := by
  let fresh : String × PluginType → Bool := fun plugin => (shared.get plugin.1).isNone
  have hperm : (c.plugins.filter fresh ++ c.plugins.filter fun p => !fresh p).Perm c.plugins :=
    List.filter_append_perm fresh c.plugins
  refine ⟨_, hperm, fun name hname => ?_⟩
  have hkeeps : ∀ plugins : List (String × PluginType), ∀ registry : Registry,
      (registry name).isSome = true → (plugins.foldl runtimeStep registry name).isSome = true :=
    fun plugins _ => Passes.foldl_isSome (fun _ _ _ => runtimeStep_isSome) plugins
  by_cases hshared : (shared.get name).isSome = true
  · exact hkeeps _ _ hshared
  · rcases hname.resolve_left hshared with ⟨p, hmem⟩ | ⟨geoip, ipMatcher, g, hmem, hg⟩
    · obtain ⟨before, after, hsplit⟩ := List.append_of_mem (hperm.mem_iff.mpr hmem)
      rw [hsplit, List.foldl_append, List.foldl_cons]
      refine hkeeps after _ ?_
      show (put _ name _ name).isSome = true
      rw [put_self]
      rfl
    · have hfresh : (name, PluginType.smartForward geoip ipMatcher true) ∈
          c.plugins.filter fresh := by
        refine List.mem_filter.mpr ⟨hmem, ?_⟩
        show (shared.get name).isNone = true
        rwa [Option.isNone_iff_eq_none, ← Option.not_isSome_iff_eq_none]
      obtain ⟨before, after, hsplit⟩ := List.append_of_mem hfresh
      have hgeoip : before.foldl runtimeStep shared.get geoip = some (.geoIp g) := by
        refine (foldl_of_ne (fun _ _ => runtimeStep_of_ne) (fun p hp heq => ?_) _).trans hg
        have hin : p ∈ c.plugins.filter fresh := by
          rw [hsplit]
          exact List.mem_append_left _ hp
        have hnew : (shared.get p.1).isNone = true := (List.mem_filter.mp hin).2
        rw [heq, hg] at hnew
        cases hnew
      rw [hsplit, List.append_assoc, List.foldl_append, List.cons_append, List.foldl_cons]
      refine hkeeps _ _ ?_
      rw [runtimeStep_smartForward hgeoip]
      rfl

/-- A fallback may stand anywhere in the order: the phase before skips it. -/
theorem runtime_move {name primary secondary : String} {threshold : Nat} {alwaysStandby : Bool}
    (before after : List (String × PluginType)) (registry : Registry) :
    (before ++ (name, .fallback primary secondary threshold alwaysStandby) :: after).foldl
      runtimeStep registry = (before ++ after).foldl runtimeStep registry := by
  rw [List.foldl_append, List.foldl_append]
  rfl

section
variable {name primary secondary : String} {threshold : Nat} {alwaysStandby : Bool}
  (hmem : (name, .fallback primary secondary threshold alwaysStandby) ∈ c.plugins)
include hmem

/-- As the first fallback it takes what its references are before the phase. -/
theorem OrderFree.front (h : OrderFree c shared) (hperm : plugins.Perm c.plugins) :
    fallbacksOf shared c.plugins name =
      match plugins.foldl runtimeStep shared.get primary,
        plugins.foldl runtimeStep shared.get secondary with
      | some p, some s => some (p, s)
      | _, _ => none := by
  obtain ⟨before, after, hsplit⟩ := List.append_of_mem (hperm.mem_iff.mpr hmem)
  have hfront : ((name, PluginType.fallback primary secondary threshold alwaysStandby) ::
      (before ++ after)).Perm c.plugins :=
    List.Perm.trans (by rw [hsplit]; exact List.perm_middle.symm) hperm
  have hruntime : plugins.foldl runtimeStep shared.get =
      ((name, PluginType.fallback primary secondary threshold alwaysStandby) ::
        (before ++ after)).foldl runtimeStep shared.get := by
    rw [hsplit]
    exact runtime_move before after shared.get
  rw [← h.same hfront, hruntime]
  exact fallback_at hfront (List.nil_append _).symm

/-- As the last one it takes what they are in the end. -/
theorem OrderFree.back (h : OrderFree c shared) (hperm : plugins.Perm c.plugins) :
    ∃ registry : Registry,
      (∀ dep, dep ≠ name → fallbacks registry dep = fallbacksOf shared c.plugins dep) ∧
      (∀ dep, (plugins.foldl runtimeStep shared.get dep).isSome = true →
        (registry dep).isSome = true) ∧
      fallbacksOf shared c.plugins name =
        match registry primary, registry secondary with
        | some p, some s => some (p, s)
        | _, _ => none := by
  obtain ⟨before, after, hsplit⟩ := List.append_of_mem (hperm.mem_iff.mpr hmem)
  have hback : (before ++ after ++
      [(name, PluginType.fallback primary secondary threshold alwaysStandby)]).Perm c.plugins := by
    refine List.Perm.trans (List.perm_append_singleton _ _) (List.Perm.trans ?_ hperm)
    rw [hsplit]
    exact List.perm_middle.symm
  have hruntime : plugins.foldl runtimeStep shared.get =
      (before ++ after ++ [(name, PluginType.fallback primary secondary threshold
        alwaysStandby)]).foldl runtimeStep shared.get := by
    rw [hsplit, runtime_move, runtime_move, List.append_nil]
  refine ⟨(before ++ after).foldl fallbackStep (plugins.foldl runtimeStep shared.get),
    fun dep hne => ?_, fun dep hdep => ?_, ?_⟩
  · have hlast (registry : Registry) : (before ++ after ++ [(name, PluginType.fallback primary
        secondary threshold alwaysStandby)]).foldl fallbackStep registry =
          fallbackStep ((before ++ after).foldl fallbackStep registry)
            (name, .fallback primary secondary threshold alwaysStandby) := by
      rw [List.foldl_append]
      rfl
    rw [← h.same hback, fallbacksOf, ← hruntime, hlast]
    unfold fallbacks
    rw [fallbackStep_of_ne (Ne.symm hne)]
  · exact Passes.foldl_isSome (fun _ _ _ => fallbackStep_isSome) _ hdep
  · rw [← h.same hback, hruntime]
    exact fallback_at hback rfl

end

/-- A fallback of the registry is registered. -/
theorem isSome_of_fallbacks {registry : Registry} {name : String}
    (h : (fallbacks registry name).isSome = true) : (registry name).isSome = true := by
  unfold fallbacks at h
  split at h
  · rename_i hname
    rw [hname]
    rfl
  · cases h

/-- Two references that are registered make a fallback. -/
theorem isSome_of_references {x y : Option AnyPlugin} (hx : x.isSome = true)
    (hy : y.isSome = true) :
    (match x, y with
      | some p, some s => some (p, s)
      | _, _ => none).isSome = true := by
  obtain ⟨p, rfl⟩ := Option.isSome_iff_exists.mp hx
  obtain ⟨s, rfl⟩ := Option.isSome_iff_exists.mp hy
  rfl

theorem references_of_some {x y : Option AnyPlugin} {p s : AnyPlugin}
    (h : (match x, y with
      | some p, some s => some (p, s)
      | _, _ => none) = some (p, s)) : x = some p ∧ y = some s := by
  cases x with
  | none => cases h
  | some p' =>
    cases y with
    | none => cases h
    | some s' =>
      cases h
      exact ⟨rfl, rfl⟩

/-- In some order it is there before the fallbacks, or it is a fallback in every order. -/
def Present (c : Config) (shared : SharedPlugins) (name : String) : Prop :=
  ((shared.get name).isSome = true ∨ Rewrites c shared name) ∨
    (fallbacksOf shared c.plugins name).isSome = true

/-- With such references a fallback is registered in the order that has it last. -/
theorem OrderFree.fallback (h : OrderFree c shared) {name primary secondary : String}
    {threshold : Nat} {alwaysStandby : Bool}
    (hmem : (name, .fallback primary secondary threshold alwaysStandby) ∈ c.plugins)
    (hprimary : Present c shared primary) (hsecondary : Present c shared secondary) :
    (fallbacksOf shared c.plugins name).isSome = true := by
  obtain ⟨plugins, hperm, heager⟩ := exists_eager c shared
  obtain ⟨registry, hkeeps, hruntime, hvalue⟩ := h.back hmem hperm
  have hdep : ∀ dep, Present c shared dep →
      (fallbacksOf shared c.plugins name).isSome = true ∨ (registry dep).isSome = true := by
    intro dep hpresent
    rcases hpresent with hearly | hfallback
    · exact Or.inr (hruntime dep (heager dep hearly))
    · by_cases hself : dep = name
      · exact Or.inl (hself ▸ hfallback)
      · exact Or.inr (isSome_of_fallbacks ((hkeeps dep hself).symm ▸ hfallback))
  rcases hdep primary hprimary with hdone | hprimary'
  · exact hdone
  · rcases hdep secondary hsecondary with hdone | hsecondary'
    · exact hdone
    · rw [hvalue]
      exact isSome_of_references hprimary' hsecondary'

/-- Whatever some order registers; by induction on how it is registered. -/
theorem OrderFree.present (h : OrderFree c shared) {name : String}
    (hname : Registers c shared name) : Present c shared name := by
  induction hname with
  | shared hshared => exact Or.inl (Or.inl hshared)
  | runtime hruntime => exact Or.inl (Or.inr hruntime)
  | fallback hmem _ _ ihPrimary ihSecondary =>
    exact Or.inr (h.fallback hmem ihPrimary ihSecondary)

/-- What is written over is of no shared kind when its writer comes first. -/
theorem Rewrites.first {dep : String} (h : Rewrites c shared dep) :
    ∃ type, (dep, type) ∈ c.plugins ∧ ∀ p kind, p.variant = .shared kind →
      runtimeStep shared.get (dep, type) dep ≠ some p := by
  rcases h with ⟨p, hforward⟩ | ⟨geoip, ipMatcher, g, hsmart, hg⟩
  · refine ⟨_, hforward, fun q kind hkind heq => ?_⟩
    have hput : put shared.get dep (.forward p) dep = some q := heq
    rw [put_self] at hput
    obtain rfl := Option.some.inj hput
    cases hkind
  · refine ⟨_, hsmart, fun q kind hkind heq => ?_⟩
    rw [runtimeStep_smartForward hg] at heq
    obtain rfl := Option.some.inj heq
    cases hkind

/-- A shifting SmartForward is one thing in some order, and another in another. -/
theorem Shifting.varies {name : String} (h : Shifting c shared name) :
    ∃ plugins plugins' : List (String × PluginType), plugins.Perm c.plugins ∧
      plugins'.Perm c.plugins ∧ plugins.foldl runtimeStep shared.get name ≠
        plugins'.foldl runtimeStep shared.get name := by
  obtain ⟨geoip, ipMatcher, g, dep, hmem, hg, hdep, hne, hrewrites⟩ := h
  obtain ⟨rest, hfront⟩ := exists_front hmem
  -- it comes first
  have hbuilt : ((name, PluginType.smartForward geoip ipMatcher true) :: rest).foldl runtimeStep
      shared.get name = some (.smartForward g (ipMatcherPlugin shared.get ipMatcher)) := by
    obtain ⟨hend, -⟩ := foldl_at (fun _ _ _ => runtimeStep_of_ne) hfront
      (List.nil_append _).symm shared.get
    exact hend.trans (runtimeStep_smartForward hg)
  -- its reference comes first
  obtain ⟨type, htype, hwritten⟩ := hrewrites.first
  obtain ⟨rest', hfront'⟩ := exists_front_two htype hmem fun heq => hne (congrArg Prod.fst heq)
  obtain ⟨hend, hbefore⟩ := foldl_at (fun _ _ _ => runtimeStep_of_ne) hfront'
    (show _ = [(dep, type)] ++ (name, _) :: rest' from rfl) shared.get
  refine ⟨_, _, hfront, hfront', ?_⟩
  rw [hbuilt, hend]
  rcases hdep with rfl | ⟨rfl, m, hm⟩
  · -- it is not built
    have hskip := @runtimeStep_noGeoIp ([(dep, type)].foldl runtimeStep shared.get) name dep
      ipMatcher fun g => hwritten (.geoIp g) .geoIp rfl
    rw [hskip, hbefore]
    intro heq
    obtain ⟨kind, hkind⟩ := shared.kinds name _ heq.symm
    cases hkind
  · -- it is built without its IpMatcher
    have hapart : dep ≠ geoip := by
      rintro rfl
      rw [hm] at hg
      cases hg
    have hgeoip : [(dep, type)].foldl runtimeStep shared.get geoip = some (.geoIp g) := by
      refine (foldl_of_ne (fun _ _ => runtimeStep_of_ne) (fun plugin hplugin => ?_) _).trans hg
      obtain rfl := List.mem_singleton.mp hplugin
      exact hapart
    have hgone := @ipMatcherPlugin_missing ([(dep, type)].foldl runtimeStep shared.get) dep
      fun m => hwritten (.ipMatcher m) .ipMatcher rfl
    have hfound : ipMatcherPlugin shared.get (some dep) = some m := by
      unfold ipMatcherPlugin
      rw [Option.bind_some, hm]
    rw [runtimeStep_smartForward hgeoip, hgone, hfound]
    intro heq
    cases heq

/-- **Only settled references make the order irrelevant.** -/
theorem OrderFree.settled (h : OrderFree c shared) : Settled c shared := by
  intro name primary secondary t a hmem hprimary hsecondary dep hdep
  obtain ⟨⟨p, s⟩, hps⟩ := Option.isSome_iff_exists.mp
    (h.fallback hmem (h.present hprimary) (h.present hsecondary))
  obtain ⟨registry, hkeeps, -, hvalue⟩ := h.back hmem (List.Perm.refl _)
  obtain ⟨hlastP, hlastS⟩ := references_of_some (hvalue.symm.trans hps)
  have hfirst : ∀ plugins : List (String × PluginType), plugins.Perm c.plugins →
      plugins.foldl runtimeStep shared.get primary = some p ∧
        plugins.foldl runtimeStep shared.get secondary = some s :=
    fun plugins hperm => references_of_some ((h.front hmem hperm).symm.trans hps)
  -- the reference is the same before the phase and at its end
  obtain ⟨v, hbefore, hend⟩ : ∃ v, (∀ plugins : List (String × PluginType),
      plugins.Perm c.plugins → plugins.foldl runtimeStep shared.get dep = some v) ∧
      registry dep = some v := by
    rcases List.mem_cons.mp hdep with rfl | hdep
    · exact ⟨p, fun plugins hperm => (hfirst plugins hperm).1, hlastP⟩
    · obtain rfl := List.mem_singleton.mp hdep
      exact ⟨s, fun plugins hperm => (hfirst plugins hperm).2, hlastS⟩
  constructor
  · intro hshifting
    obtain ⟨plugins, plugins', hperm, hperm', hdiffer⟩ := hshifting.varies
    exact hdiffer ((hbefore plugins hperm).trans (hbefore plugins' hperm').symm)
  · by_cases hself : dep = name
    · exact Or.inl hself
    · refine Or.inr ?_
      rintro ⟨primary', secondary', t', a', hmem', hprimary', hsecondary'⟩
      have hfallback := h.fallback hmem' (h.present hprimary') (h.present hsecondary')
      have hnone : fallbacks (c.plugins.foldl runtimeStep shared.get) dep = none :=
        runtime_noFallback dep
      rw [← hkeeps dep hself, fallbacks, hend, ← hbefore _ (List.Perm.refl _)] at hfallback
      unfold fallbacks at hnone
      rw [hnone] at hfallback
      cases hfallback

end

/-- **The fallbacks are the same in every order exactly if the references are settled.** -/
theorem fallbacks_order_free_iff (c : Config) (shared : SharedPlugins) :
    OrderFree c shared ↔ Settled c shared := ⟨OrderFree.settled, Settled.orderFree⟩

/-! ## A fresh start -/

/-- The shared plugins of a configuration. -/
def SharedPlugins.ofConfig (c : Config) : SharedPlugins where
  get := createSharedPlugins c
  kinds := by
    have hkinds : ∀ plugins : List (String × PluginType), ∀ registry : Registry,
        (∀ name p, registry name = some p → ∃ kind, p.variant = .shared kind) →
        ∀ name p, plugins.foldl sharedStep registry name = some p →
          ∃ kind, p.variant = .shared kind := by
      intro plugins
      induction plugins with
      | nil => exact fun registry hregistry => hregistry
      | cons plugin plugins ih =>
        intro registry hregistry
        refine ih _ fun name p hp => ?_
        rcases sharedStep_cases registry plugin with ⟨kind, q, -, heq⟩ | heq
        · rw [heq] at hp
          rcases put_some hp with ⟨-, rfl⟩ | ⟨-, hold⟩
          · exact ⟨kind, q.2⟩
          · exact hregistry name p hold
        · rw [heq] at hp
          exact hregistry name p hp
    exact hkinds c.plugins empty fun _ _ hnone => by cases hnone

/-- Shared plugins are the same in every order. -/
theorem createSharedPlugins_perm {c c' : Config} (hperm : c'.plugins.Perm c.plugins) :
    createSharedPlugins c' = createSharedPlugins c := by
  funext name
  by_cases hname : ∃ type, (name, type) ∈ c.plugins
  · obtain ⟨type, hmem⟩ := hname
    have hvalue : ∀ plugins : List (String × PluginType), plugins.Perm c.plugins →
        plugins.foldl sharedStep empty name = sharedStep empty (name, type) name := by
      intro plugins hplugins
      obtain ⟨before, after, hsplit⟩ := List.append_of_mem (hplugins.mem_iff.mpr hmem)
      obtain ⟨hend, hbefore⟩ := foldl_at (fun _ _ _ => sharedStep_of_ne) hplugins hsplit empty
      refine hend.trans ?_
      unfold sharedStep
      cases type with
      | shared kind created =>
        cases created with
        | none => exact hbefore
        | some p => exact (put_self _ _ _).trans (put_self _ _ _).symm
      | _ => exact hbefore
    exact (hvalue _ hperm).trans (hvalue _ (List.Perm.refl _)).symm
  · have hne : ∀ plugins : List (String × PluginType), plugins.Perm c.plugins →
        plugins.foldl sharedStep empty name = none := by
      intro plugins hplugins
      refine foldl_of_ne (fun _ _ => sharedStep_of_ne) (fun plugin hplugin heq => ?_) empty
      exact hname ⟨plugin.2, heq ▸ hplugins.mem_iff.mp hplugin⟩
    exact (hne _ hperm).trans (hne _ (List.Perm.refl _)).symm

/-- The registry of a fresh start, before its sequences. -/
def started (c : Config) : Registry := assembled c (createSharedPlugins c)

/-- Two fresh starts. -/
theorem start_orderFree_iff (c : Config) :
    (∀ c' : Config, c'.plugins.Perm c.plugins → fallbacks (started c') = fallbacks (started c)) ↔
      Settled c (.ofConfig c) := by
  rw [← fallbacks_order_free_iff]
  refine forall₂_congr fun c' hperm => ?_
  unfold started
  rw [createSharedPlugins_perm hperm]
  exact Iff.rfl

/-- A fallback within a fallback. -/
def nested : Config where
  plugins := [("direct", .forward (some singleForward)),
    ("inner", .fallback "direct" "direct" 100 false),
    ("outer", .fallback "inner" "direct" 100 false)]
  sequences := []
  plugins_nodup := by decide
  sequences_nodup := by decide

/-- The same, with the outer one first. -/
def nestedReversed : Config where
  plugins := [("outer", .fallback "inner" "direct" 100 false),
    ("inner", .fallback "direct" "direct" 100 false), ("direct", .forward (some singleForward))]
  sequences := []
  plugins_nodup := by decide
  sequences_nodup := by decide

/-- One start registers the outer fallback, the other does not. -/
theorem outer_fallback_lost :
    nestedReversed.plugins.Perm nested.plugins ∧
      (fallbacks (started nested) "outer").isSome = true ∧
      fallbacks (started nestedReversed) "outer" = none :=
  ⟨List.reverse_perm nested.plugins, rfl, rfl⟩

end TitanDns.PluginFactory.Built
