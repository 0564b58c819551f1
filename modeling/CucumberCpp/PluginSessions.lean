import CucumberCpp.Grouping
import CucumberCpp.Plugins

/-! Sequential plugin sessions in one process: what the queries visit during a session
and after it. -/
namespace CucumberCpp

open EventLog OrderedMap Grouping

variable {idGenerator : IdGenerator} {CustomParameterEntry : Type}

namespace PluginSession

open DefinitionRegistration

/-- What is registered with the instance at an address in the course of the steps. -/
def definedIn (address : InstanceAddress) (steps : List (LoadStep CustomParameterEntry)) :
    List Entry :=
  steps.filterMap (LoadStep.definition? address)

/-- The libraries passed to `RegisterPlugin`, each once. -/
def pluginsOf (steps : List (LoadStep CustomParameterEntry)) : List ℕ :=
  keysOf id (steps.filterMap LoadStep.library?)

/-- The definitions of the plugins loaded so far: those registered with the host's
instance, then what each library's own instance holds. -/
def pluginDefinitions (steps : List (LoadStep CustomParameterEntry)) : List Entry :=
  definedIn .host steps ++
    (pluginsOf steps).flatMap fun address => held (definedIn (.library address) steps)

/-- The state after the steps of a session. -/
structure Holding (definitions : List Entry) (parameters : Finset CustomParameterEntry)
    (steps : List (LoadStep CustomParameterEntry)) (p : Process CustomParameterEntry) : Prop where
  staticRegistry : Holds p.host.staticRegistry definitions
  staticCustomParameters : p.host.staticCustomParameters = parameters
  registry : Holds p.host.registry (definedIn .host steps)
  plugins : p.host.plugins = (pluginsOf steps).map .library
  loaded : ∀ address ∈ pluginsOf steps, p.libraries.contains address
  library : ∀ address, Holds (p.library address).registry (definedIn (.library address) steps)

/-- The state between sessions: what the host registered is in its registry before the
first snapshot and in the snapshot afterwards. -/
structure Idle (definitions : List Entry)
    (parameters : Finset CustomParameterEntry) (p : Process CustomParameterEntry) : Prop where
  plugins : p.host.plugins = []
  libraries : p.libraries = Map.empty
  snapshot :
    (p.host.staticRegistry = Map.empty ∧ p.host.staticCustomParameters = ∅ ∧
      Holds p.host.registry definitions ∧ p.host.customParameters = parameters) ∨
    (Holds p.host.staticRegistry definitions ∧ p.host.staticCustomParameters = parameters ∧
      p.host.registry = Map.empty ∧ p.host.customParameters = ∅)

theorem definedIn_concat (address : InstanceAddress)
    (steps : List (LoadStep CustomParameterEntry)) (s : LoadStep CustomParameterEntry) :
    definedIn address (steps ++ [s]) =
      definedIn address steps ++ (s.definition? address).toList := by
  simp only [definedIn, List.filterMap_append]
  cases h : s.definition? address <;> simp [h]

theorem pluginsOf_concat (steps : List (LoadStep CustomParameterEntry))
    (s : LoadStep CustomParameterEntry) : pluginsOf (steps ++ [s]) =
      match s.library? with
      | none => pluginsOf steps
      | some address =>
        if address ∈ pluginsOf steps then pluginsOf steps else pluginsOf steps ++ [address] := by
  unfold pluginsOf
  rw [List.filterMap_append]
  cases h : s.library? with
  | none => simp [h]
  | some address =>
    have hone : [s].filterMap LoadStep.library? = [address] := by simp [h]
    rw [hone, keysOf_concat]
    simp [mem_keysOf]

theorem pluginsOf_nodup (steps : List (LoadStep CustomParameterEntry)) :
    (pluginsOf steps).Nodup :=
  keysOf_nodup _ _

section

variable {definitions : List Entry} {parameters : Finset CustomParameterEntry}
  {steps : List (LoadStep CustomParameterEntry)} {p p' : Process CustomParameterEntry}

/-- A step that neither registers a definition nor passes on an instance adds nothing. -/
theorem Holding.silent (h : Holding definitions parameters steps p)
    {s : LoadStep CustomParameterEntry} (hdefinition : ∀ address, s.definition? address = none)
    (hlibrary : s.library? = none) (hp : p.Alike p') :
    Holding definitions parameters (steps ++ [s]) p' := by
  have hdefined (address : InstanceAddress) :
      definedIn address (steps ++ [s]) = definedIn address steps := by
    rw [definedIn_concat, hdefinition address]
    exact List.append_nil _
  have hplugins : pluginsOf (steps ++ [s]) = pluginsOf steps := by
    rw [pluginsOf_concat, hlibrary]
  constructor
  · exact h.staticRegistry.congr hp.staticRegistry
  · exact hp.staticCustomParameters.trans h.staticCustomParameters
  · rw [hdefined]
    exact h.registry.congr hp.registry
  · rw [hplugins]
    exact hp.plugins.trans h.plugins
  · rw [hplugins]
    exact fun address hmem => hp.loaded address (h.loaded address hmem)
  · intro address
    rw [hdefined]
    exact (h.library address).congr (hp.library address)

/-- A plugin that has the host's instance registers with it. -/
theorem Holding.registerHost (h : Holding definitions parameters steps p) (e : Entry) :
    Holding definitions parameters (steps ++ [.register .host e])
      (p.update (·.register e) .host) := by
  have hplugins : pluginsOf (steps ++ [.register .host e]) = pluginsOf steps := by
    rw [pluginsOf_concat]
    rfl
  constructor
  · exact h.staticRegistry
  · exact h.staticCustomParameters
  · rw [definedIn_concat]
    exact h.registry.register e
  · rw [hplugins]
    exact h.plugins
  · rw [hplugins]
    exact h.loaded
  · intro address
    rw [definedIn_concat]
    exact (List.append_nil _).symm ▸ h.library address

/-- A plugin that has an instance of its own registers with that. -/
theorem Holding.registerLibrary (h : Holding definitions parameters steps p) (address : ℕ)
    (e : Entry) :
    Holding definitions parameters (steps ++ [.register (.library address) e])
      (p.update (·.register e) (.library address)) := by
  have hplugins : pluginsOf (steps ++ [.register (.library address) e]) = pluginsOf steps := by
    rw [pluginsOf_concat]
    rfl
  constructor
  · exact h.staticRegistry
  · exact h.staticCustomParameters
  · rw [definedIn_concat]
    exact (List.append_nil _).symm ▸ h.registry
  · rw [hplugins]
    exact h.plugins
  · rw [hplugins]
    intro x hx
    rw [Process.contains_update, h.loaded x hx, Bool.or_true]
  · intro x
    rw [Process.library_update, definedIn_concat]
    by_cases hx : x = address
    · subst hx
      have hone : (LoadStep.register (.library x) e : LoadStep CustomParameterEntry).definition?
          (.library x) = some e := if_pos rfl
      rw [if_pos rfl, hone]
      exact (h.library x).register e
    · have hnone : (LoadStep.register (.library address) e :
          LoadStep CustomParameterEntry).definition? (.library x) = none :=
        if_neg fun heq => hx (InstanceAddress.library.inj heq).symm
      rw [if_neg hx, hnone]
      exact (List.append_nil _).symm ▸ h.library x

theorem pluginsOf_ccrRegister (address : ℕ) :
    pluginsOf (steps ++ [.ccrRegister (.library address)]) =
      if address ∈ pluginsOf steps then pluginsOf steps else pluginsOf steps ++ [address] := by
  rw [pluginsOf_concat]
  rfl

/-- The host's list holds each plugin once, in the order of the first calls. -/
theorem Holding.host_registerPlugin (h : Holding definitions parameters steps p) (address : ℕ) :
    p.host.registerPlugin .host (.library address) =
      { p.host with
        plugins := (pluginsOf (steps ++ [.ccrRegister (.library address)])).map .library } := by
  have hmem : InstanceAddress.library address ∈ p.host.plugins ↔ address ∈ pluginsOf steps := by
    rw [h.plugins, List.mem_map_of_injective fun _ _ => InstanceAddress.library.inj]
  unfold RegistrationInstance.registerPlugin
  rw [if_neg (by simp), pluginsOf_ccrRegister]
  split_ifs with h1 h2 h2
  · rw [← h.plugins]
  · exact absurd (hmem.mp h1) h2
  · exact absurd (hmem.mpr h2) h1
  · rw [List.map_append, ← h.plugins]
    rfl

/-- `RegisterPlugin` for a library's instance; a second call changes nothing. -/
theorem Holding.registerPlugin (h : Holding definitions parameters steps p) (address : ℕ) :
    Holding definitions parameters (steps ++ [.ccrRegister (.library address)])
      ((p.update id (.library address)).update
        (·.registerPlugin .host (.library address)) .host) := by
  have halike : p.Alike (p.update id (.library address)) := .update (fun o => ⟨_, rfl⟩) _
  have hdefined (x : InstanceAddress) :
      definedIn x (steps ++ [.ccrRegister (.library address)]) = definedIn x steps := by
    rw [definedIn_concat]
    exact List.append_nil _
  change Holding _ _ _ ⟨p.host.registerPlugin .host (.library address), _⟩
  rw [h.host_registerPlugin address]
  constructor
  · exact h.staticRegistry
  · exact h.staticCustomParameters
  · rw [hdefined]
    exact h.registry
  · rfl
  · rw [pluginsOf_ccrRegister]
    intro x hx
    change ((p.update id (.library address)).libraries.contains x) = true
    rw [Process.contains_update]
    by_cases hxa : x = address
    · simp [hxa]
    · have hold : x ∈ pluginsOf steps := by
        split_ifs at hx
        · exact hx
        · simpa [hxa] using hx
      rw [h.loaded x hold, Bool.or_true]
  · intro x
    rw [hdefined]
    exact (h.library x).congr (halike.library x)

theorem Holding.cleanup (h : Holding definitions parameters steps p) :
    Idle definitions parameters p.cleanup where
  plugins := rfl
  libraries := rfl
  snapshot := .inr ⟨h.staticRegistry, h.staticCustomParameters, rfl, rfl⟩

/-- During a session the queries visit the host's definitions and then the plugins'. -/
theorem Holding.exposes (h : Holding definitions parameters steps p)
    (hdefinitions : (definitions.map Entry.sourceLocation).Nodup)
    (hsteps : ((definedIn .host steps).map Entry.sourceLocation).Nodup) :
    ∃ d, p.view = some d ∧ d.Exposes definitions (pluginDefinitions steps) := by
  refine ⟨_, p.view_eq h.plugins h.loaded, Visits.exposes
    ⟨p.host.staticRegistry.values.map Entry.definition,
      (p.host.registry.values ++ (pluginsOf steps).flatMap fun address =>
        (p.library address).registry.values).map Entry.definition, ?_, ?_, ?_⟩⟩
  · simp only [entries, List.flatMap_map, List.map_append, List.append_assoc]
  · have hperm := h.staticRegistry.values_perm
    rwa [held_of_nodup hdefinitions] at hperm
  · have hperm := h.registry.values_perm
    rw [held_of_nodup hsteps] at hperm
    rw [pluginDefinitions, List.map_append, List.map_append, List.map_flatMap, List.map_flatMap]
    exact hperm.append (.flatMap_left _ fun address _ => (h.library address).values_perm)

/-- After a session the queries visit the host's definitions. -/
theorem Idle.exposes (h : Idle definitions parameters p)
    (hdefinitions : (definitions.map Entry.sourceLocation).Nodup) :
    ∃ d, p.view = some d ∧ d.Exposes definitions [] := by
  have hview : p.view = some {
      registry := p.host.registry
      plugins := []
      staticRegistry := p.host.staticRegistry } := by
    unfold Process.view
    rw [h.plugins]
    rfl
  refine ⟨_, hview, Visits.exposes ⟨_, [], (List.append_nil _).symm, ?_, .refl _⟩⟩
  have hperm : ((p.host.staticRegistry.values ++ p.host.registry.values).map
      Entry.definition).Perm (definitions.map Entry.definition) := by
    rw [← held_of_nodup hdefinitions]
    rcases h.snapshot with ⟨hstatic,_,hregistry,_⟩ | ⟨hstatic,_,hregistry,_⟩
    · rw [hstatic]
      exact hregistry.values_perm
    · rw [hregistry]
      exact (List.append_nil _).symm ▸ hstatic.values_perm
  simpa only [entries, List.flatMap_nil, List.append_nil] using hperm

variable [DecidableEq CustomParameterEntry]

/-- Every step of a session is taken. -/
theorem Holding.apply (h : Holding definitions parameters steps p)
    (s : LoadStep CustomParameterEntry) (world : World idGenerator Event) :
    ∃ p' world', run (s.apply p) world = (.ok p', world') ∧
      Holding definitions parameters (steps ++ [s]) p' := by
  cases s with
  | register plugin e =>
    cases plugin with
    | host => exact ⟨_, world, rfl, h.registerHost e⟩
    | library address => exact ⟨_, world, rfl, h.registerLibrary address e⟩
  | registerParameter plugin e =>
    have halike : p.Alike (p.update (·.registerParameter e) plugin) := .update (fun o => ⟨_, rfl⟩) _
    exact ⟨_, world, rfl, h.silent (fun _ => rfl) rfl halike⟩
  | ccrRegister plugin =>
    cases plugin with
    | host =>
      have halike : p.Alike ((p.update id .host).update (·.registerPlugin .host .host) .host) :=
        .update (fun o => ⟨_, if_pos rfl⟩) _
      exact ⟨_, world, rfl, h.silent (fun _ => rfl) rfl halike⟩
    | library address => exact ⟨_, world, rfl, h.registerPlugin address⟩
  | loadIds =>
    obtain ⟨p',world',_,_,hrun,halike,_⟩ :=
      p.run_loadIds h.plugins (pluginsOf_nodup steps) h.loaded world
    exact ⟨p', world', hrun, h.silent (fun _ => rfl) rfl halike⟩

theorem Idle.takeSnapshot (h : Idle definitions parameters p) :
    Holding definitions parameters [] p.takeSnapshot := by
  have hplugins : p.takeSnapshot.host.plugins = [] := by
    change (RegistrationInstance.takeSnapshot p.host).plugins = []
    unfold RegistrationInstance.takeSnapshot
    split_ifs <;> exact h.plugins
  have hlibrary (address : ℕ) : p.takeSnapshot.library address = {} := by
    change (p.libraries.find? address).getD {} = {}
    rw [h.libraries]
    rfl
  have hhost : Holds p.takeSnapshot.host.staticRegistry definitions ∧
      p.takeSnapshot.host.staticCustomParameters = parameters ∧
      p.takeSnapshot.host.registry = Map.empty := by
    change Holds (RegistrationInstance.takeSnapshot p.host).staticRegistry definitions ∧
      (RegistrationInstance.takeSnapshot p.host).staticCustomParameters = parameters ∧
      (RegistrationInstance.takeSnapshot p.host).registry = Map.empty
    unfold RegistrationInstance.takeSnapshot
    rcases h.snapshot with ⟨hstatic,hstatic',hregistry,hparameters⟩ |
        ⟨hstatic,hstatic',hregistry,hparameters⟩
    · have hfirst : p.host.staticRegistry.values.isEmpty ∧
          p.host.staticCustomParameters = ∅ := by
        rw [hstatic]
        exact ⟨rfl, hstatic'⟩
      rw [if_pos hfirst]
      exact ⟨hregistry, hparameters, rfl⟩
    · -- a snapshot that is empty is taken again, of nothing
      split_ifs with hempty
      · refine ⟨?_, ?_, rfl⟩
        · rw [hregistry]
          exact hstatic.eq_empty hempty.1
        · rw [hparameters, ← hstatic', hempty.2]
      · exact ⟨hstatic, hstatic', hregistry⟩
  constructor
  · exact hhost.1
  · exact hhost.2.1
  · rw [hhost.2.2]
    exact .empty
  · exact hplugins
  · intro address hmem
    simp [pluginsOf, keysOf] at hmem
  · intro address
    rw [hlibrary]
    exact .empty

theorem Idle.load (h : Idle definitions parameters p)
    (steps : List (LoadStep CustomParameterEntry)) (world : World idGenerator Event) :
    ∃ p' world', run (load p steps) world = (.ok p', world') ∧
      Holding definitions parameters steps p' := by
  unfold PluginSession.load
  induction steps using List.reverseRecOn with
  | nil => exact ⟨_, world, rfl, h.takeSnapshot⟩
  | append_singleton steps s ih =>
    obtain ⟨p₁,world₁,hrun,hholding⟩ := ih
    obtain ⟨p',world',hstep,hholding'⟩ := hholding.apply s world₁
    refine ⟨p', world', ?_, hholding'⟩
    rw [List.foldlM_append, run_bind, hrun]
    simp only [List.foldlM_cons, List.foldlM_nil, run_bind, hstep]
    rfl

theorem Idle.session (h : Idle definitions parameters p)
    (steps : List (LoadStep CustomParameterEntry)) (world : World idGenerator Event) :
    ∃ p' world', run (session p steps) world = (.ok p', world') ∧
      Idle definitions parameters p' := by
  obtain ⟨p',world',hrun,hholding⟩ := h.load steps world
  refine ⟨p'.cleanup, world', ?_, hholding.cleanup⟩
  unfold PluginSession.session
  rw [run_bind, hrun]
  rfl

/-- Any number of sessions ends in the state they began in. -/
theorem Idle.sessions (h : Idle definitions parameters p)
    (sessions : List (List (LoadStep CustomParameterEntry))) (world : World idGenerator Event) :
    ∃ p' world', run (sessions.foldlM PluginSession.session p) world = (.ok p', world') ∧
      Idle definitions parameters p' := by
  induction sessions generalizing p world with
  | nil => exact ⟨p, world, rfl, h⟩
  | cons steps sessions ih =>
    obtain ⟨p₁,world₁,hrun,hidle⟩ := h.session steps world
    obtain ⟨p',world',hrest,hidle'⟩ := ih hidle world₁
    refine ⟨p', world', ?_, hidle'⟩
    rw [List.foldlM_cons, run_bind, hrun]
    exact hrest

theorem idle_start (definitions : List Entry)
    (parameters : List (ℕ → CustomParameterEntry)) :
    ∃ customParameters, Idle definitions customParameters (start definitions parameters) := by
  have hregistered (es : List Entry) : es.foldl RegistrationInstance.register
      ({} : RegistrationInstance CustomParameterEntry) = { registry := registryOf es } := by
    induction es using List.reverseRecOn with
    | nil => rfl
    | append_singleton es e ih =>
      rw [List.foldl_concat, ih, registryOf_concat]
      rfl
  have hparameters (ps : List (ℕ → CustomParameterEntry))
      (o : RegistrationInstance CustomParameterEntry) : ∃ customParameters,
        ps.foldl RegistrationInstance.registerParameter o =
          { o with customParameters := customParameters } := by
    induction ps generalizing o with
    | nil => exact ⟨_, rfl⟩
    | cons q ps ih => exact ih (o.registerParameter q)
  obtain ⟨customParameters,hstart⟩ := hparameters parameters { registry := registryOf definitions }
  refine ⟨customParameters, ?_⟩
  unfold PluginSession.start
  rw [hregistered, hstart]
  exact ⟨rfl, rfl, .inl ⟨rfl, rfl, rfl, rfl⟩⟩

end

/-- Whatever sessions came before, during a session the queries visit the host's
definitions and then those of the plugins loaded so far, each once; `LoadIds` changes
nothing but the ids, which are distinct and have not been drawn before; and after the
session the queries visit the host's definitions. -/
theorem plugin_sessions_exact [DecidableEq CustomParameterEntry] (definitions : List Entry)
    (parameters : List (ℕ → CustomParameterEntry))
    (sessions : List (List (LoadStep CustomParameterEntry)))
    (steps : List (LoadStep CustomParameterEntry)) (world : World idGenerator Event)
    (hdefinitions : (definitions.map Entry.sourceLocation).Nodup)
    (hsteps : ((definedIn .host steps).map Entry.sourceLocation).Nodup) :
    ∃ p world', run (sessions.foldlM session (start definitions parameters) >>=
        fun p => load p steps) world = (.ok p, world') ∧
      (∃ d, p.view = some d ∧ d.Exposes definitions (pluginDefinitions steps) ∧
        ∃ p' world'' d', run p.loadIds world' = (.ok p', world'') ∧ p'.view = some d' ∧
          d'.entries.map Entry.definition = d.entries.map Entry.definition ∧
          (d'.entries.map Entry.id).Nodup ∧ ∀ e ∈ d'.entries, e.id ∉ drawn world'.log) ∧
      ∃ d, p.cleanup.view = some d ∧ d.Exposes definitions [] := by
  obtain ⟨_,hstart⟩ := idle_start definitions parameters
  obtain ⟨p₁,world₁,hrun,hidle⟩ := hstart.sessions sessions world
  obtain ⟨p,world',hload,hholding⟩ := hidle.load steps world₁
  refine ⟨p, world', ?_, ?_, hholding.cleanup.exposes hdefinitions⟩
  · rw [run_bind, hrun]
    exact hload
  · obtain ⟨d,hview,hexposes⟩ := hholding.exposes hdefinitions hsteps
    obtain ⟨p',world'',d',d'',hids,_,hview',hview'',hnamed⟩ :=
      p.run_loadIds hholding.plugins (pluginsOf_nodup steps) hholding.loaded world'
    obtain rfl : d = d' := Option.some.inj (hview.symm.trans hview')
    refine ⟨d, hview, hexposes, p', world'', d'', hids, hview'', ?_, ?_, ?_⟩
    · rw [hnamed, named_definition]
    · rw [hnamed]
      exact named_ids_nodup _ _
    · intro e he
      rw [hnamed] at he
      exact named_id_not_drawn world' he

/-- A hook of the host's, a session of two plugins after one that was broken off, with a
step that shares the host's instance and a hook in an instance that is registered twice. -/
theorem plugin_sessions_exact_two :
    let hook (line : ℕ) : Entry :=
      .hook (.ofGlobalHook .beforeAll {} (fun _ => .passed) (toLex ("hooks.cpp",line)))
    let step (line : ℕ) : Entry :=
      .step
        { regex := "a step"
          factory := fun _ => .passed
          sourceLocation := toLex ("steps.cpp",line) }
    let steps : List (LoadStep ℕ) :=
      [.register .host (step 1), .register (.library 7) (hook 1), .ccrRegister (.library 7),
        .loadIds, .ccrRegister (.library 7)]
    ∃ p world', run ([[.register .host (step 1)]].foldlM session (start [hook 2] [id]) >>=
        fun p => load p steps) (World.start decimalIds Event) = (.ok p, world') ∧
      (∃ d, p.view = some d ∧ d.Exposes [hook 2] (pluginDefinitions steps) ∧
        ∃ p' world'' d', run p.loadIds world' = (.ok p', world'') ∧ p'.view = some d' ∧
          d'.entries.map Entry.definition = d.entries.map Entry.definition ∧
          (d'.entries.map Entry.id).Nodup ∧ ∀ e ∈ d'.entries, e.id ∉ drawn world'.log) ∧
      ∃ d, p.cleanup.view = some d ∧ d.Exposes [hook 2] [] :=
  plugin_sessions_exact _ _ _ _ _ (by decide) (by decide)

end PluginSession

end CucumberCpp
