import CucumberCpp.Registration

/-! `PluginSession` of `Application.cpp`: one instance of `DefinitionRegistration` in the
host and one in every library that does not share the host's, over the sessions of a process. -/
namespace CucumberCpp

open EventLog OrderedMap

variable {idGenerator : IdGenerator} {CustomParameterEntry : Type}

/-- Where an instance of `DefinitionRegistration` stands. -/
inductive InstanceAddress where
  | host
  | library (address : ℕ)
  deriving DecidableEq

/-- An instance of `DefinitionRegistration` with all of its members; `plugins`
holds pointers. A container that was moved from is empty. -/
structure RegistrationInstance (CustomParameterEntry : Type) where
  registry : Map SourceLocation DefinitionRegistration.Entry := Map.empty
  customParameters : Finset CustomParameterEntry := ∅
  plugins : List InstanceAddress := []
  staticRegistry : Map SourceLocation DefinitionRegistration.Entry := Map.empty
  staticCustomParameters : Finset CustomParameterEntry := ∅

namespace RegistrationInstance

variable [DecidableEq CustomParameterEntry] (o : RegistrationInstance CustomParameterEntry)

/-- `RegisterPlugin`, called on the instance at `this`. -/
def registerPlugin (this plugin : InstanceAddress) : RegistrationInstance CustomParameterEntry :=
  if plugin = this then o
  else if plugin ∈ o.plugins then o
  else { o with plugins := o.plugins ++ [plugin] }

def unregisterPlugins : RegistrationInstance CustomParameterEntry :=
  { o with plugins := [], registry := Map.empty, customParameters := ∅ }

def takeSnapshot : RegistrationInstance CustomParameterEntry :=
  if o.staticRegistry.values.isEmpty ∧ o.staticCustomParameters = ∅ then
    { o with
      staticRegistry := o.registry
      staticCustomParameters := o.customParameters
      registry := Map.empty
      customParameters := ∅ }
  else o

/-- `Register` for a step or a hook; a second definition at the same place is dropped. -/
def register (entry : DefinitionRegistration.Entry) :
    RegistrationInstance CustomParameterEntry :=
  { o with registry := o.registry.tryEmplace entry.sourceLocation entry }

/-- `Register` for a custom parameter; `entry` builds it from its number. -/
def registerParameter (entry : ℕ → CustomParameterEntry) :
    RegistrationInstance CustomParameterEntry :=
  { o with
    customParameters := insert (entry (o.customParameters.card+1)) o.customParameters }

end RegistrationInstance

/-- The instances in a process: that of the host, and by address those of the
libraries that are loaded and have one of their own. -/
structure Process (CustomParameterEntry : Type) where
  host : RegistrationInstance CustomParameterEntry := {}
  libraries : Map ℕ (RegistrationInstance CustomParameterEntry) := Map.empty

namespace Process

variable (p : Process CustomParameterEntry)

/-- What a pointer to an instance points to; nothing when its library is not loaded. -/
def instance? : InstanceAddress → Option (RegistrationInstance CustomParameterEntry)
  | .host => some p.host
  | .library address => p.libraries.find? address

/-- Change the instance at an address; `Instance()` constructs it on its first use. -/
def update (f : RegistrationInstance CustomParameterEntry →
    RegistrationInstance CustomParameterEntry) :
    InstanceAddress → Process CustomParameterEntry
  | .host => { p with host := f p.host }
  | .library address =>
    { p with libraries := p.libraries.upsert address fun o => f (o.getD {}) }

/-- `assignGenerator` for the registry that a pointer points to. -/
def loadPluginIds (plugin : InstanceAddress) :
    Run idGenerator (Process CustomParameterEntry) :=
  match p.instance? plugin with
  | none => throw .undefinedBehaviour
  | some o => do
    let registry ← o.registry.traverse DefinitionRegistration.assignGenerator
    pure (p.update (fun o => { o with registry := registry }) plugin)

/-- `LoadIds`, called on the instance of the host. -/
def loadIds : Run idGenerator (Process CustomParameterEntry) := do
  let staticRegistry ← p.host.staticRegistry.traverse DefinitionRegistration.assignGenerator
  let registry ← p.host.registry.traverse DefinitionRegistration.assignGenerator
  p.host.plugins.foldlM loadPluginIds
    { p with host := { p.host with staticRegistry := staticRegistry, registry := registry } }

/-- The registries that the queries on the host's instance read; none when one of
its pointers dangles. -/
def view : Option DefinitionRegistration := do
  let plugins ← p.host.plugins.mapM p.instance?
  pure {
    registry := p.host.registry
    plugins := plugins.map RegistrationInstance.registry
    staticRegistry := p.host.staticRegistry }

end Process

namespace Process

variable [DecidableEq CustomParameterEntry] (p : Process CustomParameterEntry)

def takeSnapshot : Process CustomParameterEntry := p.update .takeSnapshot .host

/-- `Cleanup`; unloading the libraries ends their instances. -/
def cleanup : Process CustomParameterEntry where
  host := p.host.unregisterPlugins
  libraries := Map.empty

end Process

/-- What happens to the instances while plugins are loaded and used: a plugin's
initialisers register with its `Instance()`, which is the host's where the two are
shared, `ccr_register` passes it to `RegisterPlugin`, and a run calls `LoadIds`. -/
inductive LoadStep (CustomParameterEntry : Type) where
  | register (plugin : InstanceAddress) (entry : DefinitionRegistration.Entry)
  | registerParameter (plugin : InstanceAddress) (entry : ℕ → CustomParameterEntry)
  | ccrRegister (plugin : InstanceAddress)
  | loadIds

namespace LoadStep

def apply [DecidableEq CustomParameterEntry] (p : Process CustomParameterEntry) :
    LoadStep CustomParameterEntry → Run idGenerator (Process CustomParameterEntry)
  | .register plugin entry => pure (p.update (·.register entry) plugin)
  | .registerParameter plugin entry => pure (p.update (·.registerParameter entry) plugin)
  | .ccrRegister plugin =>
    pure ((p.update id plugin).update (·.registerPlugin .host plugin) .host)
  | .loadIds => p.loadIds

/-- The definition that a step registers with the instance at an address. -/
def definition? (address : InstanceAddress) :
    LoadStep CustomParameterEntry → Option DefinitionRegistration.Entry
  | .register plugin entry => if plugin = address then some entry else none
  | _ => none

/-- The instance other than the host's that a step passes to `RegisterPlugin`. -/
def library? : LoadStep CustomParameterEntry → Option ℕ
  | .ccrRegister (.library address) => some address
  | _ => none

end LoadStep

namespace PluginSession

variable [DecidableEq CustomParameterEntry]

/-- The constructor up to some moment of the session: a prefix of what is done to
the instances, whether loading goes on from there, fails or is over. -/
def load (p : Process CustomParameterEntry) (steps : List (LoadStep CustomParameterEntry)) :
    Run idGenerator (Process CustomParameterEntry) :=
  steps.foldlM LoadStep.apply p.takeSnapshot

/-- A whole session, from the constructor to the destructor or the failed load. -/
def session (p : Process CustomParameterEntry) (steps : List (LoadStep CustomParameterEntry)) :
    Run idGenerator (Process CustomParameterEntry) := do
  let loaded ← load p steps
  pure loaded.cleanup

/-- A process in which the host has registered its definitions and parameters. -/
def start (definitions : List DefinitionRegistration.Entry)
    (parameters : List (ℕ → CustomParameterEntry)) : Process CustomParameterEntry where
  host := parameters.foldl RegistrationInstance.registerParameter
    (definitions.foldl RegistrationInstance.register {})

end PluginSession

namespace DefinitionRegistration

/-- A definition without its id, which changes from run to run. -/
def Entry.definition (entry : Entry) : Entry := entry.withId "unassigned"

/-- The first definition at each place. -/
def held (entries : List Entry) : List Entry :=
  entries.foldl (fun kept e =>
    if e.sourceLocation ∈ kept.map Entry.sourceLocation then kept else kept ++ [e]) []

theorem held_concat (entries : List Entry) (e : Entry) : held (entries ++ [e]) =
    if e.sourceLocation ∈ (held entries).map Entry.sourceLocation then held entries
    else held entries ++ [e] :=
  List.foldl_concat ..

/-- Where no two definitions share a place, all are held. -/
theorem held_of_nodup {entries : List Entry}
    (h : (entries.map Entry.sourceLocation).Nodup) : held entries = entries := by
  induction entries using List.reverseRecOn with
  | nil => rfl
  | append_singleton entries e ih =>
    rw [List.map_append, List.nodup_append] at h
    obtain ⟨hentries,_,hdisjoint⟩ := h
    have hnew : e.sourceLocation ∉ entries.map Entry.sourceLocation :=
      fun hmem => hdisjoint _ hmem _ List.mem_cons_self rfl
    rw [held_concat, ih hentries, if_neg hnew]

theorem definition_withId (e : Entry) (id : String) :
    (e.withId id).definition = e.definition := by
  cases e <;> rfl

theorem named_definition (start : ℕ) (entries : List Entry) :
    (named idGenerator start entries).map Entry.definition = entries.map Entry.definition := by
  induction entries generalizing start with
  | nil => rfl
  | cons e entries ih =>
    rw [named_cons, List.map_cons, List.map_cons, definition_withId, ih]

/-- New ids are all that a registry gets from `LoadIds`. -/
theorem mapValues_of_named {registry registry' : Map SourceLocation Entry} {start : ℕ}
    (hkeys : registry'.keys = registry.keys)
    (hvalues : registry'.values = named idGenerator start registry.values) :
    registry'.mapValues Entry.definition = registry.mapValues Entry.definition := by
  apply Map.ext_of_values
  · rw [Map.keys_mapValues, Map.keys_mapValues, hkeys]
  · rw [Map.values_mapValues, Map.values_mapValues, hvalues, named_definition]

/-- The registry that registering the definitions one after the other leaves. -/
def registryOf (entries : List Entry) : Map SourceLocation Entry :=
  entries.foldl (fun m e => m.tryEmplace e.sourceLocation e) Map.empty

theorem registryOf_concat (entries : List Entry) (e : Entry) :
    registryOf (entries ++ [e]) = (registryOf entries).tryEmplace e.sourceLocation e :=
  List.foldl_concat ..

theorem registryOf_held (entries : List Entry) :
    (∀ x, x ∈ (registryOf entries).keys ↔ x ∈ (held entries).map Entry.sourceLocation) ∧
      (registryOf entries).values.Perm (held entries) := by
  induction entries using List.reverseRecOn with
  | nil => exact ⟨fun _ => Iff.rfl, .refl _⟩
  | append_singleton entries e ih =>
    obtain ⟨hkeys,hvalues⟩ := ih
    rw [registryOf_concat, held_concat]
    split_ifs with h
    · rw [Map.tryEmplace_of_mem ((hkeys _).mpr h)]
      exact ⟨hkeys, hvalues⟩
    · have hnew : e.sourceLocation ∉ (registryOf entries).keys := fun hmem => h ((hkeys _).mp hmem)
      constructor
      · intro x
        rw [Map.mem_keys_tryEmplace, hkeys, List.map_append, List.mem_append, or_comm]
        simp
      · have hperm := (Map.values_tryEmplace_perm hnew e).trans (hvalues.cons e)
        exact hperm.trans (List.perm_append_singleton e _).symm

/-- `registry` is what registering the definitions leaves, up to ids. -/
def Holds (registry : Map SourceLocation Entry) (entries : List Entry) : Prop :=
  registry.mapValues Entry.definition = (registryOf entries).mapValues Entry.definition

namespace Holds

variable {registry : Map SourceLocation Entry} {entries : List Entry}

theorem empty : Holds Map.empty [] := rfl

theorem congr {registry' : Map SourceLocation Entry} (h : Holds registry entries)
    (hsame : registry'.mapValues Entry.definition = registry.mapValues Entry.definition) :
    Holds registry' entries :=
  hsame.trans h

theorem register (h : Holds registry entries) (e : Entry) :
    Holds (registry.tryEmplace e.sourceLocation e) (entries ++ [e]) := by
  unfold Holds at *
  rw [registryOf_concat, Map.mapValues_tryEmplace, Map.mapValues_tryEmplace, h]

theorem values_perm (h : Holds registry entries) :
    (registry.values.map Entry.definition).Perm ((held entries).map Entry.definition) := by
  have hvalues := congrArg Map.values h
  rw [Map.values_mapValues, Map.values_mapValues] at hvalues
  rw [hvalues]
  exact (registryOf_held entries).2.map _

theorem eq_empty (h : Holds registry entries) (hnone : registry.values.isEmpty) :
    Holds Map.empty entries := by
  have hempty : registry = Map.empty := by
    obtain ⟨es,_⟩ := registry
    rw [List.isEmpty_iff] at hnone
    have hes : es = [] := List.map_eq_nil_iff.mp hnone
    subst hes
    rfl
  exact hempty ▸ h

end Holds

/-- `visited`, up to ids, is `host` in some order and then `plugins` in some order. -/
def Visits (visited host plugins : List Entry) : Prop :=
  ∃ first second, visited.map Entry.definition = first ++ second ∧
    first.Perm (host.map Entry.definition) ∧ second.Perm (plugins.map Entry.definition)

theorem Visits.filter {visited host plugins : List Entry} (h : Visits visited host plugins)
    {q : Entry → Bool} (hq : ∀ e, q e.definition = q e) :
    Visits (visited.filter q) (host.filter q) (plugins.filter q) := by
  have hmap (es : List Entry) :
      (es.filter q).map Entry.definition = (es.map Entry.definition).filter q := by
    rw [List.filter_map]
    congr 1
    exact List.filter_congr fun e _ => (hq e).symm
  obtain ⟨first,second,hvisited,hfirst,hsecond⟩ := h
  refine ⟨first.filter q, second.filter q, ?_, ?_, ?_⟩
  · rw [hmap, hvisited, List.filter_append]
  · rw [hmap]
    exact hfirst.filter q
  · rw [hmap]
    exact hsecond.filter q

/-- What the three queries visit: all definitions of the host's, then all of the plugins'. -/
structure Exposes (d : DefinitionRegistration) (host plugins : List Entry) : Prop where
  entries : Visits d.entries host plugins
  steps : Visits (d.registeredSteps.map .step) (host.filter (·.step?.isSome))
    (plugins.filter (·.step?.isSome))
  hooks : Visits (d.getHooks.map .hook) (host.filter (·.hook?.isSome))
    (plugins.filter (·.hook?.isSome))

theorem Visits.exposes {d : DefinitionRegistration} {host plugins : List Entry}
    (h : Visits d.entries host plugins) : d.Exposes host plugins := by
  have hsteps (es : List Entry) :
      (es.filterMap Entry.step?).map .step = es.filter (·.step?.isSome) := by
    induction es with
    | nil => rfl
    | cons e es ih =>
      cases e with
      | hook entry => exact ih
      | step entry => exact congrArg (Entry.step entry :: ·) ih
  have hhooks (es : List Entry) :
      (es.filterMap Entry.hook?).map .hook = es.filter (·.hook?.isSome) := by
    induction es with
    | nil => rfl
    | cons e es ih =>
      cases e with
      | hook entry => exact congrArg (Entry.hook entry :: ·) ih
      | step entry => exact ih
  refine ⟨h, ?_, ?_⟩
  · rw [registeredSteps_eq, hsteps]
    apply h.filter
    intro e
    cases e <;> rfl
  · rw [getHooks_eq, hhooks]
    apply h.filter
    intro e
    cases e <;> rfl

end DefinitionRegistration

namespace Process

variable (p : Process CustomParameterEntry)

/-- What `Instance()` gives to the library at an address. -/
def library (address : ℕ) : RegistrationInstance CustomParameterEntry :=
  (p.libraries.find? address).getD {}

variable {p}

theorem instance?_library {address : ℕ} (h : p.libraries.contains address) :
    p.instance? (.library address) = some (p.library address) := by
  obtain ⟨o,ho⟩ := Option.isSome_iff_exists.mp h
  simp only [instance?, library, ho, Option.getD_some]

theorem library_update (f : RegistrationInstance CustomParameterEntry →
    RegistrationInstance CustomParameterEntry) (address x : ℕ) :
    (p.update f (.library address)).library x =
      if x = address then f (p.library address) else p.library x := by
  simp only [library, update, Map.find?_upsert]
  split_ifs <;> rfl

theorem contains_update (f : RegistrationInstance CustomParameterEntry →
    RegistrationInstance CustomParameterEntry) (address x : ℕ) :
    (p.update f (.library address)).libraries.contains x =
      (decide (x = address) || p.libraries.contains x) := by
  simp only [Map.contains, update, Map.find?_upsert]
  split_ifs with h <;> simp [h]

theorem mapM_instance? {addresses : List ℕ}
    (h : ∀ address ∈ addresses, p.libraries.contains address) :
    (addresses.map InstanceAddress.library).mapM p.instance? = some (addresses.map p.library) := by
  rw [List.mapM_map]
  exact mapM_eq_some_map fun address hmem => instance?_library (h address hmem)

theorem run_loadPluginIds_library {address : ℕ} (hloaded : p.libraries.contains address)
    (world : World idGenerator Event) :
    ∃ registry' world', run (p.loadPluginIds (.library address)) world =
        (.ok (p.update (fun o => { o with registry := registry' }) (.library address)), world') ∧
      registry'.keys = (p.library address).registry.keys ∧
      registry'.values = DefinitionRegistration.named idGenerator world.next
        (p.library address).registry.values ∧
      world'.next = world.next+(p.library address).registry.values.length := by
  obtain ⟨registry',world',hrun,hvalues⟩ :=
    DefinitionRegistration.run_traverse (p.library address).registry world
  refine ⟨registry', world', ?_, hvalues⟩
  unfold loadPluginIds
  rw [instance?_library hloaded]
  simp only [run_bind, hrun]
  rfl

/-- The registries of the loaded plugins are given ids one after the other. -/
theorem run_loadPluginIds (addresses : List ℕ) (hnodup : addresses.Nodup)
    (p : Process CustomParameterEntry)
    (hloaded : ∀ address ∈ addresses, p.libraries.contains address)
    (world : World idGenerator Event) :
    ∃ p' world', run ((addresses.map InstanceAddress.library).foldlM loadPluginIds p) world =
        (.ok p', world') ∧
      p'.host = p.host ∧
      (∀ x, p'.libraries.contains x = p.libraries.contains x) ∧
      (∀ x, x ∉ addresses → p'.library x = p.library x) ∧
      (∀ x, (p'.library x).registry.mapValues DefinitionRegistration.Entry.definition =
        (p.library x).registry.mapValues DefinitionRegistration.Entry.definition) ∧
      addresses.flatMap (fun x => (p'.library x).registry.values) =
        DefinitionRegistration.named idGenerator world.next
          (addresses.flatMap fun x => (p.library x).registry.values) := by
  induction addresses generalizing p world with
  | nil => exact ⟨p, world, rfl, rfl, fun _ => rfl, fun _ _ => rfl, fun _ => rfl, rfl⟩
  | cons address addresses ih =>
    rw [List.nodup_cons] at hnodup
    obtain ⟨registry',world₁,hrun,hkeys,hvalues,hnext⟩ :=
      run_loadPluginIds_library (hloaded address List.mem_cons_self) world
    let p₁ := p.update (fun o => { o with registry := registry' }) (.library address)
    have hother (x : ℕ) (hx : x ≠ address) : p₁.library x = p.library x := by
      rw [library_update, if_neg hx]
    have hself : (p₁.library address).registry = registry' := by
      rw [library_update, if_pos rfl]
    have hcontains (x : ℕ) : p₁.libraries.contains x = p.libraries.contains x := by
      rw [contains_update]
      by_cases hx : x = address
      · rw [hx, hloaded address List.mem_cons_self]
        simp
      · simp [hx]
    -- the plugins that follow are loaded still, and their registries untouched
    obtain ⟨p',world',hrest,hhost,hcontains',hsame,hrenamed,hnamed⟩ := ih hnodup.2 p₁
      (fun x hx => (hcontains x).trans (hloaded x (List.mem_cons_of_mem _ hx))) world₁
    refine ⟨p', world', ?_, hhost, fun x => (hcontains' x).trans (hcontains x), ?_, ?_, ?_⟩
    · rw [List.map_cons, List.foldlM_cons, run_bind, hrun]
      exact hrest
    · intro x hx
      rw [List.mem_cons, not_or] at hx
      rw [hsame x hx.2, hother x hx.1]
    · intro x
      by_cases hx : x = address
      · -- the plugin comes once in the list, so nothing renames it again
        rw [hx, hsame address hnodup.1, hself]
        exact DefinitionRegistration.mapValues_of_named hkeys hvalues
      · rw [← hother x hx]
        exact hrenamed x
    · have htail : addresses.flatMap (fun x => (p₁.library x).registry.values) =
          addresses.flatMap fun x => (p.library x).registry.values := by
        apply List.flatMap_congr
        intro x hx
        rw [hother x fun h => hnodup.1 (h ▸ hx)]
      rw [List.flatMap_cons, List.flatMap_cons, DefinitionRegistration.named_append, hnamed, htail,
        hsame address hnodup.1, hself, hvalues, hnext]

variable (p) in
theorem view_eq {addresses : List ℕ} (hplugins : p.host.plugins = addresses.map .library)
    (hloaded : ∀ address ∈ addresses, p.libraries.contains address) :
    p.view = some {
      registry := p.host.registry
      plugins := addresses.map fun x => (p.library x).registry
      staticRegistry := p.host.staticRegistry } := by
  unfold view
  rw [hplugins, mapM_instance? hloaded]
  simp only [Option.pure_def, Option.bind_eq_bind, Option.bind_some, List.map_map]
  rfl

/-- `p'` has the plugins and, up to ids, the definitions of `p`. -/
structure Alike (p p' : Process CustomParameterEntry) : Prop where
  staticRegistry :
    p'.host.staticRegistry.mapValues DefinitionRegistration.Entry.definition =
      p.host.staticRegistry.mapValues DefinitionRegistration.Entry.definition
  staticCustomParameters : p'.host.staticCustomParameters = p.host.staticCustomParameters
  registry : p'.host.registry.mapValues DefinitionRegistration.Entry.definition =
    p.host.registry.mapValues DefinitionRegistration.Entry.definition
  plugins : p'.host.plugins = p.host.plugins
  loaded : ∀ x, p.libraries.contains x → p'.libraries.contains x
  library : ∀ x, (p'.library x).registry.mapValues DefinitionRegistration.Entry.definition =
    (p.library x).registry.mapValues DefinitionRegistration.Entry.definition

/-- What `f` leaves alone stays as it is, also where it is the first use of an instance. -/
theorem Alike.update {f : RegistrationInstance CustomParameterEntry →
    RegistrationInstance CustomParameterEntry}
    (hf : ∀ o, ∃ customParameters, f o = { o with customParameters := customParameters })
    (plugin : InstanceAddress) : p.Alike (p.update f plugin) := by
  cases plugin with
  | host =>
    obtain ⟨customParameters,ho⟩ := hf p.host
    constructor
    all_goals simp only [Process.update, ho]
    · exact fun _ hx => hx
    · exact fun _ => rfl
  | library address =>
    constructor
    all_goals try rfl
    · intro x hx
      rw [contains_update, hx, Bool.or_true]
    · intro x
      rw [library_update]
      split_ifs with hx
      · obtain ⟨customParameters,ho⟩ := hf (p.library address)
        rw [hx, ho]
      · rfl

/-- `LoadIds` on plugins that are loaded and listed once names all that is viewed, in order. -/
theorem run_loadIds {addresses : List ℕ} (hplugins : p.host.plugins = addresses.map .library)
    (hnodup : addresses.Nodup) (hloaded : ∀ address ∈ addresses, p.libraries.contains address)
    (world : World idGenerator Event) :
    ∃ p' world' d d', run p.loadIds world = (.ok p', world') ∧ p.Alike p' ∧
      p.view = some d ∧ p'.view = some d' ∧
      d'.entries = DefinitionRegistration.named idGenerator world.next d.entries := by
  obtain ⟨static',world₁,hstatic,hkeys,hvalues,hnext⟩ :=
    DefinitionRegistration.run_traverse p.host.staticRegistry world
  obtain ⟨registry',world₂,hregistry,hkeys',hvalues',hnext'⟩ :=
    DefinitionRegistration.run_traverse p.host.registry world₁
  obtain ⟨p',world₃,hrun,hhost,hcontains,_,hlibrary,hnamed⟩ := run_loadPluginIds addresses hnodup
    { p with host := { p.host with staticRegistry := static', registry := registry' } }
    hloaded world₂
  have hplugins' : p'.host.plugins = addresses.map .library := by rw [hhost]; exact hplugins
  have hloaded' : ∀ address ∈ addresses, p'.libraries.contains address :=
    fun address h => (hcontains address).trans (hloaded address h)
  refine ⟨p', world₃, _, _, ?_, ?_, p.view_eq hplugins hloaded, p'.view_eq hplugins' hloaded', ?_⟩
  · unfold loadIds
    simp only [run_bind, hstatic, hregistry]
    rw [← hplugins] at hrun
    exact hrun
  · constructor
    · rw [hhost]
      exact DefinitionRegistration.mapValues_of_named hkeys hvalues
    · rw [hhost]
    · rw [hhost]
      exact DefinitionRegistration.mapValues_of_named hkeys' hvalues'
    · rw [hhost]
    · exact fun x hx => (hcontains x).trans hx
    · exact hlibrary
  · have hlast : world₂.next = world.next+p.host.staticRegistry.values.length+
        p.host.registry.values.length := by omega
    simp only [DefinitionRegistration.entries, DefinitionRegistration.named_append,
      List.flatMap_map, List.length_append, hhost, hvalues, hvalues', hnext, ← Nat.add_assoc,
      ← hlast]
    rw [hnamed]
    rfl

end Process

end CucumberCpp
