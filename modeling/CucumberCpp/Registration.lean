import CucumberCpp.Support

/-! `support/DefinitionRegistration.cpp` and `HookRegistry::LoadHooks`: from the
definitions in a program to the hooks that are found. -/
namespace CucumberCpp

open EventLog OrderedMap

variable {idGenerator : IdGenerator}

structure GlobalHook where
  name : String := ""
  order : ℤ := 0

structure Hook where
  expression : String := ""
  name : String := ""
  order : ℤ := 0

structure HookEntry where
  type : HookType
  expression : Option String
  name : Option String
  order : ℤ
  factory : HookFactory
  sourceLocation : SourceLocation
  id : String := "unassigned"

namespace HookEntry

def ofGlobalHook (type : HookType) (hook : GlobalHook) (factory : HookFactory)
    (sourceLocation : SourceLocation) : HookEntry where
  type := type
  expression := none
  name := if hook.name.isEmpty then none else some hook.name
  order := hook.order
  factory := factory
  sourceLocation := sourceLocation

def ofHook (type : HookType) (hook : Hook) (factory : HookFactory)
    (sourceLocation : SourceLocation) : HookEntry where
  type := type
  expression := if hook.expression.isEmpty then none else some hook.expression
  name := if hook.name.isEmpty then none else some hook.name
  order := hook.order
  factory := factory
  sourceLocation := sourceLocation

end HookEntry

/-- `StepStringRegistration::Entry`. -/
structure StepEntry where
  regex : String
  factory : StepFactory
  sourceLocation : SourceLocation
  id : String := "unassigned"

/-- `support::Entry`. -/
inductive DefinitionRegistration.Entry where
  | hook (entry : HookEntry)
  | step (entry : StepEntry)

namespace DefinitionRegistration.Entry

def id : Entry → String
  | .hook entry => entry.id
  | .step entry => entry.id

def withId (id : String) : Entry → Entry
  | .hook entry => .hook { entry with id := id }
  | .step entry => .step { entry with id := id }

def hook? : Entry → Option HookEntry
  | .hook entry => some entry
  | .step _ => none

def step? : Entry → Option StepEntry
  | .hook _ => none
  | .step entry => some entry

def sourceLocation : Entry → SourceLocation
  | .hook entry => entry.sourceLocation
  | .step entry => entry.sourceLocation

theorem hook?_withId (e : Entry) (id : String) :
    (e.withId id).hook? = e.hook?.map fun h => { h with id := id } := by
  cases e <;> rfl

end DefinitionRegistration.Entry

/-- `DefinitionRegistration`; of the plugins, which have one each, only the
`registry` is ever read. -/
structure DefinitionRegistration where
  registry : Map SourceLocation DefinitionRegistration.Entry := Map.empty
  plugins : List (Map SourceLocation DefinitionRegistration.Entry) := []
  staticRegistry : Map SourceLocation DefinitionRegistration.Entry := Map.empty

namespace DefinitionRegistration

variable (d : DefinitionRegistration)

/-- `Register`; a second definition at the same place is dropped. -/
def register (sourceLocation : SourceLocation) (entry : Entry) : DefinitionRegistration :=
  { d with registry := d.registry.tryEmplace sourceLocation entry }

def registerHook (hook : Hook) (hookType : HookType) (factory : HookFactory)
    (sourceLocation : SourceLocation) : DefinitionRegistration :=
  d.register sourceLocation (.hook (.ofHook hookType hook factory sourceLocation))

def registerGlobalHook (hook : GlobalHook) (hookType : HookType) (factory : HookFactory)
    (sourceLocation : SourceLocation) : DefinitionRegistration :=
  d.register sourceLocation (.hook (.ofGlobalHook hookType hook factory sourceLocation))

def registerStep (matcher : String) (factory : StepFactory) (sourceLocation : SourceLocation) :
    DefinitionRegistration :=
  d.register sourceLocation (.step
    { regex := matcher, factory := factory, sourceLocation := sourceLocation })

def assignGenerator (entry : Entry) : Run idGenerator Entry := do
  let id ← nextId
  pure (entry.withId id)

def loadIds : Run idGenerator DefinitionRegistration := do
  let staticRegistry ← d.staticRegistry.traverse assignGenerator
  let registry ← d.registry.traverse assignGenerator
  let plugins ← d.plugins.mapM' fun plugin => plugin.traverse assignGenerator
  pure { registry := registry, plugins := plugins, staticRegistry := staticRegistry }

def collectHooks (reg : Map SourceLocation Entry) : List HookEntry :=
  reg.values.filterMap Entry.hook?

def getHooks : List HookEntry :=
  collectHooks d.staticRegistry ++ collectHooks d.registry ++ d.plugins.flatMap collectHooks

def collectSteps (reg : Map SourceLocation Entry) : List StepEntry :=
  reg.values.filterMap Entry.step?

/-- What `ForEachRegisteredStep` visits. -/
def registeredSteps : List StepEntry :=
  collectSteps d.staticRegistry ++ collectSteps d.registry ++ d.plugins.flatMap collectSteps

/-- What `ForEachRegisteredEntry` visits: all definitions, in the order in which
they are given ids. -/
def entries : List Entry :=
  d.staticRegistry.values ++ d.registry.values ++ d.plugins.flatMap Map.values

theorem getHooks_eq : d.getHooks = d.entries.filterMap Entry.hook? := by
  simp only [getHooks, entries, List.filterMap_append, List.filterMap_flatMap]
  rfl

theorem registeredSteps_eq : d.registeredSteps = d.entries.filterMap Entry.step? := by
  simp only [registeredSteps, entries, List.filterMap_append, List.filterMap_flatMap]
  rfl

/-- The definitions with the names of the supply from `start` on for their ids. -/
def named (idGenerator : IdGenerator) (start : ℕ) (entries : List Entry) : List Entry :=
  entries.mapIdx fun i e => e.withId (idGenerator.name (start+i))

theorem named_cons (start : ℕ) (e : Entry) (es : List Entry) :
    named idGenerator start (e :: es) =
      e.withId (idGenerator.name start) :: named idGenerator (start+1) es := by
  simp only [named, List.mapIdx_cons, add_zero, Nat.add_left_comm, Nat.add_comm]

theorem named_append (start : ℕ) (es es' : List Entry) :
    named idGenerator start (es ++ es') =
      named idGenerator start es ++ named idGenerator (start+es.length) es' := by
  simp only [named, List.mapIdx_append, Nat.add_comm, Nat.add_left_comm]

theorem named_ids (start : ℕ) (entries : List Entry) :
    (named idGenerator start entries).map Entry.id =
      (List.range' start entries.length).map idGenerator.name := by
  induction entries generalizing start with
  | nil => rfl
  | cons e entries ih =>
    have hid : (e.withId (idGenerator.name start)).id = idGenerator.name start := by
      cases e <;> rfl
    rw [named_cons, List.map_cons, hid, ih, List.length_cons, List.range'_succ, List.map_cons]

theorem named_ids_nodup (start : ℕ) (entries : List Entry) :
    ((named idGenerator start entries).map Entry.id).Nodup := by
  rw [named_ids]
  have hplaces : (List.range' start entries.length).Nodup := List.nodup_range'
  exact hplaces.map idGenerator.distinct

/-- Names from where the supply stands on have not been handed out. -/
theorem named_id_not_drawn (world : World idGenerator Event) {entries : List Entry} {e : Entry}
    (h : e ∈ named idGenerator world.next entries) : e.id ∉ drawn world.log := by
  have hid := List.mem_map_of_mem (f := Entry.id) h
  rw [named_ids] at hid
  obtain ⟨i,hi,hname⟩ := List.mem_map.mp hid
  rw [world.supplied]
  intro hdrawn
  obtain ⟨j,hj,hname'⟩ := List.mem_map.mp hdrawn
  have hij : i = j := idGenerator.distinct (hname.trans hname'.symm)
  have hlow := (List.mem_range'_1.mp hi).1
  have hhigh := List.mem_range.mp hj
  omega

theorem run_traverseList (es : List (SourceLocation × Entry)) (world : World idGenerator Event) :
    ∃ es' world', run (Map.traverseList assignGenerator es) world = (.ok es', world') ∧
      es'.1.map Prod.snd = named idGenerator world.next (es.map Prod.snd) ∧
      world'.next = world.next+es.length := by
  induction es generalizing world with
  | nil => exact ⟨⟨[], rfl⟩, world, rfl, rfl, rfl⟩
  | cons p es ih =>
    obtain ⟨location,e⟩ := p
    obtain ⟨es',world',hrun,hvalues,hnext⟩ := ih world.draw
    refine ⟨⟨(location,e.withId (idGenerator.name world.next)) :: es'.1, by simp [es'.2]⟩, world',
      ?_, ?_, ?_⟩
    · unfold Map.traverseList
      rw [run_bind]
      change run (Map.traverseList assignGenerator es >>= _) world.draw = _
      rw [run_bind, hrun]
      rfl
    · rw [List.map_cons, List.map_cons, named_cons, hvalues]
      rfl
    · rw [hnext, List.length_cons]
      change world.next+1+es.length = _
      omega

/-- The definitions of a map are given ids in the order of the map. -/
theorem run_traverse (m : Map SourceLocation Entry) (world : World idGenerator Event) :
    ∃ m' world', run (m.traverse assignGenerator) world = (.ok m', world') ∧
      m'.keys = m.keys ∧ m'.values = named idGenerator world.next m.values ∧
      world'.next = world.next+m.values.length := by
  obtain ⟨es',world',hrun,hvalues,hnext⟩ := run_traverseList m.entries world
  refine ⟨⟨es'.1, by rw [es'.2]; exact m.sorted⟩, world', ?_, es'.2, hvalues, ?_⟩
  · unfold Map.traverse
    rw [run_bind, hrun]
    rfl
  · rw [hnext, Map.values, List.length_map]

theorem run_traverse_plugins (plugins : List (Map SourceLocation Entry))
    (world : World idGenerator Event) :
    ∃ plugins' world',
      run (plugins.mapM' fun plugin => plugin.traverse assignGenerator) world =
        (.ok plugins', world') ∧
      plugins'.flatMap Map.values = named idGenerator world.next (plugins.flatMap Map.values) := by
  induction plugins generalizing world with
  | nil => exact ⟨[], world, rfl, rfl⟩
  | cons plugin plugins ih =>
    obtain ⟨plugin',world',hplugin,_,hvalues,hnext⟩ := run_traverse plugin world
    obtain ⟨plugins',world'',hplugins,hrest⟩ := ih world'
    refine ⟨plugin' :: plugins', world'', ?_, ?_⟩
    · rw [List.mapM'_cons, run_bind, hplugin]
      simp only [run_bind, hplugins]
      rfl
    · rw [List.flatMap_cons, List.flatMap_cons, named_append, hvalues, hrest, hnext]

/-- `LoadIds` gives every definition an id of its own, in order. -/
theorem run_loadIds (d : DefinitionRegistration) (world : World idGenerator Event) :
    ∃ loaded, (run d.loadIds world).1 = .ok loaded ∧
      loaded.entries = named idGenerator world.next d.entries := by
  obtain ⟨static',world₁,hstatic,_,hvalues,hnext⟩ := run_traverse d.staticRegistry world
  obtain ⟨registry',world₂,hregistry,_,hvalues',hnext'⟩ := run_traverse d.registry world₁
  obtain ⟨plugins',world₃,hplugins,hvalues''⟩ := run_traverse_plugins d.plugins world₂
  refine ⟨⟨registry', plugins', static'⟩, ?_, ?_⟩
  · unfold loadIds
    simp only [run_bind, hstatic, hregistry, hplugins]
    rfl
  · simp only [entries, named_append, hvalues, hvalues', hvalues'', hnext, hnext',
      List.length_append, Nat.add_assoc]

end DefinitionRegistration

/-- The constructor of `HookRegistry::Definition`; `parse` is that of the tag expressions. -/
def HookDefinition.ofEntry (parse : String → TagExpression) (entry : HookEntry) :
    HookDefinition where
  data :=
    { id := entry.id
      type := entry.type
      expression := entry.expression
      name := entry.name
      sourceLocation := entry.sourceLocation }
  tagExpression := parse (entry.expression.getD "")
  factory := entry.factory

/-- `LoadHooks`, for the hooks of `DefinitionRegistration::Instance()`. -/
def HookRegistry.loadHooks (parse : String → TagExpression) (hooks : List HookEntry) :
    HookRegistry :=
  hooks.foldl (fun r entry => r.register (.ofEntry parse entry)) .empty

/-- A hook of this type that accepts the tags. -/
def HookEntry.selected (parse : String → TagExpression) (hookType : HookType)
    (tags : Finset String) (entry : HookEntry) : Bool :=
  decide (entry.type = hookType) && parse (entry.expression.getD "") tags

section

variable {parse : String → TagExpression} {hookType : HookType} {tags : Finset String}

theorem find?_loadHooks (hooks : List HookEntry) (id : String) :
    (HookRegistry.loadHooks parse hooks).registry.find? id =
      (hooks.find? fun entry => entry.id = id).map (.ofEntry parse) := by
  have hfold : HookRegistry.loadHooks parse hooks =
      (hooks.map (.ofEntry parse)).foldl HookRegistry.register .empty := by
    rw [List.foldl_map]
    rfl
  rw [hfold, HookRegistry.find?_foldl_register, List.find?_map]
  rfl

/-- Which hooks are found, and how often, does not depend on their ids. -/
theorem findIds_loadHooks_perm {hooks : List HookEntry} (hids : (hooks.map HookEntry.id).Nodup) :
    ((HookRegistry.loadHooks parse hooks).findIds hookType tags).Perm
      ((hooks.filter (HookEntry.selected parse hookType tags)).map HookEntry.id) := by
  apply (List.perm_ext_iff_of_nodup (HookRegistry.findIds_nodup _ _ _)
    (hids.sublist (List.filter_sublist.map HookEntry.id))).mpr
  intro id
  rw [HookRegistry.mem_findIds, find?_loadHooks]
  constructor
  · intro h
    obtain ⟨d,hd,_,htype,htags⟩ := h
    obtain ⟨entry,hfind,rfl⟩ := Option.map_eq_some_iff.mp hd
    have hid : entry.id = id := by simpa using List.find?_some hfind
    have hselected : entry.selected parse hookType tags = true := by
      rw [HookEntry.selected, Bool.and_eq_true, decide_eq_true_eq]
      exact ⟨htype, htags⟩
    exact List.mem_map.mpr
      ⟨entry, List.mem_filter.mpr ⟨List.mem_of_find?_eq_some hfind, hselected⟩, hid⟩
  · intro h
    obtain ⟨entry,hentry,rfl⟩ := List.mem_map.mp h
    obtain ⟨hmem,hselected⟩ := List.mem_filter.mp hentry
    rw [HookEntry.selected, Bool.and_eq_true, decide_eq_true_eq] at hselected
    have hfind : hooks.find? (fun entry' => entry'.id = entry.id) = some entry := by
      have hsome : (hooks.find? fun entry' => entry'.id = entry.id).isSome :=
        List.find?_isSome.mpr ⟨entry, hmem, by simp⟩
      obtain ⟨entry',hfind⟩ := Option.isSome_iff_exists.mp hsome
      have hid : entry'.id = entry.id := by simpa using List.find?_some hfind
      rw [hfind, List.inj_on_of_nodup_map hids (List.mem_of_find?_eq_some hfind) hmem hid]
    exact ⟨.ofEntry parse entry, by rw [hfind]; rfl, rfl, hselected.1, hselected.2⟩

variable (idGenerator) in
/-- What relates the ids of some hooks relates the names at their places. -/
theorem pairwise_named_iff {R : String → String → Prop} {p : HookEntry → Bool}
    (hp : ∀ entry id, p { entry with id := id } = p entry) (start : ℕ)
    (entries : List DefinitionRegistration.Entry) :
    ((((DefinitionRegistration.named idGenerator start entries).filterMap
      DefinitionRegistration.Entry.hook?).filter p).map HookEntry.id).Pairwise R ↔
      ∀ i j e f, i < j → entries[i]? = some (.hook e) → entries[j]? = some (.hook f) →
        p e = true → p f = true → R (idGenerator.name (start+i)) (idGenerator.name (start+j)) := by
  rw [List.pairwise_map, List.pairwise_filter, List.pairwise_filterMap, List.pairwise_iff_getElem]
  simp only [DefinitionRegistration.named, List.getElem_mapIdx, List.length_mapIdx,
    DefinitionRegistration.Entry.hook?_withId, Option.map_eq_some_iff]
  constructor
  · intro h i j e f hlt he hf hpe hpf
    obtain ⟨hi,hei⟩ := List.getElem?_eq_some_iff.mp he
    obtain ⟨hj,hfj⟩ := List.getElem?_eq_some_iff.mp hf
    exact h i j hi hj hlt _ ⟨e, by rw [hei]; rfl, rfl⟩ _ ⟨f, by rw [hfj]; rfl, rfl⟩
      ((hp e _).trans hpe) ((hp f _).trans hpf)
  · intro h i j hi hj hlt b hb b' hb' hpb hpb'
    obtain ⟨e,he,rfl⟩ := hb
    obtain ⟨f,hf,rfl⟩ := hb'
    rw [hp] at hpb hpb'
    have hhook {k : ℕ} (hk : k < entries.length) {g : HookEntry} (hg : entries[k].hook? = some g) :
        entries[k]? = some (.hook g) := by
      rw [List.getElem?_eq_getElem hk]
      cases hentry : entries[k] with
      | hook entry =>
        rw [hentry] at hg
        cases hg
        rfl
      | step entry =>
        rw [hentry] at hg
        cases hg
    exact h i j e f hlt (hhook hi he) (hhook hj hf) hpb hpb'

end

section Loaded

variable {d loaded : DefinitionRegistration} {start : ℕ}
  (hentries : loaded.entries = DefinitionRegistration.named idGenerator start d.entries)

include hentries

theorem DefinitionRegistration.getHooks_of_named : loaded.getHooks =
    (named idGenerator start d.entries).filterMap Entry.hook? := by
  rw [loaded.getHooks_eq, hentries]

/-- The ids that `LoadIds` hands out are distinct, so that every hook is found. -/
theorem findIds_perm_of_named (parse : String → TagExpression) (hookType : HookType)
    (tags : Finset String) :
    ((HookRegistry.loadHooks parse loaded.getHooks).findIds hookType tags).Perm
      ((loaded.getHooks.filter (HookEntry.selected parse hookType tags)).map HookEntry.id) := by
  apply findIds_loadHooks_perm
  have hne : ((((DefinitionRegistration.named idGenerator start d.entries).filterMap
      DefinitionRegistration.Entry.hook?).filter fun _ => true).map HookEntry.id).Pairwise
        (· ≠ ·) := by
    apply (pairwise_named_iff idGenerator (fun _ _ => rfl) _ _).mpr
    intro i j _ _ hlt _ _ _ _ heq
    have hplace := idGenerator.distinct heq
    omega
  rwa [← DefinitionRegistration.getHooks_of_named hentries, List.filter_true] at hne

/-- What is found is sorted by the ids, so that the order of `GetHooks` is kept exactly when the
ids increase with the places. -/
theorem findIds_eq_iff_of_named (parse : String → TagExpression) (hookType : HookType)
    (tags : Finset String) :
    (HookRegistry.loadHooks parse loaded.getHooks).findIds hookType tags =
        (loaded.getHooks.filter (HookEntry.selected parse hookType tags)).map HookEntry.id ↔
      ∀ i j e f, i < j → d.entries[i]? = some (.hook e) → d.entries[j]? = some (.hook f) →
        e.selected parse hookType tags = true → f.selected parse hookType tags = true →
        idGenerator.name (start+i) < idGenerator.name (start+j) := by
  have hplaces := pairwise_named_iff idGenerator (R := (· < ·))
    (p := HookEntry.selected parse hookType tags) (fun _ _ => rfl) start d.entries
  rw [← DefinitionRegistration.getHooks_of_named hentries] at hplaces
  rw [← hplaces]
  have hsorted := (HookRegistry.loadHooks parse loaded.getHooks).findIds_sorted hookType tags
  constructor
  · intro heq
    rw [← heq]
    exact hsorted
  · intro hpairwise
    exact (findIds_perm_of_named hentries parse hookType tags).eq_of_pairwise' hsorted hpairwise

end Loaded

/-- After loading, the hooks found for a type and a tag set are those of the type
that accept the tags, each once; they are found in the order of `GetHooks`
exactly when their ids, as strings, increase with their places. -/
theorem findIds_loadIds_iff (parse : String → TagExpression) (d : DefinitionRegistration)
    (world : World idGenerator Event) :
    ∃ loaded, (run d.loadIds world).1 = .ok loaded ∧
      loaded.entries = DefinitionRegistration.named idGenerator world.next d.entries ∧
      ∀ hookType tags,
        ((HookRegistry.loadHooks parse loaded.getHooks).findIds hookType tags).Perm
          ((loaded.getHooks.filter (HookEntry.selected parse hookType tags)).map HookEntry.id) ∧
        ((HookRegistry.loadHooks parse loaded.getHooks).findIds hookType tags =
            (loaded.getHooks.filter (HookEntry.selected parse hookType tags)).map HookEntry.id ↔
          ∀ i j e f, i < j → d.entries[i]? = some (.hook e) → d.entries[j]? = some (.hook f) →
            e.selected parse hookType tags = true → f.selected parse hookType tags = true →
            idGenerator.name (world.next+i) < idGenerator.name (world.next+j)) := by
  obtain ⟨loaded,hrun,hentries⟩ := d.run_loadIds world
  exact ⟨loaded, hrun, hentries, fun hookType tags =>
    ⟨findIds_perm_of_named hentries parse hookType tags,
      findIds_eq_iff_of_named hentries parse hookType tags⟩⟩

/-- Eleven before-all hooks on consecutive lines of one file. -/
def elevenHooks : DefinitionRegistration :=
  (List.range 11).foldl (fun d line => d.registerGlobalHook {} .beforeAll
    (fun _ => .passed) (toLex ("hooks.cpp",line))) {}

/-- Ids that count in decimal put the eleventh of them in third place. -/
theorem elevenHooks_not_in_order :
    ∃ loaded, (run elevenHooks.loadIds (World.start decimalIds Event)).1 = .ok loaded ∧
      (loaded.getHooks.filter (HookEntry.selected (fun _ _ => true) .beforeAll ∅)).map
        HookEntry.id = ["0", "1", "2", "3", "4", "5", "6", "7", "8", "9", "10"] ∧
      (HookRegistry.loadHooks (fun _ _ => true) loaded.getHooks).findIds .beforeAll ∅ =
        ["0", "1", "10", "2", "3", "4", "5", "6", "7", "8", "9"] :=
  ⟨_, rfl, by decide, by decide⟩

end CucumberCpp
