import CucumberCpp.SupportCodeMessages

/-! What the registries hold after loading, and that the messages about the support code agree
with it. -/
namespace CucumberCpp

open EventLog OrderedMap

variable {idGenerator : IdGenerator}

namespace LoadedSteps

section

variable (compiler : MatcherCompiler)

/-- The definition of a step whose pattern compiles. -/
def compiled (entry : StepEntry) : Option LoadedStep := (compile compiler entry).toOption

/-- The record of a step whose pattern does not compile. -/
def undefined (entry : StepEntry) : Option Messages.UndefinedParameterType :=
  match compile compiler entry with
  | .ok _ => none
  | .error e => some { expression := e.expression, name := e.undefinedParameterName }

variable {compiler}

theorem id_of_compile_eq_ok {entry : StepEntry} {d : LoadedStep}
    (h : compile compiler entry = .ok d) : d.id = entry.id := by
  unfold compile at h
  cases hmatcher : compileMatcher compiler entry.regex with
  | error e =>
    rw [hmatcher] at h
    cases h
  | ok regex =>
    rw [hmatcher] at h
    rw [← Except.ok.inj h]

theorem id_of_compiled {entry : StepEntry} {d : LoadedStep} (h : compiled compiler entry = some d) :
    d.id = entry.id := by
  unfold compiled at h
  cases hcompile : compile compiler entry with
  | error e =>
    rw [hcompile] at h
    cases h
  | ok d' =>
    rw [hcompile] at h
    obtain rfl := Option.some.inj h
    exact id_of_compile_eq_ok hcompile

theorem register_of_error {entry : StepEntry} {e : UndefinedParameterTypeError}
    (h : compile compiler entry = .error e) (s : LoadedSteps) :
    s.register compiler entry = s.addUndefined e := by
  rw [register, h]

theorem register_of_ok {entry : StepEntry} {d : LoadedStep} (h : compile compiler entry = .ok d)
    (s : LoadedSteps) : s.register compiler entry = s.add d := by
  rw [register, h]

variable (compiler) in
theorem foldl_register (entries : List StepEntry) (s : LoadedSteps) :
    (entries.foldl (register compiler) s).registry =
        s.registry ++ entries.filterMap (compiled compiler) ∧
      (entries.foldl (register compiler) s).undefinedParameters =
        s.undefinedParameters ++ entries.filterMap (undefined compiler) := by
  induction entries generalizing s with
  | nil => simp
  | cons entry entries ih =>
    obtain ⟨hregistry,hundefined⟩ := ih (s.register compiler entry)
    rw [List.foldl_cons, hregistry, hundefined]
    cases hcompile : compile compiler entry with
    | error e =>
      rw [register_of_error hcompile]
      simp [addUndefined, compiled, undefined, hcompile, Except.toOption]
    | ok d =>
      rw [register_of_ok hcompile]
      simp [add, compiled, undefined, hcompile, Except.toOption]

end

/-- The index leads from the id of every definition to its place in the list. -/
structure Indexed (s : LoadedSteps) : Prop where
  distinct : (s.registry.map fun d => d.id).Nodup
  found : ∀ i d, s.registry[i]? = some d → s.idToDefinitionMap.find? d.id = some i

namespace Indexed

theorem empty : Indexed {} := ⟨List.nodup_nil, by simp⟩

variable {s : LoadedSteps}

theorem add (h : Indexed s) {d : LoadedStep} (hfresh : d.id ∉ s.registry.map fun d => d.id) :
    Indexed (s.add d) where
  distinct := by
    change ((s.registry ++ [d]).map fun d => d.id).Nodup
    rw [List.map_append]
    refine h.distinct.append (List.nodup_singleton _) ?_
    rintro id hid hid'
    obtain rfl := List.mem_singleton.mp hid'
    exact hfresh hid
  found := by
    intro i d' hd'
    change (s.registry ++ [d])[i]? = some d' at hd'
    change (s.idToDefinitionMap.insertOrAssign d.id s.registry.length).find? d'.id = some i
    rw [Map.find?_insertOrAssign]
    rcases lt_or_ge i s.registry.length with hlt | hge
    · rw [List.getElem?_append_left hlt] at hd'
      have hne : d'.id ≠ d.id := fun heq =>
        hfresh (heq ▸ List.mem_map_of_mem (List.mem_of_getElem? hd'))
      rw [if_neg hne]
      exact h.found i d' hd'
    · rw [List.getElem?_append_right hge] at hd'
      obtain ⟨hlength,heq⟩ := List.getElem?_eq_some_iff.mp hd'
      rw [List.length_singleton] at hlength
      rw [if_pos (by simp [← heq]), show i = s.registry.length by omega]

theorem foldl_register {compiler : MatcherCompiler} (h : Indexed s) {entries : List StepEntry}
    (hids : (entries.map fun e => e.id).Nodup)
    (hfresh : ∀ e ∈ entries, e.id ∉ s.registry.map fun d => d.id) :
    Indexed (entries.foldl (register compiler) s) := by
  induction entries generalizing s with
  | nil => exact h
  | cons entry entries ih =>
    rw [List.map_cons, List.nodup_cons] at hids
    rw [List.forall_mem_cons] at hfresh
    rw [List.foldl_cons]
    cases hcompile : compile compiler entry with
    | error e =>
      rw [register_of_error hcompile]
      exact ih ⟨h.distinct, h.found⟩ hids.2 hfresh.2
    | ok d =>
      have hid := id_of_compile_eq_ok hcompile
      rw [register_of_ok hcompile]
      refine ih (h.add (hid ▸ hfresh.1)) hids.2 fun e he hmem => ?_
      change e.id ∈ (s.registry ++ [d]).map fun d => d.id at hmem
      rw [List.map_append] at hmem
      rcases List.mem_append.mp hmem with hmem | hmem
      · exact hfresh.2 e he hmem
      · have heq : e.id = entry.id := (List.mem_singleton.mp hmem).trans hid
        exact hids.1 (heq ▸ List.mem_map_of_mem he)

/-- The list and the index are in one-to-one correspondence. -/
theorem keys_perm (h : Indexed s) :
    s.idToDefinitionMap.keys.Perm (s.registry.map fun d => d.id) := by
  refine (List.perm_ext_iff_of_nodup s.idToDefinitionMap.keys_nodup h.distinct).mpr fun id => ?_
  rw [← Map.find?_isSome_iff, List.mem_map]
  constructor
  · intro hsome
    obtain ⟨i,hi⟩ := Option.isSome_iff_exists.mp hsome
    obtain ⟨d,hd,hid⟩ := s.placed id i hi
    exact ⟨d, List.mem_of_getElem? hd, hid⟩
  · rintro ⟨d,hd,rfl⟩
    obtain ⟨i,hi⟩ := List.mem_iff_getElem?.mp hd
    rw [h.found i d hi]
    rfl

theorem getDefinitionById_of_mem (h : Indexed s) {d : LoadedStep} (hd : d ∈ s.registry) :
    s.getDefinitionById d.id = .ok d := by
  obtain ⟨i,hi⟩ := List.mem_iff_getElem?.mp hd
  simp only [getDefinitionById, h.found i d hi, hi]

theorem getDefinitionById_of_not_mem (h : Indexed s) {id : String}
    (hid : id ∉ s.registry.map fun d => d.id) : s.getDefinitionById id = .error .outOfRange := by
  have hnone : s.idToDefinitionMap.find? id = none := by
    rw [← Option.not_isSome_iff_eq_none, Map.find?_isSome_iff, h.keys_perm.mem_iff]
    exact hid
  rw [getDefinitionById, hnone]

end Indexed

/-- What is found for a text was registered. -/
theorem mem_of_findDefinitions {s : LoadedSteps} {text id : String}
    (h : id ∈ (s.findDefinitions text).1) : id ∈ s.registry.map fun d => d.id := by
  obtain ⟨found,hfound,rfl⟩ := List.mem_map.mp h
  obtain ⟨p,hp,hmatch⟩ := List.mem_filterMap.mp hfound
  obtain ⟨d,hd,hid⟩ := s.placed p.1 p.2 ((s.idToDefinitionMap.find?_eq_some_iff _ _).mpr hp)
  rw [hd, Option.bind_eq_bind, Option.bind_some] at hmatch
  obtain ⟨arguments,_,heq⟩ := Option.bind_eq_some_iff.mp hmatch
  rw [← Option.some.inj heq]
  exact List.mem_map.mpr ⟨d, List.mem_of_getElem? hd, hid⟩

/-- What a test step is matched with was registered. -/
theorem mem_of_matchStepDefinitions {s : LoadedSteps} {testStep : TestStep} {text id : String}
    {ids ids' : List String} (hstep : testStep.stepDefinitionIds = some ids)
    (h : (matchStepDefinitions testStep (s.registry.map LoadedStep.toStepDefinition)
      text).stepDefinitionIds = some ids') (hid : id ∈ ids') :
    id ∈ ids ∨ id ∈ s.registry.map fun d => d.id := by
  unfold matchStepDefinitions at h
  dsimp only at h
  rw [hstep, Option.map_some] at h
  rw [← Option.some.inj h] at hid
  rcases List.mem_append.mp hid with hid | hid
  · exact .inl hid
  · obtain ⟨found,hfound,rfl⟩ := List.mem_map.mp hid
    obtain ⟨d,hd,hmatch⟩ := List.mem_filterMap.mp hfound
    obtain ⟨d',hd',rfl⟩ := List.mem_map.mp hd
    obtain ⟨arguments,_,heq⟩ := Option.map_eq_some_iff.mp hmatch
    rw [← heq]
    exact .inr (List.mem_map_of_mem hd')

/-- The registry that a run works with looks up what was loaded. -/
theorem getDefinitionById_library {l : Api.LoadedSupportCode} (h : Indexed l.steps)
    {d : LoadedStep} (hd : d ∈ l.steps.registry) :
    l.library.stepRegistry.getDefinitionById d.id = .ok d.toStepDefinition := by
  have hids : ((l.steps.registry.map LoadedStep.toStepDefinition).map StepDefinition.id).Nodup := by
    rw [List.map_map]
    exact h.distinct
  exact StepRegistry.getDefinitionById_foldl_register hids (List.mem_map_of_mem hd) .empty

end LoadedSteps

namespace Api

open LoadedSteps

section

variable (compiler : MatcherCompiler) (parse : String → TagExpression)

/-- The message about a definition, if there is one. -/
def message? : DefinitionRegistration.Entry → Option SupportCodeMessage
  | .step step => (compiled compiler step).map fun d => .stepDefinition (stepDefinitionMessage d)
  | .hook hook => some (.hook (transformHookData (HookDefinition.ofEntry parse hook).data))

variable {compiler parse}

theorem emitUndefinedParameters_eq (definitions : List Messages.UndefinedParameterType)
    (messages : List SupportCodeMessage) : emitUndefinedParameters definitions messages =
      messages ++ definitions.map .undefinedParameterType := by
  unfold emitUndefinedParameters
  induction definitions generalizing messages with
  | nil => simp
  | cons d definitions ih => simp [ih]

theorem run_emitParameters (parameters : List Parameter) (world : World idGenerator Event) :
    ∃ messages world', run (emitParameters parameters) world = (.ok messages, world') ∧
      ∀ m ∈ messages, ∃ t, m = .parameterType t := by
  have hfold (before : List SupportCodeMessage) (world : World idGenerator Event)
      (hbefore : ∀ m ∈ before, ∃ t, m = .parameterType t) : ∃ messages world',
        run (parameters.foldlM emitParameter before) world = (.ok messages, world') ∧
          ∀ m ∈ messages, ∃ t, m = .parameterType t := by
    induction parameters generalizing before world with
    | nil => exact ⟨before, world, rfl, hbefore⟩
    | cons parameter parameters ih =>
      rw [List.foldlM_cons, run_bind]
      unfold emitParameter
      split_ifs with hbuiltin
      · exact ih before world hbefore
      · refine ih _ world.draw fun m hm => ?_
        rcases List.mem_append.mp hm with hm | hm
        · exact hbefore m hm
        · exact ⟨_, List.mem_singleton.mp hm⟩
  exact hfold [] world (by simp)

theorem foldlM_emitEntry {stepDefinitions : Map String LoadedStep} {hookRegistry : HookRegistry}
    {entries : List DefinitionRegistration.Entry} (messages : List SupportCodeMessage)
    (hsteps : ∀ e, .step e ∈ entries → stepDefinitions.find? e.id = compiled compiler e)
    (hhooks : ∀ e, .hook e ∈ entries →
      hookRegistry.getDefinitionById e.id = .ok (.ofEntry parse e)) :
    entries.foldlM (emitEntry stepDefinitions hookRegistry) messages =
      .ok (messages ++ entries.filterMap (message? compiler parse)) := by
  induction entries generalizing messages with
  | nil => simp [pure, Except.pure]
  | cons entry entries ih =>
    have hrest (messages : List SupportCodeMessage) := ih messages
      (fun e he => hsteps e (List.mem_cons_of_mem _ he))
      fun e he => hhooks e (List.mem_cons_of_mem _ he)
    have hround : emitEntry stepDefinitions hookRegistry messages entry =
        .ok (messages ++ (message? compiler parse entry).toList) := by
      cases entry with
      | step e =>
        simp only [emitEntry, message?, hsteps e List.mem_cons_self]
        cases compiled compiler e <;> simp
      | hook e =>
        simp only [emitEntry, hhooks e List.mem_cons_self]
        rfl
    rw [List.foldlM_cons, hround]
    refine (hrest _).trans ?_
    rw [List.filterMap_cons]
    cases message? compiler parse entry <;> simp

/-- No text leads to the definition with this id. -/
def NeverMatches (s : LoadedSteps) (id : String) : Prop :=
  (∀ text, id ∉ (s.findDefinitions text).1) ∧
    ∀ testStep text ids ids', testStep.stepDefinitionIds = some ids →
      (matchStepDefinitions testStep (s.registry.map LoadedStep.toStepDefinition)
        text).stepDefinitionIds = some ids' → id ∈ ids' → id ∈ ids

/-- A step whose pattern does not compile leaves one record and nothing else. -/
structure Refused (compiler : MatcherCompiler) (s : LoadedSteps) (entry : StepEntry)
    (e : UndefinedParameterTypeError) : Prop where
  registry (s' : LoadedSteps) : (s'.register compiler entry).registry = s'.registry
  index (s' : LoadedSteps) :
    (s'.register compiler entry).idToDefinitionMap = s'.idToDefinitionMap
  record (s' : LoadedSteps) : (s'.register compiler entry).undefinedParameters =
    s'.undefinedParameters ++ [{ expression := e.expression, name := e.undefinedParameterName }]
  absent : s.getDefinitionById entry.id = .error .outOfRange
  unmatched : NeverMatches s entry.id

variable (compiler parse) in
/-- The definitions, the registries filled from them and the messages agree. -/
structure SupportCodeAgrees (parameters : List SupportCodeMessage) (l : LoadedSupportCode)
    (messages : List SupportCodeMessage) : Prop where
  distinct : (l.registration.entries.map DefinitionRegistration.Entry.id).Nodup
  listed : l.steps.registry = l.registration.registeredSteps.filterMap (compiled compiler)
  correspond : l.steps.idToDefinitionMap.keys.Perm (l.steps.registry.map fun d => d.id)
  found : ∀ d ∈ l.steps.registry, l.steps.getDefinitionById d.id = .ok d
  resolved : ∀ d ∈ l.steps.registry,
    l.library.stepRegistry.getDefinitionById d.id = .ok d.toStepDefinition
  records : l.steps.undefinedParameters =
    l.registration.registeredSteps.filterMap (undefined compiler)
  refused : ∀ entry ∈ l.registration.registeredSteps, ∀ e, compile compiler entry = .error e →
    Refused compiler l.steps entry e
  hooks : ∀ entry ∈ l.registration.getHooks,
    l.hookRegistry.getDefinitionById entry.id = .ok (.ofEntry parse entry)
  emitted : messages = parameters ++
    (l.registration.registeredSteps.filterMap (undefined compiler)).map .undefinedParameterType ++
    l.registration.entries.filterMap (message? compiler parse)

/-- What is picked from the definitions keeps their ids apart. -/
theorem nodup_filterMap {γ : Type} {f : DefinitionRegistration.Entry → Option γ} {id : γ → String}
    (hf : ∀ e c, f e = some c → id c = e.id) {entries : List DefinitionRegistration.Entry}
    (hids : (entries.map DefinitionRegistration.Entry.id).Nodup) :
    ((entries.filterMap f).map id).Nodup := by
  rw [List.Nodup, List.pairwise_map, List.pairwise_filterMap]
  refine (List.pairwise_map.mp hids).imp fun hne c hc c' hc' => ?_
  rw [hf _ _ hc, hf _ _ hc']
  exact hne

theorem mem_filterMap_compiled_iff {steps : List StepEntry} (hids : (steps.map StepEntry.id).Nodup)
    {e : StepEntry} (he : e ∈ steps) (d : LoadedStep) :
    d ∈ steps.filterMap (compiled compiler) ∧ d.id = e.id ↔ compiled compiler e = some d := by
  constructor
  · rintro ⟨hd,hid⟩
    obtain ⟨e',he',hcompiled⟩ := List.mem_filterMap.mp hd
    have heq : e'.id = e.id := (id_of_compiled hcompiled).symm.trans hid
    rwa [List.inj_on_of_nodup_map hids he' he heq] at hcompiled
  · intro hcompiled
    exact ⟨List.mem_filterMap.mpr ⟨e, he, hcompiled⟩, id_of_compiled hcompiled⟩

/-- The definitions by their ids, as `EmitStepDefinitionsAndHooks` collects them. -/
theorem find?_stepDefinitions {steps : List StepEntry} (hids : (steps.map StepEntry.id).Nodup)
    {s : LoadedSteps} (hs : s.registry = steps.filterMap (compiled compiler))
    (hdistinct : (s.registry.map fun d => d.id).Nodup) {e : StepEntry} (he : e ∈ steps) :
    (s.registry.foldl (fun m (d : LoadedStep) => m.tryEmplace d.id d) Map.empty).find? e.id =
      compiled compiler e := by
  have hpairs : s.registry.foldl (fun m (d : LoadedStep) => m.tryEmplace d.id d) Map.empty =
      (s.registry.map fun d => (d.id,d)).foldl (fun m p => m.tryEmplace p.1 p.2) Map.empty := by
    rw [List.foldl_map]
  have hkeys : ((s.registry.map fun d => (d.id,d)).map Prod.fst).Nodup := by
    rw [List.map_map]
    exact hdistinct
  rw [hpairs, Map.find?_foldl_tryEmplace, Map.find?_empty, Option.none_or]
  ext d
  rw [Map.lookup_eq_some_iff _ hkeys, ← mem_filterMap_compiled_iff hids he d, hs]
  constructor
  · intro hmem
    obtain ⟨d',hd',heq⟩ := List.mem_map.mp hmem
    obtain ⟨hid,rfl⟩ := Prod.mk.inj heq
    exact ⟨hd', hid⟩
  · rintro ⟨hd,hid⟩
    exact List.mem_map.mpr ⟨d, hd, by rw [hid]⟩

theorem neverMatches_of_not_mem {s : LoadedSteps} {id : String}
    (hid : id ∉ s.registry.map fun d => d.id) : NeverMatches s id := by
  constructor
  · intro text hfound
    exact hid (mem_of_findDefinitions hfound)
  · intro testStep text ids ids' hstep hmatched hmem
    exact (mem_of_matchStepDefinitions hstep hmatched hmem).resolve_right hid

theorem refused_of_error {steps : List StepEntry} (hids : (steps.map StepEntry.id).Nodup)
    {s : LoadedSteps} (hs : s.registry = steps.filterMap (compiled compiler)) (hindexed : Indexed s)
    {entry : StepEntry} (hentry : entry ∈ steps) {e : UndefinedParameterTypeError}
    (herror : compile compiler entry = .error e) : Refused compiler s entry e := by
  have habsent : entry.id ∉ s.registry.map fun d => d.id := by
    intro hmem
    obtain ⟨d,hd,hid⟩ := List.mem_map.mp hmem
    rw [hs] at hd
    have hcompiled := (mem_filterMap_compiled_iff hids hentry d).mp ⟨hd, hid⟩
    simp [compiled, herror, Except.toOption] at hcompiled
  exact
    { registry := fun s' => by rw [register_of_error herror]; rfl
      index := fun s' => by rw [register_of_error herror]; rfl
      record := fun s' => by rw [register_of_error herror]; rfl
      absent := hindexed.getDefinitionById_of_not_mem habsent
      unmatched := neverMatches_of_not_mem habsent }

variable (parse) in
theorem getDefinitionById_loadHooks {hooks : List HookEntry}
    (hids : (hooks.map HookEntry.id).Nodup) {entry : HookEntry} (hentry : entry ∈ hooks) :
    (HookRegistry.loadHooks parse hooks).getDefinitionById entry.id =
      .ok (.ofEntry parse entry) := by
  rw [HookRegistry.getDefinitionById_eq_ok_iff, find?_loadHooks]
  have hsome : (hooks.find? fun entry' => entry'.id = entry.id).isSome :=
    List.find?_isSome.mpr ⟨entry, hentry, by simp⟩
  obtain ⟨entry',hfind⟩ := Option.isSome_iff_exists.mp hsome
  have hid : entry'.id = entry.id := by simpa using List.find?_some hfind
  rw [hfind, List.inj_on_of_nodup_map hids (List.mem_of_find?_eq_some hfind) hentry hid]
  rfl

variable (compiler parse) in
/-- From definitions with distinct ids no lookup fails. -/
theorem supportCodeAgrees_load {registration : DefinitionRegistration}
    (hids : (registration.entries.map DefinitionRegistration.Entry.id).Nodup)
    (parameters : List SupportCodeMessage) :
    let l : LoadedSupportCode :=
      { registration := registration
        steps := .loadSteps compiler registration.registeredSteps
        hookRegistry := .loadHooks parse registration.getHooks }
    ∃ messages, emitStepDefinitionsAndHooks l
        (emitUndefinedParameters l.steps.undefinedParameters parameters) = .ok messages ∧
      SupportCodeAgrees compiler parse parameters l messages := by
  intro l
  -- step and hook ids are drawn from one supply, so both kinds inherit its distinctness
  have hsteps : (registration.registeredSteps.map StepEntry.id).Nodup := by
    rw [registration.registeredSteps_eq]
    refine nodup_filterMap (fun e step he => ?_) hids
    cases e with
    | hook hook => cases he
    | step step' => rw [← Option.some.inj he]; rfl
  have hhooks : (registration.getHooks.map HookEntry.id).Nodup := by
    rw [registration.getHooks_eq]
    refine nodup_filterMap (fun e hook he => ?_) hids
    cases e with
    | hook hook' => rw [← Option.some.inj he]; rfl
    | step step => cases he
  obtain ⟨hregistry,hundefined⟩ := foldl_register compiler registration.registeredSteps {}
  have hindexed : Indexed l.steps := Indexed.empty.foldl_register hsteps (by simp)
  have hlookup (entry : HookEntry) (hentry : entry ∈ registration.getHooks) :=
    getDefinitionById_loadHooks parse hhooks hentry
  have hemit := foldlM_emitEntry
    (emitUndefinedParameters l.steps.undefinedParameters parameters)
    (fun e he => find?_stepDefinitions hsteps hregistry hindexed.distinct
      (by rw [registration.registeredSteps_eq]; exact List.mem_filterMap.mpr ⟨_, he, rfl⟩))
    (fun e he => hlookup e
      (by rw [registration.getHooks_eq]; exact List.mem_filterMap.mpr ⟨_, he, rfl⟩))
  refine ⟨_, hemit, ?_⟩
  exact
    { distinct := hids
      listed := hregistry
      correspond := hindexed.keys_perm
      found := fun d hd => hindexed.getDefinitionById_of_mem hd
      resolved := fun d hd => getDefinitionById_library hindexed hd
      records := hundefined
      refused := fun entry hentry e he => refused_of_error hsteps hregistry hindexed hentry he
      hooks := hlookup
      emitted := by
        have hrecords : l.steps.undefinedParameters = _ := hundefined
        rw [emitUndefinedParameters_eq, hrecords]
        rfl }

/-- Support code that is registered, loaded and emitted stays in agreement, and no lookup
on the way fails. -/
theorem support_code_agrees (compiler : MatcherCompiler) (parse : String → TagExpression)
    (parameters : List Parameter) (registration : DefinitionRegistration)
    (world : World idGenerator Event) :
    ∃ parameterTypes loaded messages start,
      (run (emitSupportCodeMessages compiler parse parameters registration) world).1 =
          .ok (loaded,messages) ∧
        (∀ m ∈ parameterTypes, ∃ t, m = .parameterType t) ∧
        loaded.registration.entries =
          DefinitionRegistration.named idGenerator start registration.entries ∧
        SupportCodeAgrees compiler parse parameterTypes loaded messages := by
  obtain ⟨parameterTypes,world',hparameters,htypes⟩ := run_emitParameters parameters world
  obtain ⟨loaded,hload,hentries⟩ := registration.run_loadIds world'
  have hids : (loaded.entries.map DefinitionRegistration.Entry.id).Nodup := by
    rw [hentries]
    exact DefinitionRegistration.named_ids_nodup _ _
  obtain ⟨messages,hemit,hagrees⟩ :=
    supportCodeAgrees_load compiler parse hids parameterTypes
  refine ⟨parameterTypes, _, messages, world'.next, ?_, htypes, hentries, hagrees⟩
  unfold emitSupportCodeMessages
  rw [run_bind, hparameters]
  dsimp only
  rw [run_bind]
  rcases hrun : run registration.loadIds world' with ⟨r,world''⟩
  rw [hrun] at hload
  obtain rfl : r = .ok loaded := hload
  dsimp only
  rw [hemit]
  rfl

end

end Api

end CucumberCpp
