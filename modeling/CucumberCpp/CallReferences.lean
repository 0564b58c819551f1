import CucumberCpp.RunReferences

/-! In a call of `RunCucumber` every message refers to what an earlier message declared, and no
id is declared twice. -/
namespace CucumberCpp

open EventLog References DefinitionRegistration

variable {idGenerator : IdGenerator}

/-- The bodies of a definition do what some user code does in the context they are given. -/
def DefinitionRegistration.Entry.Executed : Entry → Prop
  | .hook entry => ∀ args : HookArgs, ∃ toBase64 stepCode code,
      Executes toBase64 stepCode ⟨args.stepOrHookStarted⟩ none code
        (entry.factory args).attachments (entry.factory args).result
  | .step entry => ∀ (args : StepArgs) started, args.stepOrHookStarted = .step started →
      ∃ toBase64 stepCode supportCodeLibrary code,
        Executes toBase64 stepCode ⟨args.stepOrHookStarted⟩
          (some (.make 0 supportCodeLibrary args.site started)) code
          (entry.factory args).attachments (entry.factory args).result

theorem DefinitionRegistration.Entry.Executed.of_renamed {e e' : Entry} (h : e.Executed)
    (hrenamed : Renamed e e') : e'.Executed := by
  rw [hrenamed]
  cases e <;> exact h

namespace Api.RunPhase

variable {d : Dependencies} {registered : Registered} {options : RunOptions}
  {ordered : List LoadedPickle} {p : RunPhase}

theorem Rule.executed (h : p.Rule d registered options ordered)
    (hexecuted : ∀ e ∈ registered.registration.entries, e.Executed) :
    ∀ e ∈ p.loaded.registration.entries, e.Executed := by
  intro e he
  obtain ⟨e',he',hrenamed⟩ := exists_left_of_forall₂ h.renamed he
  exact (hexecuted e' he').of_renamed hrenamed

theorem Rule.hook_of_getDefinitionById (h : p.Rule d registered options ordered) {id : String}
    {definition : HookDefinition}
    (hd : p.loaded.library.hookRegistry.getDefinitionById id = .ok definition) :
    ∃ entry, .hook entry ∈ p.loaded.registration.entries ∧
      definition = .ofEntry d.parseTagExpression entry := by
  rw [LoadedSupportCode.library, h.hooks, HookRegistry.getDefinitionById_eq_ok_iff,
    find?_loadHooks] at hd
  obtain ⟨entry,hentry,rfl⟩ := Option.map_eq_some_iff.mp hd
  have hmem := List.mem_of_find?_eq_some hentry
  rw [getHooks_eq] at hmem
  obtain ⟨e,he,hhook⟩ := List.mem_filterMap.mp hmem
  cases e with
  | hook entry' =>
    obtain rfl := Option.some.inj hhook
    exact ⟨_, he, rfl⟩
  | step _ => cases hhook

theorem Rule.mem_steps (h : p.Rule d registered options ordered) {loaded : LoadedStep}
    (hloaded : loaded ∈ p.loaded.steps.registry) :
    ∃ entry, .step entry ∈ p.loaded.registration.entries ∧
      LoadedSteps.compiled d.compiler entry = some loaded := by
  rw [h.agrees.listed] at hloaded
  obtain ⟨entry,hentry,hcompiled⟩ := List.mem_filterMap.mp hloaded
  rw [registeredSteps_eq] at hentry
  obtain ⟨e,he,hstep⟩ := List.mem_filterMap.mp hentry
  cases e with
  | hook _ => cases hstep
  | step entry' =>
    obtain rfl := Option.some.inj hstep
    exact ⟨_, he, hcompiled⟩

theorem mem_stepRegistry {l : LoadedSupportCode} {definition : StepDefinition}
    (h : definition ∈ l.library.stepRegistry.registry) :
    ∃ loaded ∈ l.steps.registry, definition = loaded.toStepDefinition := by
  rw [LoadedSupportCode.library, StepRegistry.registry_foldl_register] at h
  obtain ⟨loaded,hloaded,rfl⟩ := List.mem_map.mp h
  exact ⟨loaded, hloaded, rfl⟩

theorem Rule.step_of_getDefinitionById (h : p.Rule d registered options ordered) {id : String}
    {definition : StepDefinition}
    (hd : p.loaded.library.stepRegistry.getDefinitionById id = .ok definition) :
    ∃ entry, .step entry ∈ p.loaded.registration.entries ∧
      definition.factory = entry.factory := by
  rw [StepRegistry.getDefinitionById_eq_ok_iff] at hd
  rcases StepRegistry.mem_of_find?_foldl_register hd with hmem | hempty
  · obtain ⟨loaded,hloaded,rfl⟩ := List.mem_map.mp hmem
    obtain ⟨entry,hentry,hcompiled⟩ := h.mem_steps hloaded
    refine ⟨entry, hentry, ?_⟩
    unfold LoadedSteps.compiled LoadedSteps.compile at hcompiled
    cases hmatcher : LoadedSteps.compileMatcher d.compiler entry.regex with
    | error e =>
      rw [hmatcher] at hcompiled
      cases hcompiled
    | ok regex =>
      rw [hmatcher] at hcompiled
      rw [← Option.some.inj hcompiled]
  · cases hempty

/-- What the program registers attaches where its contexts say, and loading keeps it so. -/
theorem Rule.attributes (h : p.Rule d registered options ordered)
    (hexecuted : ∀ e ∈ registered.registration.entries, e.Executed) :
    p.loaded.library.Attributes where
  hook := by
    intro id definition hd args
    obtain ⟨entry,hentry,rfl⟩ := h.hook_of_getDefinitionById hd
    obtain ⟨toBase64,stepCode,code,hcode⟩ := h.executed hexecuted _ hentry args
    exact hcode.belongsTo (by simp)
  step := by
    intro id definition hd args started hstarted
    obtain ⟨entry,hentry,hfactory⟩ := h.step_of_getDefinitionById hd
    obtain ⟨toBase64,stepCode,l,code,hcode⟩ := h.executed hexecuted _ hentry args started hstarted
    rw [hfactory]
    refine hcode.belongsTo fun r hr => ?_
    obtain rfl := Option.some.inj hr
    exact hstarted

/-- The messages that a phase begins with. -/
def supportMessages (p : RunPhase) : List Message := p.supportCode.map .supportCode

theorem declared_supportMessages (p : RunPhase) : messageNames.declared p.supportMessages =
    p.supportCode.flatMap SupportCodeMessage.declares := by
  rw [supportMessages, Vocabulary.declared_map]
  rfl

theorem Rule.declared_of_message (h : p.Rule d registered options ordered) {e : Entry}
    (he : e ∈ p.loaded.registration.entries) {message : SupportCodeMessage}
    (hmessage : message? d.compiler d.parseTagExpression e = some message) :
    ∀ n ∈ message.declares, n ∈ messageNames.declared p.supportMessages := by
  intro n hn
  rw [declared_supportMessages, h.agrees.emitted]
  refine List.mem_flatMap.mpr ⟨message, List.mem_append_right _ ?_, hn⟩
  exact List.mem_filterMap.mpr ⟨e, he, hmessage⟩

/-- The messages of the files and of the support code declare all that a run refers to. -/
theorem Rule.knows (h : p.Rule d registered options ordered) {known : MessageName → Prop}
    (hpickles : ∀ source ∈ ordered, known (.pickle,source.pickle.id) ∧
      ∀ step ∈ source.pickle.steps, known (.pickleStep,step.id)) :
    (p.worker options).Knows (ordered.map LoadedPickle.toPickleSource) fun n =>
      (known n ∨ n ∈ messageNames.declared p.supportMessages) ∨
        n = (.testRun,p.testRunStartedId) where
  testRun := .inr rfl
  hooks := by
    intro id definition hd
    obtain ⟨entry,hentry,rfl⟩ := h.hook_of_getDefinitionById hd
    exact .inl (.inr (h.declared_of_message hentry rfl _ (List.mem_singleton_self _)))
  steps := by
    intro definition hd
    obtain ⟨loaded,hloaded,rfl⟩ := mem_stepRegistry hd
    obtain ⟨entry,hentry,hcompiled⟩ := h.mem_steps hloaded
    have hmessage : message? d.compiler d.parseTagExpression (.step entry) =
        some (.stepDefinition (stepDefinitionMessage loaded)) := by
      rw [message?, hcompiled]
      rfl
    exact .inl (.inr (h.declared_of_message hentry hmessage _ (List.mem_singleton_self _)))
  pickles := by
    intro source hsource
    obtain ⟨loaded,hloaded,rfl⟩ := List.mem_map.mp hsource
    obtain ⟨hpickle,hsteps⟩ := hpickles loaded hloaded
    exact ⟨.inl (.inl hpickle), fun step hstep => .inl (.inl (hsteps step hstep))⟩

/-- The messages of a run, whether its worker could be constructed or not. -/
theorem Rule.closed_broadcasts (h : p.Rule d registered options ordered)
    (hexecuted : ∀ e ∈ registered.registration.entries, e.Executed) {known : MessageName → Prop}
    (hpickles : ∀ source ∈ ordered, known (.pickle,source.pickle.id) ∧
      ∀ step ∈ source.pickle.steps, known (.pickleStep,step.id)) :
    runNames.Closed (fun n => known n ∨ n ∈ messageNames.declared p.supportMessages)
      p.broadcasts := by
  have hreport : runNames.Closed (fun n => (known n ∨
      n ∈ messageNames.declared p.supportMessages) ∨ n = (.testRun,p.testRunStartedId))
      (CucumberCpp.broadcasts p.report.log) := by
    rcases h.run with ⟨_,hrule⟩ | ⟨_,e,he⟩
    · exact (h.knows hpickles).closed_runRule (h.attributes hexecuted) hrule
    · rw [he]
      exact Vocabulary.closed_nil
  rw [p.broadcasts_eq]
  apply Vocabulary.Closed.cons (by intro n hn; cases hn)
  apply Vocabulary.Closed.append
  · apply hreport.mono
    rintro n (hn | rfl)
    · exact .inl hn
    · exact .inr (List.mem_singleton_self _)
  · cases p.report.outcome with
    | error _ => exact Vocabulary.closed_nil
    | ok success =>
      apply Vocabulary.closed_singleton
      intro n hn
      rw [List.mem_singleton.mp hn]
      exact .inl (.inr (List.mem_singleton_self _))

end Api.RunPhase

namespace Api

variable {d : Dependencies} {registered : Registered} {options : RunOptions}

@[simp] theorem mem_orderSources {ordering : Ordering} {sources : List LoadedPickle}
    {source : LoadedPickle} : source ∈ orderSources ordering sources ↔ source ∈ sources := by
  unfold orderSources
  split_ifs
  · rfl
  · exact List.mem_reverse

theorem Selected.mem {strategies : List (Text → Bool)} {files : List FileRun}
    {ordered : List LoadedPickle} (h : Selected d options strategies files ordered) :
    ∀ source ∈ ordered, source ∈ files.flatMap FileRun.pickles := by
  obtain ⟨uniqueNames,_,rfl⟩ := h.ordered
  intro source hsource
  exact List.mem_of_mem_filter (List.mem_of_mem_filter (mem_orderSources.mp hsource))

/-- The file that a pickle was compiled from. -/
theorem exists_file_of_pickles {files : List FileRun} {source : LoadedPickle}
    (h : source ∈ files.flatMap FileRun.pickles) : ∃ f ∈ files, ∃ pickles,
      f.outcome = .ok (source.gherkinDocument,pickles) ∧ source.pickle ∈ pickles := by
  obtain ⟨f,hf,hsource⟩ := List.mem_flatMap.mp h
  unfold FileRun.pickles at hsource
  cases houtcome : f.outcome with
  | error _ =>
    rw [houtcome] at hsource
    cases hsource
  | ok loaded =>
    rw [houtcome] at hsource
    obtain ⟨pickle,hpickle,rfl⟩ := List.mem_map.mp hsource
    exact ⟨f, hf, loaded.2, houtcome, hpickle⟩

theorem mem_messages_of_pickles {files : List FileRun} {source : LoadedPickle}
    (h : source ∈ files.flatMap FileRun.pickles) :
    .gherkinDocument source.gherkinDocument ∈ files.flatMap FileRun.messages ∧
      .pickle source.pickle ∈ files.flatMap FileRun.messages := by
  obtain ⟨f,hf,pickles,houtcome,hpickle⟩ := exists_file_of_pickles h
  have hmessages : f.messages =
      .source f.source :: .gherkinDocument source.gherkinDocument :: pickles.map .pickle := by
    rw [FileRun.messages, houtcome]
  simp only [List.mem_flatMap]
  exact ⟨⟨f, hf, by simp [hmessages]⟩, ⟨f, hf, by simp [hmessages, hpickle]⟩⟩

theorem declared_of_pickles {files : List FileRun} {source : LoadedPickle}
    (h : source ∈ files.flatMap FileRun.pickles) :
    (.pickle,source.pickle.id) ∈ messageNames.declared (files.flatMap FileRun.messages) ∧
      ∀ step ∈ source.pickle.steps,
        (.pickleStep,step.id) ∈ messageNames.declared (files.flatMap FileRun.messages) := by
  have hdeclares : ∀ n ∈ (Message.pickle source.pickle).declares,
      n ∈ messageNames.declared (files.flatMap FileRun.messages) := fun n hn =>
    List.mem_flatMap.mpr ⟨_, (mem_messages_of_pickles h).2, hn⟩
  refine ⟨hdeclares _ List.mem_cons_self, fun step hstep => hdeclares _ ?_⟩
  exact List.mem_cons_of_mem _ (List.mem_map_of_mem hstep)

theorem closed_files (files : List FileRun) {known : MessageName → Prop} :
    messageNames.Closed known (files.flatMap FileRun.messages) := by
  apply Vocabulary.closed_of_known
  intro message hmessage n hn
  obtain ⟨f,_,hmem⟩ := List.mem_flatMap.mp hmessage
  have hrefers : message.refers = [] := by
    rcases List.mem_cons.mp hmem with rfl | hmem
    · rfl
    cases houtcome : f.outcome with
    | ok loaded =>
      rw [houtcome] at hmem
      rcases List.mem_cons.mp hmem with rfl | hmem
      · rfl
      · obtain ⟨_,_,rfl⟩ := List.mem_map.mp hmem
        rfl
    | error _ =>
      rw [houtcome] at hmem
      obtain ⟨_,_,rfl⟩ := List.mem_map.mp hmem
      rfl
  have hn' : n ∈ message.refers := hn
  rw [hrefers] at hn'
  cases hn'

theorem Completed.closed {files : List FileRun} {p : RunPhase} {r : Except Fault Bool}
    {s : List (EventLog.Entry String ApiEvent)} (h : Completed d registered options files p r s)
    (hexecuted : ∀ e ∈ registered.registration.entries, e.Executed) :
    messageNames.Closed (fun _ => False) (CucumberCpp.messages s) := by
  obtain ⟨strategies,ordered,hselected,hrule⟩ := h.ran
  have hsupport : messageNames.Closed
      (fun n => False ∨ n ∈ messageNames.declared (files.flatMap FileRun.messages))
      p.supportMessages := by
    apply Vocabulary.closed_of_known
    intro message hmessage n hn
    obtain ⟨_,_,rfl⟩ := List.mem_map.mp hmessage
    cases hn
  have hrun := hrule.closed_broadcasts hexecuted fun source hsource =>
    declared_of_pickles (hselected.mem source hsource)
  rw [h.messages]
  refine ((closed_files files).append hsupport).append (Vocabulary.Closed.map (hrun.mono ?_))
  rintro n (hn | hn)
  · exact .inr (by rw [Vocabulary.declared_append]; exact List.mem_append_left _ hn)
  · exact .inr (by rw [Vocabulary.declared_append]; exact List.mem_append_right _ hn)

/-- In every call a message only refers to pickles, definitions, hooks, test cases and whatever
else was started that an earlier message of the call has declared, so that a listener can
resolve every id when it arrives. -/
theorem references_declared (hgherkin : d.gherkin.Documented)
    (hexecuted : ∀ e ∈ registered.registration.entries, e.Executed)
    (world : World idGenerator ApiEvent) :
    ∃ seg, (run (runCucumber d registered options) world).2.log = world.log ++ seg ∧
      ∀ before message after, messages seg = before ++ message :: after →
        ∀ n ∈ message.refers, n ∈ messageNames.declared before := by
  obtain ⟨seg,hlog,hrule⟩ := emits_runCucumber d registered options hgherkin world
  refine ⟨seg, hlog, fun before message after heq n hn => ?_⟩
  have hclosed : messageNames.Closed (fun _ => False) (messages seg) := by
    obtain ⟨files,_,hstopped | ⟨p,hcompleted⟩⟩ := hrule.phases
    · rw [hstopped.messages]
      exact closed_files files
    · exact hcompleted.closed hexecuted
  exact (hclosed before message after heq n hn).resolve_left id

theorem stepRegistered_executed : ∀ e ∈ stepRegistered.registration.entries, e.Executed := by
  intro e he
  obtain rfl := List.mem_singleton.mp he
  intro args started _
  exact ⟨id, fun _ _ => .finish { status := .passed }, ⟨.empty, .empty⟩,
    .context (.log "passed") (.finish { status := .passed }), .context .finish⟩

theorem references_declared_oneStep :
    ∃ seg, (run (runCucumber stepDependencies stepRegistered stepOptions)
        (World.start decimalIds ApiEvent)).2.log = [] ++ seg ∧
      ∀ before message after, messages seg = before ++ message :: after →
        ∀ n ∈ message.refers, n ∈ messageNames.declared before :=
  references_declared stepGherkin_documented stepRegistered_executed _

example : messageNames.declared (messages (run (runCucumber stepDependencies stepRegistered
    stepOptions) (World.start decimalIds ApiEvent)).2.log) =
      [(.pickle,"2"), (.pickleStep,"1"), (.stepDefinition,"3"), (.testRun,"4"), (.testCase,"5"),
        (.testStep,"6"), (.testCaseStarted,"7")] := by
  decide

end Api

end CucumberCpp
