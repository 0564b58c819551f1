import CucumberCpp.ExecutionContext
import CucumberCpp.RunCucumber
import CucumberCpp.UniqueNames

/-! The phases of a call of `RunCucumber`, and how far a call gets. -/
namespace CucumberCpp

open EventLog OrderedMap DefinitionRegistration

variable {idGenerator : IdGenerator}

namespace Api

variable (d : Dependencies) (registered : Registered) (options : RunOptions)

/-- What follows the loading of the pickles: the support code and the run. -/
structure RunPhase where
  types : List Messages.ParameterType
  loaded : LoadedSupportCode
  supportCode : List SupportCodeMessage
  testRunStartedId : String
  report : RunReport

namespace RunPhase

/-- Up to the run: the ids of the support code, and the messages about it. -/
def supportLog (p : RunPhase) : List (EventLog.Entry String ApiEvent) :=
  (parameterLog p.types ++ idLog p.loaded.registration.entries).map (Entry.map ApiEvent.ofRun) ++
    p.supportCode.map fun message => .said (.broadcast (.supportCode message))

def log (p : RunPhase) : List (EventLog.Entry String ApiEvent) :=
  p.supportLog ++ (runLog p.testRunStartedId p.report).map (Entry.map ApiEvent.ofRun)

/-- The worker of the run. -/
def worker (p : RunPhase) : Worker where
  testRunStartedId := p.testRunStartedId
  options := options.runtime
  supportCodeLibrary := p.loaded.library

/-- The messages of the run. -/
def broadcasts (p : RunPhase) : List Envelope :=
  CucumberCpp.broadcasts (runLog p.testRunStartedId p.report)

end RunPhase

/-- The support code that was registered is loaded and emitted, and the pickles are run. -/
structure RunPhase.Rule (ordered : List LoadedPickle) (p : RunPhase) : Prop where
  renamed : List.Forall₂ Renamed registered.registration.entries p.loaded.registration.entries
  hooks : p.loaded.hookRegistry = .loadHooks d.parseTagExpression p.loaded.registration.getHooks
  agrees : SupportCodeAgrees d.compiler d.parseTagExpression (p.types.map .parameterType) p.loaded
    p.supportCode
  run : (p.worker options).RunsOrRefuses (ordered.map LoadedPickle.toPickleSource) p.report

theorem emits_emitAndRun (ordered : List LoadedPickle) :
    Emits (emitAndRun d registered options ordered : ApiRun idGenerator Bool) fun r s =>
      ∃ p : RunPhase, p.Rule d registered options ordered ∧ r = p.report.outcome ∧ s = p.log := by
  unfold emitAndRun
  apply (emits_emitSupportCodeMessages _ _ _ _).relabel.bind_ok
  · rintro e s ⟨_,⟨_,_,_,h,_⟩,_⟩
    cases h
  rintro ⟨loaded,supportCode⟩ s ⟨_,⟨types,_,_,hr,rfl,hrenamed,hhooks,hagrees⟩,rfl⟩
  obtain ⟨rfl,rfl⟩ := Prod.mk.inj (Except.ok.inj hr)
  apply (emits_sayAll _).bind_ok
  · rintro e s ⟨h,_⟩
    cases h
  rintro _ s ⟨_,rfl⟩
  apply (emits_makeRuntimeAndRun _ _ _).relabel.mono
  rintro r s ⟨_,⟨testRunStartedId,report,hrun,rfl,rfl⟩,rfl⟩
  refine ⟨⟨types, loaded, supportCode, testRunStartedId, report⟩,
    ⟨hrenamed, hhooks, hagrees, hrun⟩, rfl, ?_⟩
  simp [RunPhase.log, RunPhase.supportLog, Function.comp_def]

section

variable (create : Text → Except Text (Text → Bool)) (nameRegexes : List Text)

/-- What is printed about the name patterns, a line for each that does not compile. -/
def invalidPatterns : List Text :=
  nameRegexes.filterMap fun pattern =>
    match create pattern with
    | .ok _ => none
    | .error what => some (invalidRegexPattern pattern what)

theorem createNameRegexStrategies_printed :
    (createNameRegexStrategies create nameRegexes).2 = invalidPatterns create nameRegexes := by
  -- on the last pattern, as the loop goes through them from the front
  unfold createNameRegexStrategies invalidPatterns
  induction nameRegexes using List.reverseRecOn with
  | nil => rfl
  | append_singleton nameRegexes pattern ih =>
    rw [List.foldl_concat, List.filterMap_append, ← ih]
    cases hpattern : create pattern <;> simp [hpattern]

theorem createNameRegexStrategies_eq_none_iff :
    (createNameRegexStrategies create nameRegexes).1 = none ↔
      ∃ pattern ∈ nameRegexes, ∃ what, create pattern = .error what := by
  unfold createNameRegexStrategies
  induction nameRegexes using List.reverseRecOn with
  | nil => simp
  | append_singleton nameRegexes pattern ih =>
    rw [List.foldl_concat]
    simp only [List.mem_append, List.mem_singleton, or_and_right, exists_or, exists_eq_left, ← ih]
    cases hpattern : create pattern <;> simp

end

/-- Whether a pickle passes the name patterns. -/
def nameSelects (strategies : List (Text → Bool)) (uniqueNames : Map String Text)
    (source : LoadedPickle) : Bool :=
  strategies.isEmpty || strategies.any fun strategy =>
    strategy source.pickle.name.toList ||
      strategy ((uniqueNames.find? source.pickle.id).getD [])

theorem orderedPickles_eq (strategies : List (Text → Bool)) {pickleSources : List LoadedPickle}
    (hids : (pickleSources.map fun source => source.pickle.id).Nodup) (sent : List Message) :
    ∃ uniqueNames, makeUniqueTestNames (d.findLineageBy sent)
          (pickleSources.map LoadedPickle.pickle) = some uniqueNames ∧
      orderedPickles d strategies options.sources pickleSources sent =
        some (orderSources options.sources.ordering
          (pickleSources.filter (nameSelects strategies uniqueNames))) := by
  have hids' : ((pickleSources.map LoadedPickle.pickle).map fun p => p.id).Nodup := by
    rwa [List.map_map]
  obtain ⟨uniqueNames,hnames,hnamed⟩ :=
    exists_makeUniqueTestNames (d.findLineageBy sent) hids'
  refine ⟨uniqueNames, hnames, ?_⟩
  have hselects : ∀ source ∈ pickleSources, filterByNameRegex strategies uniqueNames
      source.pickle = some (nameSelects strategies uniqueNames source) := by
    intro source hsource
    obtain ⟨u,hu,_⟩ := hnamed.named source.pickle (List.mem_map_of_mem hsource)
    unfold filterByNameRegex nameSelects
    cases hempty : strategies.isEmpty <;> simp [hu]
  unfold orderedPickles
  rw [hnames, Option.bind_eq_bind, Option.bind_some, filterM_eq_some_filter hselects]
  rfl

/-- The pickles that are run: those of the files that the tag expression and the name patterns
select, in the order of the options. -/
structure Selected (strategies : List (Text → Bool)) (files : List FileRun)
    (ordered : List LoadedPickle) : Prop where
  patterns : (createNameRegexStrategies d.createRegexStrategy options.sources.nameRegexes).1 =
    some strategies
  ordered : ∃ uniqueNames,
    makeUniqueTestNames (d.findLineageBy (files.flatMap FileRun.messages))
      (((files.flatMap FileRun.pickles).filter options.sources.selects).map LoadedPickle.pickle) =
        some uniqueNames ∧
    ordered = orderSources options.sources.ordering
      (((files.flatMap FileRun.pickles).filter options.sources.selects).filter
        (nameSelects strategies uniqueNames))

def Dependencies.PatternsValid : Prop :=
  ∀ pattern ∈ options.sources.nameRegexes, ∃ strategy, d.createRegexStrategy pattern = .ok strategy

/-- How far a call gets, what it returns and what it leaves in the log. -/
inductive CallRule : Except Fault Bool → List (EventLog.Entry String ApiEvent) → Prop where
  | invalidPattern (hinvalid : ∃ pattern ∈ options.sources.nameRegexes, ∃ what,
        d.createRegexStrategy pattern = .error what) :
      CallRule (.ok false) ((invalidPatterns d.createRegexStrategy
        options.sources.nameRegexes).map fun line => .said (.println line))
  | unreadable {files : List FileRun} {uri rest e} (hvalid : d.PatternsValid options)
      (hfiles : ∀ f ∈ files, d.gherkin.FileRule f)
      (hpaths : options.sources.paths = files.map (·.source.uri) ++ uri :: rest)
      (hread : d.gherkin.slurp uri = .error e) :
      CallRule (.error e) (files.flatMap FileRun.log)
  | unparsed {files : List FileRun} (hvalid : d.PatternsValid options)
      (hfiles : ∀ f ∈ files, d.gherkin.FileRule f)
      (hpaths : files.map (·.source.uri) = options.sources.paths) (hloaded : ¬Loaded files) :
      CallRule (.ok false) (files.flatMap FileRun.log ++ printed files)
  | ran {files : List FileRun} {strategies ordered} {p : RunPhase}
      (hfiles : ∀ f ∈ files, d.gherkin.FileRule f)
      (hpaths : files.map (·.source.uri) = options.sources.paths) (hloaded : Loaded files)
      (hselected : Selected d options strategies files ordered)
      (hrule : p.Rule d registered options ordered) :
      CallRule p.report.outcome (files.flatMap FileRun.log ++ p.log)

/-- The ids of the pickles were drawn, so each pickle has an id of its own. -/
theorem pickleIds_nodup {gherkin : Gherkin} (hgherkin : gherkin.Documented) {files : List FileRun}
    (hfiles : ∀ f ∈ files, gherkin.FileRule f)
    (hnodup : (drawn (files.flatMap FileRun.log)).Nodup) (sources : Sources) :
    (((files.flatMap FileRun.pickles).filter sources.selects).map
      fun source => source.pickle.id).Nodup := by
  have hall := nodup_of_subperm (Gherkin.ids_subperm hgherkin hfiles) hnodup
  have hheads (pickleSources : List LoadedPickle) :
      (pickleSources.map fun source => source.pickle.id).Sublist
        (pickleSources.flatMap fun source => source.pickle.ids) := by
    induction pickleSources with
    | nil => exact .slnil
    | cons source pickleSources ih =>
      rw [List.map_cons, List.flatMap_cons, ListedPickle.ids, List.cons_append]
      exact (ih.trans (List.sublist_append_right _ _)).cons_cons _
  exact (hall.sublist (hheads _)).sublist (List.filter_sublist.map _)

/-- With the name patterns compiled, the files decide how far a call gets. -/
theorem emits_loadAndRun (hgherkin : d.gherkin.Documented) (hvalid : d.PatternsValid options)
    {strategies : List (Text → Bool)} (hpatterns :
      (createNameRegexStrategies d.createRegexStrategy options.sources.nameRegexes).1 =
        some strategies) :
    Emits (loadAndRun d registered options strategies : ApiRun idGenerator Bool)
      (CallRule d registered options) := by
  unfold loadAndRun
  apply (emits_drawn_nodup (emits_loadPickles hgherkin options.sources).listen).bind
  · rintro ⟨pickleSources,sent⟩ s ⟨⟨r,⟨files,hfiles,h⟩,hr⟩,hnodup⟩
    rcases h with ⟨_,_,_,_,_,rfl,_⟩ | ⟨hpaths,⟨hloaded,rfl,rfl⟩ | ⟨hloaded,rfl,rfl⟩⟩
    · cases hr
    · obtain ⟨rfl,_⟩ := Prod.mk.inj (Except.ok.inj hr)
      dsimp only
      apply emits_pure
      rw [List.append_nil]
      exact .unparsed hvalid hfiles hpaths hloaded
    · obtain ⟨rfl,rfl⟩ := Prod.mk.inj (Except.ok.inj hr)
      dsimp only
      have hids := pickleIds_nodup hgherkin hfiles hnodup options.sources
      obtain ⟨uniqueNames,hnames,hordered⟩ := orderedPickles_eq d options
        strategies hids ((events (files.flatMap FileRun.log)).filterMap ApiEvent.message?)
      rw [hordered]
      apply (emits_emitAndRun d registered options _).mono
      rintro r s ⟨p,hrule,rfl,rfl⟩
      refine .ran hfiles hpaths hloaded ⟨hpatterns, uniqueNames, ?_, rfl⟩ hrule
      rw [← messages_files]
      exact hnames
  · rintro e s ⟨⟨r,⟨files,hfiles,h⟩,hr⟩,_⟩
    rcases h with ⟨uri,rest,e',hpaths,hread,rfl,rfl⟩ | ⟨_,⟨_,rfl,_⟩ | ⟨_,_,rfl⟩⟩
    · obtain rfl := Except.error.inj hr
      exact .unreadable hvalid hfiles hpaths hread
    · cases hr
    · cases hr

theorem emits_runCucumber (hgherkin : d.gherkin.Documented) :
    Emits (runCucumber d registered options : ApiRun idGenerator Bool)
      (CallRule d registered options) := by
  have hnone := createNameRegexStrategies_eq_none_iff d.createRegexStrategy
    options.sources.nameRegexes
  have hprinted := createNameRegexStrategies_printed d.createRegexStrategy
    options.sources.nameRegexes
  cases hpatterns : (createNameRegexStrategies d.createRegexStrategy
    options.sources.nameRegexes).1 with
  | none =>
    have hresult : createNameRegexStrategies d.createRegexStrategy options.sources.nameRegexes =
        (none, invalidPatterns d.createRegexStrategy options.sources.nameRegexes) :=
      Prod.ext hpatterns hprinted
    unfold runCucumber
    rw [hresult]
    apply (emits_sayAll _).bind_ok
    · rintro e s ⟨h,_⟩
      cases h
    · rintro _ s ⟨_,rfl⟩
      apply emits_pure
      rw [List.append_nil, List.map_map]
      exact .invalidPattern (hnone.mp hpatterns)
  | some strategies =>
    have hvalid : d.PatternsValid options := by
      intro pattern hpattern
      cases hcreate : d.createRegexStrategy pattern with
      | ok strategy => exact ⟨strategy, rfl⟩
      | error what =>
        cases hpatterns.symm.trans (hnone.mpr ⟨pattern, hpattern, what, hcreate⟩)
    rw [runCucumber_eq d registered options hpatterns]
    exact emits_loadAndRun d registered options hgherkin hvalid hpatterns

@[simp] theorem messages_map_ofRun (log : List (EventLog.Entry String Event)) :
    messages (log.map (Entry.map ApiEvent.ofRun)) = (CucumberCpp.broadcasts log).map .run := by
  have hevent (e : Event) :
      (ApiEvent.ofRun e).message? = e.envelope?.map Message.run := by cases e <;> rfl
  rw [messages, events_map, CucumberCpp.broadcasts, List.filterMap_map, List.map_filterMap]
  exact congrArg (List.filterMap · (events log)) (funext hevent)

@[simp] theorem messages_map_said {α : Type} (f : α → ApiEvent) (xs : List α) :
    messages (xs.map fun x => .said (f x)) = xs.filterMap fun x => (f x).message? := by
  simp [messages, List.filterMap_map]

@[simp] theorem userCalls_map_said {α : Type} (f : α → ApiEvent) (xs : List α) :
    userCalls (xs.map fun x => .said (f x)) = xs.filterMap fun x => (f x).invocation? := by
  simp [userCalls, List.filterMap_map]

theorem RunPhase.userCalls_supportLog (p : RunPhase) : userCalls p.supportLog = [] := by
  have hevents : events (parameterLog p.types ++ idLog p.loaded.registration.entries) = [] := by
    simp [parameterLog, idLog]
  rw [supportLog, userCalls_append, userCalls, events_map, hevents, userCalls_map_said]
  simp [ApiEvent.invocation?]

theorem RunPhase.broadcasts_eq (p : RunPhase) : p.broadcasts =
    .testRunStarted ⟨p.testRunStartedId⟩ :: (CucumberCpp.broadcasts p.report.log ++
      CucumberCpp.broadcasts (runFinishedLog p.testRunStartedId p.report.outcome)) := by
  simp [RunPhase.broadcasts, runLog]

theorem RunPhase.messages_log (p : RunPhase) :
    messages p.log = p.supportCode.map .supportCode ++ p.broadcasts.map .run := by
  have htypes : CucumberCpp.broadcasts (parameterLog p.types) = [] := by
    simp [CucumberCpp.broadcasts, parameterLog]
  have hentries : CucumberCpp.broadcasts (idLog p.loaded.registration.entries) = [] := by
    simp [CucumberCpp.broadcasts, idLog]
  simp [RunPhase.log, RunPhase.supportLog, RunPhase.broadcasts, htypes, hentries,
    ApiEvent.message?]

/-- Why a call stops before it loads the support code, with what it returns and prints. -/
inductive StopsWith (files : List FileRun) : Except Fault Bool → List Text → Prop where
  | invalidPattern (hinvalid : ∃ pattern ∈ options.sources.nameRegexes, ∃ what,
        d.createRegexStrategy pattern = .error what) (hfiles : files = []) :
      StopsWith files (.ok false)
        (invalidPatterns d.createRegexStrategy options.sources.nameRegexes)
  | unreadable {uri rest e} (hvalid : d.PatternsValid options)
      (hpaths : options.sources.paths = files.map (·.source.uri) ++ uri :: rest)
      (hread : d.gherkin.slurp uri = .error e) : StopsWith files (.error e) []
  | unparsed (hvalid : d.PatternsValid options)
      (hpaths : files.map (·.source.uri) = options.sources.paths) (hloaded : ¬Loaded files) :
      StopsWith files (.ok false) ((files.flatMap FileRun.parseErrors).map reportParseError)

/-- A call that stops before it loads the support code. -/
structure Stopped (files : List FileRun) (r : Except Fault Bool)
    (s : List (EventLog.Entry String ApiEvent)) : Prop where
  log : ∃ lines, StopsWith d options files r lines ∧
    s = files.flatMap FileRun.log ++ lines.map fun line => .said (.println line)
  messages : messages s = files.flatMap FileRun.messages
  userCalls : userCalls s = []

theorem Stopped.result {files : List FileRun} {r : Except Fault Bool}
    {s : List (EventLog.Entry String ApiEvent)} (h : Stopped d options files r s) :
    r ≠ .ok true := by
  obtain ⟨_,hstops,_⟩ := h.log
  cases hstops <;> simp

theorem StopsWith.stopped {files : List FileRun} {r : Except Fault Bool} {lines : List Text}
    (h : StopsWith d options files r lines) :
    Stopped d options files r
      (files.flatMap FileRun.log ++ lines.map fun line => .said (.println line)) := by
  refine ⟨⟨lines, h, rfl⟩, ?_, ?_⟩
  · simp [messages_files, ApiEvent.message?]
  · simp [userCalls_files, ApiEvent.invocation?]

/-- A call that loads the support code and runs the selected pickles. -/
structure Completed (files : List FileRun) (p : RunPhase) (r : Except Fault Bool)
    (s : List (EventLog.Entry String ApiEvent)) : Prop where
  paths : files.map (·.source.uri) = options.sources.paths
  loaded : Loaded files
  ran : ∃ strategies ordered, Selected d options strategies files ordered ∧
    p.Rule d registered options ordered
  result : r = p.report.outcome
  log : s = files.flatMap FileRun.log ++ p.log
  messages : messages s = files.flatMap FileRun.messages ++ p.supportCode.map .supportCode ++
    p.broadcasts.map .run
  userCalls : ∃ before, userCalls before = [] ∧
    s = before ++ (runLog p.testRunStartedId p.report).map (Entry.map ApiEvent.ofRun)

theorem CallRule.phases {r : Except Fault Bool} {s : List (EventLog.Entry String ApiEvent)}
    (h : CallRule d registered options r s) :
    ∃ files : List FileRun, (∀ f ∈ files, d.gherkin.FileRule f) ∧
      (Stopped d options files r s ∨ ∃ p, Completed d registered options files p r s) := by
  cases h with
  | invalidPattern hinvalid =>
    exact ⟨[], by simp, .inl (StopsWith.stopped d options (.invalidPattern hinvalid rfl))⟩
  | @unreadable files uri rest e hvalid hfiles hpaths hread =>
    have hstopped := StopsWith.stopped d options (.unreadable hvalid hpaths hread)
    rw [List.map_nil, List.append_nil] at hstopped
    exact ⟨files, hfiles, .inl hstopped⟩
  | @unparsed files hvalid hfiles hpaths hloaded =>
    have hstopped := StopsWith.stopped d options (.unparsed hvalid hpaths hloaded)
    rw [List.map_map] at hstopped
    exact ⟨files, hfiles, .inl hstopped⟩
  | @ran files strategies ordered p hfiles hpaths hloaded hselected hrule =>
    refine ⟨files, hfiles, .inr ⟨p, hpaths, hloaded,
      ⟨strategies, ordered, hselected, hrule⟩, rfl, rfl, ?_, ?_⟩⟩
    · rw [messages_append, messages_files, p.messages_log, List.append_assoc]
    · refine ⟨files.flatMap FileRun.log ++ p.supportLog, ?_, ?_⟩
      · rw [userCalls_append, userCalls_files, p.userCalls_supportLog]
        rfl
      · rw [RunPhase.log, List.append_assoc]

/-- Every file is one scenario with one step. -/
def stepGherkin : Gherkin where
  slurp := fun _ => .ok "passes"
  parse := fun uri _ _ => (1,.ok { uri := uri })
  compile := fun _ uri names => (2,
    [{ id := names 1
       name := "passing"
       steps := [{ id := names 0, text := "passes" }]
       uri := uri
       location := none }])

def stepDependencies : Dependencies where
  gherkin := stepGherkin
  createRegexStrategy := fun _ => .error "no expressions".toList
  findLineageBy := fun _ _ => some { feature := some "steps" }
  compiler :=
    { regularExpression := fun _ => .ok fun _ => some []
      expression := fun pattern => .ok fun text => if text = pattern then some [] else none }
  parseTagExpression := fun _ _ => true

/-- The step is defined; its body logs a text. -/
def stepRegistered : Registered where
  registration :=
    ({} : DefinitionRegistration).registerStep "passes" (fun args =>
      { Outcome.passed with
        attachments := [(ExecutionContext.mk args.stepOrHookStarted).log "passed"] })
      ("steps.cpp",3)

def stepOptions : RunOptions where
  sources := { paths := ["a.feature"] }

theorem stepGherkin_documented : stepGherkin.Documented where
  ids := fun _ _ names => (List.Perm.swap (names 0) (names 1) []).subperm
  errors := by simp [stepGherkin]

end Api

end CucumberCpp
