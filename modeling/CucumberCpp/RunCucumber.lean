import CucumberCpp.EventStream
import CucumberCpp.LoadingRefinement
import CucumberCpp.SupportCodeLog

/-! `RunCucumber` of `api/RunCucumber.cpp`: loading, selecting and ordering the pickles, loading
the support code, and the run. -/
namespace CucumberCpp

open EventLog OrderedMap

variable {idGenerator : IdGenerator}

/-- The events of a run among those of the call that makes it. -/
def ApiEvent.ofRun : Event → ApiEvent
  | .broadcast envelope => .broadcast (.run envelope)
  | .invoked call result => .invoked call result

/-- The log of a run, or of the attempt to construct its worker. -/
def runLog (testRunStartedId : String) (report : RunReport) : List (Entry String Event) :=
  .drew testRunStartedId :: .said (.broadcast (.testRunStarted ⟨testRunStartedId⟩)) ::
    (report.log ++ runFinishedLog testRunStartedId report.outcome)

/-- The report of a run whose worker could not be constructed. -/
def RunReport.refused (e : Fault) : RunReport where
  beforeAll := []
  outcome := .error e

/-- A run under options that are accepted or not. -/
def Worker.RunsOrRefuses (w : Worker) (sourcedPickles : List PickleSource) (report : RunReport) :
    Prop :=
  (w.options.Accepted ∧ w.RunRule sourcedPickles report) ∨
    ¬w.options.Accepted ∧ ∃ e, report = .refused e

theorem emits_makeRuntimeAndRun (options : RuntimeOptions) (sourcedPickles : List PickleSource)
    (supportCodeLibrary : SupportCodeLibrary) :
    Emits (makeRuntimeAndRun options sourcedPickles supportCodeLibrary : Run idGenerator Bool)
      fun r s => ∃ testRunStartedId report,
        Worker.RunsOrRefuses ⟨testRunStartedId, options, supportCodeLibrary⟩ sourcedPickles
          report ∧ r = report.outcome ∧ s = runLog testRunStartedId report := by
  unfold makeRuntimeAndRun
  apply emits_nextId_bind
  intro testRunStartedId
  by_cases hoptions : options.Accepted
  · apply (Coordinator.emits_run hoptions testRunStartedId sourcedPickles _).mono
    rintro r s ⟨report,hrule,rfl,rfl⟩
    exact ⟨testRunStartedId, report, .inl ⟨hoptions, hrule⟩, rfl, rfl⟩
  · cases hmake : Worker.make testRunStartedId options supportCodeLibrary with
    | ok w => exact absurd (RuntimeOptions.accepted_of_make hmake).1 hoptions
    | error e =>
      unfold Coordinator.run SerialRuntimeAdapter.run
      rw [hmake]
      apply emits_broadcastEvent_bind
      exact emits_throw ⟨testRunStartedId, .refused e, .inr ⟨hoptions, e, rfl⟩, rfl, rfl⟩

namespace Api

/-- What a call relies on that is not part of this repository. -/
structure Dependencies where
  gherkin : Gherkin
  createRegexStrategy : Text → Except Text (Text → Bool)
  findLineageBy : List Message → ListedPickle → Option Lineage
  compiler : MatcherCompiler
  parseTagExpression : String → TagExpression

/-- What the program has registered: parameters, and definitions of hooks and steps. -/
structure Registered where
  parameters : List Parameter := []
  registration : DefinitionRegistration := {}

structure RunOptions where
  sources : Sources
  runtime : RuntimeOptions := {}

def orderSources (ordering : Ordering) (pickleSources : List LoadedPickle) : List LoadedPickle :=
  if ordering = .defined then pickleSources else pickleSources.reverse

/-- The pickles to run; `sent` is what the query has been updated with. -/
def orderedPickles (d : Dependencies) (strategies : List (Text → Bool)) (sources : Sources)
    (pickleSources : List LoadedPickle) (sent : List Message) : Option (List LoadedPickle) := do
  let uniqueNames ← makeUniqueTestNames (d.findLineageBy sent)
    (pickleSources.map LoadedPickle.pickle)
  let selected ← pickleSources.filterM fun source =>
    filterByNameRegex strategies uniqueNames source.pickle
  pure (orderSources sources.ordering selected)

variable (d : Dependencies) (registered : Registered) (options : RunOptions)

theorem appends_emitSupportCodeMessages : Appends (emitSupportCodeMessages d.compiler
    d.parseTagExpression registered.parameters registered.registration : Run idGenerator _) :=
  (emits_emitSupportCodeMessages _ _ _ _).appends

theorem appends_makeRuntimeAndRun (pickleSources : List PickleSource) (l : SupportCodeLibrary) :
    Appends (makeRuntimeAndRun options.runtime pickleSources l : Run idGenerator Bool) :=
  (emits_makeRuntimeAndRun _ _ _).appends

/-- What `RunCucumber` does once it knows which pickles to run. -/
def emitAndRun (ordered : List LoadedPickle) : ApiRun idGenerator Bool := do
  let (loaded,supportCode) ← relabel ApiEvent.ofRun (emitSupportCodeMessages d.compiler
    d.parseTagExpression registered.parameters registered.registration)
    (appends_emitSupportCodeMessages d registered)
  sayAll (supportCode.map fun message => .broadcast (.supportCode message))
  relabel ApiEvent.ofRun
    (makeRuntimeAndRun options.runtime (ordered.map LoadedPickle.toPickleSource)
      (LoadedSupportCode.library loaded))
    (appends_makeRuntimeAndRun options _ _)

/-- `RunCucumber` once the name patterns are compiled. -/
def loadAndRun (strategies : List (Text → Bool)) : ApiRun idGenerator Bool := do
  match ← listen (loadPickles d.gherkin options.sources) with
  | (none,_) => pure false
  | (some pickleSources,sent) =>
    match orderedPickles d strategies options.sources pickleSources
      (sent.filterMap ApiEvent.message?) with
    -- `at` throws for a pickle without a name
    | none => throw .outOfRange
    | some ordered => emitAndRun d registered options ordered

def runCucumber : ApiRun idGenerator Bool :=
  match createNameRegexStrategies d.createRegexStrategy options.sources.nameRegexes with
  | (none,printed) => do
    sayAll (printed.map .println)
    pure false
  | (some strategies,_) => loadAndRun d registered options strategies

theorem runCucumber_eq {strategies : List (Text → Bool)}
    (h : (createNameRegexStrategies d.createRegexStrategy options.sources.nameRegexes).1 =
      some strategies) :
    (runCucumber d registered options : ApiRun idGenerator Bool) =
      loadAndRun d registered options strategies := by
  unfold runCucumber
  rcases hpatterns : createNameRegexStrategies d.createRegexStrategy
    options.sources.nameRegexes with ⟨compiled,printed⟩
  rw [hpatterns] at h
  obtain rfl : compiled = some strategies := h
  rfl

end Api

end CucumberCpp
