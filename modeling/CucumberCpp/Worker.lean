import CucumberCpp.Assemble
import CucumberCpp.TestCaseRunner

/-! `runtime/Worker.cpp`, `runtime/SerialRuntimeAdapter.cpp`, `runtime/Coordinator.cpp`
and `runtime/MakeRuntime.cpp`: suites, runs and the hooks around them. -/
namespace CucumberCpp

open EventLog

variable {idGenerator : IdGenerator}

/-- `failingStatuses`. -/
def failingStatuses : List TestStepResultStatus := [.ambiguous, .failed, .undefined]

def retriesForPickle (pickle : Pickle) (options : RuntimeOptions) : UInt64 :=
  if options.retry = 0 then 0
  else if options.retryTagExpression (transformPickleTags pickle.tags) then options.retry
  else 0

/-- `IsFailing`, which `Worker.cpp` and `SerialRuntimeAdapter.cpp` each define. -/
def isFailing (status : TestStepResultStatus) (dryRun : Bool) : Bool :=
  if dryRun then false else status != .passed

structure Worker where
  testRunStartedId : String
  options : RuntimeOptions
  supportCodeLibrary : SupportCodeLibrary

namespace Worker

def make (testRunStartedId : String) (options : RuntimeOptions)
    (supportCodeLibrary : SupportCodeLibrary) : Except Fault Worker :=
  if options.repeats = some 0 then
    .error (.invalidArgument "repeat must be at least 1")
  else if options.repeats.isSome ∧ options.retry ≠ 0 then
    .error (.invalidArgument "repeat and retry are mutually exclusive")
  else
    .ok
      { testRunStartedId := testRunStartedId
        options := options
        supportCodeLibrary := supportCodeLibrary }

variable (w : Worker)

def isStatusFailed (status : TestStepResultStatus) : Bool :=
  if w.options.dryRun then false
  else if w.options.strict ∧ status = .pending then true
  else failingStatuses.contains status

/-- The arguments of a hook called outside test cases. -/
def globalHookArgs (site : CallSite) (testRunHookStarted : TestRunHookStarted) : HookArgs where
  site := site
  stepOrHookStarted := .hook (transformTestRunHookStarted testRunHookStarted)
  scenarioInfo := none
  hasError := false

/-- The result of a global hook: skipped in a dry run, otherwise that of its
body, which may end the run. -/
def globalHookResult (definition : HookDefinition) (site : CallSite)
    (testRunHookStarted : TestRunHookStarted) : Run idGenerator TestStepResult :=
  if w.options.dryRun then
    pure { status := .skipped }
  else do
    let result ← invokeHook definition (globalHookArgs site testRunHookStarted)
    -- thrown before the event that the hook is finished
    if result.status ≠ .passed ∧ w.options.failGlobalHookFast then
      throw (.globalHookError definition.data result)
    else
      pure result

def runTestHook (id : String) (site : CallSite) : Run idGenerator TestStepResult := do
  let definition ← fromExcept (w.supportCodeLibrary.hookRegistry.getDefinitionById id)
  let testRunHookStartedId ← nextId
  let testRunHookStarted : TestRunHookStarted :=
    { id := testRunHookStartedId
      testRunStartedId := w.testRunStartedId
      hookId := definition.data.id }
  broadcastEvent (.testRunHookStarted testRunHookStarted)
  let result ← w.globalHookResult definition site testRunHookStarted
  broadcastEvent (.testRunHookFinished
    { testRunHookStartedId := testRunHookStartedId, result := result })
  pure result

def runBeforeAllHooks : Run idGenerator (List TestStepResult) :=
  (w.supportCodeLibrary.hookRegistry.findIds .beforeAll ∅).mapM' fun id =>
    w.runTestHook id .testRun

def runAfterAllHooks : Run idGenerator (List TestStepResult) :=
  (w.supportCodeLibrary.hookRegistry.findIds .afterAll ∅).reverse.mapM' fun id =>
    w.runTestHook id .testRun

def runBeforeTestSuiteHooks (document : GherkinDocument) : Run idGenerator (List TestStepResult) :=
  (w.supportCodeLibrary.hookRegistry.findIds .beforeFeature
    (transformTags document.feature.tags)).mapM' fun id =>
      w.runTestHook id (.testSuite document.uri)

def runAfterTestSuiteHooks (document : GherkinDocument) : Run idGenerator (List TestStepResult) :=
  -- not reversed, unlike the after-all hooks
  (w.supportCodeLibrary.hookRegistry.findIds .afterFeature
    (transformTags document.feature.tags)).mapM' fun id =>
      w.runTestHook id (.testSuite document.uri)

/-- The repetitions that apply to a pickle. -/
def repeatsForPickle (pickle : Pickle) : Option UInt64 :=
  match w.options.repeatTagExpression with
  | none => w.options.repeats
  | some expression =>
    if expression (transformPickleTags pickle.tags) then w.options.repeats else none

def skipTestCase (failing : Bool) : Bool :=
  w.options.dryRun || (w.options.failFast && failing)

def runTestCase (assembledTestCase : AssembledTestCase) (failing : Bool) :
    Run idGenerator Bool := do
  let testCaseRunner ← fromExcept (TestCaseRunner.make assembledTestCase.pickle
    assembledTestCase.testCase (retriesForPickle assembledTestCase.pickle w.options)
    (w.skipTestCase failing) w.supportCodeLibrary (w.repeatsForPickle assembledTestCase.pickle))
  let status ← testCaseRunner.run
  pure (!w.isStatusFailed status)

/-- The flag `failing` of `RunTestSuite` after the before-feature hooks. -/
def failingBeforeSuite (document : GherkinDocument) (failing : Bool) : Run idGenerator Bool :=
  if w.options.featureHooks then do
    let beforeHookResults ← w.runBeforeTestSuiteHooks document
    pure (failing || isFailing (getWorstTestStepResult beforeHookResults).status w.options.dryRun)
  else
    pure failing

/-- The flag `failing` of `RunTestSuite` after the after-feature hooks. -/
def failingAfterSuite (document : GherkinDocument) (failing : Bool) : Run idGenerator Bool :=
  if w.options.featureHooks then do
    let afterHookResults ← w.runAfterTestSuiteHooks document
    pure (failing || isFailing (getWorstTestStepResult afterHookResults).status w.options.dryRun)
  else
    pure failing

def runTestCases (testCases : List AssembledTestCase) (failing : Bool) : Run idGenerator Bool :=
  testCases.foldlM (fun failed assembledTestCase => do
    let success ← w.runTestCase assembledTestCase (failed || failing)
    pure (failed || !success)) false

def runTestSuite (assembledTestSuite : AssembledTestSuite) (failing : Bool) :
    Run idGenerator Bool := do
  let failing ← w.failingBeforeSuite assembledTestSuite.gherkinDocument failing
  let failed ← w.runTestCases assembledTestSuite.testCases failing
  -- as in the source, nothing reads the flag once the after-feature hooks have run
  let _failing ← w.failingAfterSuite assembledTestSuite.gherkinDocument failing
  pure (!failed)

/-- One round of the loop over the suites, with its `catch (...)`. -/
def runSuiteCatching (failing : Bool) (assembledTestSuite : AssembledTestSuite) :
    Run idGenerator Bool :=
  tryCatch
    (do
      let success ← w.runTestSuite assembledTestSuite failing
      pure (failing || !success))
    fun
      -- what is no exception cannot be caught
      | .undefinedBehaviour => throw .undefinedBehaviour
      | _ => pure true

end Worker

/-- The part of `SerialRuntimeAdapter::Run` between the before-all and the after-all hooks. -/
def runAssembledSuites (worker : Worker) (sourcedPickles : List PickleSource) (failing : Bool) :
    Run idGenerator Bool :=
  if failing then pure failing
  else do
    let assembledTestSuites ← assembleTestSuites worker.supportCodeLibrary worker.testRunStartedId
      sourcedPickles
    assembledTestSuites.foldlM worker.runSuiteCatching failing

def SerialRuntimeAdapter.run (testRunStartedId : String) (sourcedPickles : List PickleSource)
    (options : RuntimeOptions) (supportCodeLibrary : SupportCodeLibrary) :
    Run idGenerator Bool := do
  let worker ← fromExcept (Worker.make testRunStartedId options supportCodeLibrary)
  let beforeHookResults ← worker.runBeforeAllHooks
  let failing ← runAssembledSuites worker sourcedPickles
    (isFailing (getWorstTestStepResult beforeHookResults).status options.dryRun)
  let afterHookResults ← worker.runAfterAllHooks
  pure (!(failing || isFailing (getWorstTestStepResult afterHookResults).status options.dryRun))

def Coordinator.run (testRunStartedId : String) (runtimeAdapter : Run idGenerator Bool) :
    Run idGenerator Bool := do
  broadcastEvent (.testRunStarted { id := testRunStartedId })
  let success ← runtimeAdapter
  broadcastEvent (.testRunFinished { success := success, testRunStartedId := testRunStartedId })
  pure success

/-- `MakeRuntime` followed by the run of the coordinator it makes. -/
def makeRuntimeAndRun (options : RuntimeOptions) (sourcedPickles : List PickleSource)
    (supportCodeLibrary : SupportCodeLibrary) : Run idGenerator Bool := do
  let testRunStartedId ← nextId
  Coordinator.run testRunStartedId
    (SerialRuntimeAdapter.run testRunStartedId sourcedPickles options supportCodeLibrary)

end CucumberCpp
