import CucumberCpp.Support

/-! `runtime/TestCaseRunner.cpp`: one test case, attempt by attempt. -/
namespace CucumberCpp

open EventLog

variable {idGenerator : IdGenerator}

def broadcastAttachments : List Attachment → Run idGenerator Unit
  | [] => pure ()
  | attachment :: attachments => do
    broadcastEvent (.attachment attachment)
    broadcastAttachments attachments

/-- `ConstructAndExecute` as its caller sees it: the factory is called, the body
broadcasts its attachments and a result comes back. -/
def executeBody (call : Invocation) (outcome : Outcome) : Run idGenerator Util.TestStepResult := do
  say (.invoked call outcome.result)
  broadcastAttachments outcome.attachments
  pure outcome.result

def invokeHook (definition : HookDefinition) (args : HookArgs) :
    Run idGenerator TestStepResult := do
  let result ← executeBody (.hook definition.data args) (definition.factory args)
  pure (transformTestStepResult result)

def invokeStep (definition : StepDefinition) (args : StepArgs) :
    Run idGenerator TestStepResult := do
  let result ← executeBody (.step definition.id args) (definition.factory args)
  pure (transformTestStepResult result)

def makeScenarioInfo (pickle : Pickle) : ScenarioInfo where
  name := pickle.name
  tags := transformPickleTags pickle.tags

structure TestCaseRunner where
  pickle : Pickle
  testCase : TestCase
  maximumAttempts : UInt64
  repeats : Bool
  skip : Bool
  supportCodeLibrary : SupportCodeLibrary

/-- What the loop over the test steps carries from one step to the next. -/
structure AttemptState where
  testStepResults : List TestStepResult := []
  seenSteps : Bool := false
  error : Bool := false

namespace TestCaseRunner

/-- The constructor. `1+retries` is `std::size_t` arithmetic. -/
def make (pickle : Pickle) (testCase : TestCase) (retries : UInt64) (skip : Bool)
    (supportCodeLibrary : SupportCodeLibrary) (repeats : Option UInt64) :
    Except Fault TestCaseRunner :=
  if repeats = some 0 then
    .error (.invalidArgument "repeat must be at least 1")
  else if repeats.isSome ∧ retries ≠ 0 then
    .error (.invalidArgument "repeat and retry are mutually exclusive")
  else
    .ok
      { pickle := pickle
        testCase := testCase
        maximumAttempts := if skip then 1 else repeats.getD (1+retries)
        repeats := repeats.isSome
        skip := skip
        supportCodeLibrary := supportCodeLibrary }

variable (c : TestCaseRunner)

def getWorstStepResult (testStepResults : List TestStepResult) : TestStepResult :=
  if testStepResults.isEmpty then { status := if c.skip then .skipped else .passed }
  else getWorstTestStepResult testStepResults

def isSkippingSteps (testStepResults : List TestStepResult) : Bool :=
  (c.getWorstStepResult testStepResults).status != .passed

def shouldSkipHook (testStepResults : List TestStepResult) (isBeforeHook : Bool) : Bool :=
  c.skip || (c.isSkippingSteps testStepResults && isBeforeHook)

/-- Undefined and ambiguous steps following a skipped step are reported as skipped. -/
def followsSkippedStep (testStepResults : List TestStepResult) : Bool :=
  !c.skip && !testStepResults.isEmpty && (c.getWorstStepResult testStepResults).status == .skipped

/-- The arguments of a hook called while a test step is open. -/
def hookArgs (site : CallSite) (testStepStarted : TestStepStarted) (hasError : Bool) :
    HookArgs where
  site := site
  stepOrHookStarted := .step (transformTestStepStarted testStepStarted)
  scenarioInfo := some (makeScenarioInfo c.pickle)
  hasError := hasError

def runHook (testStepResults : List TestStepResult) (hookDefinition : HookDefinition)
    (isBeforeHook : Bool) (site : CallSite) (testStepStarted : TestStepStarted)
    (hasError : Bool) : Run idGenerator TestStepResult :=
  if c.shouldSkipHook testStepResults isBeforeHook then
    pure { status := .skipped }
  else
    invokeHook hookDefinition (c.hookArgs site testStepStarted hasError)

def runStepHooks (hookType : HookType) (site : CallSite) (testStepStarted : TestStepStarted) :
    Run idGenerator (List TestStepResult) :=
  (c.supportCodeLibrary.hookRegistry.findIds hookType (transformPickleTags c.pickle.tags)).mapM'
    fun id => do
      let definition ← fromExcept (c.supportCodeLibrary.hookRegistry.getDefinitionById id)
      invokeHook definition (c.hookArgs site testStepStarted false)

/-- The arguments of the step definition of a pickle step. -/
def stepArgs (pickleStep : PickleStep) (site : CallSite) (testStepStarted : TestStepStarted)
    (args : StepMatchArgumentsList) : StepArgs where
  site := site
  stepOrHookStarted := .step (transformTestStepStarted testStepStarted)
  dataTable := transformTable (pickleStep.argument.bind (·.dataTable))
  docString := transformDocString (pickleStep.argument.bind (·.docString))
  args := stepMatchArgumentsListToExecuteArgs args

/-- `stepDefinitions.front()` applied to `stepMatchArgumentsLists->front()`. -/
def runStepDefinition (pickleStep : PickleStep) (testStep : TestStep) (site : CallSite)
    (testStepStarted : TestStepStarted) : Run idGenerator TestStepResult :=
  match testStep.stepDefinitionIds, testStep.stepMatchArgumentsLists with
  | some (id :: _), some (args :: _) => do
    let definition ← fromExcept (c.supportCodeLibrary.stepRegistry.getDefinitionById id)
    invokeStep definition (stepArgs pickleStep site testStepStarted args)
  | _, _ => throw .undefinedBehaviour

/-- The results of a step and its hooks folded into one. -/
def combineStepResults (stepResults : List TestStepResult) : TestStepResult :=
  { getWorstTestStepResult stepResults with
    duration := stepResults.foldl (fun finalDuration r => finalDuration.add r.duration) {} }

/-- The step's definition runs unless one of its before-step hooks failed. -/
def runBetweenStepHooks (beforeStepResults : List TestStepResult) (pickleStep : PickleStep)
    (testStep : TestStep) (site : CallSite) (testStepStarted : TestStepStarted) :
    Run idGenerator (List TestStepResult) :=
  if (getWorstTestStepResult beforeStepResults).status = .failed then
    pure beforeStepResults
  else do
    let result ← c.runStepDefinition pickleStep testStep site testStepStarted
    pure (beforeStepResults ++ [result])

/-- The part of `RunStep` for a step that is executed. -/
def executeStep (pickleStep : PickleStep) (testStep : TestStep) (site : CallSite)
    (testStepStarted : TestStepStarted) : Run idGenerator TestStepResult := do
  let beforeStepResults ← c.runStepHooks .beforeStep site testStepStarted
  let stepResults ←
    c.runBetweenStepHooks beforeStepResults pickleStep testStep site testStepStarted
  let afterStepHookResults ← c.runStepHooks .afterStep site testStepStarted
  pure (combineStepResults (stepResults ++ afterStepHookResults))

def runStep (testStepResults : List TestStepResult) (pickleStep : PickleStep)
    (testStep : TestStep) (site : CallSite) (testStepStarted : TestStepStarted) :
    Run idGenerator TestStepResult :=
  match testStep.stepDefinitionIds with
  -- the source dereferences the ids without a check
  | none => throw .undefinedBehaviour
  | some stepDefinitionIds =>
    -- the text is looked at before the results: what no definition matches is undefined even
    -- behind a step that failed
    if stepDefinitionIds.length = 0 ∧ c.followsSkippedStep testStepResults = false then do
      let id ← nextId
      broadcastEvent (.suggestion { id := id, pickleStepId := pickleStep.id })
      pure { status := .undefined }
    else if 1 < stepDefinitionIds.length ∧ c.followsSkippedStep testStepResults = false then
      pure { message := some "Ambiguous step definitions", status := .ambiguous }
    else if c.isSkippingSteps testStepResults then
      pure { status := .skipped }
    else
      c.executeStep pickleStep testStep site testStepStarted

/-- Result and state after a test step has started and before it finishes. -/
def runStartedStep (attempt : UInt64) (state : AttemptState) (testStep : TestStep)
    (testStepStarted : TestStepStarted) : Run idGenerator (TestStepResult × AttemptState) :=
  let site := CallSite.testStep c.pickle.id attempt state.testStepResults.length
  match testStep.hookId with
  | some hookId => do
    let definition ← fromExcept (c.supportCodeLibrary.hookRegistry.getDefinitionById hookId)
    let result ← c.runHook state.testStepResults definition (!state.seenSteps) site
      testStepStarted state.error
    pure (result, { state with testStepResults := state.testStepResults ++ [result] })
  | none =>
    match testStep.pickleStepId with
    -- `pickleStepId.value()`
    | none => throw .badOptionalAccess
    | some pickleStepId =>
      match c.pickle.steps.find? fun pickleStep => pickleStep.id = pickleStepId with
      -- the end of the steps, which the source dereferences
      | none => throw .undefinedBehaviour
      | some pickleStep => do
        let result ← c.runStep state.testStepResults pickleStep testStep site testStepStarted
        pure (result,
          { testStepResults := state.testStepResults ++ [result]
            seenSteps := true
            error := state.error || result.message.isSome || result.exception.isSome })

/-- One round of the loop over `testCase.testSteps`. -/
def runTestStep (attempt : UInt64) (currentTestCaseStartedId : String) (state : AttemptState)
    (testStep : TestStep) : Run idGenerator AttemptState := do
  let testStepStarted : TestStepStarted :=
    { testCaseStartedId := currentTestCaseStartedId, testStepId := testStep.id }
  broadcastEvent (.testStepStarted testStepStarted)
  let next ← c.runStartedStep attempt state testStep testStepStarted
  broadcastEvent (.testStepFinished
    { testCaseStartedId := currentTestCaseStartedId
      testStepId := testStep.id
      testStepResult := next.1 })
  pure next.2

def willRetry (testStepResults : List TestStepResult) (moreAttemptsAvailable : Bool) : Bool :=
  moreAttemptsAvailable &&
    (c.repeats || (c.getWorstStepResult testStepResults).status == .failed)

/-- `RunAttempt`, together with the results it leaves in the runner. -/
def runAttempt (attempt : UInt64) (moreAttemptsAvailable : Bool) :
    Run idGenerator (Bool × List TestStepResult) := do
  let currentTestCaseStartedId ← nextId
  broadcastEvent (.testCaseStarted
    { attempt := attempt, id := currentTestCaseStartedId, testCaseId := c.testCase.id })
  let state ← c.testCase.testSteps.foldlM (c.runTestStep attempt currentTestCaseStartedId) {}
  broadcastEvent (.testCaseFinished
    { testCaseStartedId := currentTestCaseStartedId
      willBeRetried := c.willRetry state.testStepResults moreAttemptsAvailable })
  pure (c.willRetry state.testStepResults moreAttemptsAvailable, state.testStepResults)

/-- The loop of `Run`, with `remaining = maximumAttempts - attempt` rounds left. -/
def runAttempts (overallResult : TestStepResult) (attempt : UInt64) :
    ℕ → Run idGenerator TestStepResultStatus
  | 0 => pure .unknown
  | remaining+1 => do
    let attempted ← c.runAttempt attempt (attempt+1 < c.maximumAttempts)
    let result := c.getWorstStepResult attempted.2
    let overallResult := getWorstTestStepResult [overallResult, result]
    if attempted.1 then
      runAttempts overallResult (attempt+1) remaining
    else
      -- the verdict of repetitions is their worst; a retry forgets the attempts before it
      pure (if c.repeats then overallResult.status else result.status)

def run : Run idGenerator TestStepResultStatus :=
  c.runAttempts { status := .passed } 0 c.maximumAttempts.toNat

end TestCaseRunner

end CucumberCpp
