import CucumberCpp.TestCaseRunner

/-! What one attempt at a test case amounts to, apart from how it is computed:
a record for every test step, and the rule that ties each record to the
records before it. -/
namespace CucumberCpp

open EventLog

/-- A body that was executed. -/
structure BodyRun where
  call : Invocation
  outcome : Outcome

namespace BodyRun

def result (b : BodyRun) : TestStepResult := transformTestStepResult b.outcome.result

def log (b : BodyRun) : List (Entry String Event) :=
  .said (.invoked b.call b.outcome.result) ::
    b.outcome.attachments.map fun a => .said (.broadcast (.attachment a))

def ofHook (definition : HookDefinition) (args : HookArgs) : BodyRun where
  call := .hook definition.data args
  outcome := definition.factory args

def ofStep (definition : StepDefinition) (args : StepArgs) : BodyRun where
  call := .step definition.id args
  outcome := definition.factory args

@[simp] theorem events_log (b : BodyRun) : events b.log = .invoked b.call b.outcome.result ::
    b.outcome.attachments.map fun a => .broadcast (.attachment a) := by
  simp [log]

@[simp] theorem drawn_log (b : BodyRun) : drawn b.log = [] := by
  simp [log]

/-- User code never reports an unknown status. -/
theorem result_known (b : BodyRun) : b.result.status ≠ .unknown := by
  intro h
  apply b.outcome.known
  exact transformTestStepResultStatus_injective (h.trans rfl)

theorem worst_failed_iff (bs : List BodyRun) :
    (getWorstTestStepResult (bs.map result)).status = .failed ↔
      ∃ b ∈ bs, b.result.status = .failed := by
  rw [getWorstTestStepResult_failed_iff]
  simp

end BodyRun

/-- One test step of an attempt: the bodies it executed, the suggestion it made
and the result it was given. -/
structure StepRun where
  testStep : TestStep
  bodies : List BodyRun := []
  suggestion : Option Suggestion := none
  result : TestStepResult

namespace StepRun

def isPickleStep (s : StepRun) : Bool := s.testStep.hookId.isNone

def suggestionLog (s : StepRun) : List (Entry String Event) :=
  match s.suggestion with
  | none => []
  | some suggestion => [.drew suggestion.id, .said (.broadcast (.suggestion suggestion))]

def log (testCaseStartedId : String) (s : StepRun) : List (Entry String Event) :=
  .said (.broadcast (.testStepStarted ⟨testCaseStartedId, s.testStep.id⟩)) ::
    (s.suggestionLog ++ s.bodies.flatMap BodyRun.log ++
      [.said (.broadcast (.testStepFinished ⟨testCaseStartedId, s.testStep.id, s.result⟩))])

end StepRun

/-- The loop state after a further test step. -/
def AttemptState.after (state : AttemptState) (s : StepRun) : AttemptState where
  testStepResults := state.testStepResults ++ [s.result]
  seenSteps := state.seenSteps || s.isPickleStep
  error := state.error ||
    (s.isPickleStep && (s.result.message.isSome || s.result.exception.isSome))

theorem AttemptState.after_of_hook (state : AttemptState) {s : StepRun}
    (h : s.isPickleStep = false) : state.after s =
      { state with testStepResults := state.testStepResults ++ [s.result] } := by
  simp [after, h]

theorem AttemptState.after_of_pickleStep (state : AttemptState) {s : StepRun}
    (h : s.isPickleStep = true) : state.after s =
      { testStepResults := state.testStepResults ++ [s.result]
        seenSteps := true
        error := state.error || s.result.message.isSome || s.result.exception.isSome } := by
  simp [after, h, Bool.or_assoc]

def stateAfter (steps : List StepRun) : AttemptState := steps.foldl AttemptState.after {}

theorem stateAfter_concat (steps : List StepRun) (s : StepRun) :
    stateAfter (steps ++ [s]) = (stateAfter steps).after s := by
  simp [stateAfter]

@[simp] theorem stateAfter_testStepResults (steps : List StepRun) :
    (stateAfter steps).testStepResults = steps.map StepRun.result := by
  induction steps using List.reverseRecOn with
  | nil => rfl
  | append_singleton steps s ih => simp [stateAfter_concat, AttemptState.after, ih]

@[simp] theorem stateAfter_seenSteps (steps : List StepRun) :
    (stateAfter steps).seenSteps = steps.any StepRun.isPickleStep := by
  induction steps using List.reverseRecOn with
  | nil => rfl
  | append_singleton steps s ih => simp [stateAfter_concat, AttemptState.after, ih]

namespace TestCaseRunner

variable (c : TestCaseRunner)

/-- `b` executes the hook with this id while a test step is open. -/
def IsStepHookRun (site : CallSite) (started : TestStepStarted) (id : String) (b : BodyRun) :
    Prop :=
  ∃ d, c.supportCodeLibrary.hookRegistry.getDefinitionById id = .ok d ∧
    b = .ofHook d (c.hookArgs site started false)

/-- `bs` executes all before-step or all after-step hooks of the scenario in order. -/
def StepHooksRule (hookType : HookType) (site : CallSite) (started : TestStepStarted)
    (bs : List BodyRun) : Prop :=
  List.Forall₂ (c.IsStepHookRun site started)
    (c.supportCodeLibrary.hookRegistry.findIds hookType (transformPickleTags c.pickle.tags)) bs

/-- The bodies of an executed step: its definition runs between its hooks,
unless a before-step hook failed. -/
inductive StepBodies (pickleStep : PickleStep) (testStep : TestStep) (site : CallSite)
    (started : TestStepStarted) : List BodyRun → Prop where
  | hooksOnly {before after} (hbefore : c.StepHooksRule .beforeStep site started before)
      (hafter : c.StepHooksRule .afterStep site started after)
      (hfailed : (getWorstTestStepResult (before.map BodyRun.result)).status = .failed) :
      StepBodies pickleStep testStep site started (before ++ after)
  | withDefinition {before after id ids d args lists}
      (hbefore : c.StepHooksRule .beforeStep site started before)
      (hafter : c.StepHooksRule .afterStep site started after)
      (hfailed : (getWorstTestStepResult (before.map BodyRun.result)).status ≠ .failed)
      (hids : testStep.stepDefinitionIds = some (id :: ids))
      (hlists : testStep.stepMatchArgumentsLists = some (args :: lists))
      (hd : c.supportCodeLibrary.stepRegistry.getDefinitionById id = .ok d) :
      StepBodies pickleStep testStep site started
        (before ++ .ofStep d (stepArgs pickleStep site started args) :: after)

/-- The site of the test step that comes next. -/
def nextSite (attempt : UInt64) (state : AttemptState) : CallSite :=
  .testStep c.pickle.id attempt state.testStepResults.length

/-- The pickle step a test step stands for. -/
def pickleStepOf (testStep : TestStep) : Option PickleStep :=
  testStep.pickleStepId.bind fun id => c.pickle.steps.find? fun pickleStep => pickleStep.id = id

/-- Everything a test step can do after the ones that led to `state`. -/
inductive StepRule (attempt : UInt64) (startedId : String) (state : AttemptState) :
    StepRun → Prop where
  | hookSkipped {testStep id} (hhook : testStep.hookId = some id)
      (hskip : c.shouldSkipHook state.testStepResults (!state.seenSteps) = true) :
      StepRule attempt startedId state { testStep := testStep, result := { status := .skipped } }
  | hookExecuted {testStep id d} (hhook : testStep.hookId = some id)
      (hskip : c.shouldSkipHook state.testStepResults (!state.seenSteps) = false)
      (hd : c.supportCodeLibrary.hookRegistry.getDefinitionById id = .ok d) {b : BodyRun}
      (hb : b = .ofHook d (c.hookArgs (c.nextSite attempt state) ⟨startedId, testStep.id⟩
        state.error)) :
      StepRule attempt startedId state { testStep := testStep, bodies := [b], result := b.result }
  | undefined {testStep pickleStep} (hhook : testStep.hookId = none)
      (hstep : c.pickleStepOf testStep = some pickleStep)
      (hids : testStep.stepDefinitionIds = some [])
      (hfollows : c.followsSkippedStep state.testStepResults = false) (id : String) :
      StepRule attempt startedId state
        { testStep := testStep
          suggestion := some { id := id, pickleStepId := pickleStep.id }
          result := { status := .undefined } }
  | ambiguous {testStep pickleStep ids} (hhook : testStep.hookId = none)
      (hstep : c.pickleStepOf testStep = some pickleStep)
      (hids : testStep.stepDefinitionIds = some ids) (hmany : 1 < ids.length)
      (hfollows : c.followsSkippedStep state.testStepResults = false) :
      StepRule attempt startedId state
        { testStep := testStep
          result := { message := some "Ambiguous step definitions", status := .ambiguous } }
  | stepSkipped {testStep pickleStep ids} (hhook : testStep.hookId = none)
      (hstep : c.pickleStepOf testStep = some pickleStep)
      (hids : testStep.stepDefinitionIds = some ids)
      (hcount : c.followsSkippedStep state.testStepResults = true ∨ ids.length = 1)
      (hskipping : c.isSkippingSteps state.testStepResults = true) :
      StepRule attempt startedId state { testStep := testStep, result := { status := .skipped } }
  | stepExecuted {testStep pickleStep id bodies} (hhook : testStep.hookId = none)
      (hstep : c.pickleStepOf testStep = some pickleStep)
      (hids : testStep.stepDefinitionIds = some [id])
      (hskipping : c.isSkippingSteps state.testStepResults = false)
      (hbodies : c.StepBodies pickleStep testStep (c.nextSite attempt state)
        ⟨startedId, testStep.id⟩ bodies) :
      StepRule attempt startedId state
        { testStep := testStep
          bodies := bodies
          result := combineStepResults (bodies.map BodyRun.result) }

end TestCaseRunner

/-- One attempt at a test case. -/
structure AttemptRun where
  id : String
  attempt : UInt64
  steps : List StepRun
  willBeRetried : Bool

namespace AttemptRun

def results (a : AttemptRun) : List TestStepResult := a.steps.map StepRun.result

def log (testCaseId : String) (a : AttemptRun) : List (Entry String Event) :=
  .drew a.id :: .said (.broadcast (.testCaseStarted ⟨a.attempt, a.id, testCaseId⟩)) ::
    (a.steps.flatMap (StepRun.log a.id) ++
      [.said (.broadcast (.testCaseFinished ⟨a.id, a.willBeRetried⟩))])

end AttemptRun

namespace TestCaseRunner

variable (c : TestCaseRunner)

/-- One record for each test step of the test case, each following the rule. -/
structure StepsRule (attempt : UInt64) (startedId : String) (steps : List StepRun) : Prop where
  complete : steps.map StepRun.testStep = c.testCase.testSteps
  threaded : Threaded (fun pre s => c.StepRule attempt startedId (stateAfter pre) s) steps

structure AttemptRule (moreAttemptsAvailable : Bool) (a : AttemptRun) : Prop where
  steps : c.StepsRule a.attempt a.id a.steps
  retried : a.willBeRetried = c.willRetry a.results moreAttemptsAvailable

/-- The attempts of a test case from number `attempt` on, with `remaining` of
them allowed, and the status they lead to. -/
inductive AttemptsRule : TestStepResult → UInt64 → ℕ → List AttemptRun →
    TestStepResultStatus → Prop where
  | exhausted {overallResult attempt} : AttemptsRule overallResult attempt 0 [] .unknown
  | last {overallResult attempt remaining a}
      (hnumber : a.attempt = attempt)
      (hrule : c.AttemptRule (attempt+1 < c.maximumAttempts) a)
      (hretry : a.willBeRetried = false) :
      AttemptsRule overallResult attempt (remaining+1) [a]
        (if c.repeats then
          (getWorstTestStepResult [overallResult, c.getWorstStepResult a.results]).status
        else (c.getWorstStepResult a.results).status)
  | again {overallResult attempt remaining a attempts status}
      (hnumber : a.attempt = attempt)
      (hrule : c.AttemptRule (attempt+1 < c.maximumAttempts) a)
      (hretry : a.willBeRetried = true)
      (hrest : AttemptsRule
        (getWorstTestStepResult [overallResult, c.getWorstStepResult a.results]) (attempt+1)
        remaining attempts status) :
      AttemptsRule overallResult attempt (remaining+1) (a :: attempts) status

variable {c} in
theorem AttemptsRule.stepsRule {overallResult : TestStepResult} {attempt : UInt64} {remaining : ℕ}
    {attempts : List AttemptRun} {status : TestStepResultStatus}
    (h : c.AttemptsRule overallResult attempt remaining attempts status) :
    ∀ a ∈ attempts, c.StepsRule a.attempt a.id a.steps := by
  induction h with
  | exhausted => simp
  | last _ hrule _ => simpa using hrule.steps
  | again _ hrule _ _ ih =>
    rw [List.forall_mem_cons]
    exact ⟨hrule.steps, ih⟩

/-- What assembly guarantees of a test step, so that running it finds everything it refers to. -/
inductive Resolves (testStep : TestStep) : Prop where
  | hook {id d} (hhook : testStep.hookId = some id)
      (hd : c.supportCodeLibrary.hookRegistry.getDefinitionById id = .ok d)
  | pickleStep {pickleStep ids lists} (hhook : testStep.hookId = none)
      (hstep : c.pickleStepOf testStep = some pickleStep)
      (hids : testStep.stepDefinitionIds = some ids)
      (hlists : testStep.stepMatchArgumentsLists = some lists)
      (hlength : lists.length = ids.length)
      (hd : ∀ id ∈ ids, ∃ d, c.supportCodeLibrary.stepRegistry.getDefinitionById id = .ok d)

end TestCaseRunner

end CucumberCpp
