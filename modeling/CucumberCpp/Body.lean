import CucumberCpp.Unwinding
import CucumberCpp.Support

/-! Step and hook bodies: what their user code does phase by phase, and how its
failed expectations and its exceptions come to one result. -/
namespace CucumberCpp

open Unwinding

/-- `testing::TestPartResult::Type`, without `kSkip`. -/
inductive TestPartResultType where
  | success | nonFatalFailure | fatalFailure
  deriving DecidableEq, Repr

/-- `testing::TestPartResult`; `fileName` is relative to the working directory. -/
structure TestPartResult where
  type : TestPartResultType
  fileName : String := ""
  lineNumber : ℤ := -1
  message : String := ""
  deriving DecidableEq, Repr

def TestPartResult.failed (r : TestPartResult) : Bool := r.type != .success

def TestPartResult.fatallyFailed (r : TestPartResult) : Bool := r.type == .fatalFailure

/-- What can be thrown in a body. -/
inductive Thrown where
  | nestedTestCaseRunnerError (nesting : ℕ) (status : TestStepResult) (text : String)
  | stepSkipped (message : String)
  | stepPending (message : String)
  | fatalError (message : String)
  | stdException (type what : String)
  | other

/-- `to_string` on the status of a message. -/
def TestStepResultStatus.toString : TestStepResultStatus → String
  | .unknown => "UNKNOWN"
  | .passed => "PASSED"
  | .skipped => "SKIPPED"
  | .pending => "PENDING"
  | .undefined => "UNDEFINED"
  | .ambiguous => "AMBIGUOUS"
  | .failed => "FAILED"

def nestedStepMessage (nesting : ℕ) (status : TestStepResult) (text : String) : String :=
  let offset := "".pushn ' ' nesting
  let line := offset ++ " " ++ status.status.toString ++ " nested step: \"* " ++ text ++ "\""
  match status.message with
  | some message => line ++ "\n" ++ offset ++ " " ++ message
  | none => line

/-- The text of a skip or pending replaces the message only if there is one. -/
def overwriteMessage (message : String) (old : Option String) : Option String :=
  if message.isEmpty then old else some message

/-- `HandleErrors`, called once the exception has unwound the body. -/
def handleErrors (e : Thrown) (testStepResult : Util.TestStepResult) : Util.TestStepResult :=
  match e with
  | .nestedTestCaseRunnerError nesting status text =>
    { testStepResult with
      status := .failed
      message := if status.status ≠ .passed then some (nestedStepMessage nesting status text)
        else testStepResult.message }
  | .stepSkipped message =>
    { testStepResult with
      status := .skipped
      message := overwriteMessage message testStepResult.message }
  | .stepPending message =>
    { testStepResult with
      status := .pending
      message := overwriteMessage message testStepResult.message }
  | .fatalError _ => { testStepResult with status := .failed }
  | .stdException type what =>
    { testStepResult with
      status := .failed
      exception := some { type := type, message := some what } }
  | .other =>
    { testStepResult with
      status := .failed
      exception := some { type := "unknown", message := some "unknown exception" } }

/-- The result that a body and its reporter write to. `reported` is what the
reporter has been called with so far, which the source does not keep. -/
structure BodyState where
  testStepResult : Util.TestStepResult := { status := .passed }
  reported : List TestPartResult := []

abbrev BodyCode := Code Thrown BodyState Unit

def failureMessage (r : TestPartResult) (old : Option String) : String :=
  let failure := r.fileName ++ ":" ++ toString r.lineNumber ++ ": Failure\n" ++ r.message
  match old with
  | some message => message ++ "\n" ++ failure
  | none => failure

/-- What `ReportTestPartResult` does to the result of its body. -/
def BodyState.report (testPartResult : TestPartResult) (s : BodyState) : BodyState where
  testStepResult :=
    if testPartResult.failed then
      { s.testStepResult with
        status := .failed
        message := some (failureMessage testPartResult s.testStepResult.message) }
    else s.testStepResult
  reported := s.reported ++ [testPartResult]

def reportTestPartResult (testPartResult : TestPartResult) : BodyCode := do
  modify (BodyState.report testPartResult)
  if testPartResult.fatallyFailed then
    throw (.fatalError testPartResult.message)

mutual

/-- One thing that user code does: an expectation or assertion and how it comes
out, the end of the phase by an exception, or a nested step, given by its text
and the bodies of the definitions that match it. -/
inductive Action where
  | expectation (testPartResult : TestPartResult)
  | skipped (message : String)
  | pending (message : String)
  | throwStd (type what : String)
  | throwOther
  | step (text : String) (definitions : List Body)

/-- A step or hook body: what it would do in each phase of its life if nothing
was thrown before, and how long it takes. -/
structure Body where
  constructor : List Action := []
  setUp : List Action := []
  executeImpl : List Action := []
  tearDown : List Action := []
  destructor : List Action := []
  nanoseconds : UInt64 := 0

end

/-- `Body::Execute`: the wrapper's constructor calls `SetUp`, its destructor
`TearDown`. -/
def execute (setUp executeImpl tearDown : BodyCode) : BodyCode :=
  lifetime setUp executeImpl tearDown

/-- The life of the temporary in `bodyFactory(testStepResult)->Execute(args)`. -/
def constructExecuteDestroy (constructor setUp executeImpl tearDown destructor : BodyCode) :
    BodyCode :=
  lifetime constructor (execute setUp executeImpl tearDown) destructor

/-- What becomes of the result after the `try` block: the handler, and then the
reading of the stopwatch. -/
def conclude (nanoseconds : UInt64) (left : Except Thrown Unit) (s : BodyState) : BodyState :=
  let testStepResult := match left with
    | .ok () => s.testStepResult
    | .error e => handleErrors e s.testStepResult
  { s with
    testStepResult := { testStepResult with
      duration :=
        { seconds := nanoseconds/nanosecondsPerSecond
          nanos := nanoseconds%nanosecondsPerSecond } } }

def constructAndExecute (body : BodyCode) (nanoseconds : UInt64) : Option BodyState :=
  (exec body {}).map fun (left,s) => conclude nanoseconds left s

/-- `Invoke` of a nested step, by what `ConstructAndExecute` returns to it. -/
def invokeNested (nesting : ℕ) (text : String) : Option BodyState → BodyCode
  | none => terminate
  | some nested =>
    if nested.testStepResult.status ≠ .passed then
      throw (.nestedTestCaseRunnerError nesting (transformTestStepResult nested.testStepResult)
        text)
    else pure ()

mutual

/-- The action in a body whose `NestedTestCaseRunner` has the given nesting.
What a nested step reports goes to the reporter of its own body. That it comes
to what `StepBase.step` comes to is `StepBase.emits_step_action`. -/
def Action.run (nesting : ℕ) : Action → BodyCode
  | .expectation testPartResult => reportTestPartResult testPartResult
  | .skipped message => throw (.stepSkipped message)
  | .pending message => throw (.stepPending message)
  | .throwStd type what => throw (.stdException type what)
  | .throwOther => throw .other
  | .step text [] =>
    throw (.nestedTestCaseRunnerError nesting { status := .undefined } text)
  | .step text [body] => invokeNested nesting text (body.run (nesting+1))
  | .step text (_ :: _ :: _) =>
    throw (.nestedTestCaseRunnerError nesting
      { message := some "Ambiguous step definitions", status := .ambiguous } text)

def runPhase (nesting : ℕ) : List Action → BodyCode
  | [] => pure ()
  | a :: rest => do
    a.run nesting
    runPhase nesting rest

/-- `ConstructAndExecute` on the factory of the body. -/
def Body.run (nesting : ℕ) : Body → Option BodyState
  | ⟨constructor,setUp,executeImpl,tearDown,destructor,nanoseconds⟩ =>
    constructAndExecute
      (constructExecuteDestroy (runPhase nesting constructor) (runPhase nesting setUp)
        (runPhase nesting executeImpl) (runPhase nesting tearDown) (runPhase nesting destructor))
      nanoseconds

end

/-- The expression in the `try` block of `ConstructAndExecute` for the body. -/
def Body.code (nesting : ℕ) (body : Body) : BodyCode :=
  constructExecuteDestroy (runPhase nesting body.constructor) (runPhase nesting body.setUp)
    (runPhase nesting body.executeImpl) (runPhase nesting body.tearDown)
    (runPhase nesting body.destructor)

theorem Body.run_eq (nesting : ℕ) (body : Body) :
    body.run nesting = constructAndExecute (body.code nesting) body.nanoseconds := by
  cases body
  rfl

end CucumberCpp
