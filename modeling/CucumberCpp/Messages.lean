import Mathlib

/-! The messages the runner exchanges with its listeners, and the results and
scenarios it works on. Timestamps are left out throughout. -/
namespace CucumberCpp

/-- `cucumber::messages::TestStepResultStatus`, from mildest to most severe. -/
inductive TestStepResultStatus where
  | unknown | passed | skipped | pending | undefined | ambiguous | failed
  deriving DecidableEq, Repr

def toUnderlying : TestStepResultStatus → ℕ
  | .unknown => 0
  | .passed => 1
  | .skipped => 2
  | .pending => 3
  | .undefined => 4
  | .ambiguous => 5
  | .failed => 6

def nanosecondsPerSecond : UInt64 := 1000000000

/-- `cucumber::messages::Duration`; both fields are `std::size_t`. -/
structure Duration where
  seconds : UInt64 := 0
  nanos : UInt64 := 0
  deriving DecidableEq, Repr

/-- `operator+=` on durations. -/
def Duration.add (lhs rhs : Duration) : Duration :=
  let totalNanos := lhs.nanos+rhs.nanos
  { seconds := lhs.seconds+rhs.seconds+totalNanos/nanosecondsPerSecond
    nanos := totalNanos%nanosecondsPerSecond }

structure Exception where
  type : String
  message : Option String
  deriving DecidableEq, Repr

structure TestStepResult where
  duration : Duration := {}
  message : Option String := none
  status : TestStepResultStatus := .unknown
  exception : Option Exception := none
  deriving DecidableEq, Repr

/-- `GetWorstTestStepResult`: the first of the most severe results. -/
def getWorstTestStepResult (testStepResults : List TestStepResult) : TestStepResult :=
  (testStepResults.argmax fun r => toUnderlying r.status).getD { status := .passed }

namespace Util

/-- `util::TestStepResultStatus`, the enumeration user code reports with. -/
inductive TestStepResultStatus where
  | unknown | passed | skipped | pending | undefined | ambiguous | failed
  deriving DecidableEq, Repr

structure TestDuration where
  seconds : UInt64 := 0
  nanos : UInt64 := 0
  deriving DecidableEq, Repr

structure TestException where
  type : String
  message : Option String
  deriving DecidableEq, Repr

structure TestStepResult where
  duration : TestDuration := {}
  message : Option String := none
  status : TestStepResultStatus := .unknown
  exception : Option TestException := none
  deriving DecidableEq, Repr

end Util

def transformTestStepResultStatus : Util.TestStepResultStatus → TestStepResultStatus
  | .unknown => .unknown
  | .passed => .passed
  | .skipped => .skipped
  | .pending => .pending
  | .undefined => .undefined
  | .ambiguous => .ambiguous
  | .failed => .failed

theorem transformTestStepResultStatus_injective :
    Function.Injective transformTestStepResultStatus := by
  intro a b h
  cases a <;> cases b <;> first | rfl | cases h

def transformTestStepResult (result : Util.TestStepResult) : TestStepResult where
  duration := { seconds := result.duration.seconds, nanos := result.duration.nanos }
  message := result.message
  status := transformTestStepResultStatus result.status
  exception := result.exception.map fun e => { type := e.type, message := e.message }

structure PickleDocString where
  mediaType : Option String
  content : String
  deriving DecidableEq, Repr

/-- `PickleTable`: its rows, each the values of its cells. -/
structure PickleTable where
  rows : List (List String)
  deriving DecidableEq, Repr

structure PickleStepArgument where
  docString : Option PickleDocString := none
  dataTable : Option PickleTable := none
  deriving DecidableEq, Repr

structure PickleStep where
  id : String
  text : String
  argument : Option PickleStepArgument := none
  deriving DecidableEq, Repr

/-- `cucumber::messages::Pickle`; `tags` are the names of its tags. -/
structure Pickle where
  id : String
  name : String
  tags : List String := []
  steps : List PickleStep := []
  deriving DecidableEq, Repr

structure Feature where
  tags : List String := []
  deriving DecidableEq, Repr

/-- A parsed feature file. The source reads `uri.value()` and `*feature`;
every document that pickles were compiled from has both. -/
structure GherkinDocument where
  uri : String
  feature : Feature := {}
  deriving DecidableEq, Repr

structure PickleSource where
  pickle : Pickle
  gherkinDocument : GherkinDocument
  deriving DecidableEq, Repr

/-- `cucumber::messages::Group`, what a pattern captured. -/
inductive Group where
  | mk (children : Option (List Group)) (start : Option ℕ) (value : Option String)

structure StepMatchArgument where
  group : Group
  parameterTypeName : Option String

structure StepMatchArgumentsList where
  stepMatchArguments : List StepMatchArgument := []

namespace Messages

/-- `cucumber::messages::SourceReference`; of a location the line is used. -/
structure SourceReference where
  uri : Option String
  location : Option ℕ
  deriving DecidableEq, Repr

inductive StepDefinitionPatternType where
  | cucumberExpression | regularExpression
  deriving DecidableEq, Repr

def StepDefinitionPatternType.toString : StepDefinitionPatternType → String
  | .cucumberExpression => "CUCUMBER_EXPRESSION"
  | .regularExpression => "REGULAR_EXPRESSION"

structure StepDefinitionPattern where
  source : String
  type : StepDefinitionPatternType
  deriving DecidableEq, Repr

structure StepDefinition where
  id : String
  pattern : StepDefinitionPattern
  sourceReference : SourceReference
  deriving DecidableEq, Repr

end Messages

structure TestStep where
  id : String
  hookId : Option String := none
  pickleStepId : Option String := none
  stepDefinitionIds : Option (List String) := none
  stepMatchArgumentsLists : Option (List StepMatchArgumentsList) := none

structure TestCase where
  id : String
  pickleId : String
  testRunStartedId : Option String
  testSteps : List TestStep := []

structure TestRunStarted where
  id : String
  deriving DecidableEq, Repr

structure TestRunFinished where
  success : Bool
  testRunStartedId : String
  deriving DecidableEq, Repr

structure TestRunHookStarted where
  id : String
  testRunStartedId : String
  hookId : String
  deriving DecidableEq, Repr

structure TestRunHookFinished where
  testRunHookStartedId : String
  result : TestStepResult
  deriving DecidableEq, Repr

structure TestCaseStarted where
  attempt : UInt64
  id : String
  testCaseId : String
  deriving DecidableEq, Repr

structure TestCaseFinished where
  testCaseStartedId : String
  willBeRetried : Bool
  deriving DecidableEq, Repr

structure TestStepStarted where
  testCaseStartedId : String
  testStepId : String
  deriving DecidableEq, Repr

structure TestStepFinished where
  testCaseStartedId : String
  testStepId : String
  testStepResult : TestStepResult
  deriving DecidableEq, Repr

structure Suggestion where
  id : String
  pickleStepId : String
  deriving DecidableEq, Repr

inductive AttachmentContentEncoding where
  | identity | base64
  deriving DecidableEq, Repr

structure Attachment where
  body : String
  contentEncoding : AttachmentContentEncoding
  mediaType : String
  fileName : Option String := none
  testCaseStartedId : Option String := none
  testStepId : Option String := none
  testRunHookStartedId : Option String := none
  deriving DecidableEq, Repr

/-- `cucumber::messages::Envelope`; every broadcast fills exactly one of its members. -/
inductive Envelope where
  | testRunStarted (message : TestRunStarted)
  | testRunHookStarted (message : TestRunHookStarted)
  | testRunHookFinished (message : TestRunHookFinished)
  | testCase (message : TestCase)
  | testCaseStarted (message : TestCaseStarted)
  | testStepStarted (message : TestStepStarted)
  | attachment (message : Attachment)
  | suggestion (message : Suggestion)
  | testStepFinished (message : TestStepFinished)
  | testCaseFinished (message : TestCaseFinished)
  | testRunFinished (message : TestRunFinished)

section Worst

variable {rs : List TestStepResult}

theorem getWorstTestStepResult_nil :
    getWorstTestStepResult [] = { status := .passed } := rfl

theorem getWorstTestStepResult_mem (h : rs ≠ []) : getWorstTestStepResult rs ∈ rs := by
  unfold getWorstTestStepResult
  cases hm : rs.argmax fun r => toUnderlying r.status with
  | none => exact absurd (List.argmax_eq_none.mp hm) h
  | some r => exact List.argmax_mem hm

theorem le_getWorstTestStepResult {r : TestStepResult} (h : r ∈ rs) :
    toUnderlying r.status ≤ toUnderlying (getWorstTestStepResult rs).status := by
  unfold getWorstTestStepResult
  cases hm : rs.argmax fun r => toUnderlying r.status with
  | none =>
    rw [List.argmax_eq_none.mp hm] at h
    cases h
  | some m =>
    exact List.le_of_mem_argmax (f := fun r : TestStepResult => toUnderlying r.status) h hm

/-- Apart from unknown results, the worst of a list has passed exactly when
all of it has. -/
theorem getWorstTestStepResult_passed_iff (hk : ∀ r ∈ rs, r.status ≠ .unknown) :
    (getWorstTestStepResult rs).status = .passed ↔ ∀ r ∈ rs, r.status = .passed := by
  constructor
  · intro h r hr
    have hle := le_getWorstTestStepResult hr
    rw [h] at hle
    have hne := hk r hr
    cases hs : r.status <;> simp_all [toUnderlying]
  · intro h
    rcases eq_or_ne rs [] with rfl | hne
    · rfl
    · exact h _ (getWorstTestStepResult_mem hne)

theorem getWorstTestStepResult_failed_iff :
    (getWorstTestStepResult rs).status = .failed ↔ ∃ r ∈ rs, r.status = .failed := by
  constructor
  · intro h
    have hne : rs ≠ [] := by
      rintro rfl
      cases h
    exact ⟨_, getWorstTestStepResult_mem hne, h⟩
  · intro h
    obtain ⟨r,hr,hfailed⟩ := h
    have hle := le_getWorstTestStepResult hr
    rw [hfailed] at hle
    cases hs : (getWorstTestStepResult rs).status <;> simp_all [toUnderlying]

end Worst

end CucumberCpp
