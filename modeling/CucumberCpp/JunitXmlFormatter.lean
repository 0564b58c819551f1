import CucumberCpp.Loading

/-! `formatter/JunitXmlFormatter.cpp`: the document that is written when a run is finished. -/
namespace CucumberCpp

/-- `std::chrono::milliseconds`; what overflows wraps around. -/
abbrev Milliseconds := Int64

def durationToMilliseconds (duration : Duration) : Milliseconds :=
  duration.seconds.toInt64*1000+duration.nanos.toInt64/1000000

namespace Messages

structure Timestamp where
  seconds : Int64
  nanos : Int64

/-- `cucumber::messages::Step`; of a step the keyword is read. -/
structure Step where
  keyword : String

end Messages

/-- `std::tm`, up to the fields that are printed. -/
structure UtcTime where
  year : ℤ
  mon : ℤ
  mday : ℤ
  hour : ℤ
  min : ℤ
  sec : ℤ

/-- What is used of `fmt::format` and of the C library: `{:0w}` for a width `w`, `{:c<w}` for a
character `c` and a width `w`, and `gmtime`. -/
structure Formatting where
  zeroPadded : ℕ → ℤ → Text
  leftAligned : Char → ℕ → Text → Text
  gmtime : Int64 → UtcTime

def makeIso8601Timestamp (fmt : Formatting) (timestamp : Messages.Timestamp) : Text :=
  let utcTime := fmt.gmtime timestamp.seconds
  let withoutFraction := fmt.zeroPadded 4 (utcTime.year+1900) ++ ['-'] ++
    fmt.zeroPadded 2 (utcTime.mon+1) ++ ['-'] ++ fmt.zeroPadded 2 utcTime.mday ++ ['T'] ++
    fmt.zeroPadded 2 utcTime.hour ++ [':'] ++ fmt.zeroPadded 2 utcTime.min ++ [':'] ++
    fmt.zeroPadded 2 utcTime.sec
  if timestamp.nanos = 0 then withoutFraction ++ ['Z']
  else withoutFraction ++ ['.'] ++ fmt.zeroPadded 9 timestamp.nanos.toInt ++ ['Z']

/-- `cucumber::messages::to_string`. -/
def TestStepResultStatus.toText : TestStepResultStatus → Text
  | .unknown => "UNKNOWN".toList
  | .passed => "PASSED".toList
  | .skipped => "SKIPPED".toList
  | .pending => "PENDING".toList
  | .undefined => "UNDEFINED".toList
  | .ambiguous => "AMBIGUOUS".toList
  | .failed => "FAILED".toList

/-- What `pugixml` is given for an attribute. -/
inductive XmlValue where
  | text (value : Text)
  | unsigned (value : UInt32)
  /-- This many milliseconds, divided by a thousand. -/
  | seconds (milliseconds : Milliseconds)
  deriving DecidableEq

/-- `pugi::xml_node`. -/
inductive XmlNode where
  | element (name : String) (attributes : List (String × XmlValue)) (children : List XmlNode)
  | cdata (value : Text)

/-- `cucumber::query::Query`, by what the formatter asks it. -/
structure JunitQuery where
  findAllTestCaseStarted : List TestCaseStarted
  countTestCasesStarted : ℕ
  countMostSevereTestStepResultStatus : TestStepResultStatus → Option ℕ
  findMostSevereTestStepResultBy : TestCaseStarted → Option TestStepResult
  findPickleBy : TestCaseStarted → Option ListedPickle
  findLineageBy : TestCaseStarted → Option Lineage
  findTestCaseDurationBy : TestCaseStarted → Option Duration
  findTestStepFinishedAndTestStepBy : TestCaseStarted → List (TestStepFinished × TestStep)
  findPickleStepBy : TestStep → Option PickleStep
  findStepBy : PickleStep → Option Messages.Step
  findTestRunDuration : Option Duration
  findTestRunStarted : Option Messages.Timestamp

/-- The formatter with its options. `query` is what its query knows after these updates;
`reduce` is that of the naming strategy for long names. -/
structure JunitXmlFormatter where
  suiteName : Text := "Cucumber".toList
  testClassName : Option Text := none
  query : List Message → JunitQuery
  reduce : Lineage → ListedPickle → Text
  fmt : Formatting

namespace JunitXmlFormatter

inductive FailureKind where
  | failure | skipped
  deriving DecidableEq

/-- The name of the node that `AddFailure` appends. -/
def FailureKind.nodeName : FailureKind → String
  | .failure => "failure"
  | .skipped => "skipped"

structure ReportFailure where
  kind : FailureKind
  type : Option Text
  message : Option Text
  stack : Option Text

structure ReportTestCase where
  classname : Text
  name : Text
  time : Milliseconds
  failure : Option ReportFailure
  output : Text

structure ReportSuite where
  time : Milliseconds
  tests : ℕ
  skipped : ℕ
  failures : ℕ
  errors : ℕ
  testCases : List ReportTestCase
  timestamp : Option Text

variable (query : JunitQuery)

/-- The runner leaves the stack trace of an exception empty. -/
def makeFailure (testCaseStarted : TestCaseStarted) : Option ReportFailure :=
  match query.findMostSevereTestStepResultBy testCaseStarted with
  | none => none
  | some result =>
    if result.status = .passed then none
    else some
      { kind := if result.status = .skipped then .skipped else .failure
        type := result.exception.map fun exception => exception.type.toList
        message := result.exception.bind fun exception => exception.message.map String.toList
        stack := if result.exception.isSome then none else result.message.map String.toList }

variable (f : JunitXmlFormatter)

/-- The keyword and the text of the step with dots up to column 76, and its status. -/
def formatStep (gherkinStep : Messages.Step) (pickleStep : PickleStep)
    (status : TestStepResultStatus) : Text :=
  let statusString := status.toText.map Char.toLower
  f.fmt.leftAligned '.' 76
    (Util.trim gherkinStep.keyword.toList ++ [' '] ++ Util.trim pickleStep.text.toList) ++
      statusString

def outputLine (p : TestStepFinished × TestStep) : Except Fault Text :=
  -- the pointers that the query returns are followed unchecked
  match query.findPickleStepBy p.2 with
  | none => .error .undefinedBehaviour
  | some pickleStep =>
    match query.findStepBy pickleStep with
    | none => .error .undefinedBehaviour
    | some gherkinStep =>
      .ok (f.formatStep gherkinStep pickleStep p.1.testStepResult.status)

def makeOutput (testCaseStarted : TestCaseStarted) : Except Fault Text := do
  let lines ← ((query.findTestStepFinishedAndTestStepBy testCaseStarted).filter
    fun p => p.2.pickleStepId.isSome).mapM (outputLine query f)
  pure (['\n'] ++ List.intercalate ['\n'] lines ++ ['\n'])

/-- One round of the loop of `MakeTestCases`. -/
def makeTestCase (testCaseStarted : TestCaseStarted) : Except Fault ReportTestCase :=
  match query.findLineageBy testCaseStarted with
  | none => .error .badOptionalAccess
  | some lineage =>
    match query.findPickleBy testCaseStarted with
    | none => .error .undefinedBehaviour
    | some pickle => do
      let output ← makeOutput query f testCaseStarted
      pure
        { classname := f.testClassName.getD (lineage.feature.getD pickle.uri).toList
          name := f.reduce lineage pickle
          time := durationToMilliseconds
            ((query.findTestCaseDurationBy testCaseStarted).getD {})
          failure := makeFailure query testCaseStarted
          output := output }

def makeReport : Except Fault ReportSuite := do
  let count (status : TestStepResultStatus) : ℕ :=
    (query.countMostSevereTestStepResultStatus status).getD 0
  let testCases ← query.findAllTestCaseStarted.mapM (makeTestCase query f)
  pure
    { time := durationToMilliseconds (query.findTestRunDuration.getD {})
      tests := query.countTestCasesStarted
      skipped := count .skipped
      failures := count .unknown+count .pending+count .undefined+count .ambiguous+count .failed
      errors := 0
      testCases := testCases
      timestamp := query.findTestRunStarted.map (makeIso8601Timestamp f.fmt) }

def suiteAttributes (report : ReportSuite) : List (String × XmlValue) :=
  [("name",.text f.suiteName), ("time",.seconds report.time),
    ("tests",.unsigned (.ofNat report.tests)), ("skipped",.unsigned (.ofNat report.skipped)),
    ("failures",.unsigned (.ofNat report.failures)), ("errors",.unsigned (.ofNat report.errors))] ++
    report.timestamp.toList.map fun timestamp => ("timestamp",.text timestamp)

def failureNode (failure : ReportFailure) : XmlNode :=
  .element failure.kind.nodeName
    ((if failure.kind = .failure then failure.type.toList.map fun type => ("type",.text type)
      else []) ++ failure.message.toList.map fun message => ("message",.text message))
    (failure.stack.toList.map .cdata)

def systemOut (testCase : ReportTestCase) : List XmlNode :=
  if testCase.output = [] then [] else [.element "system-out" [] [.cdata testCase.output]]

def testCaseNode (testCase : ReportTestCase) : XmlNode :=
  .element "testcase"
    [("classname",.text testCase.classname), ("name",.text testCase.name),
      ("time",.seconds testCase.time)]
    (testCase.failure.toList.map failureNode ++ systemOut testCase)

/-- The messages seen so far, the suite in the document, and what was written. -/
structure State where
  seen : List Message := []
  attributes : List (String × XmlValue) := []
  children : List XmlNode := []
  written : List XmlNode := []

/-- A second report would be added to the same node of the document. -/
def handleTestRunFinished (state : State) : Except Fault State := do
  let report ← makeReport (f.query state.seen) f
  let attributes := state.attributes ++ f.suiteAttributes report
  let children := state.children ++ report.testCases.map testCaseNode
  pure
    { seen := state.seen
      attributes := attributes
      children := children
      written := state.written ++ [.element "testsuite" attributes children] }

/-- The listener of a formatter: its query is updated before `OnEnvelope` is called. -/
def invoke (state : State) (message : Message) : Except Fault State :=
  let updated := { state with seen := state.seen ++ [message] }
  match message with
  | .run (.testRunFinished _) => f.handleTestRunFinished updated
  | _ => .ok updated

/-- The documents that are written while these messages are broadcast. -/
def documents (messages : List Message) : Except Fault (List XmlNode) := do
  let state ← messages.foldlM f.invoke {}
  pure state.written

end JunitXmlFormatter

end CucumberCpp
