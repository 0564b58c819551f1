import CucumberCpp.StableSort
import CucumberCpp.Support

/-! `formatter/UsageFormatter.cpp`, up to the list that is printed. -/
namespace CucumberCpp

open OrderedMap StableSort

/-- `std::chrono::nanoseconds`; what overflows wraps around. -/
abbrev Nanoseconds := Int64

def durationToNanoSeconds (duration : Duration) : Nanoseconds :=
  duration.seconds.toInt64*1000000000+duration.nanos.toInt64

/-- What the formatter reads of a document that a lineage leads to. -/
structure LineageDocument where
  uri : Option String

/-- `cucumber::query::Query`, by what the formatter asks it; of a step the line is read. -/
structure UsageQuery where
  findAllStepDefinitions : List Messages.StepDefinition
  findAllTestCaseStarted : List TestCaseStarted
  findTestCaseFinishedBy : TestCaseStarted → Option TestCaseFinished
  findLineageBy : TestCaseStarted → Option LineageDocument
  findTestStepFinishedAndTestStepBy : TestCaseStarted → List (TestStepFinished × TestStep)
  findPickleStepBy : TestStep → Option PickleStep
  findStepBy : PickleStep → Option ℕ

namespace UsageFormatter

def hasExecuted : TestStepResultStatus → Bool
  | .unknown | .passed | .pending | .failed => true
  | .skipped | .undefined | .ambiguous => false

structure UsageMatch where
  duration : Option Nanoseconds
  line : ℕ
  text : String
  uri : String
  deriving DecidableEq

/-- `Usage`; `found` are its matches. -/
structure Usage where
  line : ℕ
  found : List UsageMatch := []
  pattern : String
  patternType : String
  uri : String
  meanDuration : Option Nanoseconds := none
  deriving DecidableEq

def Usage.ofDefinition (stepDefinition : Messages.StepDefinition) : Usage where
  line := stepDefinition.sourceReference.location.getD 0
  pattern := stepDefinition.pattern.source
  patternType := stepDefinition.pattern.type.toString
  uri := stepDefinition.sourceReference.uri.getD ""

def buildEmptyMapping (stepDefinitions : List Messages.StepDefinition) : Map String Usage :=
  stepDefinitions.foldl (fun mapping d => mapping.insertOrAssign d.id (.ofDefinition d)) Map.empty

section

variable (query : UsageQuery)

/-- The pointers to the pickle step and the step are followed unchecked. -/
def createUsageMatch (testStepFinished : TestStepFinished) (testStep : TestStep)
    (lineage : LineageDocument) : Except Fault UsageMatch := do
  let some pickleStep := query.findPickleStepBy testStep | throw .undefinedBehaviour
  let some line := query.findStepBy pickleStep | throw .undefinedBehaviour
  pure
    { duration :=
        if hasExecuted testStepFinished.testStepResult.status then
          some (durationToNanoSeconds testStepFinished.testStepResult.duration)
        else none
      line := line
      text := pickleStep.text
      uri := lineage.uri.getD "" }

def addUsageMatchToMapping (lineage : LineageDocument) (mapping : Map String Usage)
    (finished : TestStepFinished × TestStep) : Except Fault (Map String Usage) :=
  match finished.2.stepDefinitionIds with
  | some [stepDefinitionId] => do
    let some usage := mapping.find? stepDefinitionId | throw .outOfRange
    let usageMatch ← createUsageMatch query finished.1 finished.2 lineage
    pure (mapping.insertOrAssign stepDefinitionId
      { usage with found := usage.found ++ [usageMatch] })
  | _ => pure mapping

/-- One round of the loop of `PopulateMappingWithMatches`. -/
def addTestCase (mapping : Map String Usage) (testCaseStarted : TestCaseStarted) :
    Except Fault (Map String Usage) :=
  if (query.findTestCaseFinishedBy testCaseStarted).isNone then pure mapping
  else do
    let some lineage := query.findLineageBy testCaseStarted | throw .badOptionalAccess
    (query.findTestStepFinishedAndTestStepBy testCaseStarted).foldlM
      (addUsageMatchToMapping query lineage) mapping

def populateMappingWithMatches (mapping : Map String Usage) : Except Fault (Map String Usage) :=
  query.findAllTestCaseStarted.foldlM (addTestCase query) mapping

end

/-- A quotient that is rounded towards zero; no match at all is -1. -/
def calculateMeanDuration (found : List UsageMatch) : Option Nanoseconds :=
  if found.isEmpty then some (-1)
  else
    let validDurations := found.filterMap fun m => m.duration
    if validDurations.length = 0 then none
    else
      let total := validDurations.foldl (· + ·) 0
      some (.ofInt (total.toInt.tdiv validDurations.length))

def finalizeMappingWithMeanDurations (mapping : Map String Usage) : Map String Usage :=
  mapping.mapValues fun usage =>
    { usage with meanDuration := calculateMeanDuration usage.found }

def buildMapping (query : UsageQuery) : Except Fault (Map String Usage) := do
  let mapping := buildEmptyMapping query.findAllStepDefinitions
  let mapping ← populateMappingWithMatches query mapping
  pure (finalizeMappingWithMeanDurations mapping)

/-- `lhs > rhs` of two optionals. -/
def greater (lhs rhs : Option Nanoseconds) : Bool :=
  match lhs, rhs with
  | none, _ => false
  | some _, none => true
  | some lhs, some rhs => decide (lhs > rhs)

/-- The comparator of the usages. -/
def usageBefore (lhs rhs : Usage) : Bool :=
  if lhs.found.isEmpty && !rhs.found.isEmpty then false
  else if !lhs.found.isEmpty && rhs.found.isEmpty then true
  else if lhs.meanDuration = rhs.meanDuration then
    decide (toLex (lhs.uri,lhs.line) < toLex (rhs.uri,rhs.line))
  else greater lhs.meanDuration rhs.meanDuration

/-- The comparator of the matches. -/
def matchBefore (lhs rhs : UsageMatch) : Bool :=
  if lhs.duration = rhs.duration then
    decide (toLex (lhs.uri,toLex (lhs.line,lhs.text)) < toLex (rhs.uri,toLex (rhs.line,rhs.text)))
  else greater lhs.duration rhs.duration

/-- `std::list::sort` is stable. -/
def getUsage (query : UsageQuery) (unusedOnly : Bool) : Except Fault (List Usage) := do
  let mapping ← buildMapping query
  let mapValues := mapping.values.filter fun usage => !unusedOnly || usage.found.isEmpty
  let usageList := stableSort usageBefore mapValues
  pure (usageList.map fun usage => { usage with found := stableSort matchBefore usage.found })

end UsageFormatter

end CucumberCpp
