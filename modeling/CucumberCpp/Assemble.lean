import CucumberCpp.Support

/-! `assemble/AssembleTestSuites.cpp`: test cases from pickles, grouped by feature file. -/
namespace CucumberCpp

open EventLog OrderedMap

variable {idGenerator : IdGenerator}

structure AssembledTestCase where
  pickle : Pickle
  testCase : TestCase

structure AssembledTestSuite where
  gherkinDocument : GherkinDocument
  testCases : List AssembledTestCase := []

def assembleHookStep (hookId : String) : Run idGenerator TestStep := do
  let id ← nextId
  pure { id := id, hookId := some hookId }

def assembleStep (supportCodeLibrary : SupportCodeLibrary) (pickleStep : PickleStep) :
    Run idGenerator TestStep := do
  let id ← nextId
  pure (matchStepDefinitions
    { id := id
      pickleStepId := some pickleStep.id
      stepDefinitionIds := some []
      stepMatchArgumentsLists := some [] }
    supportCodeLibrary.stepRegistry.registry pickleStep.text)

/-- `AssembleTestSteps`: the Before hooks, the steps, and the After hooks in
reverse. -/
def assembleTestSteps (supportCodeLibrary : SupportCodeLibrary) (pickle : Pickle) :
    Run idGenerator (List TestStep) := do
  let tags := transformPickleTags pickle.tags
  let beforeHooks := supportCodeLibrary.hookRegistry.findIds .before tags
  let afterHooks := supportCodeLibrary.hookRegistry.findIds .after tags
  let beforeSteps ← beforeHooks.mapM' assembleHookStep
  let steps ← pickle.steps.mapM' (assembleStep supportCodeLibrary)
  let afterSteps ← afterHooks.reverse.mapM' assembleHookStep
  pure (beforeSteps ++ steps ++ afterSteps)

/-- The suites built so far and the order in which their files appeared. -/
structure AssembledSoFar where
  testUris : List String := []
  assembledTestSuiteMap : Map String AssembledTestSuite := Map.empty

namespace AssembledSoFar

variable (soFar : AssembledSoFar)

/-- A file that appears for the first time gets an empty suite. -/
def ensureSuite (gherkinDocument : GherkinDocument) : AssembledSoFar :=
  if soFar.assembledTestSuiteMap.contains gherkinDocument.uri then soFar
  else
    { testUris := soFar.testUris ++ [gherkinDocument.uri]
      assembledTestSuiteMap := soFar.assembledTestSuiteMap.tryEmplace gherkinDocument.uri
        { gherkinDocument := gherkinDocument } }

/-- `assembledTestSuiteMap.at(uri).testCases.emplace_back(...)`. -/
def addTestCase (uri : String) (testCase : AssembledTestCase) : Except Fault AssembledSoFar :=
  match soFar.assembledTestSuiteMap.find? uri with
  | none => .error .outOfRange
  | some suite => .ok
      { soFar with
        assembledTestSuiteMap := soFar.assembledTestSuiteMap.insertOrAssign uri
          { suite with testCases := suite.testCases ++ [testCase] } }

end AssembledSoFar

/-- One round of the loop over the pickles. -/
def assemblePickle (supportCodeLibrary : SupportCodeLibrary) (testRunStartedId : String)
    (soFar : AssembledSoFar) (pickleSource : PickleSource) : Run idGenerator AssembledSoFar := do
  let id ← nextId
  let testSteps ← assembleTestSteps supportCodeLibrary pickleSource.pickle
  let testCase : TestCase :=
    { id := id
      pickleId := pickleSource.pickle.id
      testRunStartedId := some testRunStartedId
      testSteps := testSteps }
  broadcastEvent (.testCase testCase)
  fromExcept ((soFar.ensureSuite pickleSource.gherkinDocument).addTestCase
    pickleSource.gherkinDocument.uri { pickle := pickleSource.pickle, testCase := testCase })

def assembleTestSuites (supportCodeLibrary : SupportCodeLibrary) (testRunStartedId : String)
    (sourcedPickles : List PickleSource) : Run idGenerator (List AssembledTestSuite) := do
  let assembled ← sourcedPickles.foldlM (assemblePickle supportCodeLibrary testRunStartedId) {}
  assembled.testUris.mapM' fun uri =>
    match assembled.assembledTestSuiteMap.find? uri with
    | none => throw .outOfRange
    | some suite => pure suite

end CucumberCpp
