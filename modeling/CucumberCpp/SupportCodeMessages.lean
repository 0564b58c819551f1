import CucumberCpp.Registration

/-! `StepRegistry::LoadSteps` with patterns that do not compile, and the messages about the
support code that `RunCucumber.cpp` emits before a run. -/
namespace CucumberCpp

open EventLog OrderedMap

variable {idGenerator : IdGenerator}

namespace Messages

inductive HookType where
  | beforeTestRun | afterTestRun | beforeTestCase | afterTestCase | beforeTestStep | afterTestStep
  deriving DecidableEq, Repr

structure Hook where
  id : String
  name : Option String
  sourceReference : SourceReference
  tagExpression : Option String
  type : Option HookType
  deriving DecidableEq, Repr

structure ParameterType where
  id : String
  name : String
  regularExpressions : List String
  useForSnippets : Bool
  sourceReference : SourceReference
  deriving DecidableEq, Repr

structure UndefinedParameterType where
  expression : String
  name : String
  deriving DecidableEq, Repr

end Messages

/-- The envelopes that are broadcast about the support code. -/
inductive SupportCodeMessage where
  | parameterType (message : Messages.ParameterType)
  | undefinedParameterType (message : Messages.UndefinedParameterType)
  | stepDefinition (message : Messages.StepDefinition)
  | hook (message : Messages.Hook)
  deriving DecidableEq, Repr

/-- `cucumber_expressions::UndefinedParameterTypeError`. -/
structure UndefinedParameterTypeError where
  expression : String
  undefinedParameterName : String

/-- The constructors of `RegularExpression` and `Expression` over the parameter registry. -/
structure MatcherCompiler where
  regularExpression : String → Except UndefinedParameterTypeError Matcher
  expression : String → Except UndefinedParameterTypeError Matcher

inductive ExpressionPatternType where
  | cucumberExpression | regularExpression
  deriving DecidableEq, Repr

/-- `StepRegistry::Definition`, with what is emitted of it. -/
structure LoadedStep extends StepDefinition where
  line : ℕ
  uri : String
  pattern : String
  patternType : ExpressionPatternType

/-- `StepRegistry` and its undefined parameters. An iterator into the list is a place in it. -/
structure LoadedSteps where
  registry : List LoadedStep := []
  idToDefinitionMap : Map String ℕ := Map.empty
  undefinedParameters : List Messages.UndefinedParameterType := []
  placed : ∀ id i, idToDefinitionMap.find? id = some i → ∃ d, registry[i]? = some d ∧ d.id = id :=
    by simp

namespace LoadedSteps

variable (compiler : MatcherCompiler)

/-- Patterns that begin with `^` or end with `$` are regular expressions. -/
def isRegularExpression (matcher : String) : Bool :=
  decide (matcher.toList.head? = some '^') || decide (matcher.toList.getLast? = some '$')

def compileMatcher (matcher : String) : Except UndefinedParameterTypeError Matcher :=
  if isRegularExpression matcher then compiler.regularExpression matcher
  else compiler.expression matcher

/-- What `Register` does before it changes the registry. -/
def compile (entry : StepEntry) : Except UndefinedParameterTypeError LoadedStep := do
  let regex ← compileMatcher compiler entry.regex
  pure
    { id := entry.id
      regex := regex
      factory := entry.factory
      line := (ofLex entry.sourceLocation).2
      uri := (ofLex entry.sourceLocation).1
      pattern := entry.regex
      patternType :=
        if isRegularExpression entry.regex then .regularExpression else .cucumberExpression }

def add (s : LoadedSteps) (d : LoadedStep) : LoadedSteps where
  registry := s.registry ++ [d]
  idToDefinitionMap := s.idToDefinitionMap.insertOrAssign d.id s.registry.length
  undefinedParameters := s.undefinedParameters
  placed := by
    intro id i hi
    rw [Map.find?_insertOrAssign] at hi
    split_ifs at hi with hid
    · obtain rfl := Option.some.inj hi
      exact ⟨d, by simp, hid.symm⟩
    · obtain ⟨d',hd',hid'⟩ := s.placed id i hi
      refine ⟨d', ?_, hid'⟩
      rwa [List.getElem?_append_left (List.getElem?_eq_some_iff.mp hd').1]

def addUndefined (s : LoadedSteps) (e : UndefinedParameterTypeError) : LoadedSteps :=
  { s with undefinedParameters :=
      s.undefinedParameters ++ [{ expression := e.expression, name := e.undefinedParameterName }] }

/-- `Register`. -/
def register (s : LoadedSteps) (entry : StepEntry) : LoadedSteps :=
  match compile compiler entry with
  | .ok d => s.add d
  | .error e => s.addUndefined e

/-- `LoadSteps`, for the steps of `DefinitionRegistration::Instance()`. -/
def loadSteps (entries : List StepEntry) : LoadedSteps := entries.foldl (register compiler) {}

/-- An iterator that the index holds is followed unchecked. -/
def getDefinitionById (s : LoadedSteps) (id : String) : Except Fault LoadedStep :=
  match s.idToDefinitionMap.find? id with
  | none => .error .outOfRange
  | some i =>
    match s.registry[i]? with
    | none => .error .undefinedBehaviour
    | some d => .ok d

/-- The ids and the arguments of the definitions that match, in the order of the ids. -/
def findDefinitions (s : LoadedSteps) (expression : String) :
    List String × List (List MatchArgument) :=
  let found := s.idToDefinitionMap.entries.filterMap fun p => do
    let d ← s.registry[p.2]?
    let arguments ← d.regex expression
    pure (p.1,arguments)
  (found.map Prod.fst,found.map Prod.snd)

end LoadedSteps

def mapHookType : HookType → Option Messages.HookType
  | .beforeAll => some .beforeTestRun
  | .afterAll => some .afterTestRun
  | .beforeFeature | .afterFeature => none
  | .before => some .beforeTestCase
  | .after => some .afterTestCase
  | .beforeStep => some .beforeTestStep
  | .afterStep => some .afterTestStep

def transformHookData (hookData : HookData) : Messages.Hook where
  id := hookData.id
  name := hookData.name
  sourceReference :=
    { uri := some (ofLex hookData.sourceLocation).1
      location := some (ofLex hookData.sourceLocation).2 }
  tagExpression := hookData.expression
  type := mapHookType hookData.type

/-- A parameter in the registry of `cucumber_expressions`. -/
structure Parameter where
  name : String
  regex : List String
  isBuiltin : Bool
  useForSnippets : Bool
  location : SourceLocation

namespace Api

def emitParameter (messages : List SupportCodeMessage) (parameter : Parameter) :
    Run idGenerator (List SupportCodeMessage) :=
  if parameter.isBuiltin then pure messages
  else do
    let id ← nextId
    pure (messages ++ [.parameterType
      { id := id
        name := parameter.name
        regularExpressions := parameter.regex
        useForSnippets := parameter.useForSnippets
        sourceReference :=
          { uri := some (ofLex parameter.location).1
            location := some (ofLex parameter.location).2 } }])

def emitParameters (parameters : List Parameter) : Run idGenerator (List SupportCodeMessage) :=
  parameters.foldlM emitParameter []

def emitUndefinedParameters (definitions : List Messages.UndefinedParameterType)
    (messages : List SupportCodeMessage) : List SupportCodeMessage :=
  definitions.foldl (fun messages d => messages ++ [.undefinedParameterType d]) messages

def stepDefinitionMessage (d : LoadedStep) : Messages.StepDefinition where
  id := d.id
  pattern :=
    { source := d.pattern
      type :=
        if d.patternType = .cucumberExpression then .cucumberExpression else .regularExpression }
  sourceReference := { uri := some d.uri, location := some d.line }

/-- The registries that are filled from the definitions. -/
structure LoadedSupportCode where
  registration : DefinitionRegistration
  steps : LoadedSteps
  hookRegistry : HookRegistry

/-- The registries of the support code that the run works with. -/
def LoadedSupportCode.library (l : LoadedSupportCode) : SupportCodeLibrary where
  hookRegistry := l.hookRegistry
  stepRegistry :=
    (l.steps.registry.map LoadedStep.toStepDefinition).foldl StepRegistry.register .empty

def emitEntry (stepDefinitions : Map String LoadedStep) (hookRegistry : HookRegistry)
    (messages : List SupportCodeMessage) :
    DefinitionRegistration.Entry → Except Fault (List SupportCodeMessage)
  | .step step =>
    match stepDefinitions.find? step.id with
    | some d => .ok (messages ++ [.stepDefinition (stepDefinitionMessage d)])
    | none => .ok messages
  | .hook hook => do
    let d ← hookRegistry.getDefinitionById hook.id
    pure (messages ++ [.hook (transformHookData d.data)])

def emitStepDefinitionsAndHooks (l : LoadedSupportCode) (messages : List SupportCodeMessage) :
    Except Fault (List SupportCodeMessage) :=
  let stepDefinitions :=
    l.steps.registry.foldl (fun m (d : LoadedStep) => m.tryEmplace d.id d) Map.empty
  l.registration.entries.foldlM (emitEntry stepDefinitions l.hookRegistry) messages

/-- `EmitSupportCodeMessages`, with the parameters as `ParameterLoader::Load` leaves them. -/
def emitSupportCodeMessages (compiler : MatcherCompiler) (parse : String → TagExpression)
    (parameters : List Parameter) (registration : DefinitionRegistration) :
    Run idGenerator (LoadedSupportCode × List SupportCodeMessage) := do
  let messages ← emitParameters parameters
  let registration ← registration.loadIds
  let loaded : LoadedSupportCode :=
    { registration := registration
      steps := .loadSteps compiler registration.registeredSteps
      hookRegistry := .loadHooks parse registration.getHooks }
  let messages := emitUndefinedParameters loaded.steps.undefinedParameters messages
  let messages ← fromExcept (emitStepDefinitionsAndHooks loaded messages)
  pure (loaded,messages)

end Api

end CucumberCpp
