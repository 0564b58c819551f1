import CucumberCpp.EventLog
import CucumberCpp.OrderedMap
import CucumberCpp.Messages

/-! Registered hooks and steps, the user code behind them, and the log of a run. -/
namespace CucumberCpp

open EventLog OrderedMap

inductive HookType where
  | beforeAll | afterAll | beforeFeature | afterFeature | before | after | beforeStep | afterStep
  deriving DecidableEq, Repr

/-- `std::source_location` under `SourceLocationOrder`: file name, then line. -/
abbrev SourceLocation := String ×ₗ ℕ

/-- `cucumber::tag_expressions::Expression::Evaluate`. -/
abbrev TagExpression := Finset String → Bool

structure HookData where
  id : String
  type : HookType
  expression : Option String
  name : Option String
  sourceLocation : SourceLocation
  deriving DecidableEq

structure ScenarioInfo where
  name : String
  tags : Finset String
  deriving DecidableEq

namespace Util

structure TestStepStarted where
  testCaseStartedId : String
  testStepId : String
  deriving DecidableEq, Repr

/-- The field holds the id of the hook that started, not that of the test run. -/
structure TestRunHookStarted where
  testRunStartedId : String
  deriving DecidableEq, Repr

/-- The variant `util::StepOrHookStarted`. -/
inductive StepOrHookStarted where
  | step (started : TestStepStarted)
  | hook (started : TestRunHookStarted)
  deriving DecidableEq, Repr

structure Table where
  rows : List (List String)
  deriving DecidableEq, Repr

structure DocString where
  mediaType : Option String
  content : String
  deriving DecidableEq, Repr

/-- `util::Argument`: a converter and the captured texts it is given. -/
structure Argument where
  converterName : String
  converterArgs : List (Option String)
  deriving DecidableEq, Repr

end Util

def transformTestStepStarted (started : TestStepStarted) : Util.TestStepStarted where
  testCaseStartedId := started.testCaseStartedId
  testStepId := started.testStepId

def transformTestRunHookStarted (started : TestRunHookStarted) : Util.TestRunHookStarted where
  testRunStartedId := started.id

def transformPickleTags (tags : List String) : Finset String := tags.toFinset

def transformTags (tags : List String) : Finset String := tags.toFinset

def transformTable : Option PickleTable → Option Util.Table
  | none => none
  | some pickleTable => some { rows := pickleTable.rows }

def transformDocString : Option PickleDocString → Option Util.DocString
  | none => none
  | some docString => some { mediaType := docString.mediaType, content := docString.content }

/-- The `Context` a factory is handed, and in a test case the position of the
test step it is called for: the moment of a run that user code can tell apart
from other moments without looking at generated ids. -/
inductive CallSite where
  | testRun
  | testSuite (uri : String)
  | testStep (pickleId : String) (attempt : UInt64) (index : ℕ)
  deriving DecidableEq, Repr

structure HookArgs where
  site : CallSite
  stepOrHookStarted : Util.StepOrHookStarted
  scenarioInfo : Option ScenarioInfo
  hasError : Bool
  deriving DecidableEq

structure StepArgs where
  site : CallSite
  stepOrHookStarted : Util.StepOrHookStarted
  dataTable : Option Util.Table
  docString : Option Util.DocString
  args : List Util.Argument
  deriving DecidableEq

/-- What constructing and executing a body comes to: the attachments it
broadcasts and the result it ends with. -/
structure Outcome where
  attachments : List Attachment := []
  result : Util.TestStepResult
  known : result.status ≠ .unknown := by decide

/-- `util::HookFactory` and `util::StepFactory`: user code, arbitrary but for
the shape of its outcome. -/
abbrev HookFactory := HookArgs → Outcome
abbrev StepFactory := StepArgs → Outcome

/-- A factory that was called, with what it was given. -/
inductive Invocation where
  | hook (data : HookData) (args : HookArgs)
  | step (id : String) (args : StepArgs)

inductive Event where
  | invoked (call : Invocation) (result : Util.TestStepResult)
  | broadcast (envelope : Envelope)

/-- What ends a run early; all but the last are C++ exceptions. -/
inductive Fault where
  | invalidArgument (what : String)
  | globalHookError (hook : HookData) (result : TestStepResult)
  | outOfRange
  | badOptionalAccess
  | undefinedBehaviour
  deriving DecidableEq

/-- `cucumber::gherkin::IdGenerator`. -/
abbrev IdGenerator := Supply String

/-- The generator that counts `0`, `1`, `2` and so on in decimal. -/
def decimalIds : IdGenerator := ⟨fun n => toString n, fun _ _ h => Nat.repr_inj.mp h⟩

abbrev Run (idGenerator : IdGenerator) (α : Type) := Exec idGenerator Event Fault α

variable {idGenerator : IdGenerator}

def nextId : Run idGenerator String := draw

def broadcastEvent (envelope : Envelope) : Run idGenerator Unit := say (.broadcast envelope)

theorem emits_broadcastEvent_bind {α : Type} {e : Envelope} {f : Unit → Run idGenerator α}
    {Q : Except Fault α → List (Entry String Event) → Prop}
    (h : Emits (f ()) fun r t => Q r (.said (.broadcast e) :: t)) :
    Emits (broadcastEvent e >>= f) Q :=
  emits_say_bind h

theorem emits_nextId_bind {α : Type} {f : String → Run idGenerator α}
    {Q : Except Fault α → List (Entry String Event) → Prop}
    (h : ∀ id, Emits (f id) fun r t => Q r (.drew id :: t)) : Emits (nextId >>= f) Q :=
  emits_draw_bind h

structure HookDefinition where
  data : HookData
  tagExpression : TagExpression
  factory : HookFactory

/-- User code that does nothing but pass. -/
def Outcome.passed : Outcome where
  result := { status := .passed }

/-- User code that does nothing but fail. -/
def Outcome.failed : Outcome where
  result := { status := .failed }

/-- A hook for everything, with the same outcome every time. -/
def HookDefinition.constant (id : String) (type : HookType) (outcome : Outcome) :
    HookDefinition where
  data := { id := id, type := type, expression := none, name := none, sourceLocation := ("",0) }
  tagExpression := fun _ => true
  factory := fun _ => outcome

/-- `HookRegistry`: a map from ids, iterated in the order of the id strings. -/
structure HookRegistry where
  registry : Map String HookDefinition
  keyed : ∀ p ∈ registry.entries, p.2.data.id = p.1

namespace HookRegistry

def findIds (r : HookRegistry) (hookType : HookType) (tags : Finset String) : List String :=
  ((r.registry.entries.filter fun p => p.2.data.type = hookType).filter
    fun p => p.2.tagExpression tags).map Prod.fst

def getDefinitionById (r : HookRegistry) (id : String) : Except Fault HookDefinition :=
  match r.registry.find? id with
  | some definition => .ok definition
  | none => .error .outOfRange

theorem getDefinitionById_eq_ok_iff (r : HookRegistry) (id : String) (d : HookDefinition) :
    r.getDefinitionById id = .ok d ↔ r.registry.find? id = some d := by
  unfold getDefinitionById
  cases r.registry.find? id <;> simp

theorem mem_findIds (r : HookRegistry) (hookType : HookType) (tags : Finset String) (id : String) :
    id ∈ r.findIds hookType tags ↔ ∃ d, r.registry.find? id = some d ∧ d.data.id = id ∧
      d.data.type = hookType ∧ d.tagExpression tags = true := by
  simp only [findIds, List.mem_map, List.mem_filter, decide_eq_true_eq, Map.find?_eq_some_iff]
  constructor
  · rintro ⟨⟨_,d⟩,⟨⟨hmem,ht⟩,htags⟩,rfl⟩
    exact ⟨d, hmem, r.keyed _ hmem, ht, htags⟩
  · rintro ⟨d,hmem,_,ht,htags⟩
    exact ⟨(id,d), ⟨⟨hmem,ht⟩,htags⟩, rfl⟩

theorem findIds_sorted (r : HookRegistry) (hookType : HookType) (tags : Finset String) :
    (r.findIds hookType tags).Pairwise (· < ·) :=
  r.registry.sorted.sublist ((List.filter_sublist.trans List.filter_sublist).map Prod.fst)

theorem findIds_nodup (r : HookRegistry) (hookType : HookType) (tags : Finset String) :
    (r.findIds hookType tags).Nodup :=
  (r.findIds_sorted hookType tags).imp ne_of_lt

def empty : HookRegistry := ⟨Map.empty, by simp [Map.empty]⟩

/-- `Register`; an id that is taken keeps its definition. -/
def register (r : HookRegistry) (definition : HookDefinition) : HookRegistry where
  registry := r.registry.tryEmplace definition.data.id definition
  keyed := by
    intro p hp
    have hfind := ((r.registry.tryEmplace definition.data.id definition).find?_eq_some_iff
      p.1 p.2).mpr hp
    rw [Map.find?_tryEmplace] at hfind
    split_ifs at hfind with hid
    · cases hold : r.registry.find? definition.data.id with
      | none =>
        rw [hold] at hfind
        cases hfind
        exact hid.symm
      | some old =>
        rw [hold] at hfind
        cases hfind
        exact (r.keyed _ ((r.registry.find?_eq_some_iff _ _).mp hold)).trans hid.symm
    · exact r.keyed _ ((r.registry.find?_eq_some_iff _ _).mp hfind)

theorem find?_register (r : HookRegistry) (d : HookDefinition) (id : String) :
    (r.register d).registry.find? id = (r.registry.find? id).or
      (if d.data.id = id then some d else none) := by
  refine (r.registry.find?_tryEmplace d.data.id d id).trans ?_
  split_ifs with hid hid' hid'
  · subst hid
    cases r.registry.find? d.data.id <;> rfl
  · exact absurd hid.symm hid'
  · exact absurd hid'.symm hid
  · rw [Option.or_none]

/-- Of several definitions with one id the first is kept. -/
theorem find?_foldl_register (ds : List HookDefinition) (r : HookRegistry) (id : String) :
    (ds.foldl register r).registry.find? id =
      (r.registry.find? id).or (ds.find? fun d => d.data.id = id) := by
  induction ds generalizing r with
  | nil => simp
  | cons d ds ih =>
    rw [List.foldl_cons, ih, find?_register, Option.or_assoc, List.find?_cons]
    by_cases hid : d.data.id = id <;> simp [hid]

theorem mem_of_find?_foldl_register {ds : List HookDefinition} {r : HookRegistry} {id : String}
    {d : HookDefinition} (h : (ds.foldl register r).registry.find? id = some d) :
    d ∈ ds ∨ r.registry.find? id = some d := by
  rw [find?_foldl_register, Option.or_eq_some_iff] at h
  rcases h with h | ⟨_,h⟩
  · exact .inr h
  · exact .inl (List.mem_of_find?_eq_some h)

/-- Every id that was found can be looked up again. -/
theorem getDefinitionById_of_mem {r : HookRegistry} {hookType : HookType} {tags : Finset String}
    {id : String} (h : id ∈ r.findIds hookType tags) :
    ∃ d, r.getDefinitionById id = .ok d ∧ d.data.id = id ∧ d.data.type = hookType ∧
      d.tagExpression tags = true := by
  obtain ⟨d,hd,hid,ht,htags⟩ := (r.mem_findIds hookType tags id).mp h
  exact ⟨d, by simp [getDefinitionById, hd], hid, ht, htags⟩

end HookRegistry

/-- What a pattern captured, as the matcher reports it. -/
inductive ArgumentGroup where
  | mk (children : List ArgumentGroup) (start : Option ℕ) (value : Option String)

/-- `cucumber::cucumber_expressions::Argument`. -/
structure MatchArgument where
  group : ArgumentGroup
  name : String

/-- `cucumber::cucumber_expressions::Matcher`. -/
abbrev Matcher := String → Option (List MatchArgument)

structure StepDefinition where
  id : String
  regex : Matcher
  factory : StepFactory

/-- A definition for every text, with the same outcome every time. -/
def StepDefinition.constant (id : String) (outcome : Outcome) : StepDefinition where
  id := id
  regex := fun _ => some []
  factory := fun _ => outcome

/-- `StepRegistry`: the definitions in order of registration and an index by id. -/
structure StepRegistry where
  registry : List StepDefinition
  idToDefinitionMap : Map String StepDefinition
  indexed : ∀ d ∈ registry, (idToDefinitionMap.find? d.id).isSome

def StepRegistry.getDefinitionById (r : StepRegistry) (id : String) :
    Except Fault StepDefinition :=
  match r.idToDefinitionMap.find? id with
  | some definition => .ok definition
  | none => .error .outOfRange

theorem StepRegistry.getDefinitionById_eq_ok_iff (r : StepRegistry) (id : String)
    (d : StepDefinition) :
    r.getDefinitionById id = .ok d ↔ r.idToDefinitionMap.find? id = some d := by
  unfold getDefinitionById
  cases r.idToDefinitionMap.find? id <;> simp

def StepRegistry.empty : StepRegistry := ⟨[], Map.empty, by simp⟩

/-- `Register`, for a pattern whose parameters are all defined. -/
def StepRegistry.register (r : StepRegistry) (definition : StepDefinition) : StepRegistry where
  registry := r.registry ++ [definition]
  idToDefinitionMap := r.idToDefinitionMap.insertOrAssign definition.id definition
  indexed := by
    intro d hd
    rw [Map.find?_insertOrAssign]
    split_ifs with hid
    · rfl
    · rcases List.mem_append.mp hd with hd | hd
      · exact r.indexed d hd
      · rw [List.mem_singleton] at hd
        exact absurd (congrArg StepDefinition.id hd) hid

/-- Only definitions that were registered can be looked up. -/
theorem StepRegistry.mem_of_find?_foldl_register {ds : List StepDefinition} {r : StepRegistry}
    {id : String} {d : StepDefinition}
    (h : (ds.foldl StepRegistry.register r).idToDefinitionMap.find? id = some d) :
    d ∈ ds ∨ r.idToDefinitionMap.find? id = some d := by
  induction ds generalizing r with
  | nil => exact .inr h
  | cons d' ds ih =>
    rcases ih h with h | h
    · exact .inl (List.mem_cons_of_mem d' h)
    · rw [StepRegistry.register, Map.find?_insertOrAssign] at h
      split_ifs at h
      · exact .inl (Option.some_inj.mp h ▸ List.mem_cons_self)
      · exact .inr h

theorem StepRegistry.registry_foldl_register (ds : List StepDefinition) (r : StepRegistry) :
    (ds.foldl StepRegistry.register r).registry = r.registry ++ ds := by
  induction ds generalizing r with
  | nil => simp
  | cons d ds ih =>
    rw [List.foldl_cons, ih]
    simp [StepRegistry.register]

theorem StepRegistry.find?_foldl_register_of_not_mem {ds : List StepDefinition} {id : String}
    (h : id ∉ ds.map StepDefinition.id) (r : StepRegistry) :
    (ds.foldl StepRegistry.register r).idToDefinitionMap.find? id =
      r.idToDefinitionMap.find? id := by
  induction ds generalizing r with
  | nil => rfl
  | cons d ds ih =>
    rw [List.map_cons, List.mem_cons, not_or] at h
    rw [List.foldl_cons, ih h.2, StepRegistry.register, Map.find?_insertOrAssign, if_neg h.1]

/-- With distinct ids, every registered definition is the one that its id leads to. -/
theorem StepRegistry.getDefinitionById_foldl_register {ds : List StepDefinition}
    (hids : (ds.map StepDefinition.id).Nodup) {d : StepDefinition} (hd : d ∈ ds)
    (r : StepRegistry) : (ds.foldl StepRegistry.register r).getDefinitionById d.id = .ok d := by
  induction ds generalizing r with
  | nil => cases hd
  | cons d' ds ih =>
    rw [List.map_cons, List.nodup_cons] at hids
    rcases List.mem_cons.mp hd with rfl | hd
    · have hfind : (ds.foldl StepRegistry.register (r.register d)).idToDefinitionMap.find? d.id =
          some d := by
        rw [StepRegistry.find?_foldl_register_of_not_mem hids.1, StepRegistry.register,
          Map.find?_insertOrAssign, if_pos rfl]
      rw [List.foldl_cons, StepRegistry.getDefinitionById, hfind]
    · exact ih hids.2 hd (r.register d')

theorem StepRegistry.getDefinitionById_of_mem {r : StepRegistry} {d : StepDefinition}
    (h : d ∈ r.registry) : ∃ d', r.getDefinitionById d.id = .ok d' := by
  obtain ⟨d',hd'⟩ := Option.isSome_iff_exists.mp (r.indexed d h)
  exact ⟨d', by simp [getDefinitionById, hd']⟩

structure SupportCodeLibrary where
  hookRegistry : HookRegistry
  stepRegistry : StepRegistry

/-- The library of these definitions, registered in order. -/
def SupportCodeLibrary.ofDefinitions (hooks : List HookDefinition) (steps : List StepDefinition) :
    SupportCodeLibrary where
  hookRegistry := hooks.foldl HookRegistry.register .empty
  stepRegistry := steps.foldl StepRegistry.register .empty

namespace SupportCodeLibrary

variable {hooks : List HookDefinition} {steps : List StepDefinition} {id : String}

theorem mem_hooks_of_getDefinitionById {d : HookDefinition}
    (h : (ofDefinitions hooks steps).hookRegistry.getDefinitionById id = .ok d) : d ∈ hooks := by
  have hfind := (HookRegistry.getDefinitionById_eq_ok_iff _ id d).mp h
  rcases HookRegistry.mem_of_find?_foldl_register hfind with hmem | hempty
  · exact hmem
  · cases hempty

theorem mem_steps_of_getDefinitionById {d : StepDefinition}
    (h : (ofDefinitions hooks steps).stepRegistry.getDefinitionById id = .ok d) : d ∈ steps := by
  have hfind := (StepRegistry.getDefinitionById_eq_ok_iff _ id d).mp h
  rcases StepRegistry.mem_of_find?_foldl_register hfind with hmem | hempty
  · exact hmem
  · cases hempty

end SupportCodeLibrary

mutual

def argumentGroupToMessageGroup : ArgumentGroup → Group
  | .mk children start value => .mk (some (argumentGroupsToMessageGroups children)) start value

def argumentGroupsToMessageGroups : List ArgumentGroup → List Group
  | [] => []
  | child :: children => argumentGroupToMessageGroup child :: argumentGroupsToMessageGroups children

end

def toStepMatchArgument (result : MatchArgument) : StepMatchArgument where
  group := argumentGroupToMessageGroup result.group
  parameterTypeName := if result.name.isEmpty then none else some result.name

/-- `MatchStepDefinitions`: one id and one arguments list for every definition
whose matcher accepts the text, in the order of the definitions. -/
def matchStepDefinitions (testStep : TestStep) (stepDefinitions : List StepDefinition)
    (text : String) : TestStep :=
  let found := stepDefinitions.filterMap fun d => (d.regex text).map fun m => (d.id,m)
  { testStep with
    stepDefinitionIds := testStep.stepDefinitionIds.map (· ++ found.map Prod.fst)
    stepMatchArgumentsLists := testStep.stepMatchArgumentsLists.map
      (· ++ found.map fun p => { stepMatchArguments := p.2.map toStepMatchArgument }) }

def groupToArgumentGroup : Group → List (Option String)
  | .mk none _ value => [value]
  | .mk (some []) _ value => [value]
  | .mk (some (child :: children)) _ _ => (child :: children).map fun | .mk _ _ value => value

def toArgument (argument : StepMatchArgument) : Util.Argument where
  converterName := argument.parameterTypeName.getD ""
  converterArgs := groupToArgumentGroup argument.group

def stepMatchArgumentsListToExecuteArgs (args : StepMatchArgumentsList) : List Util.Argument :=
  args.stepMatchArguments.map toArgument

/-- `RunOptions::Runtime`. The retry filter is dereferenced unchecked; the
application always sets it. -/
structure RuntimeOptions where
  dryRun : Bool := false
  failFast : Bool := false
  failGlobalHookFast : Bool := false
  retry : UInt64 := 0
  strict : Bool := true
  retryTagExpression : TagExpression := fun _ => true
  featureHooks : Bool := false
  repeats : Option UInt64 := none
  repeatTagExpression : Option TagExpression := none

end CucumberCpp
