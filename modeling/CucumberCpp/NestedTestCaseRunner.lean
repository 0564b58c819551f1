import CucumberCpp.AssembledSuites
import CucumberCpp.Skipping
import CucumberCpp.Expectations

/-! `runtime/NestedTestCaseRunner.cpp` and `engine/Step.cpp`: steps that are called from
inside a step, and how they resolve beside the steps of a pickle. -/
namespace CucumberCpp

open EventLog OrderedMap Unwinding

variable {idGenerator : IdGenerator}

/-- `TransformTable` back to a message. -/
def transformTableToMessage : Option Util.Table → Option PickleTable
  | none => none
  | some table => some { rows := table.rows }

/-- `TransformDocString` back to a message. -/
def transformDocStringToMessage : Option Util.DocString → Option PickleDocString
  | none => none
  | some docString => some { mediaType := docString.mediaType, content := docString.content }

/-- `NestedTestCaseRunner`, without the broadcaster; the context is the moment of the
run at which the step is called. -/
structure NestedTestCaseRunner where
  nesting : ℕ
  supportCodeLibrary : SupportCodeLibrary
  testCaseContext : CallSite
  testStepStarted : Util.TestStepStarted

/-- `Invoke`. The exception, if there is one, is returned as a value. -/
def invokeNestedStep (nesting : ℕ) (step : String) (definition : StepDefinition)
    (args : StepArgs) : Run idGenerator (Except Thrown Unit) := do
  let status ← executeBody (.step definition.id args) (definition.factory args)
  if status.status ≠ .passed then
    pure (.error (.nestedTestCaseRunnerError nesting (transformTestStepResult status) step))
  else
    pure (.ok ())

namespace NestedTestCaseRunner

/-- The constructor. -/
def make (nesting : ℕ) (supportCodeLibrary : SupportCodeLibrary) (testCaseContext : CallSite)
    (testStepStarted : Util.TestStepStarted) : NestedTestCaseRunner where
  nesting := nesting+1
  supportCodeLibrary := supportCodeLibrary
  testCaseContext := testCaseContext
  testStepStarted := testStepStarted

variable (r : NestedTestCaseRunner)

def assemble (step : String) : TestStep :=
  matchStepDefinitions
    { id := r.testStepStarted.testStepId
      stepDefinitionIds := some []
      stepMatchArgumentsLists := some [] }
    r.supportCodeLibrary.stepRegistry.registry step

/-- What the factory of a nested step is called with. -/
def stepArgs (dataTable : Option PickleTable) (docString : Option PickleDocString)
    (args : StepMatchArgumentsList) : StepArgs where
  site := r.testCaseContext
  stepOrHookStarted := .step r.testStepStarted
  dataTable := transformTable dataTable
  docString := transformDocString docString
  args := stepMatchArgumentsListToExecuteArgs args

def run (step : String) (testStep : TestStep) (dataTable : Option PickleTable)
    (docString : Option PickleDocString) : Run idGenerator (Except Thrown Unit) :=
  match testStep.stepDefinitionIds, testStep.stepMatchArgumentsLists with
  | some [], _ =>
    pure (.error (.nestedTestCaseRunnerError r.nesting { status := .undefined } step))
  | some (_ :: _ :: _), _ =>
    pure (.error (.nestedTestCaseRunnerError r.nesting
      { message := some "Ambiguous step definitions", status := .ambiguous } step))
  | some [id], some (args :: _) => do
    let definition ← fromExcept (r.supportCodeLibrary.stepRegistry.getDefinitionById id)
    invokeNestedStep r.nesting step definition (r.stepArgs dataTable docString args)
  | _, _ => throw .undefinedBehaviour

def step (step : String) (dataTable : Option PickleTable) (docString : Option PickleDocString) :
    Run idGenerator (Except Thrown Unit) :=
  r.run step (r.assemble step) dataTable docString

end NestedTestCaseRunner

/-- `StepBase::Step`, in a step that was given the runner. -/
def StepBase.step (nestedTestCaseRunner : NestedTestCaseRunner) (step : String)
    (dataTable : Option Util.Table) (docString : Option Util.DocString) :
    Run idGenerator (Except Thrown Unit) :=
  nestedTestCaseRunner.step step (transformTableToMessage dataTable)
    (transformDocStringToMessage docString)

@[simp] theorem transformTable_toMessage (table : Option Util.Table) :
    transformTable (transformTableToMessage table) = table := by
  cases table <;> rfl

@[simp] theorem transformDocString_toMessage (docString : Option Util.DocString) :
    transformDocString (transformDocStringToMessage docString) = docString := by
  cases docString <;> rfl

/-- What the text of a step stands for: no definition, several, or one together
with what it is executed with. -/
inductive Resolution where
  | undefined
  | ambiguous (message : String)
  | single (definition : StepDefinition) (dataTable : Option Util.Table)
      (docString : Option Util.DocString) (args : List Util.Argument)

/-- The definitions that accept a text, with the arguments they accept it with. -/
def found (stepDefinitions : List StepDefinition) (text : String) :
    List (StepDefinition × StepMatchArgumentsList) :=
  stepDefinitions.filterMap fun d => (d.arguments? text).map fun args => (d,args)

def resolve (stepDefinitions : List StepDefinition) (text : String)
    (dataTable : Option Util.Table) (docString : Option Util.DocString) : Resolution :=
  match found stepDefinitions text with
  | [] => .undefined
  | [(definition,args)] =>
    .single definition dataTable docString (stepMatchArgumentsListToExecuteArgs args)
  | _ => .ambiguous "Ambiguous step definitions"

/-- The resolution as the runner of nested steps carries it out: it reports that there
is not one definition, or executes the one there is. -/
def Resolution.CarriedOutNested : Resolution → Except Fault (Except Thrown Unit) →
    List (Entry String Event) → Prop
  | .undefined, r, log => log = [] ∧ ∃ nesting text,
    r = .ok (.error (.nestedTestCaseRunnerError nesting { status := .undefined } text))
  | .ambiguous message, r, log => log = [] ∧ ∃ nesting text,
    r = .ok (.error (.nestedTestCaseRunnerError nesting
      { message := some message, status := .ambiguous } text))
  | .single definition dataTable docString args, _, log =>
    ∃ a : StepArgs, a.dataTable = dataTable ∧ a.docString = docString ∧ a.args = args ∧
      log = (BodyRun.ofStep definition a).log

namespace TestCaseRunner

variable (c : TestCaseRunner)

/-- The resolution as `RunStep` carries it out. The hooks around the step run when it
has one definition, which is executed unless a hook before it fails. -/
def CarriedOut (site : CallSite) (started : TestStepStarted) : Resolution →
    Except Fault TestStepResult → List (Entry String Event) → Prop
  | .undefined, r, log => invocations log = [] ∧ r = .ok { status := .undefined }
  | .ambiguous message, r, log =>
    invocations log = [] ∧ r = .ok { message := some message, status := .ambiguous }
  | .single definition dataTable docString args, _, log =>
    ∃ before after, c.StepHooksRule .beforeStep site started before ∧
      c.StepHooksRule .afterStep site started after ∧
      ((∃ b ∈ before, b.result.status = .failed) → log = (before ++ after).flatMap BodyRun.log) ∧
      ((∀ b ∈ before, b.result.status ≠ .failed) →
        ∃ a : StepArgs, a.dataTable = dataTable ∧ a.docString = docString ∧ a.args = args ∧
          log = (before ++ .ofStep definition a :: after).flatMap BodyRun.log)

end TestCaseRunner

theorem mem_of_mem_found {stepDefinitions : List StepDefinition} {text : String}
    {p : StepDefinition × StepMatchArgumentsList} (h : p ∈ found stepDefinitions text) :
    p.1 ∈ stepDefinitions := by
  obtain ⟨d,hd,hp⟩ := List.mem_filterMap.mp h
  obtain ⟨args,_,rfl⟩ := Option.map_eq_some_iff.mp hp
  exact hd

/-- Matching lists the ids and the arguments of the definitions found, side by side. -/
theorem matchStepDefinitions_eq (testStep : TestStep) (stepDefinitions : List StepDefinition)
    (text : String) (hids : testStep.stepDefinitionIds = some [])
    (hlists : testStep.stepMatchArgumentsLists = some []) :
    (matchStepDefinitions testStep stepDefinitions text).stepDefinitionIds =
        some ((found stepDefinitions text).map fun p => p.1.id) ∧
      (matchStepDefinitions testStep stepDefinitions text).stepMatchArgumentsLists =
        some ((found stepDefinitions text).map Prod.snd) := by
  simp only [matchStepDefinitions, hids, hlists, found, StepDefinition.arguments?, Option.map_some,
    List.nil_append, List.map_filterMap, Option.map_map]
  exact ⟨rfl, rfl⟩

/-- How a nested step leaves whose definition came to this result. -/
def leftOf (nesting : ℕ) (step : String) (status : Util.TestStepResult) : Except Thrown Unit :=
  if status.status = .passed then .ok ()
  else .error (.nestedTestCaseRunnerError nesting (transformTestStepResult status) step)

theorem emits_invokeNestedStep (nesting : ℕ) (step : String) (definition : StepDefinition)
    (args : StepArgs) :
    Emits (invokeNestedStep nesting step definition args : Run idGenerator (Except Thrown Unit))
      fun r log => r = .ok (leftOf nesting step (definition.factory args).result) ∧
        log = (BodyRun.ofStep definition args).log := by
  apply (emits_executeBody (.ofStep definition args)).bind_ok (by simp)
  intro status log h
  obtain rfl : status = (definition.factory args).result := Except.ok.inj h.1
  rw [h.2]
  split_ifs with hstatus
  · exact emits_pure ⟨by rw [leftOf, if_neg hstatus], List.append_nil _⟩
  · rw [ne_eq, not_not] at hstatus
    exact emits_pure ⟨by rw [leftOf, if_pos hstatus], List.append_nil _⟩

section

variable {steps : List StepDefinition} {text : String} {dataTable : Option Util.Table}
  {docString : Option Util.DocString}

/-- What `StepBase::Step` does, by the definitions that accept its text. -/
theorem StepBase.step_eq {r : NestedTestCaseRunner}
    (hregistry : r.supportCodeLibrary.stepRegistry.registry = steps) :
    (StepBase.step r text dataTable docString : Run idGenerator (Except Thrown Unit)) =
      match found steps text with
      | [] =>
        pure (.error (.nestedTestCaseRunnerError r.nesting { status := .undefined } text))
      | [(d,args)] => do
        let definition ← fromExcept (r.supportCodeLibrary.stepRegistry.getDefinitionById d.id)
        invokeNestedStep r.nesting text definition
          (r.stepArgs (transformTableToMessage dataTable)
            (transformDocStringToMessage docString) args)
      | _ =>
        pure (.error (.nestedTestCaseRunnerError r.nesting
          { message := some "Ambiguous step definitions", status := .ambiguous } text)) := by
  obtain ⟨hids,hlists⟩ := matchStepDefinitions_eq
    { id := r.testStepStarted.testStepId
      stepDefinitionIds := some []
      stepMatchArgumentsLists := some [] }
    r.supportCodeLibrary.stepRegistry.registry text rfl rfl
  rw [hregistry] at hids hlists
  unfold StepBase.step NestedTestCaseRunner.step NestedTestCaseRunner.run
    NestedTestCaseRunner.assemble
  rw [hregistry, hids, hlists]
  rcases found steps text with _ | ⟨p,_ | ⟨q,rest⟩⟩ <;> rfl

/-- The runner of nested steps carries out what its text resolves to. -/
theorem StepBase.emits_step {r : NestedTestCaseRunner}
    (hregistry : r.supportCodeLibrary.stepRegistry.registry = steps)
    (hd : ∀ d ∈ steps, r.supportCodeLibrary.stepRegistry.getDefinitionById d.id = .ok d) :
    Emits (StepBase.step r text dataTable docString : Run idGenerator (Except Thrown Unit))
      (resolve steps text dataTable docString).CarriedOutNested := by
  rw [StepBase.step_eq hregistry, resolve]
  rcases hfound : found steps text with _ | ⟨p,_ | ⟨q,rest⟩⟩
  · exact emits_pure ⟨rfl, _, _, rfl⟩
  · have hp : p.1 ∈ steps := mem_of_mem_found (by rw [hfound]; exact List.mem_cons_self)
    apply emits_fromExcept_bind (hd p.1 hp)
    apply (emits_invokeNestedStep r.nesting text p.1 _).mono
    intro res log h
    exact ⟨_, transformTable_toMessage _, transformDocString_toMessage _, rfl, h.2⟩
  · exact emits_pure ⟨rfl, _, _, rfl⟩

/-- Seen from the body that calls it, a nested step is the action of the same text, when
the bodies of the action come to what the definitions come to. -/
theorem StepBase.emits_step_action {r : NestedTestCaseRunner} {definitions : List Body}
    (hregistry : r.supportCodeLibrary.stepRegistry.registry = steps)
    (hd : ∀ d ∈ steps, r.supportCodeLibrary.stepRegistry.getDefinitionById d.id = .ok d)
    (hlength : definitions.length = (found steps text).length)
    (hbody : ∀ d args body, found steps text = [(d,args)] → definitions = [body] →
      ∃ t, body.run (r.nesting+1) = some t ∧ t.testStepResult =
        (d.factory (r.stepArgs (transformTableToMessage dataTable)
          (transformDocStringToMessage docString) args)).result) :
    Emits (StepBase.step r text dataTable docString : Run idGenerator (Except Thrown Unit))
      fun res _ => ∃ left, res = .ok left ∧
        ∀ s, exec ((Action.step text definitions).run r.nesting) s = some (left, s) := by
  rw [StepBase.step_eq hregistry]
  rcases hfound : found steps text with _ | ⟨⟨d,args⟩,_ | ⟨q,rest⟩⟩
  · obtain rfl : definitions = [] := by simpa [hfound] using hlength
    exact emits_pure ⟨_, rfl, fun _ => rfl⟩
  · obtain ⟨body,rfl⟩ := List.length_eq_one_iff.mp (hlength.trans (by rw [hfound]; rfl))
    obtain ⟨t,hrun,ht⟩ := hbody d args body hfound rfl
    have hdmem : d ∈ steps := mem_of_mem_found (by rw [hfound]; exact List.mem_cons_self)
    apply emits_fromExcept_bind (hd d hdmem)
    apply (emits_invokeNestedStep r.nesting text d _).mono
    intro res log h
    refine ⟨_, h.1, fun s => ?_⟩
    rw [Action.run, hrun, exec_invokeNested, ht]
    rfl
  · rcases definitions with _ | ⟨a,_ | ⟨b,others⟩⟩
    · simp [hfound] at hlength
    · simp [hfound] at hlength
    · exact emits_pure ⟨_, rfl, fun _ => rfl⟩

/-- The pickle step has this text, table and doc string. -/
structure PickleStep.Carries (pickleStep : PickleStep) (text : String)
    (dataTable : Option Util.Table) (docString : Option Util.DocString) : Prop where
  text : pickleStep.text = text
  dataTable : transformTable (pickleStep.argument.bind (·.dataTable)) = dataTable
  docString : transformDocString (pickleStep.argument.bind (·.docString)) = docString

namespace TestCaseRunner

variable {c : TestCaseRunner} {pickleStep : PickleStep} {testStep : TestStep} {site : CallSite}
  {started : TestStepStarted} {testStepResults : List TestStepResult}

theorem isSkippingSteps_of_passed (hskip : c.skip = false)
    (hpassed : ∀ r ∈ testStepResults, r.status = .passed) :
    c.isSkippingSteps testStepResults = false := by
  have hworst : (c.getWorstStepResult testStepResults).status = .passed := by
    rw [getWorstStepResult]
    simp only [hskip, Bool.false_eq_true, if_false]
    split_ifs with hempty
    · rfl
    · have hne : testStepResults ≠ [] := by simpa using hempty
      exact hpassed _ (getWorstTestStepResult_mem hne)
  simp [isSkippingSteps, hworst]

theorem StepBodies.carriedOut {d : StepDefinition} {args : StepMatchArgumentsList}
    {bodies : List BodyRun} (h : c.StepBodies pickleStep testStep site started bodies)
    (hcarries : pickleStep.Carries text dataTable docString)
    (hids : testStep.stepDefinitionIds = some [d.id])
    (hlists : testStep.stepMatchArgumentsLists = some [args])
    (hd : c.supportCodeLibrary.stepRegistry.getDefinitionById d.id = .ok d)
    (r : Except Fault TestStepResult) :
    c.CarriedOut site started
      (.single d dataTable docString (stepMatchArgumentsListToExecuteArgs args)) r
      (bodies.flatMap BodyRun.log) := by
  cases h with
  | @hooksOnly before after hbefore hafter hfailed =>
    rw [BodyRun.worst_failed_iff] at hfailed
    refine ⟨before, after, hbefore, hafter, fun _ => rfl, fun hgo => ?_⟩
    obtain ⟨b,hb,hstatus⟩ := hfailed
    exact absurd hstatus (hgo b hb)
  | @withDefinition before after id' ids' d' args' lists' hbefore hafter hfailed hids' hlists'
      hd' =>
    rw [ne_eq, BodyRun.worst_failed_iff] at hfailed
    refine ⟨before, after, hbefore, hafter, fun h => absurd h hfailed, fun _ => ?_⟩
    obtain ⟨rfl,_⟩ : d.id = id' ∧ [] = ids' := by simpa using hids.symm.trans hids'
    obtain ⟨rfl,_⟩ : args = args' ∧ [] = lists' := by simpa using hlists.symm.trans hlists'
    obtain rfl : d = d' := Except.ok.inj (hd.symm.trans hd')
    exact ⟨_, hcarries.dataTable, hcarries.docString, rfl, rfl⟩

/-- `RunStep` carries out what the text of a pickle step resolves to, when nothing but
passed results precede the step. -/
theorem emits_runStep_carriedOut (hskip : c.skip = false)
    (hpassed : ∀ r ∈ testStepResults, r.status = .passed)
    (hd : ∀ d ∈ steps, c.supportCodeLibrary.stepRegistry.getDefinitionById d.id = .ok d)
    (hcarries : pickleStep.Carries text dataTable docString)
    (hids : testStep.stepDefinitionIds = some ((found steps text).map fun p => p.1.id))
    (hlists : testStep.stepMatchArgumentsLists = some ((found steps text).map Prod.snd)) :
    Emits (c.runStep testStepResults pickleStep testStep site started :
        Run idGenerator TestStepResult)
      (c.CarriedOut site started (resolve steps text dataTable docString)) := by
  have hskipping := isSkippingSteps_of_passed hskip hpassed
  have hfollows : c.followsSkippedStep testStepResults = false := by
    by_contra hfollows
    rw [Bool.not_eq_false] at hfollows
    rw [c.isSkippingSteps_of_followsSkippedStep hfollows] at hskipping
    cases hskipping
  rw [resolve]
  unfold runStep
  rw [hids]
  simp only [hfollows, hskipping, and_true, List.length_map]
  rcases hfound : found steps text with _ | ⟨p,_ | ⟨q,rest⟩⟩
  · apply emits_nextId_bind
    intro id
    apply emits_broadcastEvent_bind
    exact emits_pure ⟨rfl, rfl⟩
  · have hp : p.1 ∈ steps := mem_of_mem_found (by rw [hfound]; exact List.mem_cons_self)
    rw [hfound] at hids hlists
    apply (c.emits_executeStep hids hlists (hd p.1 hp)).mono
    intro r log h
    obtain ⟨bodies,hbodies,_,rfl⟩ := h
    exact hbodies.carriedOut hcarries hids hlists (hd p.1 hp) r
  · exact emits_pure ⟨rfl, rfl⟩

end TestCaseRunner

end

/-- A step that is called from inside a step resolves as a step of a pickle with the
same text, table and doc string does when it is reached. What the two come to is the
same, but that a failing before-step hook keeps the definition of the pickle step from
being executed. -/
theorem nested_step_resolves_alike {hooks : List HookDefinition} {steps : List StepDefinition}
    (hids : (steps.map StepDefinition.id).Nodup) {c : TestCaseRunner} {r : NestedTestCaseRunner}
    (hc : c.supportCodeLibrary = .ofDefinitions hooks steps)
    (hr : r.supportCodeLibrary = .ofDefinitions hooks steps) (hskip : c.skip = false)
    {testStepResults : List TestStepResult} (hpassed : ∀ r ∈ testStepResults, r.status = .passed)
    {pickleStep : PickleStep} {text : String} {dataTable : Option Util.Table}
    {docString : Option Util.DocString} (hcarries : pickleStep.Carries text dataTable docString)
    (site : CallSite) (startedId : String) :
    Emits (do
        let testStep ← assembleStep c.supportCodeLibrary pickleStep
        c.runStep testStepResults pickleStep testStep site ⟨startedId, testStep.id⟩ :
          Run idGenerator TestStepResult)
      (fun result log => ∃ id log', log = .drew id :: log' ∧
        c.CarriedOut site ⟨startedId, id⟩ (resolve steps text dataTable docString) result log') ∧
    Emits (StepBase.step r text dataTable docString : Run idGenerator (Except Thrown Unit))
      (resolve steps text dataTable docString).CarriedOutNested := by
  have hregistry : (SupportCodeLibrary.ofDefinitions hooks steps).stepRegistry.registry = steps :=
    StepRegistry.registry_foldl_register steps .empty
  have hd : ∀ d ∈ steps,
      (SupportCodeLibrary.ofDefinitions hooks steps).stepRegistry.getDefinitionById d.id =
        .ok d :=
    fun d hd => StepRegistry.getDefinitionById_foldl_register hids hd .empty
  constructor
  · apply (emits_assembleStep c.supportCodeLibrary pickleStep).bind_ok (by simp)
    intro testStep log h
    obtain ⟨t,ht,hok,rfl⟩ := h
    obtain rfl : testStep = t := Except.ok.inj hok
    obtain ⟨hstepIds,hlists⟩ := matchStepDefinitions_eq
      { id := testStep.id
        pickleStepId := some pickleStep.id
        stepDefinitionIds := some []
        stepMatchArgumentsLists := some [] }
      c.supportCodeLibrary.stepRegistry.registry pickleStep.text rfl rfl
    rw [← pickleTestStep, ← ht, hc, hregistry, hcarries.text] at hstepIds hlists
    apply (TestCaseRunner.emits_runStep_carriedOut hskip hpassed (by rwa [hc]) hcarries hstepIds
      hlists).mono
    intro result log hcarried
    exact ⟨testStep.id, log, rfl, hcarried⟩
  · exact StepBase.emits_step (by rwa [hr]) (by rwa [hr])

/-- One step definition for every text, and a before-step hook that fails. -/
def failingBeforeStep : SupportCodeLibrary :=
  .ofDefinitions [.constant "1" .beforeStep .failed] [.constant "2" .passed]

def failingBeforeStepRunner : TestCaseRunner where
  pickle := { id := "p", name := "", steps := [⟨"s", "a step", none⟩] }
  testCase := { id := "c", pickleId := "p", testRunStartedId := none, testSteps := [] }
  maximumAttempts := 1
  repeats := false
  skip := false
  supportCodeLibrary := failingBeforeStep

theorem nested_step_resolves_alike_single :
    Emits (StepBase.step (.make 0 failingBeforeStep (.testStep "p" 0 0) ⟨"3", "4"⟩) "a step" none
        none : Run decimalIds (Except Thrown Unit))
      (Resolution.single (.constant "2" .passed) none none []).CarriedOutNested := by
  have hcarries : PickleStep.Carries ⟨"s", "a step", none⟩ "a step" none none := ⟨rfl, rfl, rfl⟩
  have hids : ([.constant "2" .passed].map StepDefinition.id).Nodup := List.nodup_singleton _
  exact (nested_step_resolves_alike hids (c := failingBeforeStepRunner)
    (r := .make 0 failingBeforeStep (.testStep "p" 0 0) ⟨"3", "4"⟩) rfl rfl rfl
    (List.forall_mem_nil _) hcarries (.testStep "p" 0 0) "3").2

def Invocation.stepDefinitionId? : Invocation → Option String
  | .hook _ _ => none
  | .step id _ => some id

/-- The definition is executed for the nested step, and not for the step of the pickle. -/
theorem nested_step_resolves_differently :
    (invocations (run (StepBase.step
        (.make 0 failingBeforeStep (.testStep "p" 0 0) ⟨"3", "4"⟩) "a step" none none)
        (World.start decimalIds Event)).2.log).filterMap Invocation.stepDefinitionId? = ["2"] ∧
      (invocations (run (do
          let testStep ← assembleStep failingBeforeStep ⟨"s", "a step", none⟩
          failingBeforeStepRunner.runStep [] ⟨"s", "a step", none⟩ testStep (.testStep "p" 0 0)
            ⟨"3", testStep.id⟩)
        (World.start decimalIds Event)).2.log).filterMap Invocation.stepDefinitionId? = [] := by
  decide

end CucumberCpp
