import CucumberCpp.NestedTestCaseRunner

/-! `engine/ExecutionContext.cpp`: what the bodies of hooks and steps attach, log and link, at
any depth of nested steps. -/
namespace CucumberCpp

structure AttachOptions where
  mediaType : String := ""
  fileName : Option String := none

/-- `std::variant<std::string, AttachOptions>`. -/
inductive OptionsOrMediaType where
  | mediaType (mediaType : String)
  | options (options : AttachOptions)

def logMediaType : String := "text/x.cucumber.log+plain"

def linkMediaType : String := "text/uri-list"

def readTestStepStartedIds : Util.StepOrHookStarted → Option String × Option String
  | .step started => (some started.testCaseStartedId,some started.testStepId)
  | .hook _ => (none,none)

/-- The field of the internal message holds the id of the hook that was started. -/
def readTestRunHookStartedIds : Util.StepOrHookStarted → Option String
  | .step _ => none
  | .hook started => some started.testRunStartedId

/-- The message that `BroadcastAttachment` broadcasts. -/
def broadcastAttachment (data : String) (encoding : AttachmentContentEncoding)
    (mediaType : OptionsOrMediaType) (stepOrHookStarted : Util.StepOrHookStarted) : Attachment :=
  let options : AttachOptions := match mediaType with
    | .mediaType mediaType => { mediaType := mediaType }
    | .options options => options
  { body := data
    contentEncoding := encoding
    mediaType := options.mediaType
    fileName := options.fileName
    testCaseStartedId := (readTestStepStartedIds stepOrHookStarted).1
    testStepId := (readTestStepStartedIds stepOrHookStarted).2
    testRunHookStartedId := readTestRunHookStartedIds stepOrHookStarted }

/-- `ExecutionContext`, as far as its attachments go. -/
structure ExecutionContext where
  stepOrHookStarted : Util.StepOrHookStarted

namespace ExecutionContext

variable (c : ExecutionContext)

def attach (data : String) (mediaType : OptionsOrMediaType) : Attachment :=
  broadcastAttachment data .identity mediaType c.stepOrHookStarted

/-- `Attach` of a stream, by its content; `toBase64` is `base64::to_base64`. -/
def attachStream (toBase64 : String → String) (data : String) (mediaType : OptionsOrMediaType) :
    Attachment :=
  broadcastAttachment (toBase64 data) .base64 mediaType c.stepOrHookStarted

def log (text : String) : Attachment := c.attach text (.mediaType logMediaType)

def link (url : String) (title : Option String) : Attachment :=
  c.attach url (.options { mediaType := linkMediaType, fileName := title })

end ExecutionContext

inductive ContextCall where
  | attach (data : String) (mediaType : OptionsOrMediaType)
  | attachStream (data : String) (mediaType : OptionsOrMediaType)
  | log (text : String)
  | link (url : String) (title : Option String)

def ContextCall.perform (toBase64 : String → String) (c : ExecutionContext) :
    ContextCall → Attachment
  | .attach data mediaType => c.attach data mediaType
  | .attachStream data mediaType => c.attachStream toBase64 data mediaType
  | .log text => c.log text
  | .link url title => c.link url title

/-- What a body does: calls of its context and nested steps, each of which it can follow up
according to how the step ended, and at last the result that the body comes to. -/
inductive UserCode where
  | finish (result : Util.TestStepResult)
  | context (call : ContextCall) (next : UserCode)
  | step (step : String) (dataTable : Option Util.Table) (docString : Option Util.DocString)
      (next : Except Thrown Unit → UserCode)

/-- A body with this context, and in a step with this runner, makes these attachments and comes
to this result. The bodies of nested steps are those of the definitions that the runner finds. -/
inductive Executes (toBase64 : String → String) (stepCode : StepDefinition → StepArgs → UserCode) :
    ExecutionContext → Option NestedTestCaseRunner → UserCode → List Attachment →
    Util.TestStepResult → Prop where
  | finish {c runner result} : Executes toBase64 stepCode c runner (.finish result) [] result
  | context {c runner call next attachments result}
      (hnext : Executes toBase64 stepCode c runner next attachments result) :
      Executes toBase64 stepCode c runner (.context call next)
        (call.perform toBase64 c :: attachments) result
  | undefined {c r step dataTable docString next attachments result}
      (hids : (NestedTestCaseRunner.assemble r step).stepDefinitionIds = some [])
      (hnext : Executes toBase64 stepCode c (some r)
        (next (.error (.nestedTestCaseRunnerError r.nesting { status := .undefined } step)))
        attachments result) :
      Executes toBase64 stepCode c (some r) (.step step dataTable docString next) attachments
        result
  | ambiguous {c r step dataTable docString next attachments result id id' ids}
      (hids : (NestedTestCaseRunner.assemble r step).stepDefinitionIds = some (id :: id' :: ids))
      (hnext : Executes toBase64 stepCode c (some r)
        (next (.error (.nestedTestCaseRunnerError r.nesting
          { message := some "Ambiguous step definitions", status := .ambiguous } step)))
        attachments result) :
      Executes toBase64 stepCode c (some r) (.step step dataTable docString next) attachments
        result
  | nested {c r step dataTable docString next attachments result id args lists d inner status}
      (hids : (NestedTestCaseRunner.assemble r step).stepDefinitionIds = some [id])
      (hlists : (NestedTestCaseRunner.assemble r step).stepMatchArgumentsLists =
        some (args :: lists))
      (hd : r.supportCodeLibrary.stepRegistry.getDefinitionById id = .ok d)
      (hinner : Executes toBase64 stepCode ⟨.step r.testStepStarted⟩
        (some (.make r.nesting r.supportCodeLibrary r.testCaseContext r.testStepStarted))
        (stepCode d (r.stepArgs (transformTableToMessage dataTable)
          (transformDocStringToMessage docString) args)) inner status)
      (hnext : Executes toBase64 stepCode c (some r) (next (leftOf r.nesting step status))
        attachments result) :
      Executes toBase64 stepCode c (some r) (.step step dataTable docString next)
        (inner ++ attachments) result

/-- Support code given by what its bodies do. -/
structure UserCodeLibrary where
  supportCodeLibrary : SupportCodeLibrary
  toBase64 : String → String
  hookCode : HookDefinition → HookArgs → UserCode
  stepCode : StepDefinition → StepArgs → UserCode
  hook : ∀ id d, supportCodeLibrary.hookRegistry.getDefinitionById id = .ok d → ∀ args,
    Executes toBase64 stepCode ⟨args.stepOrHookStarted⟩ none (hookCode d args)
      (d.factory args).attachments (d.factory args).result
  step : ∀ id d, supportCodeLibrary.stepRegistry.getDefinitionById id = .ok d →
    ∀ args started, args.stepOrHookStarted = .step started →
      Executes toBase64 stepCode ⟨.step started⟩
        (some (.make 0 supportCodeLibrary args.site started)) (stepCode d args)
        (d.factory args).attachments (d.factory args).result

/-- A message about something that was started and is not finished yet. -/
inductive OpenEvent where
  | testStep (testCaseStartedId testStepId : String)
  | testRunHook (testRunHookStartedId : String)
  deriving DecidableEq, Repr

def Util.StepOrHookStarted.openEvent : Util.StepOrHookStarted → OpenEvent
  | .step started => .testStep started.testCaseStartedId started.testStepId
  | .hook started => .testRunHook started.testRunStartedId

/-- The attachment carries the ids of the event, and no others. -/
def Attachment.BelongsTo (a : Attachment) : OpenEvent → Prop
  | .testStep testCaseStartedId testStepId =>
    a.testCaseStartedId = some testCaseStartedId ∧ a.testStepId = some testStepId ∧
      a.testRunHookStartedId = none
  | .testRunHook testRunHookStartedId =>
    a.testRunHookStartedId = some testRunHookStartedId ∧ a.testCaseStartedId = none ∧
      a.testStepId = none

theorem broadcastAttachment_belongsTo (data : String) (encoding : AttachmentContentEncoding)
    (mediaType : OptionsOrMediaType) (stepOrHookStarted : Util.StepOrHookStarted) :
    (broadcastAttachment data encoding mediaType stepOrHookStarted).BelongsTo
      stepOrHookStarted.openEvent := by
  cases stepOrHookStarted with
  | step started => exact ⟨rfl, rfl, rfl⟩
  | hook started => exact ⟨rfl, rfl, rfl⟩

theorem ContextCall.perform_belongsTo (toBase64 : String → String) (c : ExecutionContext)
    (call : ContextCall) : (call.perform toBase64 c).BelongsTo c.stepOrHookStarted.openEvent := by
  cases call with
  | attach data mediaType => exact broadcastAttachment_belongsTo _ _ _ _
  | attachStream data mediaType => exact broadcastAttachment_belongsTo _ _ _ _
  | log text => exact broadcastAttachment_belongsTo _ _ _ _
  | link url title => exact broadcastAttachment_belongsTo _ _ _ _

/-- At any depth, a body attaches to the event that its context was constructed with. -/
theorem Executes.belongsTo {toBase64 : String → String}
    {stepCode : StepDefinition → StepArgs → UserCode} {c : ExecutionContext}
    {runner : Option NestedTestCaseRunner} {code : UserCode} {attachments : List Attachment}
    {result : Util.TestStepResult}
    (h : Executes toBase64 stepCode c runner code attachments result)
    (hrunner : ∀ r, runner = some r → c.stepOrHookStarted = .step r.testStepStarted) :
    ∀ a ∈ attachments, a.BelongsTo c.stepOrHookStarted.openEvent := by
  induction h with
  | finish => simp
  | @context c runner call next attachments result _ ih =>
    rw [List.forall_mem_cons]
    exact ⟨call.perform_belongsTo toBase64 c, ih hrunner⟩
  | undefined _ _ ih => exact ih hrunner
  | ambiguous _ _ ih => exact ih hrunner
  | @nested c r step dataTable docString next attachments result id args lists d inner status
      _ _ _ _ _ ihinner ihnext =>
    rw [List.forall_mem_append]
    refine ⟨?_, ihnext hrunner⟩
    rw [hrunner r rfl]
    -- the runner of the nested body was given the same ids
    refine ihinner fun r' hr' => ?_
    obtain rfl := Option.some.inj hr'
    rfl

namespace UserCodeLibrary

variable (u : UserCodeLibrary)

theorem hook_belongsTo {id : String} {d : HookDefinition}
    (hd : u.supportCodeLibrary.hookRegistry.getDefinitionById id = .ok d) (args : HookArgs) :
    ∀ a ∈ (d.factory args).attachments, a.BelongsTo args.stepOrHookStarted.openEvent :=
  (u.hook id d hd args).belongsTo (by simp)

theorem step_belongsTo {id : String} {d : StepDefinition}
    (hd : u.supportCodeLibrary.stepRegistry.getDefinitionById id = .ok d) (args : StepArgs)
    {started : Util.TestStepStarted} (hstarted : args.stepOrHookStarted = .step started) :
    ∀ a ∈ (d.factory args).attachments,
      a.BelongsTo (.testStep started.testCaseStartedId started.testStepId) := by
  refine (u.step id d hd args started hstarted).belongsTo fun r hr => ?_
  obtain rfl := Option.some.inj hr
  rfl

end UserCodeLibrary

end CucumberCpp
