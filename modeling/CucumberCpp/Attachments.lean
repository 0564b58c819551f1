import CucumberCpp.Bracketing
import CucumberCpp.ExecutionContext

/-! Every attachment of a run belongs to the event that is open when it is broadcast. -/
namespace CucumberCpp

open EventLog Bracketing

variable {idGenerator : IdGenerator}

def Envelope.opens : Envelope → Option OpenEvent
  | .testStepStarted started => some (.testStep started.testCaseStartedId started.testStepId)
  | .testRunHookStarted started => some (.testRunHook started.id)
  | _ => none

def Envelope.closes : Envelope → Option OpenEvent
  | .testStepFinished finished => some (.testStep finished.testCaseStartedId finished.testStepId)
  | .testRunHookFinished finished => some (.testRunHook finished.testRunHookStartedId)
  | _ => none

/-- Attachments belong to test steps and to hooks around a run or a feature. -/
def attribution : Grammar Envelope OpenEvent where
  opens := Envelope.opens
  closes := Envelope.closes
  inner
    | .attachment _ => true
    | _ => false
  Belongs
    | .attachment a, b => a.BelongsTo b
    | _, _ => True

/-- What is open after these messages, innermost first. -/
def openEvents (envelopes : List Envelope) : List OpenEvent := attribution.openFrom [] envelopes

theorem content_attachments {as : List Attachment} {b : OpenEvent}
    (h : ∀ a ∈ as, a.BelongsTo b) : ∀ e ∈ as.map .attachment, attribution.Content b e := by
  intro e he
  obtain ⟨a,ha,rfl⟩ := List.mem_map.mp he
  exact ⟨rfl, rfl, fun _ => h a ha⟩

section

variable {settled : Prop}

/-- The messages of a hook around a run or a feature. -/
theorem scoped_hookRun {h : HookRun} (hbelongs : ∀ b ∈ h.bodies, ∀ a ∈ b.attachments,
      a.BelongsTo (.testRunHook h.started.id))
    (houtcome : settled → ∃ result, h.outcome = .ok result) :
    attribution.Scoped settled (broadcasts h.log) := by
  have hcontent : ∀ e ∈ (h.bodies.flatMap BodyRun.attachments).map Envelope.attachment,
      attribution.Content (.testRunHook h.started.id) e := by
    refine content_attachments fun a ha => ?_
    obtain ⟨b,hb,hab⟩ := List.mem_flatMap.mp ha
    exact hbelongs b hb a hab
  have hlog : broadcasts h.log = .testRunHookStarted h.started ::
      ((h.bodies.flatMap BodyRun.attachments).map .attachment ++ broadcasts h.finishedLog) := by
    simp [HookRun.log, broadcasts_bodyRuns]
  rw [hlog]
  cases hout : h.outcome with
  | ok result =>
    have hfinished : broadcasts h.finishedLog = [.testRunHookFinished ⟨h.started.id, result⟩] := by
      simp [HookRun.finishedLog, hout]
    rw [hfinished]
    exact Grammar.scoped_bracket rfl rfl hcontent rfl rfl rfl
  | error e =>
    -- the worker threw before it could broadcast that the hook is finished
    have hfinished : broadcasts h.finishedLog = [] := by simp [HookRun.finishedLog, hout]
    rw [hfinished, List.append_nil]
    refine Grammar.scoped_unclosed rfl rfl hcontent fun hs => ?_
    obtain ⟨result,hresult⟩ := houtcome hs
    cases hout.symm.trans hresult

theorem scoped_stepRun {startedId : String} {s : StepRun} (hbelongs : ∀ b ∈ s.bodies,
      ∀ a ∈ b.attachments, a.BelongsTo (.testStep startedId s.testStep.id)) :
    attribution.Scoped settled (broadcasts (s.log startedId)) := by
  have hsuggestion : ∀ e ∈ s.suggestion.toList.map Envelope.suggestion,
      attribution.Content (.testStep startedId s.testStep.id) e := by
    intro e he
    obtain ⟨_,_,rfl⟩ := List.mem_map.mp he
    exact ⟨rfl, rfl, fun h => by cases h⟩
  have hattachments : ∀ e ∈ (s.bodies.flatMap BodyRun.attachments).map Envelope.attachment,
      attribution.Content (.testStep startedId s.testStep.id) e := by
    refine content_attachments fun a ha => ?_
    obtain ⟨b,hb,hab⟩ := List.mem_flatMap.mp ha
    exact hbelongs b hb a hab
  have hlog : broadcasts (s.log startedId) =
      .testStepStarted ⟨startedId, s.testStep.id⟩ ::
        ((s.suggestion.toList.map .suggestion ++
          (s.bodies.flatMap BodyRun.attachments).map .attachment) ++
            [.testStepFinished ⟨startedId, s.testStep.id, s.result⟩]) := by
    have hsuggested : broadcasts s.suggestionLog = s.suggestion.toList.map .suggestion := by
      unfold StepRun.suggestionLog
      cases s.suggestion <;> rfl
    simp [StepRun.log, hsuggested, broadcasts_bodyRuns]
  rw [hlog]
  refine Grammar.scoped_bracket rfl rfl (fun e he => ?_) rfl rfl rfl
  rcases List.mem_append.mp he with he | he
  · exact hsuggestion e he
  · exact hattachments e he

theorem scoped_flatMap_log {α : Type} {log : α → List (Entry String Event)} {xs : List α}
    (h : ∀ x ∈ xs, attribution.Scoped settled (broadcasts (log x))) :
    attribution.Scoped settled (broadcasts (xs.flatMap log)) := by
  have hflat : broadcasts (xs.flatMap log) = xs.flatMap fun x => broadcasts (log x) := by
    rw [broadcasts, events_flatMap, List.filterMap_flatMap]
    rfl
  rw [hflat]
  exact Grammar.scoped_flatMap h

theorem scoped_attemptRun {testCaseId : String} {a : AttemptRun}
    (h : ∀ s ∈ a.steps, attribution.Scoped settled (broadcasts (s.log a.id))) :
    attribution.Scoped settled (broadcasts (a.log testCaseId)) := by
  have hstarted : attribution.Scoped settled
      [.testCaseStarted ⟨a.attempt, a.id, testCaseId⟩] := Grammar.Neutral.scoped ⟨rfl, rfl, rfl⟩
  have hfinished : attribution.Scoped settled [.testCaseFinished ⟨a.id, a.willBeRetried⟩] :=
    Grammar.Neutral.scoped ⟨rfl, rfl, rfl⟩
  have hlog : broadcasts (a.log testCaseId) = [.testCaseStarted ⟨a.attempt, a.id, testCaseId⟩] ++
      broadcasts (a.steps.flatMap (StepRun.log a.id)) ++
        [.testCaseFinished ⟨a.id, a.willBeRetried⟩] := by
    simp [AttemptRun.log]
  rw [hlog]
  exact (hstarted.append (scoped_flatMap_log h)).append hfinished

end

namespace UserCodeLibrary

variable (u : UserCodeLibrary)

section

variable {c : TestCaseRunner} (hc : c.supportCodeLibrary = u.supportCodeLibrary)

include hc

theorem stepHooks_belongsTo {hookType : HookType} {site : CallSite} {started : TestStepStarted}
    {bs : List BodyRun} (h : c.StepHooksRule hookType site started bs) :
    ∀ b ∈ bs, ∀ a ∈ b.attachments,
      a.BelongsTo (.testStep started.testCaseStartedId started.testStepId) := by
  intro b hb
  obtain ⟨id,_,d,hd,rfl⟩ := exists_left_of_forall₂ h hb
  exact u.hook_belongsTo (hc ▸ hd) _

/-- Whatever a test step executes attaches to it. -/
theorem stepRule_belongsTo {attempt : UInt64} {startedId : String} {state : AttemptState}
    {s : StepRun} (h : c.StepRule attempt startedId state s) :
    ∀ b ∈ s.bodies, ∀ a ∈ b.attachments, a.BelongsTo (.testStep startedId s.testStep.id) := by
  cases h with
  | hookSkipped => simp
  | hookExecuted _ _ hd hb =>
    intro b hmem
    rw [List.mem_singleton.mp hmem, hb]
    exact u.hook_belongsTo (hc ▸ hd) _
  | undefined => simp
  | ambiguous => simp
  | stepSkipped => simp
  | @stepExecuted testStep pickleStep id bodies _ _ _ _ hbodies =>
    cases hbodies with
    | hooksOnly hbefore hafter =>
      intro b hb
      rcases List.mem_append.mp hb with hb | hb
      · exact u.stepHooks_belongsTo hc hbefore b hb
      · exact u.stepHooks_belongsTo hc hafter b hb
    | @withDefinition before after id ids d args lists hbefore hafter _ _ _ hd =>
      intro b hb
      rcases List.mem_append.mp hb with hb | hb
      · exact u.stepHooks_belongsTo hc hbefore b hb
      rcases List.mem_cons.mp hb with rfl | hb
      · exact u.step_belongsTo (hc ▸ hd) (TestCaseRunner.stepArgs pickleStep
          (c.nextSite attempt state) ⟨startedId, testStep.id⟩ args) rfl
      · exact u.stepHooks_belongsTo hc hafter b hb

end

section

variable {w : Worker} (hw : w.supportCodeLibrary = u.supportCodeLibrary)

include hw

theorem scoped_hooksRule {site : CallSite} {ids : List String} {hs : List HookRun}
    {r : Except Fault (List TestStepResult)} (h : w.HooksRule site ids hs r) :
    attribution.Scoped w.options.HooksReturn (broadcasts (hs.flatMap HookRun.log)) := by
  refine scoped_flatMap_log fun h' hh' => ?_
  obtain ⟨id,_,hrule⟩ := h.mem hh'
  refine scoped_hookRun ?_ fun hreturn => ⟨_, hrule.outcome_eq hreturn⟩
  cases hrule with
  | dry => simp
  | executed hd _ hb =>
    intro b hmem
    rw [List.mem_singleton.mp hmem, hb]
    exact u.hook_belongsTo (hw ▸ hd) _
  | aborted hd _ hb =>
    intro b hmem
    rw [List.mem_singleton.mp hmem, hb]
    exact u.hook_belongsTo (hw ▸ hd) _

theorem scoped_caseRule {settled : Prop} {failing : Bool} {cr : CaseRun}
    (h : w.CaseRule failing cr) : attribution.Scoped settled (broadcasts cr.log) := by
  refine scoped_flatMap_log fun a ha => scoped_attemptRun fun s hs => scoped_stepRun ?_
  obtain ⟨_,_,_,hrule⟩ := (h.attempts.stepsRule a ha).threaded.mem hs
  exact u.stepRule_belongsTo (c := w.testCaseRunner cr.assembled cr.skip) hw hrule

theorem scoped_suiteRule {failing : Bool} {s : SuiteRun} (h : w.SuiteRule failing s) :
    attribution.Scoped w.options.HooksReturn (broadcasts s.log) := by
  have hcases : attribution.Scoped w.options.HooksReturn
      (broadcasts (s.cases.flatMap CaseRun.log)) := by
    refine scoped_flatMap_log fun cr hcr => ?_
    obtain ⟨_,hcase⟩ := h.caseRule cr hcr
    exact u.scoped_caseRule hw hcase
  rw [SuiteRun.log, broadcasts_append, broadcasts_append]
  cases h with
  | withoutHooks => exact (Grammar.scoped_nil.append hcases).append Grammar.scoped_nil
  | aborted _ hbefore =>
    exact ((u.scoped_hooksRule hw hbefore).append hcases).append Grammar.scoped_nil
  | withHooks _ hbefore _ hafter =>
    exact ((u.scoped_hooksRule hw hbefore).append hcases).append (u.scoped_hooksRule hw hafter)

theorem scoped_runRule {sourcedPickles : List PickleSource} {report : RunReport}
    (h : w.RunRule sourcedPickles report) :
    attribution.Scoped w.options.HooksReturn (broadcasts report.log) := by
  have hsuites : attribution.Scoped w.options.HooksReturn
      (broadcasts (report.suites.flatMap SuiteRun.log)) := by
    refine scoped_flatMap_log fun s hs => ?_
    obtain ⟨_,hsuite⟩ := h.suiteRule hs
    exact u.scoped_suiteRule hw hsuite
  have hannounced : attribution.Scoped w.options.HooksReturn
      (broadcasts (report.announced.flatMap Announcement.log)) := by
    refine scoped_flatMap_log fun a _ => ?_
    rw [broadcasts_announcement]
    exact Grammar.Neutral.scoped ⟨rfl, rfl, rfl⟩
  simp only [RunReport.log, broadcasts_append]
  cases h with
  | aborted hbefore =>
    exact (((u.scoped_hooksRule hw hbefore).append hannounced).append hsuites).append
      Grammar.scoped_nil
  | failedBefore hbefore _ hafter =>
    exact (((u.scoped_hooksRule hw hbefore).append hannounced).append hsuites).append
      (u.scoped_hooksRule hw hafter)
  | executed hbefore _ _ hafter =>
    exact (((u.scoped_hooksRule hw hbefore).append hannounced).append hsuites).append
      (u.scoped_hooksRule hw hafter)

end

theorem emits_serialRuntimeAdapter (options : RuntimeOptions) (testRunStartedId : String)
    (sourcedPickles : List PickleSource) :
    Emits (SerialRuntimeAdapter.run testRunStartedId sourcedPickles options
        u.supportCodeLibrary : Run idGenerator Bool)
      fun _ s => attribution.Scoped options.HooksReturn (broadcasts s) := by
  by_cases hoptions : options.Accepted
  · apply (SerialRuntimeAdapter.emits_run hoptions _ _ _).mono
    rintro _ _ ⟨report,hrule,_,rfl⟩
    exact u.scoped_runRule rfl hrule
  · -- no worker is constructed then, and nothing is broadcast
    cases hmake : Worker.make testRunStartedId options u.supportCodeLibrary with
    | ok w => exact absurd (RuntimeOptions.accepted_of_make hmake).1 hoptions
    | error e =>
      unfold SerialRuntimeAdapter.run
      rw [hmake]
      exact emits_throw Grammar.scoped_nil

theorem emits_makeRuntimeAndRun (options : RuntimeOptions) (sourcedPickles : List PickleSource) :
    Emits (makeRuntimeAndRun options sourcedPickles u.supportCodeLibrary : Run idGenerator Bool)
      fun _ s => attribution.Scoped options.HooksReturn (broadcasts s) := by
  have hcons {e : Envelope} {es : List Envelope} (he : attribution.Neutral e)
      (hes : attribution.Scoped options.HooksReturn es) :
      attribution.Scoped options.HooksReturn (e :: es) := he.scoped.append hes
  unfold makeRuntimeAndRun Coordinator.run
  apply emits_nextId_bind
  intro testRunStartedId
  apply emits_broadcastEvent_bind
  apply (u.emits_serialRuntimeAdapter options testRunStartedId sourcedPickles).bind
  · intro success s hscoped
    apply emits_broadcastEvent_bind
    apply emits_pure
    simp only [broadcasts_drew, broadcasts_broadcast, broadcasts_append, broadcasts_nil]
    exact hcons ⟨rfl, rfl, rfl⟩ (hscoped.append (hcons ⟨rfl, rfl, rfl⟩ Grammar.scoped_nil))
  · intro e s hscoped
    exact hcons ⟨rfl, rfl, rfl⟩ hscoped

/-- In every run each attachment carries the ids of the innermost event that is open when it is
broadcast, and no others. Besides that event only hooks are open then that never finish, and
there are none unless `failGlobalHookFast` cuts them off. -/
theorem attachments_attributed (options : RuntimeOptions) (sourcedPickles : List PickleSource)
    (world : World idGenerator Event) :
    ∃ seg, (run (makeRuntimeAndRun options sourcedPickles u.supportCodeLibrary) world).2.log =
        world.log ++ seg ∧
      (∀ before a after, broadcasts seg = before ++ .attachment a :: after →
        ∃ b rest, openEvents before = b :: rest ∧ a.BelongsTo b ∧
          rest <:+ openEvents (broadcasts seg)) ∧
      (options.HooksReturn → openEvents (broadcasts seg) = []) := by
  obtain ⟨seg,hlog,hscoped⟩ := u.emits_makeRuntimeAndRun options sourcedPickles world
  obtain ⟨hattributed,hsettled⟩ := hscoped.attributed
  exact ⟨seg, hlog, fun before a after heq => hattributed before _ after heq rfl, hsettled⟩

end UserCodeLibrary

/-- A hook that logs, and a step that attaches a text and calls a step that links. -/
def loggingHook : HookDefinition where
  data :=
    { id := "h", type := .beforeAll, expression := none, name := none, sourceLocation := ("",0) }
  tagExpression := fun _ => true
  factory := fun args =>
    { Outcome.passed with
      attachments := [(ExecutionContext.mk args.stepOrHookStarted).log "started"] }

def linkingStep : StepDefinition where
  id := "inner"
  regex := fun text => if text = "inner" then some [] else none
  factory := fun args =>
    { Outcome.passed with
      attachments :=
        [(ExecutionContext.mk args.stepOrHookStarted).link "https://example" none] }

def attachingStep : StepDefinition where
  id := "outer"
  regex := fun text => if text = "outer" then some [] else none
  factory := fun args =>
    { Outcome.passed with
      attachments :=
        [(ExecutionContext.mk args.stepOrHookStarted).attach "text" (.mediaType "text/plain"),
          (ExecutionContext.mk args.stepOrHookStarted).link "https://example" none] }

/-- They do no more than that. -/
def loggingCode : UserCodeLibrary where
  supportCodeLibrary := .ofDefinitions [loggingHook] [linkingStep, attachingStep]
  toBase64 := fun data => data
  hookCode := fun _ _ => .context (.log "started") (.finish { status := .passed })
  stepCode := fun d _ =>
    if d.id = "inner" then .context (.link "https://example" none) (.finish { status := .passed })
    else
      .context (.attach "text" (.mediaType "text/plain"))
        (.step "inner" none none fun _ => .finish { status := .passed })
  hook := by
    intro id d hd args
    obtain rfl := List.mem_singleton.mp (SupportCodeLibrary.mem_hooks_of_getDefinitionById hd)
    exact .context .finish
  step := by
    rintro id d hd ⟨site,_,dataTable,docString,args⟩ started rfl
    rcases List.mem_cons.mp (SupportCodeLibrary.mem_steps_of_getDefinitionById hd) with rfl | hd
    · exact .context .finish
    · obtain rfl := List.mem_singleton.mp hd
      refine .context ?_
      change Executes _ _ _ _ _
        ([(ExecutionContext.mk (.step started)).link "https://example" none] ++ []) _
      exact .nested rfl rfl rfl (.context .finish) .finish

example : (broadcasts (run (makeRuntimeAndRun {}
    [⟨{ id := "p", name := "logging", steps := [{ id := "s", text := "outer" }] },
      { uri := "a.feature" }⟩] loggingCode.supportCodeLibrary)
    (World.start decimalIds Event)).2.log).filterMap (fun
      | .attachment a => some (a.body,a.testCaseStartedId,a.testStepId,a.testRunHookStartedId)
      | _ => none) =
    [("started",none,none,some "1"), ("text",some "4",some "3",none),
      ("https://example",some "4",some "3",none)] := by
  decide

end CucumberCpp
