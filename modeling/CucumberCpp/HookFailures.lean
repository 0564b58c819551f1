import CucumberCpp.EventStream
import CucumberCpp.FeatureHooks

/-! What a hook outside the test cases leaves behind when it does not pass and
`failGlobalHookFast` makes it end the run or the suite. -/
namespace CucumberCpp

open EventLog Grouping

variable {idGenerator : IdGenerator}

/-- The hooks that are executed outside the test cases. -/
def HookType.isGlobal : HookType → Bool
  | .beforeAll | .afterAll | .beforeFeature | .afterFeature => true
  | .before | .after | .beforeStep | .afterStep => false

/-- A body executed for a scenario: a step definition, or a hook around the
scenario or one of its steps. -/
def Invocation.ofScenario : Invocation → Bool
  | .hook data _ => !data.type.isGlobal
  | .step _ _ => true

/-- A hook that ends what it runs around unless it passes. -/
structure HookRun.Fatal (hookType : HookType) (h : HookRun) : Prop where
  body : ∃ b data args, h.bodies = [b] ∧ b.call = .hook data args ∧ data.type = hookType ∧
    args.stepOrHookStarted = .hook ⟨h.started.id⟩ ∧
    ((b.result.status = .passed ∧ h.outcome = .ok b.result) ∨
      (b.result.status ≠ .passed ∧ ∃ e, h.outcome = .error e))

namespace Worker

variable {w : Worker}

theorem HookRule.fatal (hdry : w.options.dryRun = false)
    (hfast : w.options.failGlobalHookFast = true) {hookType : HookType} {tags : Finset String}
    {site : CallSite} {id : String} {h : HookRun} (hrule : w.HookRule site id h)
    (hid : id ∈ w.supportCodeLibrary.hookRegistry.findIds hookType tags) :
    HookRun.Fatal hookType h := by
  obtain ⟨d',hd',_,htype,_⟩ := HookRegistry.getDefinitionById_of_mem hid
  cases hrule with
  | dry hd hdry' => cases hdry.symm.trans hdry'
  | @executed d startedId b hd _ hb hgo =>
    obtain rfl : d = d' := Except.ok.inj (hd.symm.trans hd')
    have hpassed := hgo.resolve_right (by simp [hfast])
    exact ⟨b, d.data, _, rfl, by rw [hb]; rfl, htype, rfl, .inl ⟨hpassed, rfl⟩⟩
  | @aborted d startedId b hd _ hb hstatus _ =>
    obtain rfl : d = d' := Except.ok.inj (hd.symm.trans hd')
    exact ⟨b, d.data, _, rfl, by rw [hb]; rfl, htype, rfl, .inr ⟨hstatus, _, rfl⟩⟩

theorem HooksRule.fatal (hdry : w.options.dryRun = false)
    (hfast : w.options.failGlobalHookFast = true) {hookType : HookType} {tags : Finset String}
    {site : CallSite} {ids : List String} {hs : List HookRun}
    {r : Except Fault (List TestStepResult)} (h : w.HooksRule site ids hs r)
    (hids : ∀ id ∈ ids, id ∈ w.supportCodeLibrary.hookRegistry.findIds hookType tags) :
    ∀ h' ∈ hs, HookRun.Fatal hookType h' := by
  intro h' hh'
  obtain ⟨id,hid,hrule⟩ := h.mem hh'
  exact hrule.fatal hdry hfast (hids id hid)

/-- Hooks that all got to return have all passed. -/
theorem HooksRule.not_failing (hdry : w.options.dryRun = false)
    (hfast : w.options.failGlobalHookFast = true) {site : CallSite} {ids : List String}
    {hs : List HookRun} {results : List TestStepResult}
    (h : w.HooksRule site ids hs (.ok results)) : w.hooksFailing results = false := by
  have hpassed : ∀ r ∈ results, r.status = .passed := by
    obtain ⟨hall,rfl⟩ := h.returned
    intro r hr
    obtain ⟨h',hh',rfl⟩ := List.mem_map.mp hr
    obtain ⟨_,_,hrule⟩ := exists_left_of_forall₂ hall hh'
    cases hrule with
    | dry hd hdry' => cases hdry.symm.trans hdry'
    | executed hd _ hb hgo => exact hgo.resolve_right (by simp [hfast])
    | aborted => exact absurd ⟨_, hh', _, rfl⟩ h.not_aborted
  have hknown : ∀ r ∈ results, r.status ≠ .unknown := fun r hr => by
    rw [hpassed r hr]
    simp
  have hworst := (getWorstTestStepResult_passed_iff hknown).mpr hpassed
  simp [hooksFailing, isFailing, hdry, hworst]

/-- Whether one of the hooks ends what they run around can be told from what they report. -/
theorem HooksRule.aborted_iff (hindep : w.supportCodeLibrary.Independent)
    (hdry : w.options.dryRun = false) (hfast : w.options.failGlobalHookFast = true)
    {site : CallSite} {ids : List String} {hs : List HookRun}
    {r : Except Fault (List TestStepResult)} (h : w.HooksRule site ids hs r) :
    (∃ h' ∈ hs, h'.Aborted) ↔ ∃ id ∈ ids, ∃ status,
      w.supportCodeLibrary.HookReports site id status ∧ status ≠ .passed := by
  have hreports {id : String} {d : HookDefinition} {started : TestRunHookStarted}
      (hd : w.supportCodeLibrary.hookRegistry.getDefinitionById id = .ok d) :
      (∃ status, w.supportCodeLibrary.HookReports site id status ∧ status ≠ .passed) ↔
        (BodyRun.ofHook d (globalHookArgs site started)).result.status ≠ .passed := by
    simp only [hookReports_iff hindep hd site started, exists_eq_left']
  unfold HooksRule at h
  induction h with
  | nil => simp
  | @cons id ids h hs result r round value rest ih =>
    have hhead : ¬∃ status, w.supportCodeLibrary.HookReports site id status ∧
        status ≠ .passed := by
      cases round with
      | dry hd hdry' => cases hdry.symm.trans hdry'
      | executed hd _ hb hgo =>
        rw [hreports hd, not_not, ← hb]
        exact hgo.resolve_right (by simp [hfast])
      | aborted => cases value
    have hvalue : ¬h.Aborted := by
      simp [HookRun.Aborted, value]
    rw [List.exists_mem_cons_iff, List.exists_mem_cons_iff]
    simp only [hhead, hvalue, false_or]
    exact ih
  | @abort id ids h e round fault =>
    have hhead : ∃ status, w.supportCodeLibrary.HookReports site id status ∧
        status ≠ .passed := by
      cases round with
      | dry => cases fault
      | executed => cases fault
      | aborted hd _ hb hstatus _ =>
        rw [hb] at hstatus
        exact (hreports hd).mpr hstatus
    refine iff_of_true ⟨h, List.mem_singleton_self h, e, fault⟩ ⟨id, List.mem_cons_self, hhead⟩

theorem SuiteRule.hooks_fatal (hdry : w.options.dryRun = false)
    (hfast : w.options.failGlobalHookFast = true) {failing : Bool} {s : SuiteRun}
    (h : w.SuiteRule failing s) : (∀ h' ∈ s.before, HookRun.Fatal .beforeFeature h') ∧
      ∀ h' ∈ s.after, HookRun.Fatal .afterFeature h' := by
  cases h with
  | withoutHooks hoff hcases => exact ⟨by simp, by simp⟩
  | aborted hon hbefore => exact ⟨hbefore.fatal hdry hfast fun _ hid => hid, by simp⟩
  | withHooks hon hbefore hcases hafter =>
    exact ⟨hbefore.fatal hdry hfast fun _ hid => hid, hafter.fatal hdry hfast fun _ hid => hid⟩

theorem RunRule.hooks_fatal {sourcedPickles : List PickleSource} {report : RunReport}
    (hrule : w.RunRule sourcedPickles report) (hdry : w.options.dryRun = false)
    (hfast : w.options.failGlobalHookFast = true) :
    ∀ h ∈ report.hooks, ∃ hookType, hookType.isGlobal = true ∧ HookRun.Fatal hookType h := by
  have hbeforeAll {hs : List HookRun} {r : Except Fault (List TestStepResult)}
      (h : w.HooksRule .testRun w.beforeAllIds hs r) : ∀ h' ∈ hs, HookRun.Fatal .beforeAll h' :=
    h.fatal hdry hfast fun _ hid => hid
  have hafterAll {hs : List HookRun} {r : Except Fault (List TestStepResult)}
      (h : w.HooksRule .testRun w.afterAllIds.reverse hs r) :
      ∀ h' ∈ hs, HookRun.Fatal .afterAll h' :=
    h.fatal hdry hfast fun _ hid => List.mem_reverse.mp hid
  intro h hh
  simp only [RunReport.hooks, List.mem_append, List.mem_flatMap] at hh
  cases hrule with
  | aborted hbefore =>
    exact ⟨_, rfl, hbeforeAll hbefore h (by simpa using hh)⟩
  | failedBefore hbefore hfailing hafter =>
    cases (hbefore.not_failing hdry hfast).symm.trans hfailing
  | executed hbefore hfailing hsuites hafter =>
    rcases hh with (hh | ⟨s,hs,hh⟩) | hh
    · exact ⟨_, rfl, hbeforeAll hbefore h hh⟩
    · obtain ⟨_,_,_,hs'⟩ := hsuites.threaded.mem hs
      obtain ⟨hbefore',hafter'⟩ := hs'.hooks_fatal hdry hfast
      rcases hh with hh | hh
      · exact ⟨_, rfl, hbefore' h hh⟩
      · exact ⟨_, rfl, hafter' h hh⟩
    · exact ⟨_, rfl, hafterAll hafter h hh⟩

end Worker

section Events

theorem mem_events_hookRun {h : HookRun} {b : BodyRun} (hb : h.bodies = [b]) (e : Event) :
    e ∈ events h.log ↔ e = .broadcast (.testRunHookStarted h.started) ∨
      e = .invoked b.call b.outcome.result ∨
      (∃ a ∈ b.outcome.attachments, e = .broadcast (.attachment a)) ∨
      ∃ result, h.outcome = .ok result ∧
        e = .broadcast (.testRunHookFinished ⟨h.started.id, result⟩) := by
  have hfinished : e ∈ events h.finishedLog ↔ ∃ result, h.outcome = .ok result ∧
      e = .broadcast (.testRunHookFinished ⟨h.started.id, result⟩) := by
    unfold HookRun.finishedLog
    cases h.outcome <;> simp
  simp only [HookRun.log, hb, List.flatMap_singleton, events_cons_drew, events_cons_said,
    events_append, BodyRun.events_log, List.mem_cons, List.mem_append, List.mem_map, hfinished,
    or_assoc, eq_comm (a := e)]

/-- What is logged in a run comes from its hooks, its announcements and its test cases. -/
theorem mem_events_runReport (r : RunReport) (e : Event) : e ∈ events r.log ↔
    (∃ h ∈ r.hooks, e ∈ events h.log) ∨
      (∃ a ∈ r.announced, e = .broadcast (.testCase a.testCase)) ∨
      ∃ cr ∈ r.cases, e ∈ events cr.log := by
  have hflat {β : Type} (f : SuiteRun → List β) (P : β → Prop) :
      (∃ x, (∃ s ∈ r.suites, x ∈ f s) ∧ P x) ↔ ∃ s ∈ r.suites, ∃ x ∈ f s, P x := by
    constructor
    · intro h
      obtain ⟨x,⟨s,hs,hx⟩,hP⟩ := h
      exact ⟨s, hs, x, hx, hP⟩
    · intro h
      obtain ⟨s,hs,x,hx,hP⟩ := h
      exact ⟨x, ⟨s, hs, hx⟩, hP⟩
  simp only [RunReport.log, SuiteRun.log, RunReport.hooks, RunReport.cases, events_append,
    events_flatMap, Announcement.events_log, List.mem_append, List.mem_flatMap,
    List.mem_singleton, or_and_right, and_or_left, exists_or, hflat]
  grind

/-- An event of a hook outside the test cases. -/
def Event.ofGlobalHook : Event → Bool
  | .invoked call _ => !call.ofScenario
  | .broadcast (.testRunHookStarted _) => true
  | .broadcast (.testRunHookFinished _) => true
  | .broadcast _ => false

/-- Test cases log no events of such hooks if they execute no such hooks. -/
theorem not_ofGlobalHook_of_mem_caseRun {cr : CaseRun} (hbodies : ∀ a ∈ cr.attempts,
    ∀ s ∈ a.steps, ∀ b ∈ s.bodies, b.call.ofScenario = true) {e : Event}
    (he : e ∈ events cr.log) : e.ofGlobalHook = false := by
  rw [CaseRun.log, events_flatMap, List.mem_flatMap] at he
  obtain ⟨a,ha,he⟩ := he
  simp only [AttemptRun.log, events_cons_drew, events_cons_said, events_append, events_flatMap,
    List.mem_cons, List.mem_append, List.mem_flatMap, events_nil, List.not_mem_nil, or_false] at he
  rcases he with rfl | ⟨s,hs,he⟩ | rfl
  · rfl
  · have hsuggestion : ∀ e ∈ events s.suggestionLog, e.ofGlobalHook = false := by
      unfold StepRun.suggestionLog
      cases s.suggestion <;> simp [Event.ofGlobalHook]
    simp only [StepRun.log, events_cons_said, events_append, events_flatMap, List.mem_cons,
      List.mem_append, List.mem_flatMap, events_nil, List.not_mem_nil, or_false] at he
    rcases he with rfl | (he | ⟨b,hb,he⟩) | rfl
    · rfl
    · exact hsuggestion e he
    · rw [b.events_log, List.mem_cons, List.mem_map] at he
      rcases he with rfl | ⟨_,_,rfl⟩
      · simp [Event.ofGlobalHook, hbodies a ha s hs b hb]
      · rfl
    · rfl
  · rfl

end Events

namespace TestCaseRunner

variable {c : TestCaseRunner} {attempt : UInt64} {startedId : String}

theorem StepHooksRule.ofScenario {hookType : HookType} (htype : hookType.isGlobal = false)
    {site : CallSite} {started : TestStepStarted} {bs : List BodyRun}
    (h : c.StepHooksRule hookType site started bs) : ∀ b ∈ bs, b.call.ofScenario = true := by
  intro b hb
  obtain ⟨id,hid,d,hd,rfl⟩ := exists_left_of_forall₂ h hb
  obtain ⟨d',hd',_,htype',_⟩ := HookRegistry.getDefinitionById_of_mem hid
  obtain rfl : d = d' := Except.ok.inj (hd.symm.trans hd')
  simp [BodyRun.ofHook, Invocation.ofScenario, htype', htype]

theorem StepBodies.ofScenario {pickleStep : PickleStep} {testStep : TestStep} {site : CallSite}
    {started : TestStepStarted} {bs : List BodyRun}
    (h : c.StepBodies pickleStep testStep site started bs) :
    ∀ b ∈ bs, b.call.ofScenario = true := by
  intro b hb
  cases h with
  | hooksOnly hbefore hafter hfailed =>
    rcases List.mem_append.mp hb with hb | hb
    · exact hbefore.ofScenario rfl b hb
    · exact hafter.ofScenario rfl b hb
  | withDefinition hbefore hafter hfailed hids hlists hd =>
    rw [List.mem_append, List.mem_cons] at hb
    rcases hb with hb | rfl | hb
    · exact hbefore.ofScenario rfl b hb
    · rfl
    · exact hafter.ofScenario rfl b hb

theorem StepRule.ofScenario {state : AttemptState} {s : StepRun}
    (h : c.StepRule attempt startedId state s) (hhook : ∀ id, s.testStep.hookId = some id →
      ∃ hookType tags, hookType.isGlobal = false ∧
        id ∈ c.supportCodeLibrary.hookRegistry.findIds hookType tags) :
    ∀ b ∈ s.bodies, b.call.ofScenario = true := by
  intro b hb
  cases h with
  | @hookExecuted testStep id d hid hskip hd b' hb' =>
    obtain ⟨hookType,tags,hglobal,hmem⟩ := hhook id hid
    obtain ⟨d',hd',_,htype,_⟩ := HookRegistry.getDefinitionById_of_mem hmem
    obtain rfl : d = d' := Except.ok.inj (hd.symm.trans hd')
    rw [List.mem_singleton.mp hb, hb']
    simp [BodyRun.ofHook, Invocation.ofScenario, htype, hglobal]
  | stepExecuted _ _ _ _ hbodies => exact hbodies.ofScenario b hb
  | hookSkipped => cases hb
  | undefined => cases hb
  | ambiguous => cases hb
  | stepSkipped => cases hb

end TestCaseRunner

namespace Worker

variable {w : Worker} {sourcedPickles : List PickleSource} {announced : List Announcement}
  {suites : List SuiteRun} {report : RunReport}

/-- The attempts at a test case, with the hooks and the steps of its pickle told apart. -/
theorem CaseRule.assembledSteps {failing : Bool} {cr : CaseRun} (h : w.CaseRule failing cr)
    {testRunStartedId : String} {an : Announcement}
    (hrule : AnnouncementRule w.supportCodeLibrary testRunStartedId an)
    (han : an.assembled = cr.assembled) : ∀ a ∈ cr.attempts,
      (w.testCaseRunner cr.assembled cr.skip).StepsRule a.attempt a.id a.steps ∧
      ∃ before steps after, a.steps = before ++ steps ++ after ∧
        TestCaseRunner.AssembledSteps (w.testCaseRunner cr.assembled cr.skip)
          before steps after := by
  intro a ha
  have hsteps := h.attempts.stepsRule a ha
  exact ⟨hsteps, TestCaseRunner.exists_assembledSteps_of_announcement hrule han hsteps.complete⟩

theorem RunRule.attempt_assembledSteps (h : w.RunRule sourcedPickles report) {cr : CaseRun}
    (hcr : cr ∈ report.cases) {a : AttemptRun} (ha : a ∈ cr.attempts) :
    (w.testCaseRunner cr.assembled cr.skip).StepsRule a.attempt a.id a.steps ∧
      ∃ before steps after, a.steps = before ++ steps ++ after ∧
        TestCaseRunner.AssembledSteps (w.testCaseRunner cr.assembled cr.skip)
          before steps after := by
  obtain ⟨_,hcase⟩ := h.caseRule cr hcr
  obtain ⟨s,hs,hcr'⟩ := List.mem_flatMap.mp hcr
  cases h with
  | aborted hbefore => cases hs
  | failedBefore hbefore hfailing hafter => cases hs
  | executed hbefore hfailing hsuites hafter =>
    obtain ⟨_,_,han,hrule⟩ := hsuites.announcement_of_mem hs hcr'
    exact hcase.assembledSteps hrule han a ha

/-- What a test case executes belongs to its scenario. -/
theorem SuitesRule.ofScenario (h : w.SuitesRule sourcedPickles announced suites) {s : SuiteRun}
    (hs : s ∈ suites) {cr : CaseRun} (hcr : cr ∈ s.cases) :
    ∀ a ∈ cr.attempts, ∀ t ∈ a.steps, ∀ b ∈ t.bodies, b.call.ofScenario = true := by
  intro a ha t ht
  obtain ⟨_,_,_,hsuite⟩ := h.threaded.mem hs
  obtain ⟨_,hcase⟩ := hsuite.caseRule cr hcr
  obtain ⟨an,_,han,hrule⟩ := h.announcement_of_mem hs hcr
  obtain ⟨hsteps,before,steps,after,hparts,hassembled⟩ := hcase.assembledSteps hrule han a ha
  obtain ⟨_,_,_,hstep⟩ := hsteps.threaded.mem ht
  apply hstep.ofScenario
  intro id hid
  rw [hparts, List.mem_append, List.mem_append] at ht
  rcases ht with (ht | ht) | ht
  · obtain ⟨hookId,hmem,hid'⟩ := exists_left_of_forall₂ hassembled.before ht
    obtain rfl := Option.some_inj.mp (hid.symm.trans hid')
    exact ⟨_, _, rfl, hmem⟩
  · have hpickle := hassembled.isPickleStep_of_step ht
    simp [StepRun.isPickleStep, hid] at hpickle
  · obtain ⟨hookId,hmem,hid'⟩ := exists_left_of_forall₂ hassembled.after ht
    obtain rfl := Option.some_inj.mp (hid.symm.trans hid')
    exact ⟨_, _, rfl, List.mem_reverse.mp hmem⟩

theorem RunRule.not_ofGlobalHook (h : w.RunRule sourcedPickles report) {cr : CaseRun}
    (hcr : cr ∈ report.cases) {e : Event} (he : e ∈ events cr.log) : e.ofGlobalHook = false := by
  obtain ⟨s,hs,hmem⟩ := List.mem_flatMap.mp hcr
  cases h with
  | aborted hbefore => cases hs
  | failedBefore hbefore hfailing hafter => cases hs
  | executed hbefore hfailing hsuites hafter =>
    exact not_ofGlobalHook_of_mem_caseRun (hsuites.ofScenario hs hmem) he

end Worker

/-- A hook outside the test cases was executed and did not pass. -/
def Event.HookNotPassed : Event → Prop
  | .invoked (.hook data _) result => data.type.isGlobal = true ∧ result.status ≠ .passed
  | _ => False

theorem Event.HookNotPassed.ofGlobalHook {e : Event} (h : e.HookNotPassed) :
    e.ofGlobalHook = true := by
  cases e with
  | invoked call result =>
    cases call with
    | hook data args => simp [Event.ofGlobalHook, Invocation.ofScenario, h.1]
    | step id args => exact h.elim
  | broadcast envelope => exact h.elim

/-- Every hook that was started outside the test cases has finished with the
result of its body, and every run that was started has finished as a failure. -/
structure StreamClosed (es : List Event) : Prop where
  hook : ∀ pre started post, es = pre ++ .broadcast (.testRunHookStarted started) :: post →
    ∃ result, .broadcast (.testRunHookFinished ⟨started.id, result⟩) ∈ post ∧
      ∀ data args bodyResult, .invoked (.hook data args) bodyResult ∈ post →
        args.stepOrHookStarted = .hook ⟨started.id⟩ → result = transformTestStepResult bodyResult
  testRun : ∀ pre started post, es = pre ++ .broadcast (.testRunStarted started) :: post →
    .broadcast (.testRunFinished ⟨false, started.id⟩) ∈ post

def ClosedAfterHookFailure (es : List Event) : Prop :=
  (∃ e ∈ es, e.HookNotPassed) → StreamClosed es

theorem runReport_hookIds_sublist (r : RunReport) :
    (r.hooks.map fun h => h.started.id).Sublist (drawn r.log) := by
  have hsuites : ((r.suites.flatMap fun s => s.before ++ s.after).map
      fun h => h.started.id).Sublist (drawn (r.suites.flatMap SuiteRun.log)) := by
    rw [List.map_flatMap]
    apply sublist_drawn_flatMap
    intro s
    simp only [SuiteRun.log, drawn_append, drawn_hookRuns, List.map_append]
    exact (List.sublist_append_left _ _).append (.refl _)
  simp only [RunReport.hooks, RunReport.log, drawn_append, drawn_hookRuns, List.map_append]
  exact ((List.sublist_append_left _ _).append hsuites).append (.refl _)

theorem status_passed_iff (b : BodyRun) :
    b.result.status = .passed ↔ b.outcome.result.status = .passed :=
  transformTestStepResultStatus_injective.eq_iff (b := .passed)

namespace Worker

variable {w : Worker} {sourcedPickles : List PickleSource} {report : RunReport}

/-- Only hooks that end something show in the log as not passing. -/
theorem RunRule.hookNotPassed_iff (h : w.RunRule sourcedPickles report)
    (hdry : w.options.dryRun = false) (hfast : w.options.failGlobalHookFast = true) :
    (∃ e ∈ events report.log, e.HookNotPassed) ↔ ∃ h' ∈ report.hooks, h'.Aborted := by
  constructor
  · intro hfailed
    obtain ⟨e,he,hnot⟩ := hfailed
    rcases (mem_events_runReport report e).mp he with ⟨h',hh',he⟩ | ⟨a,_,rfl⟩ | ⟨cr,hcr,he⟩
    · obtain ⟨_,_,b,data,args,hb,hcall,_,_,hresult⟩ := h.hooks_fatal hdry hfast h' hh'
      refine ⟨h', hh', ?_⟩
      rcases (mem_events_hookRun hb e).mp he with rfl | rfl | ⟨_,_,rfl⟩ | ⟨_,_,rfl⟩
      · exact hnot.elim
      · rcases hresult with ⟨hpassed,_⟩ | ⟨_,haborted⟩
        · rw [hcall] at hnot
          exact absurd ((status_passed_iff b).mp hpassed) hnot.2
        · exact haborted
      · exact hnot.elim
      · exact hnot.elim
    · exact hnot.elim
    · cases (h.not_ofGlobalHook hcr he).symm.trans hnot.ofGlobalHook
  · intro haborted
    obtain ⟨h',hh',e,haborted⟩ := haborted
    obtain ⟨_,hglobal,b,data,args,hb,hcall,rfl,_,hresult⟩ := h.hooks_fatal hdry hfast h' hh'
    have hlogged : Event.invoked b.call b.outcome.result ∈ events h'.log := by
      rw [mem_events_hookRun hb]
      exact .inr (.inl rfl)
    have hnot : b.outcome.result.status ≠ .passed := by
      rcases hresult with ⟨_,hok⟩ | ⟨hnot,_⟩
      · cases hok.symm.trans haborted
      · exact fun hpassed => hnot ((status_passed_iff b).mpr hpassed)
    have hmem := (mem_events_runReport report _).mpr (.inl ⟨h', hh', hlogged⟩)
    rw [hcall] at hmem
    exact ⟨_, hmem, hglobal, hnot⟩

/-- The finish of a hook is never reported by another hook. -/
theorem RunRule.outcome_of_finished (h : w.RunRule sourcedPickles report)
    (hdry : w.options.dryRun = false) (hfast : w.options.failGlobalHookFast = true)
    (hnodup : (drawn report.log).Nodup) {h' : HookRun} (hh' : h' ∈ report.hooks)
    {result : TestStepResult}
    (hfinished : .broadcast (.testRunHookFinished ⟨h'.started.id, result⟩) ∈ events report.log) :
    h'.outcome = .ok result := by
  rcases (mem_events_runReport report _).mp hfinished with ⟨h'',hh'',he⟩ | ⟨a,_,he⟩ | ⟨cr,hcr,he⟩
  · obtain ⟨_,_,b,data,args,hb,_⟩ := h.hooks_fatal hdry hfast h'' hh''
    rcases (mem_events_hookRun hb _).mp he with he | he | ⟨_,_,he⟩ | ⟨result',hok,he⟩
    · cases he
    · cases he
    · cases he
    · simp only [Event.broadcast.injEq, Envelope.testRunHookFinished.injEq,
        TestRunHookFinished.mk.injEq] at he
      obtain ⟨hid,rfl⟩ := he
      have hids := hnodup.sublist (runReport_hookIds_sublist report)
      rw [List.inj_on_of_nodup_map hids hh' hh'' hid]
      exact hok
  · cases he
  · cases h.not_ofGlobalHook hcr he

end Worker

section

variable (supportCodeLibrary : SupportCodeLibrary)

def FeatureHookNotPassed (document : GherkinDocument) : Prop :=
  ∃ id ∈ supportCodeLibrary.hookRegistry.findIds .beforeFeature
        (transformTags document.feature.tags) ++
      supportCodeLibrary.hookRegistry.findIds .afterFeature (transformTags document.feature.tags),
    ∃ status, supportCodeLibrary.HookReports (.testSuite document.uri) id status ∧ status ≠ .passed

/-- A hook around the run or around a feature of the run does not pass. -/
def GlobalHookNotPassed (options : RuntimeOptions) (sourcedPickles : List PickleSource) : Prop :=
  AllHookNotPassed supportCodeLibrary ∨
    (options.featureHooks = true ∧ ∃ source ∈ sourcedPickles, ∃ document,
      documentOf sourcedPickles source.gherkinDocument.uri = some document ∧
        FeatureHookNotPassed supportCodeLibrary document)

end

namespace Worker

variable {w : Worker} {sourcedPickles : List PickleSource} {report : RunReport}

theorem SuiteRule.aborted_iff (hindep : w.supportCodeLibrary.Independent)
    (hdry : w.options.dryRun = false) (hfast : w.options.failGlobalHookFast = true)
    {failing : Bool} {s : SuiteRun} (h : w.SuiteRule failing s) :
    (∃ h' ∈ s.before ++ s.after, h'.Aborted) ↔ w.options.featureHooks = true ∧
      FeatureHookNotPassed w.supportCodeLibrary s.suite.gherkinDocument := by
  simp only [FeatureHookNotPassed, List.mem_append, or_and_right, exists_or]
  cases h with
  | withoutHooks hoff hcases => simp [hoff]
  | aborted hon hbefore =>
    -- the hooks after the suite are not reached, but one before it did not pass
    have hbefore' := (hbefore.aborted_iff hindep hdry hfast).mp hbefore.aborted
    exact iff_of_true (.inl hbefore.aborted) ⟨hon, .inl hbefore'⟩
  | withHooks hon hbefore hcases hafter =>
    rw [hbefore.aborted_iff hindep hdry hfast, hafter.aborted_iff hindep hdry hfast]
    simp only [hon, true_and]
    rfl

theorem SuitesRule.aborted_iff {announced : List Announcement} {suites : List SuiteRun}
    (h : w.SuitesRule sourcedPickles announced suites)
    (hindep : w.supportCodeLibrary.Independent) (hdry : w.options.dryRun = false)
    (hfast : w.options.failGlobalHookFast = true) :
    (∃ s ∈ suites, ∃ h' ∈ s.before ++ s.after, h'.Aborted) ↔
      w.options.featureHooks = true ∧ ∃ source ∈ sourcedPickles, ∃ document,
        documentOf sourcedPickles source.gherkinDocument.uri = some document ∧
          FeatureHookNotPassed w.supportCodeLibrary document := by
  constructor
  · intro haborted
    obtain ⟨s,hs,haborted⟩ := haborted
    obtain ⟨_,_,_,hrule⟩ := h.threaded.mem hs
    obtain ⟨hon,hnot⟩ := (hrule.aborted_iff hindep hdry hfast).mp haborted
    obtain ⟨source,hsource,hdocument⟩ := h.exists_suite hs
    exact ⟨hon, source, hsource, _, hdocument, hnot⟩
  · intro hnotPassed
    obtain ⟨hon,source,hsource,document,hdocument,hnot⟩ := hnotPassed
    obtain ⟨s,hs,hdocument',_⟩ := h.exists_suite_of_source hsource
    obtain rfl := Option.some_inj.mp (hdocument.symm.trans hdocument')
    obtain ⟨_,_,_,hrule⟩ := h.threaded.mem hs
    exact ⟨s, hs, (hrule.aborted_iff hindep hdry hfast).mpr ⟨hon, hnot⟩⟩

/-- Some hook outside the test cases ends something exactly when one of them does not pass. -/
theorem RunRule.aborted_iff (h : w.RunRule sourcedPickles report)
    (hindep : w.supportCodeLibrary.Independent) (hdry : w.options.dryRun = false)
    (hfast : w.options.failGlobalHookFast = true) :
    (∃ h' ∈ report.hooks, h'.Aborted) ↔
      GlobalHookNotPassed w.supportCodeLibrary w.options sourcedPickles := by
  have hall : AllHookNotPassed w.supportCodeLibrary ↔
      (∃ id ∈ w.beforeAllIds, ∃ status,
        w.supportCodeLibrary.HookReports .testRun id status ∧ status ≠ .passed) ∨
      ∃ id ∈ w.afterAllIds.reverse, ∃ status,
        w.supportCodeLibrary.HookReports .testRun id status ∧ status ≠ .passed := by
    simp only [AllHookNotPassed, List.mem_append, or_and_right, exists_or, List.mem_reverse]
    rfl
  cases h with
  | aborted hbefore =>
    have hreports := (hbefore.aborted_iff hindep hdry hfast).mp hbefore.aborted
    obtain ⟨h',hh',he⟩ := hbefore.aborted
    exact iff_of_true ⟨h', by simp [RunReport.hooks, hh'], he⟩ (.inl (hall.mpr (.inl hreports)))
  | failedBefore hbefore hfailing hafter =>
    cases (hbefore.not_failing hdry hfast).symm.trans hfailing
  | @executed beforeAll _ announced suites afterAll _ hbefore hfailing hsuites hafter =>
    have hbeforeAll := hbefore.aborted_iff hindep hdry hfast
    have hafterAll := hafter.aborted_iff hindep hdry hfast
    have hfeatures := hsuites.aborted_iff hindep hdry hfast
    rw [GlobalHookNotPassed, hall, ← hbeforeAll, ← hafterAll, ← hfeatures]
    simp only [RunReport.hooks, List.mem_append, List.mem_flatMap, or_and_right, exists_or]
    grind

end Worker

/-- Around what the report says there are only the messages about the run as a whole. -/
theorem exists_report {options : RuntimeOptions} (hoptions : options.Accepted)
    (testRunStartedId : String) (sourcedPickles : List PickleSource)
    (supportCodeLibrary : SupportCodeLibrary) (world : World idGenerator Event) :
    ∃ seg report tail, (run (Coordinator.run testRunStartedId (SerialRuntimeAdapter.run
        testRunStartedId sourcedPickles options supportCodeLibrary)) world).2.log =
          world.log ++ seg ∧
      Worker.RunRule ⟨testRunStartedId, options, supportCodeLibrary⟩ sourcedPickles report ∧
      (run (Coordinator.run testRunStartedId (SerialRuntimeAdapter.run testRunStartedId
        sourcedPickles options supportCodeLibrary)) world).1 = report.outcome ∧
      seg = .said (.broadcast (.testRunStarted ⟨testRunStartedId⟩)) ::
        (report.log ++ runFinishedLog testRunStartedId report.outcome) ∧
      (drawn report.log).Nodup ∧
      (∀ e ∈ tail, ∃ finished, e = Event.broadcast (.testRunFinished finished)) ∧
      events seg = .broadcast (.testRunStarted ⟨testRunStartedId⟩) ::
        (events report.log ++ tail) := by
  obtain ⟨seg,hlog,report,hrule,hr,hseg⟩ :=
    Coordinator.emits_run hoptions testRunStartedId sourcedPickles supportCodeLibrary world
  have hdrawn := drawn_segment_nodup _ _ _ hlog
  have hsublist : (drawn report.log).Sublist (drawn seg) := by
    subst hseg
    simp
  refine ⟨seg, report, events (runFinishedLog testRunStartedId report.outcome), hlog, hrule, hr,
    hseg, hdrawn.sublist hsublist, ?_, ?_⟩
  · cases report.outcome <;> simp
  · subst hseg
    simp

/-- Under `failGlobalHookFast` the messages of a run are never closed once a hook
outside the test cases has not passed: nothing reports that this hook finished.
Whether there is such a hook can be told without running anything when user code
ignores generated ids. -/
theorem closedAfterHookFailure_iff {options : RuntimeOptions} (hoptions : options.Accepted)
    (hdry : options.dryRun = false) (hfast : options.failGlobalHookFast = true)
    (testRunStartedId : String) (sourcedPickles : List PickleSource)
    (supportCodeLibrary : SupportCodeLibrary) (world : World idGenerator Event) :
    ∃ seg, (run (Coordinator.run testRunStartedId (SerialRuntimeAdapter.run testRunStartedId
        sourcedPickles options supportCodeLibrary)) world).2.log = world.log ++ seg ∧
      (ClosedAfterHookFailure (events seg) ↔ ¬∃ e ∈ events seg, e.HookNotPassed) ∧
      (supportCodeLibrary.Independent → (ClosedAfterHookFailure (events seg) ↔
        ¬GlobalHookNotPassed supportCodeLibrary options sourcedPickles)) := by
  obtain ⟨seg,report,tail,hlog,hrule,_,_,hnodup,htail,hevents⟩ :=
    exists_report hoptions testRunStartedId sourcedPickles supportCodeLibrary world
  have hnotPassed : (∃ e ∈ events seg, e.HookNotPassed) ↔ ∃ h ∈ report.hooks, h.Aborted := by
    rw [← hrule.hookNotPassed_iff hdry hfast, hevents]
    constructor
    · intro h
      obtain ⟨e,he,hnot⟩ := h
      rcases List.mem_cons.mp he with rfl | he
      · exact hnot.elim
      rcases List.mem_append.mp he with he | he
      · exact ⟨e, he, hnot⟩
      · obtain ⟨_,rfl⟩ := htail e he
        exact hnot.elim
    · intro h
      obtain ⟨e,he,hnot⟩ := h
      exact ⟨e, by simp [he], hnot⟩
  have hclosed : ClosedAfterHookFailure (events seg) ↔ ¬∃ e ∈ events seg, e.HookNotPassed := by
    constructor
    · intro hclosed hfailed
      obtain ⟨h,hh,e,haborted⟩ := hnotPassed.mp hfailed
      obtain ⟨_,_,b,_,_,hb,_⟩ := hrule.hooks_fatal hdry hfast h hh
      have hstarted : .broadcast (.testRunHookStarted h.started) ∈ events seg := by
        have hmem := (mem_events_runReport report _).mpr
          (.inl ⟨h, hh, (mem_events_hookRun hb _).mpr (.inl rfl)⟩)
        simp [hevents, hmem]
      -- were the hook finished, it would have returned, but it threw
      obtain ⟨pre,post,hsplit⟩ := List.append_of_mem hstarted
      obtain ⟨result,hfinished,_⟩ := (hclosed hfailed).hook pre _ post hsplit
      have hmem : .broadcast (.testRunHookFinished ⟨h.started.id, result⟩) ∈ events seg := by
        simp [hsplit, hfinished]
      rw [hevents, List.mem_cons, List.mem_append] at hmem
      rcases hmem with hmem | hmem | hmem
      · cases hmem
      · cases (hrule.outcome_of_finished hdry hfast hnodup hh hmem).symm.trans haborted
      · obtain ⟨_,hmem⟩ := htail _ hmem
        cases hmem
    · exact fun hnone hfailed => absurd hfailed hnone
  refine ⟨seg, hlog, hclosed, fun hindep => ?_⟩
  rw [hclosed, hnotPassed, hrule.aborted_iff hindep hdry hfast]

/-- A run over no pickles in which the only hook fails, before everything else. -/
def fatalHookLibrary : SupportCodeLibrary :=
  .ofDefinitions [.constant "1" .beforeAll .failed] []

/-- What that run logs. -/
def fatalHookEvents : List Event :=
  events (run (Coordinator.run "run" (SerialRuntimeAdapter.run "run" []
    { failGlobalHookFast := true } fatalHookLibrary)) (World.start decimalIds Event)).2.log

theorem fatalHookEvents_eq : fatalHookEvents =
    [.broadcast (.testRunStarted ⟨"run"⟩),
      .broadcast (.testRunHookStarted ⟨"0", "run", "1"⟩),
      .invoked (.hook (HookDefinition.constant "1" .beforeAll .failed).data
        (Worker.globalHookArgs .testRun ⟨"0", "run", "1"⟩)) Outcome.failed.result] := rfl

theorem closedAfterHookFailure_iff_fatal : ClosedAfterHookFailure fatalHookEvents ↔
    ¬∃ e ∈ fatalHookEvents, e.HookNotPassed := by
  have hoptions : RuntimeOptions.Accepted { failGlobalHookFast := true } := ⟨by simp, by simp⟩
  obtain ⟨seg,hlog,hclosed,_⟩ := closedAfterHookFailure_iff hoptions rfl rfl "run" []
    fatalHookLibrary (World.start decimalIds Event)
  rw [fatalHookEvents, hlog]
  exact hclosed

/-- Neither the hook nor the run is ever reported as finished. -/
theorem not_closedAfterHookFailure_fatal :
    (∃ e ∈ fatalHookEvents, e.HookNotPassed) ∧
      fatalHookEvents.filterMap Event.envelope? =
        [.testRunStarted ⟨"run"⟩, .testRunHookStarted ⟨"0", "run", "1"⟩] ∧
      ¬ClosedAfterHookFailure fatalHookEvents := by
  have hfailed : ∃ e ∈ fatalHookEvents, e.HookNotPassed := by
    rw [fatalHookEvents_eq]
    have hfails : (Event.invoked (.hook (HookDefinition.constant "1" .beforeAll .failed).data
        (Worker.globalHookArgs .testRun ⟨"0", "run", "1"⟩)) Outcome.failed.result).HookNotPassed :=
      ⟨rfl, fun h => by cases h⟩
    exact ⟨_, by simp, hfails⟩
  have henvelopes : fatalHookEvents.filterMap Event.envelope? =
      [.testRunStarted ⟨"run"⟩, .testRunHookStarted ⟨"0", "run", "1"⟩] := by
    rw [fatalHookEvents_eq]
    rfl
  refine ⟨hfailed, henvelopes, fun hclosed => ?_⟩
  have hfinished := (hclosed hfailed).testRun [] ⟨"run"⟩ _ fatalHookEvents_eq
  simp at hfinished

end CucumberCpp
