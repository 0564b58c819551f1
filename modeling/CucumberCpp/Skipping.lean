import CucumberCpp.AttemptOrder
import CucumberCpp.Attempts

/-! Test cases that are skipped, in a dry run or after a failure under
fail-fast: nothing of them is executed. -/
namespace CucumberCpp

open EventLog

variable {idGenerator : IdGenerator}

def Event.invocation? : Event → Option Invocation
  | .invoked call _ => some call
  | .broadcast _ => none

/-- The factories called while the log was written, in order. -/
def invocations (log : List (Entry String Event)) : List Invocation :=
  (events log).filterMap Event.invocation?

@[simp] theorem invocations_nil : invocations [] = [] := rfl

@[simp] theorem invocations_append (l l' : List (Entry String Event)) :
    invocations (l ++ l') = invocations l ++ invocations l' := by
  simp [invocations]

@[simp] theorem invocations_drew (id : String) (l : List (Entry String Event)) :
    invocations (.drew id :: l) = invocations l := rfl

@[simp] theorem invocations_broadcast (e : Envelope) (l : List (Entry String Event)) :
    invocations (.said (.broadcast e) :: l) = invocations l := rfl

theorem invocations_flatMap_eq_nil {α : Type} {log : α → List (Entry String Event)} {xs : List α}
    (h : ∀ x ∈ xs, invocations (log x) = []) : invocations (xs.flatMap log) = [] := by
  rw [invocations, events_flatMap, List.filterMap_flatMap]
  exact List.flatMap_eq_nil_iff.mpr h

theorem invocations_announcement (a : Announcement) : invocations a.log = [] := by
  rw [invocations, a.events_log]
  rfl

theorem invocations_hookRun {h : HookRun} (hbodies : h.bodies = []) : invocations h.log = [] := by
  have hfinished : invocations h.finishedLog = [] := by
    unfold HookRun.finishedLog
    cases h.outcome <;> rfl
  simp [HookRun.log, hbodies, hfinished]

theorem invocations_flatMap {α : Type} (log : α → List (Entry String Event)) (xs : List α) :
    invocations (xs.flatMap log) = xs.flatMap fun x => invocations (log x) := by
  rw [invocations, events_flatMap]
  exact List.filterMap_flatMap

theorem invocations_bodyRun (b : BodyRun) : invocations b.log = [b.call] := by
  have hattachments : b.outcome.attachments.filterMap
      (Event.invocation? ∘ fun a => .broadcast (.attachment a)) = [] :=
    List.filterMap_eq_nil_iff.mpr fun _ _ => rfl
  rw [invocations, b.events_log, List.filterMap_cons, List.filterMap_map, hattachments]
  rfl

/-- The factories an attempt calls are those of the bodies of its test steps. -/
theorem invocations_attemptRun (a : AttemptRun) (testCaseId : String) :
    invocations (a.log testCaseId) = a.steps.flatMap fun s => s.bodies.map BodyRun.call := by
  have hstep (s : StepRun) : invocations (s.log a.id) = s.bodies.map BodyRun.call := by
    have hsuggestion : invocations s.suggestionLog = [] := by
      unfold StepRun.suggestionLog
      cases s.suggestion <;> rfl
    simp [StepRun.log, hsuggestion, invocations_flatMap, invocations_bodyRun, List.map_eq_flatMap]
  simp [AttemptRun.log, invocations_flatMap, hstep]

theorem invocations_caseRun_eq_nil_iff (cr : CaseRun) :
    invocations cr.log = [] ↔ ∀ a ∈ cr.attempts, ∀ s ∈ a.steps, s.bodies = [] := by
  simp [CaseRun.log, invocations_flatMap, invocations_attemptRun, List.flatMap_eq_nil_iff]

/-- The results of an attempt that depend on nothing but what its steps match. -/
structure SkippedResults (c : TestCaseRunner) (before steps after : List StepRun) : Prop where
  hook : ∀ s ∈ before ++ after, s.result.status = .skipped
  step : List.Forall₂ (fun p s => s.result.status =
    TestCaseRunner.unexecutedStatus (c.supportCodeLibrary.matching p.text).length)
    c.pickle.steps steps

namespace Worker

variable (w : Worker)

/-- A test case that was attempted once, without executing anything. -/
structure SkippedCase (cr : CaseRun) : Prop where
  uninvoked : invocations cr.log = []
  attempt : ∃ a before steps after, cr.attempts = [a] ∧ a.attempt = 0 ∧
    a.steps.map StepRun.testStep = cr.assembled.testCase.testSteps ∧
    a.steps = before ++ steps ++ after ∧
    TestCaseRunner.AssembledSteps (w.testCaseRunner cr.assembled cr.skip) before steps after ∧
    SkippedResults (w.testCaseRunner cr.assembled cr.skip) before steps after

variable {w}

/-- The only attempt at a skipped test case. -/
theorem CaseRule.attempt_of_skip {failing : Bool} {cr : CaseRun} (h : w.CaseRule failing cr)
    (hskip : cr.skip = true) : ∃ a, cr.attempts = [a] ∧ a.attempt = 0 ∧
      (w.testCaseRunner cr.assembled cr.skip).StepsRule a.attempt a.id a.steps := by
  have hmax : (w.testCaseRunner cr.assembled cr.skip).maximumAttempts.toNat = 1 :=
    maximumAttempts_of_skip hskip
  have hshape := h.attempts.shape (by omega) (by simp)
  obtain ⟨init,last,hattempts,_⟩ := hshape.retried
  have hlength : cr.attempts.length = 1 := by
    have hbounded := hshape.bounded
    rw [hattempts, List.length_append, List.length_singleton] at hbounded ⊢
    omega
  obtain ⟨a,ha⟩ := List.length_eq_one_iff.mp hlength
  have hnumbers := hshape.numbers
  rw [ha] at hnumbers
  have hzero : a.attempt.toNat = 0 := by simpa using hnumbers
  exact ⟨a, ha, UInt64.toNat_inj.mp hzero, hshape.rule a (by simp [ha])⟩

theorem CaseRule.skippedCase {failing : Bool} {cr : CaseRun} (h : w.CaseRule failing cr)
    (hskip : cr.skip = true) {testRunStartedId : String} {an : Announcement}
    (hrule : AnnouncementRule w.supportCodeLibrary testRunStartedId an)
    (han : an.assembled = cr.assembled) : w.SkippedCase cr := by
  let c := w.testCaseRunner cr.assembled cr.skip
  obtain ⟨a,ha,hnumber,hsteps⟩ := h.attempt_of_skip hskip
  obtain ⟨before,steps,after,hparts,hassembled⟩ :=
    TestCaseRunner.exists_assembledSteps_of_announcement (c := c) hrule han hsteps.complete
  have hnotPassed := TestCaseRunner.not_passed_of_skip (c := c) hskip hsteps.threaded
  have hstep : ∀ s ∈ a.steps, s.bodies = [] ∧
      (s.isPickleStep = false → s.result.status = .skipped) ∧
      (∀ ids, s.isPickleStep = true → s.testStep.stepDefinitionIds = some ids →
        s.result.status = TestCaseRunner.unexecutedStatus ids.length) := by
    intro s hs
    obtain ⟨pre,post,hpre,hs'⟩ := hsteps.threaded.mem hs
    have hspec := hs'.of_skip (c := c) hskip fun t ht => hnotPassed t (by simp [hpre, ht])
    exact ⟨hspec.1, hspec.2.2⟩
  refine ⟨?_, a, before, steps, after, ha, hnumber, hsteps.complete, hparts, hassembled, ?_, ?_⟩
  · rw [invocations_caseRun_eq_nil_iff, ha]
    intro b hb s hs
    rw [List.mem_singleton.mp hb] at hs
    exact (hstep s hs).1
  · intro s hs
    have hmem : s ∈ a.steps := by
      rw [hparts]
      rcases List.mem_append.mp hs with hs | hs <;> simp [hs]
    apply (hstep s hmem).2.1
    rcases List.mem_append.mp hs with hs | hs
    · exact hassembled.isPickleStep_of_before hs
    · exact hassembled.isPickleStep_of_after hs
  · obtain ⟨hlength,hzip⟩ := List.forall₂_iff_zip.mp hassembled.step
    refine List.forall₂_iff_zip.mpr ⟨hlength, fun {p s} hps => ?_⟩
    have hs := (List.of_mem_zip hps).2
    have htestStep : s.testStep = pickleTestStep w.supportCodeLibrary p s.testStep.id := hzip hps
    have hids := pickleTestStep_stepDefinitionIds w.supportCodeLibrary p s.testStep.id
    rw [← htestStep] at hids
    have hresult := (hstep s (by simp [hparts, hs])).2.2 _ (hassembled.isPickleStep_of_step hs) hids
    rwa [List.length_map] at hresult

section

variable {sourcedPickles : List PickleSource} {announced : List Announcement}
  {suites : List SuiteRun}

theorem HookRule.of_dryRun {site : CallSite} {id : String} {h : HookRun}
    (hrule : w.HookRule site id h) (hdry : w.options.dryRun = true) :
    h.bodies = [] ∧ h.result.status = .skipped := by
  cases hrule with
  | dry hd _ => exact ⟨rfl, rfl⟩
  | executed hd hdry' => cases hdry.symm.trans hdry'
  | aborted hd hdry' => cases hdry.symm.trans hdry'

theorem HooksRule.of_dryRun {site : CallSite} {ids : List String} {hs : List HookRun}
    {r : Except Fault (List TestStepResult)} (h : w.HooksRule site ids hs r)
    (hdry : w.options.dryRun = true) : ∀ h' ∈ hs, h'.bodies = [] ∧ h'.result.status = .skipped := by
  intro h' hh'
  obtain ⟨_,_,hrule⟩ := exists_left_of_forall₂ (h.all (.inl hdry)).1 hh'
  exact hrule.of_dryRun hdry

/-- Every test case of a suite is skipped as long as the run asks for it. -/
theorem SuitesRule.skippedCase (h : w.SuitesRule sourcedPickles announced suites) {s : SuiteRun}
    (hs : s ∈ suites) {failing : Bool} {cr : CaseRun} (hcr : cr ∈ s.cases)
    (hrule : w.CaseRule failing cr) (hskip : w.skipTestCase failing = true) :
    w.SkippedCase cr := by
  obtain ⟨_,_,ha,han⟩ := h.announcement_of_mem hs hcr
  exact hrule.skippedCase (hrule.skip.trans hskip) han ha

theorem SuiteRule.failed_of_dryRun {failing : Bool} {s : SuiteRun} (h : w.SuiteRule failing s)
    (hdry : w.options.dryRun = true) : s.failed = false := by
  have hcases (cases : List CaseRun) : cases.any w.caseFailed = false := by
    simp [caseFailed, isStatusFailed, hdry]
  cases h with
  | withoutHooks hoff hcases' => simp [SuiteRun.failed, hcases]
  | aborted hon hbefore => cases (hbefore.all (.inl hdry)).2
  | withHooks hon hbefore hcases' hafter =>
    simp [SuiteRun.failed, (hafter.all (.inl hdry)).2, Except.map, hcases]

theorem SuiteRule.hooks_of_dryRun {failing : Bool} {s : SuiteRun} (h : w.SuiteRule failing s)
    (hdry : w.options.dryRun = true) :
    ∀ h' ∈ s.before ++ s.after, h'.bodies = [] ∧ h'.result.status = .skipped := by
  intro h' hh'
  rw [List.mem_append] at hh'
  cases h with
  | withoutHooks hoff hcases => rcases hh' with hh' | hh' <;> cases hh'
  | aborted hon hbefore => cases (hbefore.all (.inl hdry)).2
  | withHooks hon hbefore hcases hafter =>
    rcases hh' with hh' | hh'
    · exact hbefore.of_dryRun hdry h' hh'
    · exact hafter.of_dryRun hdry h' hh'

/-- The test cases after a failing one: those of its own suite are skipped, and
so are those of a later suite, unless that suite was ended before them. -/
theorem SuitesRule.skipped_after (h : w.SuitesRule sourcedPickles announced suites)
    (hfast : w.options.failFast = true) {pre post : List SuiteRun} {s : SuiteRun}
    (hsuites : suites = pre ++ s :: post) {cpre cpost : List CaseRun} {cr : CaseRun}
    (hcases : s.cases = cpre ++ cr :: cpost) (hfailed : w.caseFailed cr = true) :
    s.cases.map CaseRun.assembled = s.suite.testCases ∧ (∀ later ∈ cpost, w.SkippedCase later) ∧
      ∀ s' ∈ post, w.EndedBefore s' ∨ (s'.cases.map CaseRun.assembled = s'.suite.testCases ∧
        ∀ later ∈ s'.cases, w.SkippedCase later) := by
  have hskip : w.skipTestCase true = true := by simp [skipTestCase, hfast]
  have hs : s ∈ suites := by simp [hsuites]
  have hrule := h.threaded pre s post hsuites
  have hcr : cr ∈ s.cases := by simp [hcases]
  -- the suite had a test case, so its hooks did not end it before
  obtain ⟨failing,_,hall⟩ : ∃ failing', (_ → failing' = true) ∧
      w.CasesRule failing' s.suite s.cases := by
    rcases hrule.endedBefore_or_casesRule with ⟨_,hnil,_⟩ | hall
    · rw [hnil] at hcr
      cases hcr
    · exact hall
  refine ⟨hall.complete, fun later hlater => ?_, fun s' hs' => ?_⟩
  · obtain ⟨lpre,lpost,rfl⟩ := List.append_of_mem hlater
    -- the flag that the later test cases are started with tells of the failure
    have hlaterRule := hall.threaded (cpre ++ cr :: lpre) later lpost (by simp [hcases])
    simp only [List.any_append, List.any_cons, hfailed, Bool.true_or, Bool.or_true] at hlaterRule
    exact h.skippedCase hs (by simp [hcases]) hlaterRule hskip
  · obtain ⟨spre,spost,rfl⟩ := List.append_of_mem hs'
    have hlaterRule := h.threaded (pre ++ s :: spre) s' spost (by simp [hsuites])
    simp only [List.any_append, List.any_cons, hrule.failed_of_caseFailed hcr hfailed,
      Bool.true_or, Bool.or_true] at hlaterRule
    have hs'mem : s' ∈ suites := by simp [hsuites]
    rcases hlaterRule.endedBefore_or_casesRule with hended | ⟨failing',hfailing,hall'⟩
    · exact .inl hended
    · refine .inr ⟨hall'.complete, fun later hlater => ?_⟩
      obtain ⟨_,_,_,hcase⟩ := hall'.threaded.mem hlater
      rw [hfailing rfl, Bool.or_true] at hcase
      exact h.skippedCase hs'mem hlater hcase hskip

end

end Worker

/-- The hooks executed or skipped outside the test cases. -/
def RunReport.hooks (r : RunReport) : List HookRun :=
  r.beforeAll ++ r.suites.flatMap (fun s => s.before ++ s.after) ++ r.afterAll

theorem invocations_runReport {r : RunReport} (hhooks : ∀ h ∈ r.hooks, h.bodies = [])
    (hcases : ∀ cr ∈ r.cases, invocations cr.log = []) : invocations r.log = [] := by
  have hlog (hs : List HookRun) (hmem : ∀ h ∈ hs, h ∈ r.hooks) :
      invocations (hs.flatMap HookRun.log) = [] :=
    invocations_flatMap_eq_nil fun h hh => invocations_hookRun (hhooks h (hmem h hh))
  have hsuites : invocations (r.suites.flatMap SuiteRun.log) = [] := by
    apply invocations_flatMap_eq_nil
    intro s hs
    have hbefore := hlog s.before fun h hh => by
      simp only [RunReport.hooks, List.mem_append, List.mem_flatMap]
      exact .inl (.inr ⟨s, hs, .inl hh⟩)
    have hafter := hlog s.after fun h hh => by
      simp only [RunReport.hooks, List.mem_append, List.mem_flatMap]
      exact .inl (.inr ⟨s, hs, .inr hh⟩)
    have hcases' : invocations (s.cases.flatMap CaseRun.log) = [] :=
      invocations_flatMap_eq_nil fun cr hcr => hcases cr (List.mem_flatMap.mpr ⟨s, hs, hcr⟩)
    simp [SuiteRun.log, hbefore, hafter, hcases']
  have hannounced : invocations (r.announced.flatMap Announcement.log) = [] :=
    invocations_flatMap_eq_nil fun a _ => invocations_announcement a
  have hbeforeAll := hlog r.beforeAll fun h hh => by simp [RunReport.hooks, hh]
  have hafterAll := hlog r.afterAll fun h hh => by simp [RunReport.hooks, hh]
  simp [RunReport.log, hsuites, hannounced, hbeforeAll, hafterAll]

/-- A dry run succeeds without executing anything. -/
theorem Worker.RunRule.of_dryRun {w : Worker} {sourcedPickles : List PickleSource}
    {report : RunReport} (h : w.RunRule sourcedPickles report) (hdry : w.options.dryRun = true) :
    report.outcome = .ok true ∧ report.announced.map Announcement.source = sourcedPickles ∧
      (∀ h ∈ report.hooks, h.bodies = [] ∧ h.result.status = .skipped) ∧
      ∀ cr ∈ report.cases, w.SkippedCase cr := by
  have hpassing (results : List TestStepResult) : w.hooksFailing results = false := by
    simp [hooksFailing, isFailing, hdry]
  cases h with
  | aborted hbefore => cases (hbefore.all (.inl hdry)).2
  | @failedBefore _ results _ _ hbefore hfailing hafter =>
    cases (hpassing results).symm.trans hfailing
  | @executed _ _ _ suites _ _ hbefore hfailing hsuites hafter =>
    have hrule : ∀ s ∈ suites, ∃ failing, w.SuiteRule failing s := by
      intro s hs
      obtain ⟨_,_,_,hrule⟩ := hsuites.threaded.mem hs
      exact ⟨_, hrule⟩
    have hfailed : suites.any SuiteRun.failed = false := by
      rw [List.any_eq_false]
      intro s hs
      obtain ⟨_,hrule⟩ := hrule s hs
      simp [hrule.failed_of_dryRun hdry]
    refine ⟨?_, hsuites.sources, ?_, ?_⟩
    · rw [(hafter.all (.inl hdry)).2]
      simp [Except.map, hfailed, hpassing]
    · intro h hh
      simp only [RunReport.hooks, List.mem_append, List.mem_flatMap] at hh
      rcases hh with (hh | ⟨s,hs,hh⟩) | hh
      · exact hbefore.of_dryRun hdry h hh
      · obtain ⟨_,hrule⟩ := hrule s hs
        exact hrule.hooks_of_dryRun hdry h (List.mem_append.mpr hh)
      · exact hafter.of_dryRun hdry h hh
    · intro cr hcr
      obtain ⟨s,hs,hcr⟩ := List.mem_flatMap.mp hcr
      obtain ⟨_,hsuite⟩ := hrule s hs
      obtain ⟨_,hcase⟩ := hsuite.caseRule cr hcr
      exact hsuites.skippedCase hs hcr hcase (by simp [skipTestCase, hdry])

/-- A dry run, and under fail-fast whatever comes after a failing test case,
gives every test case one attempt in which no user code is executed; only a
suite that a failing before-feature hook ends has no attempts at all. -/
theorem skipped_test_cases {options : RuntimeOptions} (hoptions : options.Accepted)
    (testRunStartedId : String) (sourcedPickles : List PickleSource)
    (supportCodeLibrary : SupportCodeLibrary) (world : World idGenerator Event) :
    ∃ report : RunReport,
      Worker.RunRule ⟨testRunStartedId, options, supportCodeLibrary⟩ sourcedPickles report ∧
      (run (SerialRuntimeAdapter.run testRunStartedId sourcedPickles options supportCodeLibrary)
        world).1 = report.outcome ∧
      (run (SerialRuntimeAdapter.run testRunStartedId sourcedPickles options supportCodeLibrary)
        world).2.log = world.log ++ report.log ∧
      (options.dryRun = true → report.outcome = .ok true ∧ invocations report.log = [] ∧
        report.announced.map Announcement.source = sourcedPickles ∧
        (report.cases.map CaseRun.assembled).Perm (report.announced.map Announcement.assembled) ∧
        (∀ h ∈ report.hooks, h.result.status = .skipped) ∧
        ∀ cr ∈ report.cases,
          Worker.SkippedCase ⟨testRunStartedId, options, supportCodeLibrary⟩ cr) ∧
      (options.dryRun = false → options.failFast = true → ∀ pre s post cpre cr cpost,
        report.suites = pre ++ s :: post → s.cases = cpre ++ cr :: cpost →
        Worker.caseFailed ⟨testRunStartedId, options, supportCodeLibrary⟩ cr = true →
        s.cases.map CaseRun.assembled = s.suite.testCases ∧
        (∀ later ∈ cpost,
          Worker.SkippedCase ⟨testRunStartedId, options, supportCodeLibrary⟩ later) ∧
        ∀ s' ∈ post, (options.failGlobalHookFast = true ∧
            Worker.EndedBefore ⟨testRunStartedId, options, supportCodeLibrary⟩ s') ∨
          (s'.cases.map CaseRun.assembled = s'.suite.testCases ∧ ∀ later ∈ s'.cases,
            Worker.SkippedCase ⟨testRunStartedId, options, supportCodeLibrary⟩ later)) := by
  let w : Worker := ⟨testRunStartedId, options, supportCodeLibrary⟩
  obtain ⟨seg,hlog,report,hrule,hr,rfl⟩ :=
    SerialRuntimeAdapter.emits_run hoptions testRunStartedId sourcedPickles supportCodeLibrary world
  refine ⟨report, hrule, hr, hlog, fun hdry => ?_, fun hdry hfast => ?_⟩
  · obtain ⟨houtcome,hsources,hhooks,hcases⟩ := hrule.of_dryRun hdry
    have hinvocations := invocations_runReport (fun h hh => (hhooks h hh).1)
      fun cr hcr => (hcases cr hcr).uninvoked
    exact ⟨houtcome, hinvocations, hsources, hrule.cases_perm (.inl hdry),
      fun h hh => (hhooks h hh).2, hcases⟩
  · intro pre s post cpre cr cpost hsuites hcases hfailed
    cases hrule with
    | aborted hbefore => simp at hsuites
    | failedBefore hbefore hfailing hafter => simp at hsuites
    | executed hbefore hfailing hrule hafter =>
      obtain ⟨hcomplete,hsame,hlater⟩ := hrule.skipped_after hfast hsuites hcases hfailed
      refine ⟨hcomplete, hsame, fun s' hs' => ?_⟩
      rcases hlater s' hs' with hended | hskipped
      · -- without the option no hook ends a suite
        left
        refine ⟨?_, hended⟩
        obtain ⟨_,_,e,hhooks⟩ := hended
        by_contra hoff
        cases (hhooks.all (.inr (Bool.eq_false_of_not_eq_true hoff))).2
      · exact .inr hskipped

/-- Two features of one scenario each. The step of both scenarios fails, and so does
a hook before the second feature. -/
def failingFeatures : List PickleSource :=
  [⟨{ id := "p", name := "first", steps := [{ id := "s", text := "a step" }] },
      { uri := "a.feature" }⟩,
    ⟨{ id := "q", name := "second", steps := [{ id := "t", text := "a step" }] },
      { uri := "b.feature", feature := { tags := ["@hooked"] } }⟩]

def failingFeatureLibrary : SupportCodeLibrary :=
  .ofDefinitions
    [{ HookDefinition.constant "h" .beforeFeature .failed with
        tagExpression := fun tags => decide ("@hooked" ∈ tags) }]
    [.constant "d" .failed]

theorem skipped_test_cases_dryRun :
    (run (SerialRuntimeAdapter.run "run" failingFeatures { dryRun := true, featureHooks := true }
      failingFeatureLibrary) (World.start decimalIds Event)).1 = .ok true ∧
    invocations (run (SerialRuntimeAdapter.run "run" failingFeatures
      { dryRun := true, featureHooks := true } failingFeatureLibrary)
      (World.start decimalIds Event)).2.log = [] := by
  have hoptions : RuntimeOptions.Accepted { dryRun := true, featureHooks := true } :=
    ⟨by simp, by simp⟩
  obtain ⟨report,_,hr,hlog,hdry,_⟩ := skipped_test_cases hoptions "run" failingFeatures
    failingFeatureLibrary (World.start decimalIds Event)
  obtain ⟨houtcome,hinvocations,_⟩ := hdry rfl
  refine ⟨hr.trans houtcome, ?_⟩
  rw [hlog]
  simpa [World.start] using hinvocations

/-- The id of the test case that is announced. -/
def Event.announced? : Event → Option String
  | .broadcast (.testCase testCase) => some testCase.id
  | _ => none

/-- The id of the test case of which an attempt starts. -/
def Event.attempted? : Event → Option String
  | .broadcast (.testCaseStarted started) => some started.testCaseId
  | _ => none

def Event.stepStatus? : Event → Option TestStepResultStatus
  | .broadcast (.testStepFinished finished) => some finished.testStepResult.status
  | _ => none

/-- With both options on, the failing hook ends the second feature, so there is
no attempt at its scenario after the first scenario has failed. -/
theorem skipped_test_case_not_attempted :
    (events (run (SerialRuntimeAdapter.run "run" failingFeatures
      { failFast := true, featureHooks := true, failGlobalHookFast := true }
      failingFeatureLibrary) (World.start decimalIds Event)).2.log).filterMap Event.announced? =
        ["0", "2"] ∧
    (events (run (SerialRuntimeAdapter.run "run" failingFeatures
      { failFast := true, featureHooks := true, failGlobalHookFast := true }
      failingFeatureLibrary) (World.start decimalIds Event)).2.log).filterMap Event.attempted? =
        ["0"] ∧
    (events (run (SerialRuntimeAdapter.run "run" failingFeatures
      { failFast := true, featureHooks := true, failGlobalHookFast := true }
      failingFeatureLibrary) (World.start decimalIds Event)).2.log).filterMap Event.stepStatus? =
        [.failed] := by
  decide

end CucumberCpp
