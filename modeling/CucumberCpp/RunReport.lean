import CucumberCpp.AssemblyRefinement
import CucumberCpp.AttemptReport
import CucumberCpp.Worker

/-! What a whole run amounts to: the hooks around it, the announced test cases
and the suites, each with the rule that ties it to what came before. -/
namespace CucumberCpp

open EventLog

/-- A hook executed outside the test cases. -/
structure HookRun where
  started : TestRunHookStarted
  bodies : List BodyRun := []
  outcome : Except Fault TestStepResult

namespace HookRun

/-- The result a hook returns. -/
def result (h : HookRun) : TestStepResult :=
  match h.outcome with
  | .ok result => result
  | .error _ => { status := .skipped }

/-- The hook ended what it ran around. -/
def Aborted (h : HookRun) : Prop := ∃ e, h.outcome = .error e

/-- A hook that ends the run never reports its result. -/
def finishedLog (h : HookRun) : List (Entry String Event) :=
  match h.outcome with
  | .ok result => [.said (.broadcast (.testRunHookFinished ⟨h.started.id, result⟩))]
  | .error _ => []

def log (h : HookRun) : List (Entry String Event) :=
  .drew h.started.id :: .said (.broadcast (.testRunHookStarted h.started)) ::
    (h.bodies.flatMap BodyRun.log ++ h.finishedLog)

end HookRun

/-- A hook outside the test cases draws its started id and nothing else. -/
theorem drawn_hookRuns (hs : List HookRun) :
    drawn (hs.flatMap HookRun.log) = hs.map fun h => h.started.id := by
  have hfinished (h : HookRun) : drawn h.finishedLog = [] := by
    unfold HookRun.finishedLog
    cases h.outcome <;> rfl
  have hlog (h : HookRun) : drawn h.log = [h.started.id] := by
    simp [HookRun.log, hfinished, drawn_flatMap]
  simp only [drawn_flatMap, hlog]
  exact List.map_eq_flatMap.symm

/-- All attempts at one test case. -/
structure CaseRun where
  assembled : AssembledTestCase
  skip : Bool
  attempts : List AttemptRun
  status : TestStepResultStatus

def CaseRun.log (cr : CaseRun) : List (Entry String Event) :=
  cr.attempts.flatMap (AttemptRun.log cr.assembled.testCase.id)

structure SuiteRun where
  suite : AssembledTestSuite
  before : List HookRun := []
  cases : List CaseRun := []
  after : List HookRun := []
  outcome : Except Fault Bool

namespace SuiteRun

def log (s : SuiteRun) : List (Entry String Event) :=
  s.before.flatMap HookRun.log ++ s.cases.flatMap CaseRun.log ++ s.after.flatMap HookRun.log

/-- A suite that did not return counts as failed. -/
def failed (s : SuiteRun) : Bool :=
  match s.outcome with
  | .ok success => !success
  | .error _ => true

end SuiteRun

structure RunReport where
  beforeAll : List HookRun
  announced : List Announcement := []
  suites : List SuiteRun := []
  afterAll : List HookRun := []
  outcome : Except Fault Bool

namespace RunReport

def log (r : RunReport) : List (Entry String Event) :=
  r.beforeAll.flatMap HookRun.log ++ r.announced.flatMap Announcement.log ++
    r.suites.flatMap SuiteRun.log ++ r.afterAll.flatMap HookRun.log

/-- The test cases of the run in the order in which they were executed. -/
def cases (r : RunReport) : List CaseRun := r.suites.flatMap SuiteRun.cases

end RunReport

/-- What the constructors of `Worker` and of `TestCaseRunner` accept. -/
structure RuntimeOptions.Accepted (options : RuntimeOptions) : Prop where
  positive : options.repeats ≠ some 0
  exclusive : options.repeats.isSome → options.retry = 0

/-- No hook outside the test cases can end the run early. -/
def RuntimeOptions.HooksReturn (options : RuntimeOptions) : Prop :=
  options.dryRun = true ∨ options.failGlobalHookFast = false

namespace Worker

variable (w : Worker)

/-- Everything a hook outside the test cases can do. -/
inductive HookRule (site : CallSite) (id : String) : HookRun → Prop where
  | dry {d startedId}
      (hd : w.supportCodeLibrary.hookRegistry.getDefinitionById id = .ok d)
      (hdry : w.options.dryRun = true) :
      HookRule site id
        { started := ⟨startedId, w.testRunStartedId, d.data.id⟩
          outcome := .ok { status := .skipped } }
  | executed {d startedId} {b : BodyRun}
      (hd : w.supportCodeLibrary.hookRegistry.getDefinitionById id = .ok d)
      (hdry : w.options.dryRun = false)
      (hb : b = .ofHook d (globalHookArgs site ⟨startedId, w.testRunStartedId, d.data.id⟩))
      (hgo : b.result.status = .passed ∨ w.options.failGlobalHookFast = false) :
      HookRule site id
        { started := ⟨startedId, w.testRunStartedId, d.data.id⟩
          bodies := [b]
          outcome := .ok b.result }
  | aborted {d startedId} {b : BodyRun}
      (hd : w.supportCodeLibrary.hookRegistry.getDefinitionById id = .ok d)
      (hdry : w.options.dryRun = false)
      (hb : b = .ofHook d (globalHookArgs site ⟨startedId, w.testRunStartedId, d.data.id⟩))
      (hstatus : b.result.status ≠ .passed) (hfast : w.options.failGlobalHookFast = true) :
      HookRule site id
        { started := ⟨startedId, w.testRunStartedId, d.data.id⟩
          bodies := [b]
          outcome := .error (.globalHookError d.data b.result) }

/-- A loop over hooks outside the test cases. -/
def HooksRule (site : CallSite) (ids : List String) (hs : List HookRun)
    (r : Except Fault (List TestStepResult)) : Prop :=
  Collected (w.HookRule site) HookRun.outcome ids hs r

theorem HookRule.outcome_eq {w : Worker} {site : CallSite} {id : String} {h : HookRun}
    (hrule : w.HookRule site id h) (hreturn : w.options.HooksReturn) :
    h.outcome = .ok h.result := by
  cases hrule with
  | dry hd hdry => rfl
  | executed hd hdry hb hgo => rfl
  | aborted hd hdry hb hstatus hfast =>
    rcases hreturn with h | h
    · cases hdry.symm.trans h
    · cases hfast.symm.trans h

/-- Hooks that do not end the run all return their results. -/
theorem HooksRule.all {w : Worker} {site : CallSite} {ids : List String} {hs : List HookRun}
    {r : Except Fault (List TestStepResult)} (h : w.HooksRule site ids hs r)
    (hreturn : w.options.HooksReturn) :
    List.Forall₂ (w.HookRule site) ids hs ∧ r = .ok (hs.map HookRun.result) := by
  unfold HooksRule at h
  induction h with
  | nil => exact ⟨.nil, rfl⟩
  | cons round value rest ih =>
    obtain ⟨hall,hr⟩ := ih
    have hb := Except.ok.inj ((round.outcome_eq hreturn).symm.trans value)
    exact ⟨.cons round hall, by rw [hr, ← hb]; rfl⟩
  | abort round fault => cases (round.outcome_eq hreturn).symm.trans fault

section

variable {w : Worker} {site : CallSite} {ids : List String} {hs : List HookRun}

/-- Whatever the options, hooks that got to return have returned their results. -/
theorem HooksRule.returned {results : List TestStepResult}
    (h : w.HooksRule site ids hs (.ok results)) :
    List.Forall₂ (w.HookRule site) ids hs ∧ results = hs.map HookRun.result := by
  obtain ⟨hall,hvalues⟩ := Collected.values h
  refine ⟨hall, ?_⟩
  have hresults : List.Forall₂ (fun h' result => h'.result = result) hs results := by
    apply hvalues.imp
    intro h' result hvalue
    simp [HookRun.result, hvalue]
  rw [← List.forall₂_map_left_iff, List.forall₂_eq_eq_eq] at hresults
  exact hresults.symm

/-- A loop over hooks that fails was ended by one of them. -/
theorem HooksRule.aborted {e : Fault} (h : w.HooksRule site ids hs (.error e)) :
    ∃ h' ∈ hs, h'.Aborted :=
  h.error_iff.mp ⟨e, rfl⟩

theorem HooksRule.not_aborted {results : List TestStepResult}
    (h : w.HooksRule site ids hs (.ok results)) : ¬∃ h' ∈ hs, h'.Aborted := by
  intro haborted
  obtain ⟨_,he⟩ := h.error_iff.mpr haborted
  cases he

end

/-- The runner `RunTestCase` constructs. -/
def testCaseRunner (assembled : AssembledTestCase) (skip : Bool) : TestCaseRunner where
  pickle := assembled.pickle
  testCase := assembled.testCase
  maximumAttempts := if skip then 1
    else (w.repeatsForPickle assembled.pickle).getD (1+retriesForPickle assembled.pickle w.options)
  repeats := (w.repeatsForPickle assembled.pickle).isSome
  skip := skip
  supportCodeLibrary := w.supportCodeLibrary

structure CaseRule (failing : Bool) (cr : CaseRun) : Prop where
  skip : cr.skip = w.skipTestCase failing
  attempts : (w.testCaseRunner cr.assembled cr.skip).AttemptsRule { status := .passed } 0
    (w.testCaseRunner cr.assembled cr.skip).maximumAttempts.toNat cr.attempts cr.status

def caseFailed (cr : CaseRun) : Bool := w.isStatusFailed cr.status

/-- The test cases of a suite, each executed knowing whether one before it failed. -/
structure CasesRule (failing : Bool) (suite : AssembledTestSuite) (cases : List CaseRun) :
    Prop where
  complete : cases.map CaseRun.assembled = suite.testCases
  threaded : Threaded (fun pre cr => w.CaseRule (pre.any w.caseFailed || failing) cr) cases

def beforeSuiteIds (suite : AssembledTestSuite) : List String :=
  w.supportCodeLibrary.hookRegistry.findIds .beforeFeature
    (transformTags suite.gherkinDocument.feature.tags)

def afterSuiteIds (suite : AssembledTestSuite) : List String :=
  w.supportCodeLibrary.hookRegistry.findIds .afterFeature
    (transformTags suite.gherkinDocument.feature.tags)

def suiteSite (suite : AssembledTestSuite) : CallSite := .testSuite suite.gherkinDocument.uri

/-- Everything a suite can do, given whether the run is failing already. -/
inductive SuiteRule (failing : Bool) : SuiteRun → Prop where
  | withoutHooks {suite cases} (hoff : w.options.featureHooks = false)
      (hcases : w.CasesRule failing suite cases) :
      SuiteRule failing
        { suite := suite, cases := cases, outcome := .ok (!cases.any w.caseFailed) }
  | aborted {suite before e} (hon : w.options.featureHooks = true)
      (hbefore : w.HooksRule (suiteSite suite) (w.beforeSuiteIds suite) before (.error e)) :
      SuiteRule failing { suite := suite, before := before, outcome := .error e }
  | withHooks {suite before results cases after r} (hon : w.options.featureHooks = true)
      (hbefore : w.HooksRule (suiteSite suite) (w.beforeSuiteIds suite) before (.ok results))
      (hcases : w.CasesRule
        (failing || isFailing (getWorstTestStepResult results).status w.options.dryRun)
        suite cases)
      (hafter : w.HooksRule (suiteSite suite) (w.afterSuiteIds suite) after r) :
      SuiteRule failing
        { suite := suite
          before := before
          cases := cases
          after := after
          outcome := r.map fun _ => !cases.any w.caseFailed }

def beforeAllIds : List String := w.supportCodeLibrary.hookRegistry.findIds .beforeAll ∅

def afterAllIds : List String := w.supportCodeLibrary.hookRegistry.findIds .afterAll ∅

/-- The announcements and suites of a run whose before-all hooks did not fail. -/
structure SuitesRule (sourcedPickles : List PickleSource) (announced : List Announcement)
    (suites : List SuiteRun) : Prop where
  sources : announced.map Announcement.source = sourcedPickles
  announcement : ∀ a ∈ announced, AnnouncementRule w.supportCodeLibrary w.testRunStartedId a
  complete : suites.map SuiteRun.suite = suitesOf announced
  threaded : Threaded (fun pre s => w.SuiteRule (pre.any SuiteRun.failed) s) suites

/-- Whether the results of the before-all or after-all hooks make the run fail. -/
def hooksFailing (results : List TestStepResult) : Bool :=
  isFailing (getWorstTestStepResult results).status w.options.dryRun

/-- Everything a run can do once its worker is constructed. -/
inductive RunRule (sourcedPickles : List PickleSource) : RunReport → Prop where
  | aborted {beforeAll e}
      (hbefore : w.HooksRule .testRun w.beforeAllIds beforeAll (.error e)) :
      RunRule sourcedPickles { beforeAll := beforeAll, outcome := .error e }
  | failedBefore {beforeAll results afterAll r}
      (hbefore : w.HooksRule .testRun w.beforeAllIds beforeAll (.ok results))
      (hfailing : w.hooksFailing results = true)
      (hafter : w.HooksRule .testRun w.afterAllIds.reverse afterAll r) :
      RunRule sourcedPickles
        { beforeAll := beforeAll, afterAll := afterAll, outcome := r.map fun _ => false }
  | executed {beforeAll results announced suites afterAll r}
      (hbefore : w.HooksRule .testRun w.beforeAllIds beforeAll (.ok results))
      (hfailing : w.hooksFailing results = false)
      (hsuites : w.SuitesRule sourcedPickles announced suites)
      (hafter : w.HooksRule .testRun w.afterAllIds.reverse afterAll r) :
      RunRule sourcedPickles
        { beforeAll := beforeAll
          announced := announced
          suites := suites
          afterAll := afterAll
          outcome := r.map fun afterResults =>
            !(suites.any SuiteRun.failed || w.hooksFailing afterResults) }

section

variable {w : Worker} {sourcedPickles : List PickleSource} {report : RunReport}

/-- Every test case that was executed followed the rule, given some state of the run. -/
theorem SuiteRule.caseRule {failing : Bool} {s : SuiteRun} (h : w.SuiteRule failing s) :
    ∀ cr ∈ s.cases, ∃ failing, w.CaseRule failing cr := by
  intro cr hcr
  cases h with
  | withoutHooks hoff hcases =>
    obtain ⟨_,_,_,hrule⟩ := hcases.threaded.mem hcr
    exact ⟨_, hrule⟩
  | aborted hon hbefore => cases hcr
  | withHooks hon hbefore hcases hafter =>
    obtain ⟨_,_,_,hrule⟩ := hcases.threaded.mem hcr
    exact ⟨_, hrule⟩

/-- A suite that a before-feature hook ended before its first test case. -/
def EndedBefore (w : Worker) (s : SuiteRun) : Prop :=
  w.options.featureHooks = true ∧ s.cases = [] ∧
    ∃ e, w.HooksRule (suiteSite s.suite) (w.beforeSuiteIds s.suite) s.before (.error e)

/-- Any other suite executed its test cases, failing already if the run was. -/
theorem SuiteRule.endedBefore_or_casesRule {failing : Bool} {s : SuiteRun}
    (h : w.SuiteRule failing s) : w.EndedBefore s ∨
      ∃ failing', (failing = true → failing' = true) ∧ w.CasesRule failing' s.suite s.cases := by
  cases h with
  | withoutHooks hoff hcases => exact .inr ⟨failing, id, hcases⟩
  | aborted hon hbefore => exact .inl ⟨hon, rfl, _, hbefore⟩
  | withHooks hon hbefore hcases hafter => exact .inr ⟨_, fun h => by simp [h], hcases⟩

/-- A suite with a failing test case fails. -/
theorem SuiteRule.failed_of_caseFailed {failing : Bool} {s : SuiteRun}
    (h : w.SuiteRule failing s) {cr : CaseRun} (hcr : cr ∈ s.cases)
    (hfailed : w.caseFailed cr = true) : s.failed = true := by
  have hany : s.cases.any w.caseFailed = true := List.any_eq_true.mpr ⟨cr, hcr, hfailed⟩
  cases h with
  | withoutHooks hoff hcases => simp [SuiteRun.failed, hany]
  | aborted hon hbefore => cases hcr
  | @withHooks suite before results cases after r hon hbefore hcases hafter =>
    cases r with
    | ok results => simp [SuiteRun.failed, Except.map, hany]
    | error e => rfl

theorem SuiteRule.complete {failing : Bool} {s : SuiteRun} (h : w.SuiteRule failing s)
    (hreturn : w.options.HooksReturn) :
    s.cases.map CaseRun.assembled = s.suite.testCases := by
  cases h with
  | withoutHooks hoff hcases => exact hcases.complete
  | aborted hon hbefore => cases (hbefore.all hreturn).2
  | withHooks hon hbefore hcases hafter => exact hcases.complete

/-- When no hook ends a suite, the test cases executed are those announced. -/
theorem SuitesRule.cases_perm {announced : List Announcement} {suites : List SuiteRun}
    (h : w.SuitesRule sourcedPickles announced suites) (hreturn : w.options.HooksReturn) :
    ((suites.flatMap SuiteRun.cases).map CaseRun.assembled).Perm
      (announced.map Announcement.assembled) := by
  have hcases : (suites.flatMap SuiteRun.cases).map CaseRun.assembled =
      (suites.map SuiteRun.suite).flatMap AssembledTestSuite.testCases := by
    rw [List.map_flatMap, List.flatMap_map]
    apply List.flatMap_congr
    intro s hs
    obtain ⟨_,_,_,hrule⟩ := h.threaded.mem hs
    exact hrule.complete hreturn
  rw [hcases, h.complete]
  exact suitesOf_perm announced

theorem SuitesRule.announcement_of_mem {announced : List Announcement} {suites : List SuiteRun}
    (h : w.SuitesRule sourcedPickles announced suites) {s : SuiteRun} (hs : s ∈ suites)
    {cr : CaseRun} (hcr : cr ∈ s.cases) : ∃ a ∈ announced, a.assembled = cr.assembled ∧
      AnnouncementRule w.supportCodeLibrary w.testRunStartedId a := by
  obtain ⟨_,_,_,hrule⟩ := h.threaded.mem hs
  have hcase : cr.assembled ∈ s.suite.testCases := by
    rcases hrule.endedBefore_or_casesRule with ⟨_,hnil,_⟩ | ⟨_,_,hcases⟩
    · rw [hnil] at hcr
      cases hcr
    · exact hcases.complete ▸ List.mem_map_of_mem hcr
  have hsuite : s.suite ∈ suitesOf announced := h.complete ▸ List.mem_map_of_mem hs
  have hmem : cr.assembled ∈ (suitesOf announced).flatMap AssembledTestSuite.testCases :=
    List.mem_flatMap.mpr ⟨s.suite, hsuite, hcase⟩
  obtain ⟨a,ha,hassembled⟩ := List.mem_map.mp ((suitesOf_perm announced).mem_iff.mp hmem)
  exact ⟨a, ha, hassembled, h.announcement a ha⟩

theorem RunRule.outcome_eq (h : w.RunRule sourcedPickles report)
    (hreturn : w.options.HooksReturn) : ∃ success, report.outcome = .ok success := by
  cases h with
  | aborted hbefore => cases (hbefore.all hreturn).2
  | failedBefore hbefore hfailing hafter => exact ⟨_, by rw [(hafter.all hreturn).2]; rfl⟩
  | executed hbefore hfailing hsuites hafter => exact ⟨_, by rw [(hafter.all hreturn).2]; rfl⟩

theorem RunRule.cases_perm (h : w.RunRule sourcedPickles report)
    (hreturn : w.options.HooksReturn) :
    (report.cases.map CaseRun.assembled).Perm (report.announced.map Announcement.assembled) := by
  cases h with
  | aborted hbefore => exact .nil
  | failedBefore hbefore hfailing hafter => exact .nil
  | executed hbefore hfailing hsuites hafter => exact hsuites.cases_perm hreturn

theorem RunRule.suiteRule (h : w.RunRule sourcedPickles report) {s : SuiteRun}
    (hs : s ∈ report.suites) : ∃ failing, w.SuiteRule failing s := by
  cases h with
  | aborted hbefore => cases hs
  | failedBefore hbefore hfailing hafter => cases hs
  | executed hbefore hfailing hsuites hafter =>
    obtain ⟨_,_,_,hrule⟩ := hsuites.threaded.mem hs
    exact ⟨_, hrule⟩

theorem RunRule.caseRule (h : w.RunRule sourcedPickles report) :
    ∀ cr ∈ report.cases, ∃ failing, w.CaseRule failing cr := by
  intro cr hmem
  obtain ⟨s,hs,hcr⟩ := List.mem_flatMap.mp hmem
  obtain ⟨_,hsuite⟩ := h.suiteRule hs
  exact hsuite.caseRule cr hcr

end

end Worker

end CucumberCpp
