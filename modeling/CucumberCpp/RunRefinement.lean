import CucumberCpp.AttemptRefinement
import CucumberCpp.RunReport

/-! Every run leaves the log of a report that follows the rules. -/
namespace CucumberCpp

open EventLog

variable {idGenerator : IdGenerator}

/-- What assembly announced can be run. -/
theorem TestCaseRunner.resolves_of_announcement {c : TestCaseRunner} {testRunStartedId : String}
    {a : Announcement} (ha : AnnouncementRule c.supportCodeLibrary testRunStartedId a)
    (hpickle : c.pickle = a.source.pickle) {testStep : TestStep}
    (hmem : testStep ∈ a.testCase.testSteps) : c.Resolves testStep := by
  obtain ⟨beforeSteps,steps,afterSteps,hall,hrule⟩ := ha.testSteps
  have hhook (hookType : HookType) (ids : List String) (ts : List TestStep)
      (hts : List.Forall₂ (fun hookId s => s = hookTestStep hookId s.id) ids ts)
      (hids : ∀ id ∈ ids, id ∈ c.supportCodeLibrary.hookRegistry.findIds hookType
        (transformPickleTags a.source.pickle.tags)) (hmem : testStep ∈ ts) :
      c.Resolves testStep := by
    obtain ⟨hookId,hhookId,hs⟩ := exists_left_of_forall₂ hts hmem
    obtain ⟨d,hd,_⟩ := HookRegistry.getDefinitionById_of_mem (hids hookId hhookId)
    have hfield : testStep.hookId = some hookId := by rw [hs]; rfl
    exact .hook hfield hd
  rw [hall, List.mem_append, List.mem_append] at hmem
  rcases hmem with (hmem | hmem) | hmem
  · exact hhook .before _ _ hrule.before (fun _ h => h) hmem
  · obtain ⟨pickleStep,hpickleStep,hs⟩ := exists_left_of_forall₂ hrule.step hmem
    have hstepId : testStep.pickleStepId = some pickleStep.id := by rw [hs]; rfl
    have hfind : (c.pickleStepOf testStep).isSome := by
      unfold TestCaseRunner.pickleStepOf
      rw [hstepId, Option.bind_some, List.find?_isSome, hpickle]
      exact ⟨pickleStep, hpickleStep, by simp⟩
    obtain ⟨found,hfound⟩ := Option.isSome_iff_exists.mp hfind
    obtain ⟨lists,hlists,hlength⟩ :=
      pickleTestStep_stepMatchArgumentsLists c.supportCodeLibrary pickleStep testStep.id
    have hids := pickleTestStep_stepDefinitionIds c.supportCodeLibrary pickleStep testStep.id
    rw [← hs] at hlists hids
    refine .pickleStep (by rw [hs]; rfl) hfound hids hlists (by simpa using hlength) ?_
    intro id hid
    obtain ⟨d,hd,rfl⟩ := List.mem_map.mp hid
    exact StepRegistry.getDefinitionById_of_mem (List.mem_filter.mp hd).1
  · exact hhook .after _ _ hrule.after (fun _ h => List.mem_reverse.mp h) hmem

theorem TestCaseRunner.resolves_of_isAssembled {c : TestCaseRunner}
    (h : IsAssembled idGenerator c.supportCodeLibrary ⟨c.pickle, c.testCase⟩) :
    ∀ testStep ∈ c.testCase.testSteps, c.Resolves testStep := by
  intro testStep hmem
  obtain ⟨_,a,ha,heq⟩ := h.announcement
  have hpickle : c.pickle = a.source.pickle := (congrArg AssembledTestCase.pickle heq).symm
  have htestCase : a.testCase = c.testCase := congrArg AssembledTestCase.testCase heq
  exact resolves_of_announcement ha hpickle (htestCase ▸ hmem)

namespace Worker

variable (w : Worker)

theorem emits_globalHookResult {site : CallSite} {id : String} {d : HookDefinition}
    (hd : w.supportCodeLibrary.hookRegistry.getDefinitionById id = .ok d) (startedId : String) :
    Emits (w.globalHookResult d site ⟨startedId, w.testRunStartedId, d.data.id⟩ :
      Run idGenerator TestStepResult)
      fun r s => ∃ h : HookRun, h.started = ⟨startedId, w.testRunStartedId, d.data.id⟩ ∧
        w.HookRule site id h ∧ r = h.outcome ∧ s = h.bodies.flatMap BodyRun.log := by
  unfold globalHookResult
  by_cases hdry : w.options.dryRun = true
  · rw [if_pos hdry]
    exact emits_pure ⟨_, rfl, .dry hd hdry, rfl, rfl⟩
  · rw [if_neg hdry]
    have hdry' := Bool.eq_false_of_not_eq_true hdry
    apply (emits_invokeHook d _).bind_ok (by simp)
    intro result s h
    obtain ⟨hr,rfl⟩ := h
    cases hr
    split_ifs with hstop
    · apply emits_throw
      exact ⟨_, rfl, .aborted hd hdry' rfl hstop.1 hstop.2, rfl, by simp⟩
    · apply emits_pure
      rw [not_and_or, not_not, Bool.not_eq_true] at hstop
      exact ⟨_, rfl, .executed hd hdry' rfl hstop, rfl, by simp⟩

theorem emits_runTestHook {site : CallSite} {id : String} {d : HookDefinition}
    (hd : w.supportCodeLibrary.hookRegistry.getDefinitionById id = .ok d) :
    Emits (w.runTestHook id site : Run idGenerator TestStepResult)
      fun r s => ∃ h : HookRun, w.HookRule site id h ∧ r = h.outcome ∧ s = h.log := by
  unfold runTestHook
  apply emits_fromExcept_bind hd
  apply emits_nextId_bind
  intro startedId
  apply emits_broadcastEvent_bind
  apply (w.emits_globalHookResult hd startedId).bind
  · intro result s h
    obtain ⟨h,hstarted,hrule,hr,rfl⟩ := h
    apply emits_broadcastEvent_bind
    apply emits_pure
    refine ⟨h, hrule, hr, ?_⟩
    simp [HookRun.log, HookRun.finishedLog, ← hr, hstarted]
  · intro e s h
    obtain ⟨h,hstarted,hrule,hr,rfl⟩ := h
    refine ⟨h, hrule, hr, ?_⟩
    simp [HookRun.log, HookRun.finishedLog, ← hr, hstarted]

/-- The four loops over hooks outside the test cases. -/
theorem emits_runTestHooks {hookType : HookType} (tags : Finset String) {ids : List String}
    (site : CallSite)
    (hids : ∀ id ∈ ids, id ∈ w.supportCodeLibrary.hookRegistry.findIds hookType tags) :
    Emits (ids.mapM' fun id => w.runTestHook id site : Run idGenerator (List TestStepResult))
      fun r s => ∃ hs, w.HooksRule site ids hs r ∧ s = hs.flatMap HookRun.log := by
  apply emits_mapM'
  intro id hid
  obtain ⟨d,hd,_⟩ := HookRegistry.getDefinitionById_of_mem (hids id hid)
  exact w.emits_runTestHook hd

theorem make_testCaseRunner (hoptions : w.options.Accepted) (assembled : AssembledTestCase)
    (skip : Bool) :
    TestCaseRunner.make assembled.pickle assembled.testCase
      (retriesForPickle assembled.pickle w.options) skip w.supportCodeLibrary
      (w.repeatsForPickle assembled.pickle) = .ok (w.testCaseRunner assembled skip) := by
  have hrepeats : w.repeatsForPickle assembled.pickle = none ∨
      w.repeatsForPickle assembled.pickle = w.options.repeats := by
    unfold repeatsForPickle
    cases w.options.repeatTagExpression with
    | none => exact .inr rfl
    | some expression =>
      dsimp only
      split_ifs
      · exact .inr rfl
      · exact .inl rfl
  have hpositive : w.repeatsForPickle assembled.pickle ≠ some 0 := by
    rcases hrepeats with h | h <;> rw [h]
    · exact Option.some_ne_none 0 |>.symm
    · exact hoptions.positive
  have hexclusive : ¬((w.repeatsForPickle assembled.pickle).isSome ∧
      retriesForPickle assembled.pickle w.options ≠ 0) := by
    intro h
    rcases hrepeats with h' | h' <;> rw [h'] at h
    · simp at h
    · exact h.2 (by simp [retriesForPickle, hoptions.exclusive h.1])
  unfold TestCaseRunner.make
  rw [if_neg hpositive, if_neg hexclusive]
  rfl

/-- The steps of an assembled test case refer to registered definitions. -/
def CaseResolves (assembled : AssembledTestCase) : Prop :=
  ∀ skip, ∀ testStep ∈ assembled.testCase.testSteps,
    (w.testCaseRunner assembled skip).Resolves testStep

theorem emits_runTestCase (hoptions : w.options.Accepted) (assembled : AssembledTestCase)
    (failing : Bool) (hres : w.CaseResolves assembled) :
    Emits (w.runTestCase assembled failing : Run idGenerator Bool)
      fun r s => ∃ cr : CaseRun, cr.assembled = assembled ∧ w.CaseRule failing cr ∧
        r = .ok (!w.caseFailed cr) ∧ s = cr.log := by
  unfold runTestCase
  apply emits_fromExcept_bind (w.make_testCaseRunner hoptions assembled _)
  unfold TestCaseRunner.run
  apply (TestCaseRunner.emits_runAttempts _ (hres _) _ _ _).bind_ok (by simp)
  intro status s h
  obtain ⟨attempts,_,hattempts,hr,rfl⟩ := h
  cases hr
  apply emits_pure
  refine ⟨⟨assembled, w.skipTestCase failing, attempts, status⟩, rfl, ⟨rfl, hattempts⟩, rfl, ?_⟩
  rw [List.append_nil]
  rfl

theorem emits_runTestCases (hoptions : w.options.Accepted) (suite : AssembledTestSuite)
    (failing : Bool) (hres : ∀ a ∈ suite.testCases, w.CaseResolves a) :
    Emits (w.runTestCases suite.testCases failing : Run idGenerator Bool)
      fun r s => ∃ cases, w.CasesRule failing suite cases ∧
        r = .ok (cases.any w.caseFailed) ∧ s = cases.flatMap CaseRun.log := by
  have hround (pre : List CaseRun) (a : AssembledTestCase) (ha : a ∈ suite.testCases) :
      Emits (do
        let success ← w.runTestCase a (pre.any w.caseFailed || failing)
        pure (pre.any w.caseFailed || !success) : Run idGenerator Bool) fun r s =>
        ∃ cr : CaseRun, cr.assembled = a ∧ w.CaseRule (pre.any w.caseFailed || failing) cr ∧
          r = .ok ((pre ++ [cr]).any w.caseFailed) ∧ s = cr.log := by
    apply (w.emits_runTestCase hoptions a _ (hres a ha)).bind_ok (by simp)
    intro success s h
    obtain ⟨cr,ha,hrule,hr,rfl⟩ := h
    cases hr
    apply emits_pure
    exact ⟨cr, ha, hrule, by simp, by simp⟩
  apply (emits_foldlM (fun pre => pre.any w.caseFailed) suite.testCases hround).mono
  intro r s h
  obtain ⟨cases,hcomplete,hthreaded,hr,hs⟩ := h
  exact ⟨cases, ⟨hcomplete, hthreaded⟩, hr, hs⟩

theorem emits_runBeforeTestSuiteHooks (suite : AssembledTestSuite) :
    Emits (w.runBeforeTestSuiteHooks suite.gherkinDocument :
      Run idGenerator (List TestStepResult))
      fun r s => ∃ hs, w.HooksRule (suiteSite suite) (w.beforeSuiteIds suite) hs r ∧
        s = hs.flatMap HookRun.log :=
  w.emits_runTestHooks _ _ fun _ h => h

theorem emits_runAfterTestSuiteHooks (suite : AssembledTestSuite) :
    Emits (w.runAfterTestSuiteHooks suite.gherkinDocument :
      Run idGenerator (List TestStepResult))
      fun r s => ∃ hs, w.HooksRule (suiteSite suite) (w.afterSuiteIds suite) hs r ∧
        s = hs.flatMap HookRun.log :=
  w.emits_runTestHooks _ _ fun _ h => h

theorem emits_runTestSuite (hoptions : w.options.Accepted) (suite : AssembledTestSuite)
    (failing : Bool) (hres : ∀ a ∈ suite.testCases, w.CaseResolves a) :
    Emits (w.runTestSuite suite failing : Run idGenerator Bool)
      fun r s => ∃ sr : SuiteRun, sr.suite = suite ∧ w.SuiteRule failing sr ∧
        r = sr.outcome ∧ s = sr.log := by
  unfold runTestSuite failingBeforeSuite failingAfterSuite
  by_cases hon : w.options.featureHooks = true
  · simp only [hon, ↓reduceIte, bind_assoc, pure_bind]
    apply (w.emits_runBeforeTestSuiteHooks suite).bind
    · intro results s h
      obtain ⟨before,hbefore,rfl⟩ := h
      apply (w.emits_runTestCases hoptions suite _ hres).bind_ok (by simp)
      intro failed s h
      obtain ⟨cases,hcases,hr,rfl⟩ := h
      cases hr
      apply (w.emits_runAfterTestSuiteHooks suite).bind_pure
      intro r s h
      obtain ⟨after,hafter,rfl⟩ := h
      exact ⟨_, rfl, .withHooks hon hbefore hcases hafter, rfl, by simp [SuiteRun.log]⟩
    · intro e s h
      obtain ⟨before,hbefore,rfl⟩ := h
      exact ⟨_, rfl, .aborted hon hbefore, rfl, by simp [SuiteRun.log]⟩
  · have hoff := Bool.eq_false_of_not_eq_true hon
    simp only [hoff, Bool.false_eq_true, ↓reduceIte, pure_bind]
    apply (w.emits_runTestCases hoptions suite _ hres).bind_ok (by simp)
    intro failed s h
    obtain ⟨cases,hcases,hr,rfl⟩ := h
    cases hr
    apply emits_pure
    exact ⟨_, rfl, .withoutHooks hoff hcases, rfl, by simp [SuiteRun.log]⟩

/-- Hooks only ever fail with an error the adapter catches. -/
theorem HooksRule.error {w : Worker} {site : CallSite} {ids : List String} {hs : List HookRun}
    {e : Fault} (h : w.HooksRule site ids hs (.error e)) :
    ∃ data result, e = .globalHookError data result := by
  generalize hr : (Except.error e : Except Fault (List TestStepResult)) = r at h
  unfold HooksRule at h
  induction h with
  | nil => cases hr
  | @cons x xs t ts b r round value rest ih =>
    cases r with
    | ok bs => cases hr
    | error e' =>
      cases hr
      exact ih rfl
  | abort round fault =>
    cases hr
    cases round with
    | dry => cases fault
    | executed => cases fault
    | aborted =>
      cases fault
      exact ⟨_, _, rfl⟩

theorem SuiteRule.error {w : Worker} {failing : Bool} {sr : SuiteRun} {e : Fault}
    (h : w.SuiteRule failing sr) (he : sr.outcome = .error e) :
    ∃ data result, e = .globalHookError data result := by
  cases h with
  | withoutHooks hoff hcases => cases he
  | aborted hon hbefore =>
    cases he
    exact hbefore.error
  | @withHooks suite before results cases after r hon hbefore hcases hafter =>
    cases r with
    | ok results => cases he
    | error e' =>
      cases he
      exact hafter.error

theorem exists_of_map_eq_ok {α β : Type} {f : α → β} {r : Except Fault α} {b : β}
    (h : r.map f = .ok b) : ∃ a, r = .ok a ∧ f a = b := by
  cases r with
  | ok a => exact ⟨a, rfl, Except.ok.inj h⟩
  | error e => cases h

theorem error_of_map_eq_error {α β : Type} {f : α → β} {r : Except Fault α} {e : Fault}
    (h : r.map f = .error e) : r = .error e := by
  cases r with
  | ok a => cases h
  | error e' => exact congrArg Except.error (Except.error.inj h)

theorem emits_runSuiteCatching (hoptions : w.options.Accepted) (suite : AssembledTestSuite)
    (failing : Bool) (hres : ∀ a ∈ suite.testCases, w.CaseResolves a) :
    Emits (w.runSuiteCatching failing suite : Run idGenerator Bool)
      fun r s => ∃ sr : SuiteRun, sr.suite = suite ∧ w.SuiteRule failing sr ∧
        r = .ok (failing || sr.failed) ∧ s = sr.log := by
  have htry : Emits (do
      let success ← w.runTestSuite suite failing
      pure (failing || !success) : Run idGenerator Bool) fun r s =>
      ∃ sr : SuiteRun, sr.suite = suite ∧ w.SuiteRule failing sr ∧
        r = sr.outcome.map (fun success => failing || !success) ∧ s = sr.log := by
    apply (w.emits_runTestSuite hoptions suite failing hres).bind_pure
    intro r s h
    obtain ⟨sr,hsuite,hrule,hr,hs⟩ := h
    exact ⟨sr, hsuite, hrule, by rw [hr], hs⟩
  apply htry.tryCatch
  · intro b s h
    obtain ⟨sr,hsuite,hrule,hr,hs⟩ := h
    obtain ⟨success,ho,rfl⟩ := exists_of_map_eq_ok hr.symm
    exact ⟨sr, hsuite, hrule, by simp [SuiteRun.failed, ho], hs⟩
  · intro e s h
    obtain ⟨sr,hsuite,hrule,hr,rfl⟩ := h
    have ho := error_of_map_eq_error hr.symm
    -- the handler passes undefined behaviour on, but hooks never lead to it
    obtain ⟨data,result,rfl⟩ := hrule.error ho
    apply emits_pure
    exact ⟨sr, hsuite, hrule, by simp [SuiteRun.failed, ho], by simp⟩

theorem caseResolves_of_announcement {testRunStartedId : String} {a : Announcement}
    (ha : AnnouncementRule w.supportCodeLibrary testRunStartedId a) :
    w.CaseResolves a.assembled :=
  fun _ _ hmem => TestCaseRunner.resolves_of_announcement ha rfl hmem

theorem caseResolves_of_isAssembled {assembled : AssembledTestCase}
    (h : IsAssembled idGenerator w.supportCodeLibrary assembled) : w.CaseResolves assembled := by
  obtain ⟨_,a,ha,rfl⟩ := h.announcement
  exact w.caseResolves_of_announcement ha

theorem emits_runAssembledSuites (hoptions : w.options.Accepted)
    (sourcedPickles : List PickleSource) :
    Emits (runAssembledSuites w sourcedPickles false : Run idGenerator Bool)
      fun r s => ∃ announced suites, w.SuitesRule sourcedPickles announced suites ∧
        r = .ok (suites.any SuiteRun.failed) ∧
        s = announced.flatMap Announcement.log ++ suites.flatMap SuiteRun.log := by
  unfold runAssembledSuites
  simp only [Bool.false_eq_true, ↓reduceIte]
  apply (emits_assembleTestSuites _ _ _).bind_ok (by simp)
  intro assembledTestSuites s h
  obtain ⟨announced,hsources,hrule,hr,rfl⟩ := h
  cases hr
  have hres : ∀ suite ∈ suitesOf announced, ∀ a ∈ suite.testCases, w.CaseResolves a := by
    intro suite hsuite a ha
    have hmem : a ∈ (suitesOf announced).flatMap AssembledTestSuite.testCases :=
      List.mem_flatMap.mpr ⟨suite, hsuite, ha⟩
    -- the suites hold the announced test cases and no others
    obtain ⟨b,hb,rfl⟩ := List.mem_map.mp ((suitesOf_perm announced).mem_iff.mp hmem)
    exact w.caseResolves_of_announcement (hrule b hb)
  have hround (pre : List SuiteRun) (suite : AssembledTestSuite)
      (hsuite : suite ∈ suitesOf announced) :
      Emits (w.runSuiteCatching (pre.any SuiteRun.failed) suite : Run idGenerator Bool)
        fun r s => ∃ sr : SuiteRun, sr.suite = suite ∧
          w.SuiteRule (pre.any SuiteRun.failed) sr ∧
          r = .ok ((pre ++ [sr]).any SuiteRun.failed) ∧ s = sr.log := by
    simpa using w.emits_runSuiteCatching hoptions suite (pre.any SuiteRun.failed)
      (hres suite hsuite)
  apply (emits_foldlM (fun pre => pre.any SuiteRun.failed) _ hround).mono
  intro r s h
  obtain ⟨suites,hcomplete,hthreaded,hr,rfl⟩ := h
  exact ⟨announced, suites, ⟨hsources, hrule, hcomplete, hthreaded⟩, hr, rfl⟩

end Worker

theorem RuntimeOptions.accepted_of_make {testRunStartedId : String} {options : RuntimeOptions}
    {supportCodeLibrary : SupportCodeLibrary} {w : Worker}
    (h : Worker.make testRunStartedId options supportCodeLibrary = .ok w) :
    options.Accepted ∧ w = ⟨testRunStartedId, options, supportCodeLibrary⟩ := by
  unfold Worker.make at h
  split_ifs at h with hzero hboth
  cases h
  refine ⟨⟨hzero, fun hsome => ?_⟩, rfl⟩
  by_contra hretry
  exact hboth ⟨hsome, hretry⟩

theorem Worker.make_of_accepted {options : RuntimeOptions} (hoptions : options.Accepted)
    (testRunStartedId : String) (supportCodeLibrary : SupportCodeLibrary) :
    Worker.make testRunStartedId options supportCodeLibrary =
      .ok ⟨testRunStartedId, options, supportCodeLibrary⟩ := by
  unfold Worker.make
  rw [if_neg hoptions.positive, if_neg fun h => h.2 (hoptions.exclusive h.1)]

/-- Every run of the adapter under accepted options is described by a report. -/
theorem SerialRuntimeAdapter.emits_run {options : RuntimeOptions} (hoptions : options.Accepted)
    (testRunStartedId : String) (sourcedPickles : List PickleSource)
    (supportCodeLibrary : SupportCodeLibrary) :
    Emits (SerialRuntimeAdapter.run testRunStartedId sourcedPickles options supportCodeLibrary :
      Run idGenerator Bool)
      fun r s => ∃ report : RunReport,
        Worker.RunRule ⟨testRunStartedId, options, supportCodeLibrary⟩ sourcedPickles report ∧
        r = report.outcome ∧ s = report.log := by
  let w : Worker := ⟨testRunStartedId, options, supportCodeLibrary⟩
  unfold SerialRuntimeAdapter.run
  apply emits_fromExcept_bind (Worker.make_of_accepted hoptions _ _)
  have hbefore : Emits (w.runBeforeAllHooks : Run idGenerator (List TestStepResult)) fun r s =>
      ∃ hs, w.HooksRule .testRun w.beforeAllIds hs r ∧ s = hs.flatMap HookRun.log :=
    w.emits_runTestHooks ∅ _ fun _ h => h
  have hafter : Emits (w.runAfterAllHooks : Run idGenerator (List TestStepResult)) fun r s =>
      ∃ hs, w.HooksRule .testRun w.afterAllIds.reverse hs r ∧ s = hs.flatMap HookRun.log :=
    w.emits_runTestHooks ∅ _ fun _ h => List.mem_reverse.mp h
  apply hbefore.bind
  · intro results s h
    obtain ⟨beforeAll,hbeforeAll,rfl⟩ := h
    by_cases hfailing : w.hooksFailing results = true
    -- nothing is assembled then, but the after-all hooks still run
    · unfold runAssembledSuites
      rw [show isFailing (getWorstTestStepResult results).status options.dryRun = true
        from hfailing]
      simp only [↓reduceIte, pure_bind]
      apply hafter.bind_pure
      intro r s h
      obtain ⟨afterAll,hafterAll,rfl⟩ := h
      exact ⟨_, .failedBefore hbeforeAll hfailing hafterAll, rfl, by simp [RunReport.log]⟩
    · have hpassing : isFailing (getWorstTestStepResult results).status options.dryRun = false :=
        Bool.eq_false_of_not_eq_true hfailing
      rw [hpassing]
      apply (w.emits_runAssembledSuites hoptions sourcedPickles).bind_ok (by simp)
      intro failing s h
      obtain ⟨announced,suites,hsuites,hr,rfl⟩ := h
      cases hr
      apply hafter.bind_pure
      intro r s h
      obtain ⟨afterAll,hafterAll,rfl⟩ := h
      exact ⟨_, .executed hbeforeAll hpassing hsuites hafterAll, rfl, by simp [RunReport.log]⟩
  · intro e s h
    obtain ⟨beforeAll,hbeforeAll,rfl⟩ := h
    exact ⟨_, .aborted hbeforeAll, rfl, by simp [RunReport.log]⟩

end CucumberCpp
