import CucumberCpp.Determinism
import CucumberCpp.Skipping

/-! The boolean a run returns, and what it does not depend on. -/
namespace CucumberCpp

open EventLog Grouping

variable {idGenerator : IdGenerator}

namespace Worker

variable {w : Worker}

theorem HookRule.known {site : CallSite} {id : String} {h : HookRun}
    (hrule : w.HookRule site id h) : h.result.status ≠ .unknown := by
  cases hrule with
  | dry hd hdry => exact fun h => by cases h
  | executed hd hdry hb hgo => exact BodyRun.result_known _
  | aborted hd hdry hb hstatus hfast => exact fun h => by cases h

/-- Hooks make the run fail unless all of them passed. -/
theorem HooksRule.failing_iff {site : CallSite} {ids : List String} {hs : List HookRun}
    {results : List TestStepResult} (h : w.HooksRule site ids hs (.ok results))
    (hdry : w.options.dryRun = false) :
    isFailing (getWorstTestStepResult results).status w.options.dryRun = false ↔
      ∀ h' ∈ hs, h'.result.status = .passed := by
  obtain ⟨hall,rfl⟩ := h.returned
  have hknown : ∀ r ∈ hs.map HookRun.result, r.status ≠ .unknown := by
    intro r hr
    obtain ⟨h',hh',rfl⟩ := List.mem_map.mp hr
    obtain ⟨_,_,hrule⟩ := exists_left_of_forall₂ hall hh'
    exact hrule.known
  have hworst := getWorstTestStepResult_passed_iff hknown
  simpa [isFailing, hdry] using hworst

/-- A suite fails with its test cases, or when a feature hook ends it; else its feature hooks
have no say. -/
theorem SuiteRule.failed_iff {failing : Bool} {s : SuiteRun} (h : w.SuiteRule failing s) :
    s.failed = true ↔ (∃ h' ∈ s.before ++ s.after, h'.Aborted) ∨
      s.cases.any w.caseFailed = true := by
  cases h with
  | withoutHooks _ hcases => simp [SuiteRun.failed]
  | aborted hon hbefore =>
    rw [List.append_nil]
    exact iff_of_true rfl (.inl hbefore.aborted)
  | @withHooks suite before results cases after r hon hbefore hcases hafter =>
    simp only [List.mem_append, or_and_right, exists_or]
    rw [or_iff_right hbefore.not_aborted]
    cases r with
    | error e => exact iff_of_true rfl (.inl hafter.aborted)
    | ok afterResults =>
      rw [or_iff_right hafter.not_aborted]
      simp [SuiteRun.failed, Except.map]

theorem SuiteRule.not_aborted {failing : Bool} {s : SuiteRun} (h : w.SuiteRule failing s)
    (hreturn : w.options.HooksReturn) : ¬∃ h' ∈ s.before ++ s.after, h'.Aborted := by
  cases h with
  | withoutHooks _ hcases => simp
  | aborted hon hbefore => cases (hbefore.all hreturn).2
  | withHooks hon hbefore hcases hafter =>
    rw [(hafter.all hreturn).2] at hafter
    simp only [List.mem_append, or_and_right, exists_or, not_or]
    exact ⟨hbefore.not_aborted, hafter.not_aborted⟩

theorem SuiteRule.failed_eq {failing : Bool} {s : SuiteRun} (h : w.SuiteRule failing s)
    (hreturn : w.options.HooksReturn) : s.failed = s.cases.any w.caseFailed := by
  rw [Bool.eq_iff_iff, h.failed_iff, or_iff_right (h.not_aborted hreturn)]

theorem SuiteRule.casesRule {failing : Bool} {s : SuiteRun} (h : w.SuiteRule failing s)
    (hoff : w.options.featureHooks = false) : w.CasesRule failing s.suite s.cases := by
  cases h with
  | withoutHooks _ hcases => exact hcases
  | aborted hon => cases hoff.symm.trans hon
  | withHooks hon => cases hoff.symm.trans hon

section

variable {sourcedPickles : List PickleSource} {announced : List Announcement}
  {suites : List SuiteRun}

/-- No suite failed when no feature hook ended one and no test case failed. -/
theorem SuitesRule.any_failed_eq_false (h : w.SuitesRule sourcedPickles announced suites)
    {pre : List SuiteRun} (hpre : ∀ s ∈ pre, s ∈ suites) :
    pre.any SuiteRun.failed = false ↔ (∀ s ∈ pre, ∀ h' ∈ s.before ++ s.after, ¬h'.Aborted) ∧
      (pre.flatMap SuiteRun.cases).any w.caseFailed = false := by
  have hsuite (s : SuiteRun) (hs : s ∈ pre) : ¬s.failed = true ↔
      (∀ h' ∈ s.before ++ s.after, ¬h'.Aborted) ∧ s.cases.any w.caseFailed = false := by
    obtain ⟨_,_,_,hrule⟩ := h.threaded.mem (hpre s hs)
    rw [hrule.failed_iff, not_or, Bool.not_eq_true]
    simp only [not_exists, not_and]
  rw [List.any_eq_false, List.any_flatMap, List.any_eq_false, ← forall₂_and]
  apply forall₂_congr
  intro s hs
  rw [hsuite s hs, Bool.not_eq_true]

theorem SuitesRule.any_failed (h : w.SuitesRule sourcedPickles announced suites)
    (hreturn : w.options.HooksReturn) {pre : List SuiteRun} (hpre : ∀ s ∈ pre, s ∈ suites) :
    pre.any SuiteRun.failed = (pre.flatMap SuiteRun.cases).any w.caseFailed := by
  rw [List.any_flatMap, Bool.eq_iff_iff, List.any_eq_true, List.any_eq_true]
  apply exists_congr
  intro s
  apply and_congr_right
  intro hs
  obtain ⟨_,_,_,hrule⟩ := h.threaded.mem (hpre s hs)
  rw [hrule.failed_eq hreturn]

/-- Without feature hooks the suites do not matter: each test case is executed
knowing whether any before it failed. -/
theorem SuitesRule.threaded_cases (h : w.SuitesRule sourcedPickles announced suites)
    (hoff : w.options.featureHooks = false) (hreturn : w.options.HooksReturn) :
    Threaded (fun pre cr => w.CaseRule (pre.any w.caseFailed) cr)
      (suites.flatMap SuiteRun.cases) := by
  intro pre cr post hcases
  obtain ⟨spre,s,spost,xpre,xpost,hsuites,hcase,rfl,_⟩ := exists_part_of_flatMap_eq hcases
  have hrule := (h.threaded spre s spost hsuites).casesRule hoff
  have hcaseRule := hrule.threaded xpre cr xpost hcase
  have hfailed := h.any_failed hreturn fun t (ht : t ∈ spre) => by simp [hsuites, ht]
  simp only [hfailed] at hcaseRule
  rwa [Bool.or_comm, ← List.any_append] at hcaseRule

/-- The first test case that fails was executed. -/
theorem SuitesRule.exists_failed_unskipped (h : w.SuitesRule sourcedPickles announced suites)
    (hoff : w.options.featureHooks = false) (hreturn : w.options.HooksReturn)
    (hdry : w.options.dryRun = false)
    (hfailed : (suites.flatMap SuiteRun.cases).any w.caseFailed = true) :
    ∃ s ∈ suites, ∃ cr ∈ s.cases, w.caseFailed cr = true ∧ w.CaseRule false cr ∧
      cr.skip = false := by
  obtain ⟨pre,cr,post,hcases,hcr,hpre⟩ := exists_first_of_any hfailed
  have hrule := h.threaded_cases hoff hreturn pre cr post hcases
  simp only [hpre] at hrule
  obtain ⟨s,hs,hmem⟩ :=
    List.mem_flatMap.mp (show cr ∈ suites.flatMap SuiteRun.cases by simp [hcases])
  exact ⟨s, hs, cr, hmem, hcr, hrule, hrule.skip.trans (by simp [skipTestCase, hdry])⟩

/-- A test case that fails in one run makes the other run fail, too: there it fails as
well, unless it is skipped because another one failed before. -/
theorem SuitesRule.any_failed_of_source {w' : Worker} {sourcedPickles' : List PickleSource}
    {announced' : List Announcement} {suites' : List SuiteRun}
    (hindep : w.supportCodeLibrary.Independent) (hmatches : w.Matches w')
    (hoff : w.options.featureHooks = false) (hfast : w.options.failGlobalHookFast = false)
    (hdry : w.options.dryRun = false)
    (h' : w'.SuitesRule sourcedPickles' announced' suites') {a : Announcement}
    (ha : AnnouncementRule w.supportCodeLibrary w.testRunStartedId a)
    (hsource : a.source ∈ sourcedPickles') {cr : CaseRun} (hassembled : a.assembled = cr.assembled)
    (hcrFailed : w.caseFailed cr = true) (hrule : w.CaseRule false cr) (hskip : cr.skip = false) :
    (suites'.flatMap SuiteRun.cases).any w'.caseFailed = true := by
  have hoff' : w'.options.featureHooks = false := by
    obtain ⟨_,_,hoptions⟩ := hmatches
    rw [hoptions]
    exact hoff
  -- the other run announces a test case for the same pickle
  rw [← h'.sources] at hsource
  obtain ⟨a',ha',hsource'⟩ := List.mem_map.mp hsource
  have hreturn' := hmatches.hooksReturn (.inr hfast)
  have hperm' := h'.cases_perm hreturn'
  obtain ⟨cr',hcr',hassembled'⟩ := List.mem_map.mp
    (hperm'.mem_iff.mpr (List.mem_map_of_mem (f := Announcement.assembled) ha'))
  obtain ⟨pre,post,hcases⟩ := List.append_of_mem hcr'
  have hrule' := h'.threaded_cases hoff' hreturn' pre cr' post hcases
  by_cases hskip' : cr'.skip = true
  · have hpre : pre.any w'.caseFailed = true := by
      have hskipping := hrule'.skip.symm.trans hskip'
      simp only [skipTestCase, hmatches.dryRun, hdry, Bool.false_or, Bool.and_eq_true] at hskipping
      exact hskipping.2
    simp [hcases, hpre]
  · have hnot := Bool.eq_false_of_not_eq_true hskip'
    have hattempts := hrule.attempts
    have hattempts' := hrule'.attempts
    have hpickle : cr'.assembled.pickle = cr.assembled.pickle := by
      rw [hassembled', ← hassembled, Announcement.assembled, Announcement.assembled, hsource']
    have hsimilar := AnnouncementRule.similar ha (hmatches.library ▸ h'.announcement a' ha')
      (congrArg PickleSource.pickle hsource')
    rw [hskip] at hattempts
    rw [hnot, hmatches.testCaseRunner hpickle] at hattempts'
    have hstatus : cr'.status = cr.status := by
      refine hattempts.status_eq hindep ?_ hattempts'
      rw [← hassembled, hassembled']
      exact hsimilar
    exact List.any_eq_true.mpr ⟨cr', hcr', (hmatches.caseFailed hstatus).trans hcrFailed⟩

/-- A run of more pickles fails when a run of some of them does. -/
theorem SuitesRule.any_failed_of_matches {w' : Worker} {sourcedPickles' : List PickleSource}
    {announced' : List Announcement} {suites' : List SuiteRun}
    (hindep : w.supportCodeLibrary.Independent) (hmatches : w.Matches w')
    (hoff : w.options.featureHooks = false) (hfast : w.options.failGlobalHookFast = false)
    (hdry : w.options.dryRun = false) (hsubset : sourcedPickles ⊆ sourcedPickles')
    (h : w.SuitesRule sourcedPickles announced suites)
    (h' : w'.SuitesRule sourcedPickles' announced' suites')
    (hfailed : (suites.flatMap SuiteRun.cases).any w.caseFailed = true) :
    (suites'.flatMap SuiteRun.cases).any w'.caseFailed = true := by
  obtain ⟨s,hs,cr,hcr,hcrFailed,hrule,hskip⟩ :=
    h.exists_failed_unskipped hoff (.inr hfast) hdry hfailed
  obtain ⟨a,hmem,hassembled,ha⟩ := h.announcement_of_mem hs hcr
  have hsource : a.source ∈ sourcedPickles' := by
    apply hsubset
    rw [← h.sources]
    exact List.mem_map_of_mem hmem
  exact h'.any_failed_of_source hindep hmatches hoff hfast hdry ha hsource hassembled hcrFailed
    hrule hskip

end

end Worker

namespace Worker

variable {w w' : Worker} {sourcedPickles sourcedPickles' : List PickleSource}
  {report report' : RunReport}

/-- A run that returns succeeds when its before-all and after-all hooks passed, no feature hook
ended a suite and no test case failed. -/
theorem RunRule.success_iff (h : w.RunRule sourcedPickles report)
    (hdry : w.options.dryRun = false) {success : Bool} (houtcome : report.outcome = .ok success) :
    success = true ↔ (∀ h ∈ report.beforeAll ++ report.afterAll, h.result.status = .passed) ∧
      (∀ s ∈ report.suites, ∀ h ∈ s.before ++ s.after, ¬h.Aborted) ∧
      report.cases.any w.caseFailed = false := by
  cases h with
  | aborted hbefore => cases houtcome
  | @failedBefore beforeAll results afterAll r hbefore hfailing hafter =>
    have hsuccess : success = false := by
      cases r with
      | error e => cases houtcome
      | ok afterResults => exact (Except.ok.inj houtcome).symm
    have hnot := (not_congr (hbefore.failing_iff hdry)).mp
      (by simpa [hooksFailing] using hfailing)
    simp only [hsuccess, Bool.false_eq_true, false_iff, not_and]
    intro hall
    exact absurd (fun h hh => hall h (List.mem_append_left _ hh)) hnot
  | @executed beforeAll results announced suites afterAll r hbefore hfailing hsuites hafter =>
    cases r with
    | error e => cases houtcome
    | ok afterResults =>
      cases houtcome
      have hbefore' := (hbefore.failing_iff hdry).mp hfailing
      have hafter' := hafter.failing_iff hdry
      have hfailed := hsuites.any_failed_eq_false fun _ h => h
      simp only [Bool.not_eq_true', Bool.or_eq_false_iff, hfailed, hooksFailing, hafter',
        List.forall_mem_append, RunReport.cases]
      exact ⟨fun h => ⟨⟨hbefore', h.2⟩, h.1⟩, fun h => ⟨h.2, h.1.2⟩⟩

theorem RunRule.suites_not_aborted (h : w.RunRule sourcedPickles report)
    (hreturn : w.options.HooksReturn) :
    ∀ s ∈ report.suites, ∀ h ∈ s.before ++ s.after, ¬h.Aborted := by
  intro s hs h' hh' haborted
  cases h with
  | aborted hbefore => cases hs
  | failedBefore hbefore hfailing hafter => cases hs
  | executed hbefore hfailing hsuites hafter =>
    obtain ⟨_,_,_,hrule⟩ := hsuites.threaded.mem hs
    exact hrule.not_aborted hreturn ⟨h', hh', haborted⟩

/-- Where no hook can end it, a run succeeds when its hooks passed and no test case failed. -/
theorem RunRule.success_iff_of_hooksReturn (h : w.RunRule sourcedPickles report)
    (hreturn : w.options.HooksReturn) (hdry : w.options.dryRun = false) {success : Bool}
    (houtcome : report.outcome = .ok success) :
    success = true ↔ (∀ h ∈ report.beforeAll ++ report.afterAll, h.result.status = .passed) ∧
      report.cases.any w.caseFailed = false := by
  rw [h.success_iff hdry houtcome, and_iff_right (h.suites_not_aborted hreturn)]

theorem RunRule.beforeAll_rule (h : w.RunRule sourcedPickles report) :
    ∃ r, w.HooksRule .testRun w.beforeAllIds report.beforeAll r := by
  cases h with
  | aborted hbefore => exact ⟨_, hbefore⟩
  | failedBefore hbefore hfailing hafter => exact ⟨_, hbefore⟩
  | executed hbefore hfailing hsuites hafter => exact ⟨_, hbefore⟩

theorem RunRule.afterAll_rule (h : w.RunRule sourcedPickles report)
    (hreturn : w.options.HooksReturn) :
    ∃ r, w.HooksRule .testRun w.afterAllIds.reverse report.afterAll r := by
  cases h with
  | aborted hbefore => cases (hbefore.all hreturn).2
  | failedBefore hbefore hfailing hafter => exact ⟨_, hafter⟩
  | executed hbefore hfailing hsuites hafter => exact ⟨_, hafter⟩

/-- The hooks around two matching runs have the same results. -/
theorem RunRule.hooks_eq (hindep : w.supportCodeLibrary.Independent) (hmatches : w.Matches w')
    (hfast : w.options.failGlobalHookFast = false) (h : w.RunRule sourcedPickles report)
    (h' : w'.RunRule sourcedPickles' report') :
    (report'.beforeAll ++ report'.afterAll).map HookRun.result =
      (report.beforeAll ++ report.afterAll).map HookRun.result := by
  have hreturn : w.options.HooksReturn := .inr hfast
  obtain ⟨_,hbefore⟩ := h.beforeAll_rule
  obtain ⟨_,hbefore'⟩ := h'.beforeAll_rule
  obtain ⟨_,hafter⟩ := h.afterAll_rule hreturn
  obtain ⟨_,hafter'⟩ := h'.afterAll_rule (hmatches.hooksReturn hreturn)
  have hids : w'.beforeAllIds = w.beforeAllIds ∧ w'.afterAllIds = w.afterAllIds := by
    simp only [beforeAllIds, afterAllIds, hmatches.library, and_self]
  rw [hids.1] at hbefore'
  rw [hids.2] at hafter'
  rw [List.map_append, List.map_append, hbefore.results_eq hindep hmatches hreturn hbefore',
    hafter.results_eq hindep hmatches hreturn hafter']

/-- A run of some of the pickles succeeds when the run of all of them does. -/
theorem RunRule.success_of_subset (hindep : w.supportCodeLibrary.Independent)
    (hmatches : w.Matches w') (hoff : w.options.featureHooks = false)
    (hfast : w.options.failGlobalHookFast = false) (hdry : w.options.dryRun = false)
    (hsubset : sourcedPickles' ⊆ sourcedPickles) (h : w.RunRule sourcedPickles report)
    (h' : w'.RunRule sourcedPickles' report') (houtcome : report.outcome = .ok true)
    {success' : Bool} (houtcome' : report'.outcome = .ok success') : success' = true := by
  have hlibrary := hmatches.library
  obtain ⟨_,hoptions⟩ := hmatches.options
  have hoff' : w'.options.featureHooks = false := by rw [hoptions, hoff]
  have hfast' : w'.options.failGlobalHookFast = false := by rw [hoptions, hfast]
  have hdry' : w'.options.dryRun = false := by rw [hoptions, hdry]
  obtain ⟨hpassed,hcases⟩ := (h.success_iff_of_hooksReturn (.inr hfast) hdry houtcome).mp rfl
  have hhooks := h.hooks_eq hindep hmatches hfast h'
  refine (h'.success_iff_of_hooksReturn (.inr hfast') hdry' houtcome').mpr ⟨?_, ?_⟩
  · intro h₁ hh₁
    have hmem := List.mem_map_of_mem (f := HookRun.result) hh₁
    rw [hhooks] at hmem
    obtain ⟨h₂,hh₂,heq⟩ := List.mem_map.mp hmem
    rw [← heq]
    exact hpassed h₂ hh₂
  · -- a test case that fails there would have failed here
    by_contra hfailed
    rw [Bool.not_eq_false] at hfailed
    cases h' with
    | aborted hbefore => cases hfailed
    | failedBefore hbefore hfailing hafter => cases hfailed
    | executed _ _ hsuites' _ =>
      cases h with
      | aborted hbefore => cases houtcome
      | @failedBefore _ _ _ r hbefore hfailing hafter => cases r <;> cases houtcome
      | executed _ _ hsuites _ =>
        have hindep' : w'.supportCodeLibrary.Independent := by rwa [hlibrary]
        have hfailed' := hsuites'.any_failed_of_matches hindep' hmatches.symm hoff' hfast' hdry'
          hsubset hsuites hfailed
        cases hcases.symm.trans hfailed'

theorem RunRule.success_of_matches (hindep : w.supportCodeLibrary.Independent)
    (hmatches : w.Matches w') (hoff : w.options.featureHooks = false)
    (hfast : w.options.failGlobalHookFast = false) (hdry : w.options.dryRun = false)
    (hperm : sourcedPickles.Perm sourcedPickles') (h : w.RunRule sourcedPickles report)
    (h' : w'.RunRule sourcedPickles' report') (houtcome : report.outcome = .ok true)
    {success' : Bool} (houtcome' : report'.outcome = .ok success') : success' = true :=
  h.success_of_subset hindep hmatches hoff hfast hdry hperm.symm.subset h' houtcome houtcome'

end Worker

/-- A run without feature hooks succeeds exactly when it is dry, or its hooks passed
and no test case it executed failed; when user code does not look at generated
ids, neither fail-fast nor the order of the pickles makes a difference. -/
theorem run_verdict {options : RuntimeOptions} (hoptions : options.Accepted)
    (hoff : options.featureHooks = false) (hfast : options.failGlobalHookFast = false)
    (supportCodeLibrary : SupportCodeLibrary) (testRunStartedId : String)
    (sourcedPickles : List PickleSource) (world : World idGenerator Event) :
    (∃ (report : RunReport) (success : Bool),
      Worker.RunRule ⟨testRunStartedId, options, supportCodeLibrary⟩ sourcedPickles report ∧
      (run (SerialRuntimeAdapter.run testRunStartedId sourcedPickles options supportCodeLibrary)
        world).1 = .ok success ∧
      (run (SerialRuntimeAdapter.run testRunStartedId sourcedPickles options supportCodeLibrary)
        world).2.log = world.log ++ report.log ∧
      (success = true ↔ options.dryRun = true ∨
        ((∀ h ∈ report.beforeAll ++ report.afterAll, h.result.status = .passed) ∧
          ∀ cr ∈ report.cases, ¬IsFailingStatus options.strict cr.status))) ∧
    (supportCodeLibrary.Independent → ∀ (failFast : Bool) (testRunStartedId' : String)
      (sourcedPickles' : List PickleSource) (world' : World idGenerator Event),
      sourcedPickles.Perm sourcedPickles' →
      (run (SerialRuntimeAdapter.run testRunStartedId' sourcedPickles'
        { options with failFast := failFast } supportCodeLibrary) world').1 =
      (run (SerialRuntimeAdapter.run testRunStartedId sourcedPickles options supportCodeLibrary)
        world).1) := by
  let w : Worker := ⟨testRunStartedId, options, supportCodeLibrary⟩
  have hreturn : options.HooksReturn := .inr hfast
  obtain ⟨_,hlog,report,hrule,hr,rfl⟩ :=
    SerialRuntimeAdapter.emits_run hoptions testRunStartedId sourcedPickles supportCodeLibrary world
  obtain ⟨success,hsuccess⟩ := hrule.outcome_eq hreturn
  constructor
  · refine ⟨report, success, hrule, hr.trans hsuccess, hlog, ?_⟩
    by_cases hdry : options.dryRun = true
    · have hok := (hrule.of_dryRun hdry).1
      rw [hsuccess] at hok
      simp [hdry, Except.ok.inj hok]
    · have hdry' := Bool.eq_false_of_not_eq_true hdry
      rw [hrule.success_iff_of_hooksReturn hreturn hdry' hsuccess]
      have hfailing (cr : CaseRun) : w.caseFailed cr = true ↔
          IsFailingStatus options.strict cr.status := Worker.isStatusFailed_iff hdry' cr.status
      simp [hdry', hfailing, w]
  · intro hindep failFast testRunStartedId' sourcedPickles' world' hperm
    let w' : Worker :=
      ⟨testRunStartedId', { options with failFast := failFast }, supportCodeLibrary⟩
    have hoptions' : RuntimeOptions.Accepted { options with failFast := failFast } :=
      ⟨hoptions.positive, hoptions.exclusive⟩
    have hmatches : w.Matches w' := ⟨rfl, failFast, rfl⟩
    obtain ⟨_,_,report',hrule',hr',_⟩ := SerialRuntimeAdapter.emits_run hoptions' testRunStartedId'
      sourcedPickles' supportCodeLibrary world'
    obtain ⟨success',hsuccess'⟩ := hrule'.outcome_eq (hmatches.hooksReturn hreturn)
    rw [hr, hr', hsuccess, hsuccess']
    -- a dry run succeeds in any order; otherwise each run's success follows from the other's
    by_cases hdry : options.dryRun = true
    · rw [← hsuccess, ← hsuccess', (hrule.of_dryRun hdry).1, (hrule'.of_dryRun hdry).1]
    · have hdry' := Bool.eq_false_of_not_eq_true hdry
      congr 1
      rw [Bool.eq_iff_iff]
      constructor
      · intro htrue
        subst htrue
        exact hrule'.success_of_matches hindep hmatches.symm hoff hfast hdry' hperm.symm hrule
          hsuccess' hsuccess
      · intro htrue
        subst htrue
        exact hrule.success_of_matches hindep hmatches hoff hfast hdry' hperm hrule' hsuccess
          hsuccess'

/-- Two scenarios that fail, in either order and with or without fail-fast. -/
theorem run_verdict_reversed :
    (run (SerialRuntimeAdapter.run "run" failingFeatures.reverse { failFast := true }
      (.ofDefinitions [] [.constant "d" .failed])) (World.start decimalIds Event)).1 =
    (run (SerialRuntimeAdapter.run "run" failingFeatures {}
      (.ofDefinitions [] [.constant "d" .failed]))
      (World.start decimalIds Event)).1 := by
  have hoptions : RuntimeOptions.Accepted {} := ⟨by simp, by simp⟩
  have hindep : (SupportCodeLibrary.ofDefinitions []
      [.constant "d" .failed]).Independent := by
    apply SupportCodeLibrary.independent_ofDefinitions (by simp)
    intro d hd args started
    rw [List.mem_singleton.mp hd]
    rfl
  obtain ⟨_,hsame⟩ := run_verdict hoptions rfl rfl _ "run" failingFeatures
    (World.start decimalIds Event)
  exact hsame hindep true "run" failingFeatures.reverse _ (List.reverse_perm _).symm

end CucumberCpp
