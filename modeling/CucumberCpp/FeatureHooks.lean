import CucumberCpp.Verdict

/-! When a failing feature hook makes the run fail: only together with something
else that fails. -/
namespace CucumberCpp

open EventLog Grouping

variable {idGenerator : IdGenerator}

/-- A hook outside the test cases, called there, comes back with this status. -/
def SupportCodeLibrary.HookReports (supportCodeLibrary : SupportCodeLibrary) (site : CallSite)
    (id : String) (status : TestStepResultStatus) : Prop :=
  ∃ d started, supportCodeLibrary.hookRegistry.getDefinitionById id = .ok d ∧
    (BodyRun.ofHook d (Worker.globalHookArgs site started)).result.status = status

/-- The document of the feature that the pickles from a file belong to. -/
def documentOf (sourcedPickles : List PickleSource) (uri : String) : Option GherkinDocument :=
  (sourcedPickles.find? fun source => source.gherkinDocument.uri = uri).map
    (·.gherkinDocument)

section

variable (supportCodeLibrary : SupportCodeLibrary)

def AllHookNotPassed : Prop :=
  ∃ id ∈ supportCodeLibrary.hookRegistry.findIds .beforeAll ∅ ++
      supportCodeLibrary.hookRegistry.findIds .afterAll ∅,
    ∃ status, supportCodeLibrary.HookReports .testRun id status ∧ status ≠ .passed

def BeforeAllNotPassed : Prop :=
  ∃ id ∈ supportCodeLibrary.hookRegistry.findIds .beforeAll ∅, ∃ status,
    supportCodeLibrary.HookReports .testRun id status ∧ status ≠ .passed

def BeforeFeatureNotPassed (document : GherkinDocument) : Prop :=
  ∃ id ∈ supportCodeLibrary.hookRegistry.findIds .beforeFeature
      (transformTags document.feature.tags),
    ∃ status, supportCodeLibrary.HookReports (.testSuite document.uri) id status ∧ status ≠ .passed

def FeatureHookFails (document : GherkinDocument) : Prop :=
  ∃ id ∈ supportCodeLibrary.hookRegistry.findIds .beforeFeature
        (transformTags document.feature.tags) ++
      supportCodeLibrary.hookRegistry.findIds .afterFeature (transformTags document.feature.tags),
    supportCodeLibrary.HookReports (.testSuite document.uri) id .failed

/-- What `TestCaseRunner::Run` returns for a pickle. -/
def ScenarioStatus (idGenerator : IdGenerator) (options : RuntimeOptions) (pickle : Pickle)
    (skip : Bool) (status : TestStepResultStatus) : Prop :=
  ∃ assembled world, IsAssembled idGenerator supportCodeLibrary assembled ∧
    assembled.pickle = pickle ∧
    (run (Worker.testCaseRunner ⟨"", options, supportCodeLibrary⟩ assembled skip).run
      (world : World idGenerator Event)).1 = .ok status

/-- A scenario fails by itself. Under fail-fast a before-feature hook that does not pass makes
the scenario a skipped one. -/
def ScenarioFails (idGenerator : IdGenerator) (options : RuntimeOptions)
    (sourcedPickles : List PickleSource) (source : PickleSource) : Prop :=
  ∃ document skip status,
    documentOf sourcedPickles source.gherkinDocument.uri = some document ∧
    (skip = true ↔ options.failFast = true ∧ BeforeFeatureNotPassed supportCodeLibrary document) ∧
    ScenarioStatus supportCodeLibrary idGenerator options source.pickle skip status ∧
    IsFailingStatus options.strict status

end

theorem suiteOf_gherkinDocument {as : List Announcement} {uri : String} {suite : AssembledTestSuite}
    (h : suiteOf as uri = some suite) :
    documentOf (as.map Announcement.source) uri = some suite.gherkinDocument := by
  have hfind : (as.map Announcement.source).find? (fun source => source.gherkinDocument.uri = uri) =
      (group Announcement.uri as uri).head?.map Announcement.source := by
    rw [List.find?_map, group, List.head?_filter]
    rfl
  unfold suiteOf at h
  unfold documentOf
  cases hg : group Announcement.uri as uri with
  | nil => simp [hg] at h
  | cons a rest =>
    rw [hg] at h hfind
    cases h
    rw [hfind]
    rfl

/-- Every announced test case is in the suite of its file. -/
theorem exists_suiteOf {as : List Announcement} {a : Announcement} (ha : a ∈ as) :
    ∃ suite ∈ suitesOf as, suiteOf as a.uri = some suite ∧ a.assembled ∈ suite.testCases := by
  have hkey : a.uri ∈ keysOf Announcement.uri as := (mem_keysOf _ _ _).mpr ⟨a, ha, rfl⟩
  obtain ⟨suite,hsuite⟩ := Option.ne_none_iff_exists'.mp
    fun h => (suiteOf_eq_none_iff as a.uri).mp h hkey
  refine ⟨suite, List.mem_filterMap.mpr ⟨a.uri, hkey, hsuite⟩, hsuite, ?_⟩
  rw [suiteOf_testCases hsuite]
  exact List.mem_map_of_mem (List.mem_filter.mpr ⟨ha, by simp⟩)

theorem exists_announcement_of_suite {as : List Announcement} {suite : AssembledTestSuite}
    (hsuite : suite ∈ suitesOf as) : ∃ uri ∈ keysOf Announcement.uri as,
      suiteOf as uri = some suite ∧ ∀ assembled ∈ suite.testCases,
        ∃ a ∈ as, a.uri = uri ∧ a.assembled = assembled := by
  obtain ⟨uri,huri,hs⟩ := List.mem_filterMap.mp hsuite
  refine ⟨uri, huri, hs, fun assembled hmem => ?_⟩
  rw [suiteOf_testCases hs] at hmem
  obtain ⟨a,ha,hassembled⟩ := List.mem_map.mp hmem
  obtain ⟨hmem,hkey⟩ := List.mem_filter.mp ha
  exact ⟨a, hmem, by simpa using hkey, hassembled⟩

theorem exists_isAssembled (idGenerator : IdGenerator) (supportCodeLibrary : SupportCodeLibrary)
    (pickle : Pickle) : ∃ assembled, IsAssembled idGenerator supportCodeLibrary assembled ∧
      assembled.pickle = pickle := by
  let source : PickleSource := ⟨pickle, { uri := "" }⟩
  obtain ⟨_,_,as,hsources,_,hr,_⟩ := emits_assembleTestSuites supportCodeLibrary "" [source]
    (World.start idGenerator Event)
  obtain ⟨a,rfl,ha⟩ := List.map_eq_singleton_iff.mp hsources
  obtain ⟨suite,hsuite,_,hmem⟩ := exists_suiteOf (List.mem_singleton_self a)
  refine ⟨a.assembled,
    ⟨"", [source], World.start idGenerator Event, _, hr, suite, hsuite, hmem⟩, ?_⟩
  exact congrArg PickleSource.pickle ha

namespace Worker

variable {w : Worker} {sourcedPickles : List PickleSource} {announced : List Announcement}
  {suites : List SuiteRun}

/-- Every scenario has a status, whether skipped or not. -/
theorem exists_scenarioStatus (w : Worker) (idGenerator : IdGenerator) (pickle : Pickle)
    (skip : Bool) :
    ∃ status, ScenarioStatus w.supportCodeLibrary idGenerator w.options pickle skip status := by
  obtain ⟨assembled,hassembled,hpickle⟩ :=
    exists_isAssembled idGenerator w.supportCodeLibrary pickle
  have hres := w.caseResolves_of_isAssembled hassembled skip
  let c := w.testCaseRunner assembled skip
  obtain ⟨_,_,_,status,_,hr,_⟩ := c.emits_runAttempts hres c.maximumAttempts.toNat
    { status := .passed } 0 (World.start idGenerator Event)
  exact ⟨status, assembled, World.start idGenerator Event, hassembled, hpickle, hr⟩

/-- The status of a test case in a run is that of its scenario. -/
theorem CaseRule.scenarioStatus_iff (hindep : w.supportCodeLibrary.Independent) {failing : Bool}
    {cr : CaseRun} (h : w.CaseRule failing cr) {testRunStartedId : String} {a : Announcement}
    (ha : AnnouncementRule w.supportCodeLibrary testRunStartedId a)
    (hassembled : a.assembled = cr.assembled) (status : TestStepResultStatus) :
    ScenarioStatus w.supportCodeLibrary idGenerator w.options cr.assembled.pickle cr.skip status ↔
      status = cr.status := by
  have heq : ∀ status', ScenarioStatus w.supportCodeLibrary idGenerator w.options
      cr.assembled.pickle cr.skip status' → status' = cr.status := by
    intro status' hstatus
    obtain ⟨assembled',world,hassembled',hpickle,hrun⟩ := hstatus
    obtain ⟨_,a',ha',hann⟩ := hassembled'.announcement
    have hres := w.caseResolves_of_isAssembled hassembled' cr.skip
    let c := w.testCaseRunner assembled' cr.skip
    obtain ⟨_,_,attempts',_,hattempts',hr,_⟩ := c.emits_runAttempts hres
      c.maximumAttempts.toNat { status := .passed } 0 world
    cases hr.symm.trans hrun
    have hsource : a'.source.pickle = a.source.pickle := by
      rw [show a'.source.pickle = assembled'.pickle from congrArg AssembledTestCase.pickle hann,
        hpickle, ← hassembled]
      rfl
    have hsimilar := ha.similar ha' hsource
    have hself : w.Matches w := ⟨rfl, w.options.failFast, rfl⟩
    have hc : c = (w.testCaseRunner cr.assembled cr.skip).onTestCase assembled'.testCase :=
      hself.testCaseRunner hpickle cr.skip
    rw [hc] at hattempts'
    refine h.attempts.status_eq hindep ?_ hattempts'
    rw [← hassembled, ← hann]
    exact hsimilar
  constructor
  · exact heq status
  · intro hstatus
    obtain ⟨status',hstatus'⟩ :=
      w.exists_scenarioStatus idGenerator cr.assembled.pickle cr.skip
    rw [hstatus, ← heq status' hstatus']
    exact hstatus'

/-- What a hook reports anywhere is what it reports under any started id. -/
theorem hookReports_iff {supportCodeLibrary : SupportCodeLibrary}
    (hindep : supportCodeLibrary.Independent) {id : String} {d : HookDefinition}
    (hd : supportCodeLibrary.hookRegistry.getDefinitionById id = .ok d) (site : CallSite)
    (started : TestRunHookStarted) (status : TestStepResultStatus) :
    supportCodeLibrary.HookReports site id status ↔
      (BodyRun.ofHook d (globalHookArgs site started)).result.status = status := by
  constructor
  · intro h
    obtain ⟨d',started',hd',rfl⟩ := h
    obtain rfl : d = d' := Except.ok.inj (hd.symm.trans hd')
    have hsame := congrArg transformTestStepResult (hindep.hook id d hd
      (globalHookArgs site started) (.hook (transformTestRunHookStarted started')))
    exact congrArg TestStepResult.status hsame.symm
  · intro h
    exact ⟨d, started, hd, h⟩

/-- A hook outside the test cases reports the same in a run as anywhere else. -/
theorem HookRule.reports_iff (hindep : w.supportCodeLibrary.Independent)
    (hreturn : w.options.HooksReturn) (hdry : w.options.dryRun = false) {site : CallSite}
    {id : String} {h : HookRun} (hrule : w.HookRule site id h) (status : TestStepResultStatus) :
    w.supportCodeLibrary.HookReports site id status ↔ h.result.status = status := by
  cases hrule with
  | dry hd hdry' => cases hdry.symm.trans hdry'
  | executed hd _ hb hgo =>
    rw [hookReports_iff hindep hd, ← hb]
    rfl
  | aborted hd _ hb hstatus hfast =>
    rcases hreturn with h | h
    · cases hdry.symm.trans h
    · cases hfast.symm.trans h

theorem HooksRule.exists_reports_iff (hindep : w.supportCodeLibrary.Independent)
    (hreturn : w.options.HooksReturn) (hdry : w.options.dryRun = false) {site : CallSite}
    {ids : List String} {hs : List HookRun} {r : Except Fault (List TestStepResult)}
    (h : w.HooksRule site ids hs r) (P : TestStepResultStatus → Prop) :
    (∃ h' ∈ hs, P h'.result.status) ↔
      ∃ id ∈ ids, ∃ status, w.supportCodeLibrary.HookReports site id status ∧ P status := by
  have hall := (h.all hreturn).1
  clear h
  induction hall with
  | nil => simp
  | cons hrule _ ih =>
    have hhead := hrule.reports_iff hindep hreturn hdry
    simp only [List.exists_mem_cons_iff, ih, hhead, exists_eq_left']

/-- The hooks around a suite. -/
theorem SuiteRule.hooksRule (hon : w.options.featureHooks = true) (hreturn : w.options.HooksReturn)
    {failing : Bool} {s : SuiteRun} (h : w.SuiteRule failing s) :
    ∃ results r, w.HooksRule (suiteSite s.suite) (w.beforeSuiteIds s.suite) s.before (.ok results) ∧
      w.HooksRule (suiteSite s.suite) (w.afterSuiteIds s.suite) s.after r ∧
      w.CasesRule (failing || isFailing (getWorstTestStepResult results).status w.options.dryRun)
        s.suite s.cases := by
  cases h with
  | withoutHooks hoff => cases hon.symm.trans hoff
  | aborted _ hbefore => cases (hbefore.all hreturn).2
  | withHooks _ hbefore hcases hafter => exact ⟨_, _, hbefore, hafter, hcases⟩

/-- Until a test case has failed, only before-feature hooks can get one skipped. -/
theorem SuitesRule.skip_iff (h : w.SuitesRule sourcedPickles announced suites)
    (hon : w.options.featureHooks = true) (hreturn : w.options.HooksReturn)
    (hdry : w.options.dryRun = false) {spre spost : List SuiteRun} {s : SuiteRun}
    (hsuites : suites = spre ++ s :: spost) {xpre xpost : List CaseRun} {cr : CaseRun}
    (hcases : s.cases = xpre ++ cr :: xpost)
    (hpre : (spre.flatMap SuiteRun.cases ++ xpre).any w.caseFailed = false) :
    ∃ failing, w.CaseRule failing cr ∧ (cr.skip = true ↔
      w.options.failFast = true ∧ ∃ h ∈ s.before, h.result.status ≠ .passed) := by
  obtain ⟨results,_,hbefore,_,hrule⟩ := (h.threaded spre s spost hsuites).hooksRule hon hreturn
  have hcase := hrule.threaded xpre cr xpost hcases
  have hfailed := h.any_failed hreturn fun t (ht : t ∈ spre) => by simp [hsuites, ht]
  rw [List.any_append, Bool.or_eq_false_iff] at hpre
  simp only [hfailed, hpre.1, hpre.2, Bool.false_or] at hcase
  refine ⟨_, hcase, ?_⟩
  have hpassed := hbefore.failing_iff hdry
  rw [hcase.skip, skipTestCase, hdry, Bool.false_or, Bool.and_eq_true,
    ← Bool.not_eq_false (isFailing _ _)]
  simp only [hdry] at hpassed
  rw [hpassed]
  simp

/-- The suite of a test case is that of the file its pickle comes from. -/
theorem SuitesRule.exists_source (h : w.SuitesRule sourcedPickles announced suites)
    (hreturn : w.options.HooksReturn) {s : SuiteRun} (hs : s ∈ suites) {cr : CaseRun}
    (hcr : cr ∈ s.cases) : ∃ source ∈ sourcedPickles,
      source.pickle = cr.assembled.pickle ∧
      documentOf sourcedPickles source.gherkinDocument.uri = some s.suite.gherkinDocument := by
  obtain ⟨_,_,_,hrule⟩ := h.threaded.mem hs
  have hsuite : s.suite ∈ suitesOf announced := h.complete ▸ List.mem_map_of_mem hs
  obtain ⟨uri,_,hsuiteOf,hmem⟩ := exists_announcement_of_suite hsuite
  have hcase : cr.assembled ∈ s.suite.testCases :=
    hrule.complete hreturn ▸ List.mem_map_of_mem hcr
  obtain ⟨a,ha,rfl,hassembled⟩ := hmem _ hcase
  refine ⟨a.source, h.sources ▸ List.mem_map_of_mem ha,
    congrArg AssembledTestCase.pickle hassembled, ?_⟩
  rw [← h.sources]
  exact suiteOf_gherkinDocument hsuiteOf

/-- Every pickle has its test case in the suite of its file. -/
theorem SuitesRule.exists_suite_of_source (h : w.SuitesRule sourcedPickles announced suites)
    {source : PickleSource} (hsource : source ∈ sourcedPickles) : ∃ s ∈ suites,
      documentOf sourcedPickles source.gherkinDocument.uri = some s.suite.gherkinDocument ∧
      ∃ assembled ∈ s.suite.testCases, assembled.pickle = source.pickle := by
  rw [← h.sources] at hsource
  obtain ⟨a,ha,rfl⟩ := List.mem_map.mp hsource
  obtain ⟨suite,hsuite,hsuiteOf,hmem⟩ := exists_suiteOf ha
  rw [← h.complete] at hsuite
  obtain ⟨s,hs,rfl⟩ := List.mem_map.mp hsuite
  refine ⟨s, hs, ?_, a.assembled, hmem, rfl⟩
  rw [← h.sources]
  exact suiteOf_gherkinDocument hsuiteOf

/-- The test case of a pickle is executed in the suite of its file. -/
theorem SuitesRule.exists_case (h : w.SuitesRule sourcedPickles announced suites)
    (hreturn : w.options.HooksReturn) {source : PickleSource}
    (hsource : source ∈ sourcedPickles) : ∃ s ∈ suites, ∃ cr ∈ s.cases,
      cr.assembled.pickle = source.pickle ∧
      documentOf sourcedPickles source.gherkinDocument.uri = some s.suite.gherkinDocument := by
  obtain ⟨s,hs,hdocument,assembled,hmem,hpickle⟩ := h.exists_suite_of_source hsource
  obtain ⟨_,_,_,hrule⟩ := h.threaded.mem hs
  rw [← hrule.complete hreturn] at hmem
  obtain ⟨cr,hcr,rfl⟩ := List.mem_map.mp hmem
  exact ⟨s, hs, cr, hcr, hpickle, hdocument⟩

theorem SuitesRule.exists_suite (h : w.SuitesRule sourcedPickles announced suites)
    {s : SuiteRun} (hs : s ∈ suites) : ∃ source ∈ sourcedPickles,
    documentOf sourcedPickles source.gherkinDocument.uri = some s.suite.gherkinDocument := by
  have hsuite : s.suite ∈ suitesOf announced := h.complete ▸ List.mem_map_of_mem hs
  obtain ⟨uri,huri,hsuiteOf,_⟩ := exists_announcement_of_suite hsuite
  obtain ⟨a,ha,rfl⟩ := (mem_keysOf _ _ _).mp huri
  refine ⟨a.source, h.sources ▸ List.mem_map_of_mem ha, ?_⟩
  rw [← h.sources]
  exact suiteOf_gherkinDocument hsuiteOf

/-- Some test case of the run fails exactly when some scenario fails by itself. -/
theorem SuitesRule.any_failed_iff (h : w.SuitesRule sourcedPickles announced suites)
    (hindep : w.supportCodeLibrary.Independent) (hon : w.options.featureHooks = true)
    (hreturn : w.options.HooksReturn) (hdry : w.options.dryRun = false) :
    (suites.flatMap SuiteRun.cases).any w.caseFailed = true ↔ ∃ source ∈ sourcedPickles,
      ScenarioFails w.supportCodeLibrary idGenerator w.options sourcedPickles source := by
  have hbefore (s : SuiteRun) (hs : s ∈ suites) : (∃ h ∈ s.before, h.result.status ≠ .passed) ↔
      BeforeFeatureNotPassed w.supportCodeLibrary s.suite.gherkinDocument := by
    obtain ⟨_,_,_,hrule⟩ := h.threaded.mem hs
    obtain ⟨_,_,hbefore,_,_⟩ := hrule.hooksRule hon hreturn
    exact hbefore.exists_reports_iff hindep hreturn hdry (· ≠ .passed)
  have hfailing (cr : CaseRun) : w.caseFailed cr = true ↔
      IsFailingStatus w.options.strict cr.status := isStatusFailed_iff hdry cr.status
  constructor
  · intro hfailed
    -- the first failing test case is skipped only on behalf of its own suite
    obtain ⟨pre,cr,post,hcases,hcr,hpre⟩ := exists_first_of_any hfailed
    obtain ⟨spre,s,spost,xpre,xpost,hsuites,hcase,rfl,_⟩ := exists_part_of_flatMap_eq hcases
    obtain ⟨_,hrule,hskip⟩ := h.skip_iff hon hreturn hdry hsuites hcase hpre
    have hs : s ∈ suites := by simp [hsuites]
    have hmem : cr ∈ s.cases := by simp [hcase]
    obtain ⟨source,hsource,hpickle,hdocument⟩ := h.exists_source hreturn hs hmem
    obtain ⟨a,_,hassembled,ha⟩ := h.announcement_of_mem hs hmem
    rw [hbefore s hs] at hskip
    refine ⟨source, hsource, _, cr.skip, cr.status, hdocument, hskip, ?_, (hfailing cr).mp hcr⟩
    rw [hpickle]
    exact (hrule.scenarioStatus_iff hindep ha hassembled cr.status).mpr rfl
  · intro hfails
    obtain ⟨source,hsource,document,skip,status,hdocument,hskip,hstatus,hstrict⟩ := hfails
    obtain ⟨s,hs,cr,hcr,hpickle,hdocument'⟩ := h.exists_case hreturn hsource
    obtain rfl := Option.some_inj.mp (hdocument.symm.trans hdocument')
    obtain ⟨spre,spost,hsuites⟩ := List.append_of_mem hs
    obtain ⟨xpre,xpost,hcases⟩ := List.append_of_mem hcr
    by_cases hpre : (spre.flatMap SuiteRun.cases ++ xpre).any w.caseFailed = true
    · rw [hsuites, List.flatMap_append, List.flatMap_cons, hcases]
      simp only [List.any_append] at hpre ⊢
      rcases Bool.or_eq_true_iff.mp hpre with hpre | hpre <;> simp [hpre]
    · obtain ⟨_,hrule,hskip'⟩ := h.skip_iff hon hreturn hdry hsuites hcases
        (Bool.eq_false_of_not_eq_true hpre)
      obtain ⟨a,_,hassembled,ha⟩ := h.announcement_of_mem hs hcr
      have hskipEq : cr.skip = skip := by
        rw [Bool.eq_iff_iff, hskip', hskip, hbefore s hs]
      rw [← hpickle, ← hskipEq, hrule.scenarioStatus_iff hindep ha hassembled] at hstatus
      exact List.any_eq_true.mpr
        ⟨cr, List.mem_flatMap.mpr ⟨s, hs, hcr⟩, (hfailing cr).mpr (hstatus ▸ hstrict)⟩

variable {report : RunReport}

/-- A failing feature hook takes the run down exactly when something else does, too. -/
theorem RunRule.failed_hook_iff (h : w.RunRule sourcedPickles report)
    (hreturn : w.options.HooksReturn) (hdry : w.options.dryRun = false) :
    ((∃ s ∈ report.suites, ∃ h ∈ s.before ++ s.after, h.result.status = .failed) →
        report.outcome = .ok false) ↔
      (∀ s ∈ report.suites, ∀ h ∈ s.before ++ s.after, h.result.status ≠ .failed) ∨
        (∃ h ∈ report.beforeAll ++ report.afterAll, h.result.status ≠ .passed) ∨
        report.cases.any w.caseFailed = true := by
  obtain ⟨success,hsuccess⟩ := h.outcome_eq hreturn
  have hiff := h.success_iff_of_hooksReturn hreturn hdry hsuccess
  have hfalse : report.outcome = .ok false ↔
      (∃ h ∈ report.beforeAll ++ report.afterAll, h.result.status ≠ .passed) ∨
        report.cases.any w.caseFailed = true := by
    rw [hsuccess, Except.ok.injEq, ← Bool.not_eq_true, hiff, not_and_or, Bool.not_eq_false]
    simp only [not_forall, exists_prop]
  rw [hfalse, imp_iff_not_or]
  simp only [not_exists, not_and, ne_eq]

end Worker

/-- The inputs on which no failing feature hook goes unnoticed. -/
def FeatureHookNoticed (idGenerator : IdGenerator) (options : RuntimeOptions)
    (sourcedPickles : List PickleSource) (supportCodeLibrary : SupportCodeLibrary) : Prop :=
  (∀ source ∈ sourcedPickles, ∀ document,
    documentOf sourcedPickles source.gherkinDocument.uri = some document →
      ¬FeatureHookFails supportCodeLibrary document) ∨
  AllHookNotPassed supportCodeLibrary ∨
  ∃ source ∈ sourcedPickles,
    ScenarioFails supportCodeLibrary idGenerator options sourcedPickles source

namespace Worker

variable {w : Worker} {sourcedPickles : List PickleSource} {report : RunReport}

theorem RunRule.allHook_iff (h : w.RunRule sourcedPickles report)
    (hindep : w.supportCodeLibrary.Independent) (hreturn : w.options.HooksReturn)
    (hdry : w.options.dryRun = false) :
    (∃ h ∈ report.beforeAll ++ report.afterAll, h.result.status ≠ .passed) ↔
      AllHookNotPassed w.supportCodeLibrary := by
  obtain ⟨_,hbefore⟩ := h.beforeAll_rule
  obtain ⟨_,hafter⟩ := h.afterAll_rule hreturn
  have hbefore' := hbefore.exists_reports_iff hindep hreturn hdry (· ≠ .passed)
  have hafter' := hafter.exists_reports_iff hindep hreturn hdry (· ≠ .passed)
  simp only [AllHookNotPassed, List.mem_append, or_and_right, exists_or, hbefore', hafter',
    List.mem_reverse]
  rfl

theorem SuitesRule.featureHook_iff {announced : List Announcement} {suites : List SuiteRun}
    (h : w.SuitesRule sourcedPickles announced suites) (hindep : w.supportCodeLibrary.Independent)
    (hon : w.options.featureHooks = true) (hreturn : w.options.HooksReturn)
    (hdry : w.options.dryRun = false) :
    (∀ s ∈ suites, ∀ h ∈ s.before ++ s.after, h.result.status ≠ .failed) ↔
      ∀ source ∈ sourcedPickles, ∀ document,
        documentOf sourcedPickles source.gherkinDocument.uri = some document →
          ¬FeatureHookFails w.supportCodeLibrary document := by
  have hhook (s : SuiteRun) (hs : s ∈ suites) :
      (∃ h ∈ s.before ++ s.after, h.result.status = .failed) ↔
        FeatureHookFails w.supportCodeLibrary s.suite.gherkinDocument := by
    obtain ⟨_,_,_,hrule⟩ := h.threaded.mem hs
    obtain ⟨_,_,hbefore,hafter,_⟩ := hrule.hooksRule hon hreturn
    have hbefore' := hbefore.exists_reports_iff hindep hreturn hdry (· = .failed)
    have hafter' := hafter.exists_reports_iff hindep hreturn hdry (· = .failed)
    simp only [exists_eq_right] at hbefore' hafter'
    simp only [FeatureHookFails, List.mem_append, or_and_right, exists_or, hbefore', hafter']
    rfl
  constructor
  · intro hnone source hsource document hdocument hfails
    obtain ⟨s,hs,_,_,_,hdocument'⟩ := h.exists_case hreturn hsource
    obtain rfl := Option.some_inj.mp (hdocument.symm.trans hdocument')
    obtain ⟨h',hh',hfailed⟩ := (hhook s hs).mpr hfails
    exact hnone s hs h' hh' hfailed
  · intro hnone s hs h' hh' hfailed
    obtain ⟨source,hsource,hdocument⟩ := h.exists_suite hs
    exact hnone source hsource _ hdocument ((hhook s hs).mp ⟨h', hh', hfailed⟩)

theorem RunRule.noticed_iff (h : w.RunRule sourcedPickles report)
    (hindep : w.supportCodeLibrary.Independent) (hon : w.options.featureHooks = true)
    (hreturn : w.options.HooksReturn) (hdry : w.options.dryRun = false) :
    ((∃ s ∈ report.suites, ∃ h ∈ s.before ++ s.after, h.result.status = .failed) →
        report.outcome = .ok false) ↔
      FeatureHookNoticed idGenerator w.options sourcedPickles w.supportCodeLibrary := by
  rw [h.failed_hook_iff hreturn hdry, h.allHook_iff hindep hreturn hdry]
  cases h with
  | aborted hbefore => cases (hbefore.all hreturn).2
  | failedBefore hbefore hfailing hafter =>
    -- no suite was executed, but a before-all hook did not pass
    have hnot := (hbefore.failing_iff hdry).not.mp (by simpa [hooksFailing] using hfailing)
    have hall : AllHookNotPassed w.supportCodeLibrary := by
      have hrule : w.RunRule sourcedPickles _ := .failedBefore hbefore hfailing hafter
      apply (hrule.allHook_iff hindep hreturn hdry).mp
      simp only [not_forall, exists_prop] at hnot
      obtain ⟨h',hh',hpassed⟩ := hnot
      exact ⟨h', List.mem_append_left _ hh', hpassed⟩
    simp [FeatureHookNoticed, hall]
  | executed hbefore hfailing hsuites hafter =>
    have hhooks := hsuites.featureHook_iff hindep hon hreturn hdry
    rw [FeatureHookNoticed, ← hhooks, ← hsuites.any_failed_iff hindep hon hreturn hdry]
    rfl

end Worker

/-- With feature hooks on, a run in which one fails returns `false` exactly when
a before-all or after-all hook or a test case fails as well; which inputs those
are can be told without running them when user code ignores generated ids. -/
theorem failed_feature_hook_iff {options : RuntimeOptions} (hoptions : options.Accepted)
    (hon : options.featureHooks = true) (hdry : options.dryRun = false)
    (hfast : options.failGlobalHookFast = false) (supportCodeLibrary : SupportCodeLibrary)
    (testRunStartedId : String) (sourcedPickles : List PickleSource)
    (world : World idGenerator Event) :
    ∃ report : RunReport,
      Worker.RunRule ⟨testRunStartedId, options, supportCodeLibrary⟩ sourcedPickles report ∧
      (run (SerialRuntimeAdapter.run testRunStartedId sourcedPickles options supportCodeLibrary)
        world).1 = report.outcome ∧
      (run (SerialRuntimeAdapter.run testRunStartedId sourcedPickles options supportCodeLibrary)
        world).2.log = world.log ++ report.log ∧
      (((∃ s ∈ report.suites, ∃ h ∈ s.before ++ s.after, h.result.status = .failed) →
          report.outcome = .ok false) ↔
        (∀ s ∈ report.suites, ∀ h ∈ s.before ++ s.after, h.result.status ≠ .failed) ∨
          (∃ h ∈ report.beforeAll ++ report.afterAll, h.result.status ≠ .passed) ∨
          ∃ cr ∈ report.cases, IsFailingStatus options.strict cr.status) ∧
      (supportCodeLibrary.Independent →
        (((∃ s ∈ report.suites, ∃ h ∈ s.before ++ s.after, h.result.status = .failed) →
            report.outcome = .ok false) ↔
          FeatureHookNoticed idGenerator options sourcedPickles supportCodeLibrary)) := by
  let w : Worker := ⟨testRunStartedId, options, supportCodeLibrary⟩
  have hreturn : w.options.HooksReturn := .inr hfast
  obtain ⟨_,hlog,report,hrule,hr,rfl⟩ :=
    SerialRuntimeAdapter.emits_run hoptions testRunStartedId sourcedPickles supportCodeLibrary world
  refine ⟨report, hrule, hr, hlog, ?_, fun hindep => hrule.noticed_iff hindep hon hreturn hdry⟩
  have hfailing (cr : CaseRun) : w.caseFailed cr = true ↔
      IsFailingStatus options.strict cr.status := Worker.isStatusFailed_iff hdry cr.status
  have hcases : report.cases.any w.caseFailed = true ↔
      ∃ cr ∈ report.cases, IsFailingStatus options.strict cr.status := by
    simp only [List.any_eq_true, hfailing]
  rw [hrule.failed_hook_iff hreturn hdry]
  exact or_congr_right (or_congr_right hcases)

/-- A before-feature hook that fails, and one pickle without steps. -/
def unnoticedLibrary : SupportCodeLibrary :=
  .ofDefinitions [.constant "1" .beforeFeature .failed] []

def unnoticedPickles : List PickleSource :=
  [⟨{ id := "p", name := "empty" }, { uri := "a.feature" }⟩]

theorem failed_feature_hook_iff_unnoticed :
    ∃ report : RunReport,
      Worker.RunRule ⟨"run", { featureHooks := true }, unnoticedLibrary⟩ unnoticedPickles report ∧
      (((∃ s ∈ report.suites, ∃ h ∈ s.before ++ s.after, h.result.status = .failed) →
          report.outcome = .ok false) ↔
        FeatureHookNoticed decimalIds { featureHooks := true } unnoticedPickles
          unnoticedLibrary) := by
  have hoptions : RuntimeOptions.Accepted { featureHooks := true } := ⟨by simp, by simp⟩
  have hindep : unnoticedLibrary.Independent := by
    apply SupportCodeLibrary.independent_ofDefinitions ?_ (by simp)
    intro d hd args started
    rw [List.mem_singleton.mp hd]
    rfl
  obtain ⟨report,hrule,_,_,_,hnoticed⟩ := failed_feature_hook_iff hoptions rfl rfl rfl
    unnoticedLibrary "run" unnoticedPickles (World.start decimalIds Event)
  exact ⟨report, hrule, hnoticed hindep⟩

/-- The result that a hook outside the test cases finishes with. -/
def Event.hookStatus? : Event → Option TestStepResultStatus
  | .broadcast (.testRunHookFinished finished) => some finished.result.status
  | _ => none

/-- The hook fails and the run succeeds. -/
theorem failed_feature_hook_unnoticed :
    (events (run (SerialRuntimeAdapter.run "run" unnoticedPickles { featureHooks := true }
      unnoticedLibrary) (World.start decimalIds Event)).2.log).filterMap Event.hookStatus? =
        [.failed] ∧
    (run (SerialRuntimeAdapter.run "run" unnoticedPickles { featureHooks := true }
      unnoticedLibrary) (World.start decimalIds Event)).1 = .ok true := by
  exact ⟨by decide, rfl⟩

end CucumberCpp
