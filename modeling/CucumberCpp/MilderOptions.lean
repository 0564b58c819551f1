import CucumberCpp.Sharding

/-! What succeeds under some options succeeds under milder ones: with more retries, fewer
repetitions, pending steps allowed, or fewer scenarios. -/
namespace CucumberCpp

open EventLog Grouping

/-- The second options are at least as mild as the first ones. -/
structure RuntimeOptions.Milder (options options' : RuntimeOptions) : Prop where
  dryRun : options.dryRun = true → options'.dryRun = true
  strict : options'.strict = true → options.strict = true
  repeats : ∀ pickle n', options'.RepeatApplies pickle n' →
    ∃ n, n'.toNat ≤ n.toNat ∧ options.RepeatApplies pickle n
  retries : ∀ pickle, (∀ n, ¬options.RepeatApplies pickle n) →
    (∀ n', ¬options'.RepeatApplies pickle n') →
      options.retriesOf pickle ≤ options'.retriesOf pickle

theorem IsFailingStatus.of_strict {strict strict' : Bool} {s : TestStepResultStatus}
    (h : IsFailingStatus strict' s) (hstrict : strict' = true → strict = true) :
    IsFailingStatus strict s := by
  rcases h with h | h | h | ⟨hs,h⟩
  · exact .inl h
  · exact .inr (.inl h)
  · exact .inr (.inr (.inl h))
  · exact .inr (.inr (.inr ⟨hstrict hs, h⟩))

section

variable {options options' : RuntimeOptions} {pickle : Pickle} {s : ℕ → TestStepResultStatus}
  {k k' : ℕ}

/-- Without repetitions an attempt is followed by another one only when it has failed. -/
theorem AttemptCount.failed_of_lt (h : AttemptCount options pickle false s k)
    (hnone : ∀ n, ¬options.RepeatApplies pickle n) {i : ℕ} (hi : i+1 < k) : s i = .failed := by
  by_contra hne
  have hle : k ≤ i+1 := (h.retried rfl hnone).2 ⟨Nat.le_add_left 1 i, .inl hne⟩
  omega

theorem AttemptCount.pos (h : AttemptCount options pickle false s k)
    (hoptions : options.Accepted) : 0 < k := by
  by_cases hrepeat : ∃ n, options.RepeatApplies pickle n
  · obtain ⟨n,hn⟩ := hrepeat
    rw [h.repeated rfl n hn]
    apply Nat.pos_of_ne_zero
    intro hzero
    have hn0 : n = 0 := UInt64.toNat_inj.mp hzero
    exact hoptions.positive (hn0 ▸ hn.1)
  · exact (h.retried rfl (not_exists.mp hrepeat)).1.1

/-- If all attempts have the same statuses under both options, then a test case that passes
under the first ones passes under the milder ones. -/
theorem AttemptVerdict.of_milder (hmilder : options.Milder options') (hoptions : options.Accepted)
    (hcount : AttemptCount options pickle false s k)
    (hcount' : AttemptCount options' pickle false s k') {success success' : Bool}
    (h : AttemptVerdict options pickle s k success)
    (h' : AttemptVerdict options' pickle s k' success') (hsuccess : success = true) :
    success' = true := by
  by_contra hfailed'
  rw [Bool.not_eq_true] at hfailed'
  -- in each mode some attempt that the first options also make is a failing one
  suffices hfailed : success = false by
    rw [hsuccess] at hfailed
    cases hfailed
  have hpos := hcount.pos hoptions
  by_cases hrepeat' : ∃ n', options'.RepeatApplies pickle n'
  · obtain ⟨n',hn'⟩ := hrepeat'
    obtain ⟨n,hle,hn⟩ := hmilder.repeats pickle n' hn'
    obtain ⟨i,hi,hfailing⟩ := (h'.repeated n' hn').mp hfailed'
    rw [hcount'.repeated rfl n' hn'] at hi
    apply (h.repeated n hn).mpr
    refine ⟨i, ?_, hfailing.of_strict hmilder.strict⟩
    calc i < n'.toNat := hi
      _ ≤ n.toNat := hle
      _ = k := (hcount.repeated rfl n hn).symm
  have hnone' := not_exists.mp hrepeat'
  have hleast' := hcount'.retried rfl hnone'
  have hfailing' := ((h'.retried hnone').mp hfailed').of_strict hmilder.strict
  by_cases hrepeat : ∃ n, options.RepeatApplies pickle n
  · obtain ⟨n,hn⟩ := hrepeat
    apply (h.repeated n hn).mpr
    refine ⟨0, hpos, ?_⟩
    by_cases hone : k' = 1
    · rwa [hone] at hfailing'
    · have hfirst : s 0 = .failed := hcount'.failed_of_lt hnone' (by have := hleast'.1.1; omega)
      exact .inr (.inl hfirst)
  have hnone := not_exists.mp hrepeat
  have hleast := hcount.retried rfl hnone
  have hretries := hmilder.retries pickle hnone hnone'
  apply (h.retried hnone).mpr
  by_contra hpassed
  have hnotFailed : s (k-1) ≠ .failed := fun heq => hpassed (.inr (.inl heq))
  -- the last attempt under the first options is the last one under the milder ones, too
  have hle : k' ≤ k := hleast'.2 ⟨hleast.1.1, .inl hnotFailed⟩
  have hge : k ≤ k' := by
    rcases hleast'.1.2 with hne | heq
    · exact hleast.2 ⟨hleast'.1.1, .inl hne⟩
    · have hmax : k ≤ 1+options.retriesOf pickle := hleast.2 ⟨by omega, .inr rfl⟩
      omega
  rw [show k' = k by omega] at hfailing'
  exact hpassed hfailing'

end

namespace Worker

variable {w w' : Worker} {sourcedPickles sourcedPickles' : List PickleSource}
  {report report' : RunReport}

theorem alike_testCaseRunner (hlibrary : w'.supportCodeLibrary = w.supportCodeLibrary)
    {assembled assembled' : AssembledTestCase} (hpickle : assembled'.pickle = assembled.pickle)
    (skip : Bool) : (w.testCaseRunner assembled skip).Alike (w'.testCaseRunner assembled' skip) :=
  ⟨hpickle, rfl, hlibrary⟩

/-- The statuses of the attempts that were made by either of two runs of a test case. -/
def statusesOfEither (w : Worker) (cr cr' : CaseRun) (i : ℕ) : TestStepResultStatus :=
  (cr.attempts[i]? <|> cr'.attempts[i]?).elim .unknown
    (w.testCaseRunner cr.assembled cr.skip).attemptStatus

section

variable {cr cr' : CaseRun}

/-- Attempts with one number at test cases for one pickle have the same results. -/
theorem CaseRule.results_eq (hindep : w.supportCodeLibrary.Independent)
    (hlibrary : w'.supportCodeLibrary = w.supportCodeLibrary)
    (hpickle : cr'.assembled.pickle = cr.assembled.pickle)
    (hsimilar : List.Forall₂ TestStep.Similar cr.assembled.testCase.testSteps
      cr'.assembled.testCase.testSteps)
    (h : w.CaseRule false cr) (h' : w'.CaseRule false cr') (hskip : cr.skip = false)
    (hskip' : cr'.skip = false) {a a' : AttemptRun} (ha : a ∈ cr.attempts)
    (ha' : a' ∈ cr'.attempts) (hnumber : a'.attempt = a.attempt) : a'.results = a.results := by
  have hsteps := h.attempts.stepsRule a ha
  have hsteps' := h'.attempts.stepsRule a' ha'
  rw [hskip] at hsteps
  rw [hskip', hnumber] at hsteps'
  have halike := alike_testCaseRunner hlibrary hpickle false
  exact (results_eq_of_agree (hsteps.agree hindep halike hsimilar hsteps')).symm

/-- A test case that passes under some options passes under milder ones. -/
theorem CaseRule.passed_of_milder (hindep : w.supportCodeLibrary.Independent)
    (hlibrary : w'.supportCodeLibrary = w.supportCodeLibrary)
    (hmilder : w.options.Milder w'.options) (hoptions : w.options.Accepted)
    (hoptions' : w'.options.Accepted) (hretry : w.options.retry.toNat < 2^64-1)
    (hretry' : w'.options.retry.toNat < 2^64-1) (hdry : w.options.dryRun = false)
    (hdry' : w'.options.dryRun = false) (hpickle : cr'.assembled.pickle = cr.assembled.pickle)
    (hsimilar : List.Forall₂ TestStep.Similar cr.assembled.testCase.testSteps
      cr'.assembled.testCase.testSteps)
    (h : w.CaseRule false cr) (h' : w'.CaseRule false cr') (hskip : cr.skip = false)
    (hskip' : cr'.skip = false) (hpassed : w.caseFailed cr = false) :
    w'.caseFailed cr' = false := by
  have hpos : 0 < (w.testCaseRunner cr.assembled cr.skip).maximumAttempts.toNat :=
    maximumAttempts_pos hoptions hretry
  have hpos' : 0 < (w'.testCaseRunner cr'.assembled cr'.skip).maximumAttempts.toNat :=
    maximumAttempts_pos hoptions' hretry'
  have hshape := h.attempts.shape hpos (by simp)
  have hshape' := h'.attempts.shape hpos' (by simp)
  have hnumber {c : TestCaseRunner} {r : TestStepResult} {n : ℕ} {attempts : List AttemptRun}
      {status : TestStepResultStatus} (hs : c.AttemptsShape r 0 n attempts status) {i : ℕ}
      {a : AttemptRun} (ha : attempts[i]? = some a) : a.attempt.toNat = i := by
    obtain ⟨hlt,rfl⟩ := List.getElem?_eq_some_iff.mp ha
    have hi := congrArg (·[i]?) hs.numbers
    simpa [List.getElem?_range', hlt] using hi
  have hstatus (a : AttemptRun) : (w'.testCaseRunner cr'.assembled cr'.skip).attemptStatus a =
      (w.testCaseRunner cr.assembled cr.skip).attemptStatus a := by
    simp only [TestCaseRunner.attemptStatus, TestCaseRunner.getWorstStepResult, testCaseRunner,
      hskip, hskip']
  let s := w.statusesOfEither cr cr'
  have hs : ∀ i a, cr.attempts[i]? = some a →
      s i = (w.testCaseRunner cr.assembled cr.skip).attemptStatus a := by
    intro i a ha
    simp [s, statusesOfEither, ha]
  have hs' : ∀ i a, cr'.attempts[i]? = some a →
      s i = (w'.testCaseRunner cr'.assembled cr'.skip).attemptStatus a := by
    intro i a' ha'
    cases ha : cr.attempts[i]? with
    | none => simp [s, statusesOfEither, ha, ha', hstatus]
    | some a =>
      have hresults := h.results_eq hindep hlibrary hpickle hsimilar h' hskip hskip'
        (List.mem_of_getElem? ha) (List.mem_of_getElem? ha')
        (UInt64.toNat_inj.mp ((hnumber hshape' ha').trans (hnumber hshape ha).symm))
      rw [hs i a ha, hstatus, TestCaseRunner.attemptStatus, TestCaseRunner.attemptStatus, hresults]
  have hcount := AttemptsShape.count hretry hshape hs
  have hcount' := AttemptsShape.count hretry' hshape' hs'
  have hverdict := AttemptsShape.caseVerdict hdry hshape hs
  have hverdict' := AttemptsShape.caseVerdict hdry' hshape' hs'
  rw [hskip] at hcount
  rw [hskip', hpickle] at hcount'
  rw [hpickle] at hverdict'
  have hsuccess := hverdict.of_milder hmilder hoptions hcount hcount' hverdict'
    (by simpa [caseFailed] using hpassed)
  simpa [caseFailed] using hsuccess

end

/-- Of the options, hooks outside the test cases heed these two only. -/
theorem HookRule.of_options {options : RuntimeOptions} (hdry : options.dryRun = w.options.dryRun)
    (hfast : options.failGlobalHookFast = w.options.failGlobalHookFast) {site : CallSite}
    {id : String} {h : HookRun} (hrule : w.HookRule site id h) :
    Worker.HookRule { w with options := options } site id h := by
  cases hrule with
  | dry hd hdryRun => exact .dry hd (hdry.trans hdryRun)
  | executed hd hdryRun hb hgo =>
    exact .executed hd (hdry.trans hdryRun) hb (hgo.imp_right hfast.trans)
  | aborted hd hdryRun hb hstatus hfastRun =>
    exact .aborted hd (hdry.trans hdryRun) hb hstatus (hfast.trans hfastRun)

theorem HooksRule.results_eq_of_library (hindep : w.supportCodeLibrary.Independent)
    (hlibrary : w'.supportCodeLibrary = w.supportCodeLibrary)
    (hfast : w.options.failGlobalHookFast = false)
    (hfast' : w'.options.failGlobalHookFast = false)
    (hdry : w.options.dryRun = w'.options.dryRun) {site : CallSite} {ids : List String}
    {hs hs' : List HookRun} {r r' : Except Fault (List TestStepResult)}
    (h : w.HooksRule site ids hs r) (h' : w'.HooksRule site ids hs' r') :
    hs'.map HookRun.result = hs.map HookRun.result := by
  have hmatches : w.Matches { w' with options := w.options } :=
    ⟨hlibrary, w.options.failFast, rfl⟩
  have hrules : Worker.HooksRule { w' with options := w.options } site ids hs' r' :=
    Collected.mono h' fun _ _ hrule => hrule.of_options hdry (hfast.trans hfast'.symm)
  exact HooksRule.results_eq hindep hmatches (.inr hfast) h hrules

theorem RunRule.hooks_passed_of_library (hindep : w.supportCodeLibrary.Independent)
    (hlibrary : w'.supportCodeLibrary = w.supportCodeLibrary)
    (hfast : w.options.failGlobalHookFast = false)
    (hfast' : w'.options.failGlobalHookFast = false)
    (hdry : w.options.dryRun = w'.options.dryRun) (h : w.RunRule sourcedPickles report)
    (h' : w'.RunRule sourcedPickles' report')
    (hpassed : ∀ hook ∈ report.beforeAll ++ report.afterAll, hook.result.status = .passed) :
    ∀ hook ∈ report'.beforeAll ++ report'.afterAll, hook.result.status = .passed := by
  obtain ⟨_,hbefore⟩ := h.beforeAll_rule
  obtain ⟨_,hbefore'⟩ := h'.beforeAll_rule
  obtain ⟨_,hafter⟩ := h.afterAll_rule (.inr hfast)
  obtain ⟨_,hafter'⟩ := h'.afterAll_rule (.inr hfast')
  rw [show w'.beforeAllIds = w.beforeAllIds by simp only [beforeAllIds, hlibrary]] at hbefore'
  rw [show w'.afterAllIds = w.afterAllIds by simp only [afterAllIds, hlibrary]] at hafter'
  have hresults : (report'.beforeAll ++ report'.afterAll).map HookRun.result =
      (report.beforeAll ++ report.afterAll).map HookRun.result := by
    rw [List.map_append, List.map_append,
      hbefore.results_eq_of_library hindep hlibrary hfast hfast' hdry hbefore',
      hafter.results_eq_of_library hindep hlibrary hfast hfast' hdry hafter']
  intro hook hhook
  have hmem := List.mem_map_of_mem (f := HookRun.result) hhook
  rw [hresults] at hmem
  obtain ⟨hook',hhook',heq⟩ := List.mem_map.mp hmem
  rw [← heq]
  exact hpassed hook' hhook'

/-- In a successful run every test case was executed and passed. -/
theorem RunRule.exists_passed (hoff : w.options.featureHooks = false)
    (hfast : w.options.failGlobalHookFast = false) (hdry : w.options.dryRun = false)
    (h : w.RunRule sourcedPickles report) (houtcome : report.outcome = .ok true)
    {source : PickleSource} (hsource : source ∈ sourcedPickles) :
    ∃ a cr, a.source = source ∧ AnnouncementRule w.supportCodeLibrary w.testRunStartedId a ∧
      cr.assembled = a.assembled ∧ w.CaseRule false cr ∧ cr.skip = false ∧
      w.caseFailed cr = false := by
  have hreturn : w.options.HooksReturn := .inr hfast
  have hpassed := ((h.success_iff_of_hooksReturn hreturn hdry houtcome).mp rfl).2
  cases h with
  | aborted hbefore => cases houtcome
  | @failedBefore _ _ _ r hbefore hfailing hafter => cases r <;> cases houtcome
  | executed _ _ hsuites _ =>
    rw [← hsuites.sources] at hsource
    obtain ⟨a,ha,rfl⟩ := List.mem_map.mp hsource
    obtain ⟨cr,hcr,hassembled⟩ := List.mem_map.mp ((hsuites.cases_perm hreturn).mem_iff.mpr
      (List.mem_map_of_mem (f := Announcement.assembled) ha))
    obtain ⟨pre,post,hcases⟩ := List.append_of_mem hcr
    have hrule := hsuites.threaded_cases hoff hreturn pre cr post hcases
    -- nothing before it failed either, so it was not skipped
    have hnone : ∀ cr' ∈ pre ++ cr :: post, w.caseFailed cr' = false := by
      intro cr' hcr'
      rw [← hcases] at hcr'
      exact List.any_eq_false.mp hpassed cr' hcr' |> Bool.eq_false_of_not_eq_true
    have hpre : pre.any w.caseFailed = false := List.any_eq_false.mpr fun cr' hcr' => by
      simp [hnone cr' (List.mem_append_left _ hcr')]
    simp only [hpre] at hrule
    refine ⟨a, cr, rfl, hsuites.announcement a ha, hassembled, hrule, ?_, hnone cr (by simp)⟩
    rw [hrule.skip]
    simp [skipTestCase, hdry]

theorem RunRule.success_of_milder (h : w.RunRule sourcedPickles report)
    (h' : w'.RunRule sourcedPickles' report') (hindep : w.supportCodeLibrary.Independent)
    (hlibrary : w'.supportCodeLibrary = w.supportCodeLibrary)
    (hmilder : w.options.Milder w'.options) (hoptions : w.options.Accepted)
    (hoptions' : w'.options.Accepted) (hretry : w.options.retry.toNat < 2^64-1)
    (hretry' : w'.options.retry.toNat < 2^64-1) (hoff : w.options.featureHooks = false)
    (hoff' : w'.options.featureHooks = false) (hfast : w.options.failGlobalHookFast = false)
    (hfast' : w'.options.failGlobalHookFast = false) (hsubset : sourcedPickles' ⊆ sourcedPickles)
    (houtcome : report.outcome = .ok true) : report'.outcome = .ok true := by
  by_cases hdry' : w'.options.dryRun = true
  · exact (h'.of_dryRun hdry').1
  have hwet' := Bool.eq_false_of_not_eq_true hdry'
  have hwet : w.options.dryRun = false :=
    Bool.eq_false_of_not_eq_true fun hdry => hdry' (hmilder.dryRun hdry)
  obtain ⟨success',hsuccess'⟩ := h'.outcome_eq (.inr hfast')
  rw [hsuccess', show success' = true from ?_]
  apply (h'.success_iff_of_hooksReturn (.inr hfast') hwet' hsuccess').mpr
  constructor
  · apply h.hooks_passed_of_library hindep hlibrary hfast hfast' (hwet.trans hwet'.symm) h'
    exact ((h.success_iff_of_hooksReturn (.inr hfast) hwet houtcome).mp rfl).1
  · by_contra hfailed'
    rw [Bool.not_eq_false] at hfailed'
    cases h' with
    | aborted hbefore => cases hfailed'
    | failedBefore hbefore hfailing hafter => cases hfailed'
    | executed _ _ hsuites' _ =>
      obtain ⟨s',hs',cr',hcr',hcrFailed',hrule',hskip'⟩ :=
        hsuites'.exists_failed_unskipped hoff' (.inr hfast') hwet' hfailed'
      obtain ⟨a',ha',hassembled',hannouncement'⟩ := hsuites'.announcement_of_mem hs' hcr'
      have hsource : a'.source ∈ sourcedPickles := by
        apply hsubset
        rw [← hsuites'.sources]
        exact List.mem_map_of_mem ha'
      obtain ⟨a,cr,hsourceEq,hannouncement,hassembled,hrule,hskip,hcrPassed⟩ :=
        h.exists_passed hoff hfast hwet houtcome hsource
      have hpickle : cr'.assembled.pickle = cr.assembled.pickle := by
        rw [hassembled, ← hassembled', Announcement.assembled, Announcement.assembled, hsourceEq]
      have hsimilar := hannouncement.similar (hlibrary ▸ hannouncement')
        (congrArg PickleSource.pickle hsourceEq.symm)
      have hpassed' := hrule.passed_of_milder hindep hlibrary hmilder hoptions hoptions' hretry
        hretry' hwet hwet' hpickle (by rw [hassembled, ← hassembled']; exact hsimilar) hrule' hskip
        hskip' hcrPassed
      cases hpassed'.symm.trans hcrFailed'

end Worker

/-- Milder options do not make a successful run fail, nor does running fewer scenarios, when
user code does not look at generated ids. -/
theorem run_milder {idGenerator idGenerator' : IdGenerator} {options options' : RuntimeOptions}
    (hmilder : options.Milder options') (hoptions : options.Accepted)
    (hoptions' : options'.Accepted) (hretry : options.retry.toNat < 2^64-1)
    (hretry' : options'.retry.toNat < 2^64-1) (hoff : options.featureHooks = false)
    (hoff' : options'.featureHooks = false) (hfast : options.failGlobalHookFast = false)
    (hfast' : options'.failGlobalHookFast = false) {supportCodeLibrary : SupportCodeLibrary}
    (hindep : supportCodeLibrary.Independent) {sourcedPickles sourcedPickles' : List PickleSource}
    (hsubset : sourcedPickles' ⊆ sourcedPickles) (testRunStartedId testRunStartedId' : String)
    (world : World idGenerator Event) (world' : World idGenerator' Event)
    (hsuccess : (run (SerialRuntimeAdapter.run testRunStartedId sourcedPickles options
      supportCodeLibrary) world).1 = .ok true) :
    (run (SerialRuntimeAdapter.run testRunStartedId' sourcedPickles' options'
      supportCodeLibrary) world').1 = .ok true := by
  obtain ⟨_,_,report,hrule,hr,_⟩ :=
    SerialRuntimeAdapter.emits_run hoptions testRunStartedId sourcedPickles supportCodeLibrary world
  obtain ⟨_,_,report',hrule',hr',_⟩ := SerialRuntimeAdapter.emits_run hoptions' testRunStartedId'
    sourcedPickles' supportCodeLibrary world'
  rw [hr] at hsuccess
  rw [hr']
  exact Worker.RunRule.success_of_milder hrule hrule' hindep rfl hmilder hoptions hoptions' hretry
    hretry' hoff hoff' hfast hfast' hsubset hsuccess

/-- A retry more, pending steps allowed, and the scenarios in another order. -/
theorem run_milder_lenient :
    (run (SerialRuntimeAdapter.run "run" failingFeatures.reverse { retry := 1, strict := false }
      (.ofDefinitions [] [.constant "d" .passed])) (World.start decimalIds Event)).1 =
      .ok true := by
  have hindep : (SupportCodeLibrary.ofDefinitions []
      [.constant "d" .passed]).Independent := by
    apply SupportCodeLibrary.independent_ofDefinitions (by simp)
    intro d hd args started
    rw [List.mem_singleton.mp hd]
    rfl
  have hmilder : RuntimeOptions.Milder {} { retry := 1, strict := false } :=
    { dryRun := by simp
      strict := by simp
      repeats := by simp [RuntimeOptions.RepeatApplies]
      retries := by simp [RuntimeOptions.retriesOf] }
  have hsuccess : (run (SerialRuntimeAdapter.run "run" failingFeatures {}
      (.ofDefinitions [] [.constant "d" .passed])) (World.start decimalIds Event)).1 =
        .ok true := by
    decide +kernel
  exact run_milder hmilder ⟨by simp, by simp⟩ ⟨by simp, by simp⟩ (by decide) (by decide) rfl rfl
    rfl rfl hindep (List.reverse_perm _).subset "run" "run" _ _ hsuccess

end CucumberCpp
