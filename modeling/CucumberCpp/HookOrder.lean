import CucumberCpp.AfterHooks
import CucumberCpp.HookFailures

/-! In which order the four kinds of after hooks run. -/
namespace CucumberCpp

open EventLog

variable {idGenerator : IdGenerator}

/-- Whatever the hook executed has passed. -/
def HookRun.Passes (h : HookRun) : Prop := ∀ b ∈ h.bodies, b.result.status = .passed

/-- The hooks of a type that apply to a scope are executed in the reverse of the
order in which they are found. -/
def SupportCodeLibrary.Mirrors (supportCodeLibrary : SupportCodeLibrary) (hookType : HookType)
    (tags : Finset String) (executed : List String) : Prop :=
  executed = (supportCodeLibrary.hookRegistry.findIds hookType tags).reverse

namespace Worker

variable {w : Worker} {site : CallSite} {ids : List String} {hs : List HookRun}
  {r : Except Fault (List TestStepResult)}

theorem HookRule.hooksOf {id : String} {h : HookRun} (hrule : w.HookRule site id h)
    {hookType : HookType} {tags : Finset String}
    (hmem : id ∈ w.supportCodeLibrary.hookRegistry.findIds hookType tags) (t : HookType) :
    CucumberCpp.hooksOf t h.bodies =
      if hookType = t ∧ w.options.dryRun = false then [id] else [] := by
  obtain ⟨d',hd',hid,htype,_⟩ := HookRegistry.getDefinitionById_of_mem hmem
  cases hrule with
  | dry hd hdry => simp [hdry, CucumberCpp.hooksOf]
  | @executed d _ _ hd hdry hb hgo =>
    obtain rfl : d = d' := Except.ok.inj (hd.symm.trans hd')
    simp [hdry, CucumberCpp.hooksOf, hb, invokedHooks_ofHook, hid, htype]
  | @aborted d _ _ hd hdry hb hstatus hfast =>
    obtain rfl : d = d' := Except.ok.inj (hd.symm.trans hd')
    simp [hdry, CucumberCpp.hooksOf, hb, invokedHooks_ofHook, hid, htype]

/-- A loop over hooks of one type runs an initial part of them, in order, and no others. -/
theorem HooksRule.invoked (h : w.HooksRule site ids hs r) {hookType : HookType}
    {tags : Finset String}
    (hids : ∀ id ∈ ids, id ∈ w.supportCodeLibrary.hookRegistry.findIds hookType tags)
    (t : HookType) : invokedHooks t (hs.flatMap HookRun.log) =
      if hookType = t ∧ w.options.dryRun = false then ids.take hs.length else [] := by
  rw [invokedHooks_flatMap]
  unfold HooksRule at h
  induction h with
  | nil => split_ifs <;> rfl
  | @cons id ids h hs b r round value rest ih =>
    have hhead := round.hooksOf (hids id List.mem_cons_self) t
    rw [List.flatMap_cons, ih fun id' h' => hids id' (List.mem_cons_of_mem id h'),
      invokedHooks_hookRun]
    change CucumberCpp.hooksOf t h.bodies ++ _ = _
    rw [hhead]
    split_ifs <;> rfl
  | @abort id ids h e round fault =>
    have hhead := round.hooksOf (hids id List.mem_cons_self) t
    rw [List.flatMap_singleton, invokedHooks_hookRun]
    change CucumberCpp.hooksOf t h.bodies = _
    rw [hhead]
    split_ifs <;> simp

theorem HooksRule.invoked_of_ne (h : w.HooksRule site ids hs r) {hookType t : HookType}
    {tags : Finset String}
    (hids : ∀ id ∈ ids, id ∈ w.supportCodeLibrary.hookRegistry.findIds hookType tags)
    (hne : hookType ≠ t) : invokedHooks t (hs.flatMap HookRun.log) = [] := by
  rw [h.invoked hids, if_neg fun h => hne h.1]

theorem HooksRule.length_pos (h : w.HooksRule site ids hs r) (hids : ids ≠ []) :
    0 < hs.length := by
  unfold HooksRule at h
  cases h with
  | nil => exact absurd rfl hids
  | cons round value rest => simp
  | abort round fault => simp

theorem HooksRule.length_le (h : w.HooksRule site ids hs r) : hs.length ≤ ids.length := by
  unfold HooksRule at h
  induction h with
  | nil => exact le_rfl
  | cons round value rest ih => exact Nat.succ_le_succ ih
  | abort round fault => simp

/-- All the hooks run, in order, exactly when the loop gets through the list. -/
theorem HooksRule.invoked_eq_iff (h : w.HooksRule site ids hs r) {hookType : HookType}
    {tags : Finset String}
    (hids : ∀ id ∈ ids, id ∈ w.supportCodeLibrary.hookRegistry.findIds hookType tags) :
    invokedHooks hookType (hs.flatMap HookRun.log) = ids ↔
      ids = [] ∨ (w.options.dryRun = false ∧ hs.length = ids.length) := by
  rw [h.invoked hids]
  by_cases hdry : w.options.dryRun = true
  · simp [hdry, eq_comm]
  · have hdry' := Bool.eq_false_of_not_eq_true hdry
    have hle := h.length_le
    simp only [hdry', and_self, ↓reduceIte, true_and, List.take_eq_self_iff]
    constructor
    · intro hge
      exact .inr (by omega)
    · intro h
      rcases h with rfl | h
      · simp
      · omega

/-- A hook ends what it runs around only by not passing under `failGlobalHookFast`. -/
theorem HookRule.hookAborted_iff {id : String} {h : HookRun} (hrule : w.HookRule site id h) :
    h.Aborted ↔ w.options.dryRun = false ∧ w.options.failGlobalHookFast = true ∧ ¬h.Passes := by
  cases hrule with
  | dry hd hdry => simp [HookRun.Aborted, hdry]
  | executed hd hdry hb hgo =>
    refine iff_of_false (by simp [HookRun.Aborted]) ?_
    intro h
    obtain ⟨_,hfast,hnot⟩ := h
    have hpassed := hgo.resolve_right (by simp [hfast])
    exact hnot (by simpa [HookRun.Passes] using hpassed)
  | aborted hd hdry hb hstatus hfast => simp [HookRun.Aborted, HookRun.Passes, hdry, hfast, hstatus]

theorem HookRule.returns_iff {id : String} {h : HookRun} (hrule : w.HookRule site id h)
    (hdry : w.options.dryRun = false) :
    (∃ b, h.outcome = .ok b) ↔ (w.options.failGlobalHookFast = true → h.Passes) := by
  have haborted := not_congr hrule.hookAborted_iff
  rw [hdry, eq_self, true_and, not_and, not_not] at haborted
  rw [← haborted, HookRun.Aborted]
  cases h.outcome <;> simp

/-- The same told from what the hook reports when user code ignores ids. -/
theorem HookRule.returns_iff_reports (hindep : w.supportCodeLibrary.Independent) {id : String}
    {h : HookRun} (hrule : w.HookRule site id h) (hdry : w.options.dryRun = false) :
    (∃ b, h.outcome = .ok b) ↔ (w.options.failGlobalHookFast = true →
      ∀ status, w.supportCodeLibrary.HookReports site id status → status = .passed) := by
  rw [hrule.returns_iff hdry]
  apply imp_congr_right
  intro _
  have hreports {d : HookDefinition} {started : TestRunHookStarted} {b : BodyRun}
      (hd : w.supportCodeLibrary.hookRegistry.getDefinitionById id = .ok d)
      (hb : b = .ofHook d (globalHookArgs site started)) :
      (∀ b' ∈ [b], b'.result.status = .passed) ↔
        ∀ status, w.supportCodeLibrary.HookReports site id status → status = .passed := by
    simp only [hookReports_iff hindep hd site started, List.forall_mem_singleton, forall_eq', hb]
  cases hrule with
  | dry hd hdry' => cases hdry.symm.trans hdry'
  | executed hd _ hb hgo => exact hreports hd hb
  | aborted hd _ hb hstatus hfast => exact hreports hd hb

/-- The loop gets through the list exactly when no hook before the last one ends it. -/
theorem HooksRule.length_eq_iff (h : w.HooksRule site ids hs r)
    (hdry : w.options.dryRun = false) :
    hs.length = ids.length ↔ (w.options.failGlobalHookFast = true →
      ∀ i h', hs[i]? = some h' → i+1 < ids.length → h'.Passes) := by
  have hround (i : ℕ) (id : String) (h' : HookRun) (_ : ids[i]? = some id)
      (hi : hs[i]? = some h') (hrule : w.HookRule site id h') :
      (∃ b, h'.outcome = .ok b) ↔ ∀ h'', hs[i]? = some h'' →
        w.options.failGlobalHookFast = true → h''.Passes := by
    simp only [hi, Option.some.injEq, forall_eq', hrule.returns_iff hdry]
  rw [Collected.length_eq_iff h hround]
  constructor
  · intro hall hfast i h' hi hlt
    exact hall i ids[i] (List.getElem?_eq_getElem (by omega)) hlt h' hi hfast
  · intro hall i id _ hlt h' hi hfast
    exact hall hfast i h' hi hlt

theorem HooksRule.length_eq_iff_reports (h : w.HooksRule site ids hs r)
    (hindep : w.supportCodeLibrary.Independent) (hdry : w.options.dryRun = false) :
    hs.length = ids.length ↔ (w.options.failGlobalHookFast = true → ∀ id ∈ ids.dropLast,
      ∀ status, w.supportCodeLibrary.HookReports site id status → status = .passed) := by
  have hround (i : ℕ) (id : String) (h' : HookRun) (_ : ids[i]? = some id)
      (_ : hs[i]? = some h') (hrule : w.HookRule site id h') :
      (∃ b, h'.outcome = .ok b) ↔ (w.options.failGlobalHookFast = true →
        ∀ status, w.supportCodeLibrary.HookReports site id status → status = .passed) :=
    hrule.returns_iff_reports hindep hdry
  rw [Collected.length_eq_iff h hround]
  constructor
  · intro hall hfast id hid
    obtain ⟨i,hi⟩ := List.mem_iff_getElem?.mp hid
    rw [List.getElem?_dropLast] at hi
    split_ifs at hi with hlt
    exact hall i id hi (by omega) hfast
  · intro hall i id hi hlt hfast
    apply hall hfast id
    rw [List.mem_iff_getElem?]
    exact ⟨i, by rw [List.getElem?_dropLast, if_pos (by omega), hi]⟩

theorem HooksRule.passes_iff (h : w.HooksRule site ids hs r) (hdry : w.options.dryRun = false)
    (hfast : w.options.failGlobalHookFast = true) :
    (∀ h' ∈ hs, h'.Passes) ↔ ¬∃ h' ∈ hs, h'.Aborted := by
  push Not
  apply forall₂_congr
  intro h' hh'
  obtain ⟨id,_,hrule⟩ := h.mem hh'
  simp [hrule.hookAborted_iff, hdry, hfast]

theorem HooksRule.passes_of_ok {results : List TestStepResult}
    (h : w.HooksRule site ids hs (.ok results)) (hdry : w.options.dryRun = false)
    (hfast : w.options.failGlobalHookFast = true) : ∀ h' ∈ hs, h'.Passes :=
  (h.passes_iff hdry hfast).mpr h.not_aborted

/-- Of hooks that end what they run around, one has not passed. -/
theorem HooksRule.not_passes_of_error {e : Fault} (h : w.HooksRule site ids hs (.error e)) :
    w.options.dryRun = false ∧ w.options.failGlobalHookFast = true ∧
      ¬∀ h' ∈ hs, h'.Passes := by
  obtain ⟨h',hh',haborted⟩ := h.aborted
  obtain ⟨id,_,hrule⟩ := h.mem hh'
  obtain ⟨hdry,hfast,hnot⟩ := hrule.hookAborted_iff.mp haborted
  exact ⟨hdry, hfast, fun hpasses => hnot (hpasses h' hh')⟩

end Worker

theorem findIds_eq_reverse_iff (r : HookRegistry) (hookType : HookType) (tags : Finset String) :
    r.findIds hookType tags = (r.findIds hookType tags).reverse ↔
      (r.findIds hookType tags).length ≤ 1 :=
  eq_reverse_iff_length_le_one (r.findIds_nodup hookType tags)

theorem SupportCodeLibrary.mirrors_nil_iff (supportCodeLibrary : SupportCodeLibrary)
    (hookType : HookType) (tags : Finset String) : supportCodeLibrary.Mirrors hookType tags [] ↔
      supportCodeLibrary.hookRegistry.findIds hookType tags = [] := by
  rw [Mirrors, eq_comm, List.reverse_eq_nil_iff]

theorem Announcement.invokedHooks_log (t : HookType) (a : Announcement) :
    invokedHooks t a.log = [] := by
  rw [invokedHooks, a.events_log]
  rfl

namespace Worker

variable {w : Worker} {sourcedPickles : List PickleSource} {report : RunReport}

/-- The run gets to its after-all hooks and past each but the last of them. -/
def AfterAllReached (w : Worker) (report : RunReport) : Prop :=
  w.options.dryRun = false ∧ (w.options.failGlobalHookFast = true →
    (∀ h ∈ report.beforeAll, h.Passes) ∧
      ∀ i h, report.afterAll[i]? = some h → i+1 < w.afterAllIds.length → h.Passes)

/-- The suite gets to its after-feature hooks. -/
def AfterFeatureReached (w : Worker) (s : SuiteRun) : Prop :=
  w.options.dryRun = false ∧ w.options.featureHooks = true ∧
    (w.options.failGlobalHookFast = true → ∀ h ∈ s.before, h.Passes)

/-- `AfterAllReached`, told from what the hooks report. -/
def ReportsAfterAllReached (w : Worker) : Prop :=
  w.options.dryRun = false ∧ (w.options.failGlobalHookFast = true →
    ¬BeforeAllNotPassed w.supportCodeLibrary ∧ ∀ id ∈ w.afterAllIds.tail, ∀ status,
      w.supportCodeLibrary.HookReports .testRun id status → status = .passed)

/-- `AfterFeatureReached`, told from what the hooks report. -/
def ReportsAfterFeatureReached (w : Worker) (document : GherkinDocument) : Prop :=
  w.options.dryRun = false ∧ w.options.featureHooks = true ∧
    (w.options.failGlobalHookFast = true → ¬BeforeFeatureNotPassed w.supportCodeLibrary document)

theorem mem_afterAll_of_mem_reverse : ∀ id ∈ w.afterAllIds.reverse,
    id ∈ w.supportCodeLibrary.hookRegistry.findIds .afterAll ∅ := fun _ h => List.mem_reverse.mp h

/-- A test case runs no hooks of the kinds that run outside test cases. -/
theorem RunRule.invokedHooks_case (h : w.RunRule sourcedPickles report) {cr : CaseRun}
    (hcr : cr ∈ report.cases) {t : HookType} (ht : t.isGlobal = true) :
    invokedHooks t cr.log = [] := by
  rw [invokedHooks, List.filterMap_eq_nil_iff]
  intro e he
  have hscenario := h.not_ofGlobalHook hcr he
  cases e with
  | broadcast envelope => rfl
  | invoked call result =>
    cases call with
    | step id args => rfl
    | hook data args =>
      have hne : data.type ≠ t := by
        rintro rfl
        simp [Event.ofGlobalHook, Invocation.ofScenario, ht] at hscenario
      exact if_neg hne

theorem RunRule.invokedHooks_cases (h : w.RunRule sourcedPickles report) {s : SuiteRun}
    (hs : s ∈ report.suites) {t : HookType} (ht : t.isGlobal = true) :
    invokedHooks t (s.cases.flatMap CaseRun.log) = [] := by
  rw [invokedHooks_flatMap, List.flatMap_eq_nil_iff]
  intro cr hcr
  exact h.invokedHooks_case (List.mem_flatMap.mpr ⟨s, hs, hcr⟩) ht

/-- Which hooks around it a suite runs can be read off its hooks. -/
theorem RunRule.invokedHooks_suite (h : w.RunRule sourcedPickles report) {s : SuiteRun}
    (hs : s ∈ report.suites) : invokedHooks .afterAll s.log = [] ∧
      invokedHooks .afterFeature s.log =
        invokedHooks .afterFeature (s.after.flatMap HookRun.log) := by
  have hafterAll := h.invokedHooks_cases hs (t := .afterAll) rfl
  have hafterFeature := h.invokedHooks_cases hs (t := .afterFeature) rfl
  simp only [SuiteRun.log, invokedHooks_append, hafterAll, hafterFeature, List.append_nil]
  obtain ⟨_,hsuite⟩ := h.suiteRule hs
  cases hsuite with
  | withoutHooks hoff hcases => exact ⟨rfl, rfl⟩
  | aborted hon hbefore =>
    exact ⟨by rw [hbefore.invoked_of_ne (fun _ hid => hid) (by decide)]; rfl,
      by rw [hbefore.invoked_of_ne (fun _ hid => hid) (by decide)]; rfl⟩
  | withHooks hon hbefore hcases hafter =>
    rw [hbefore.invoked_of_ne (fun _ hid => hid) (by decide),
      hbefore.invoked_of_ne (fun _ hid => hid) (by decide),
      hafter.invoked_of_ne (fun _ hid => hid) (by decide)]
    exact ⟨rfl, rfl⟩

/-- After-all hooks run nowhere but at the end of the run. -/
theorem RunRule.invokedHooks_afterAll (h : w.RunRule sourcedPickles report) :
    invokedHooks .afterAll report.log =
      invokedHooks .afterAll (report.afterAll.flatMap HookRun.log) := by
  have hbeforeAll : invokedHooks .afterAll (report.beforeAll.flatMap HookRun.log) = [] := by
    have hloop {hs : List HookRun} {r : Except Fault (List TestStepResult)}
        (hbefore : w.HooksRule .testRun w.beforeAllIds hs r) :
        invokedHooks .afterAll (hs.flatMap HookRun.log) = [] :=
      hbefore.invoked_of_ne (fun _ hid => hid) (by decide)
    cases h with
    | aborted hbefore => exact hloop hbefore
    | failedBefore hbefore => exact hloop hbefore
    | executed hbefore => exact hloop hbefore
  have hannounced : invokedHooks .afterAll (report.announced.flatMap Announcement.log) = [] := by
    rw [invokedHooks_flatMap, List.flatMap_eq_nil_iff]
    exact fun a _ => a.invokedHooks_log .afterAll
  have hsuites : invokedHooks .afterAll (report.suites.flatMap SuiteRun.log) = [] := by
    rw [invokedHooks_flatMap, List.flatMap_eq_nil_iff]
    exact fun s hs => (h.invokedHooks_suite hs).1
  simp only [RunReport.log, invokedHooks_append, hbeforeAll, hannounced, hsuites, List.nil_append]

/-- Hooks that are called as they are found are in reverse only if that makes no difference. -/
theorem HooksRule.mirrors_iff {site : CallSite} {hookType : HookType} {tags : Finset String}
    {hs : List HookRun} {r : Except Fault (List TestStepResult)}
    (h : w.HooksRule site (w.supportCodeLibrary.hookRegistry.findIds hookType tags) hs r) :
    w.supportCodeLibrary.Mirrors hookType tags
        (invokedHooks hookType (hs.flatMap HookRun.log)) ↔
      w.supportCodeLibrary.hookRegistry.findIds hookType tags = [] ∨
        (w.options.dryRun = false ∧
          (w.supportCodeLibrary.hookRegistry.findIds hookType tags).length = 1) := by
  have hreverse := findIds_eq_reverse_iff w.supportCodeLibrary.hookRegistry hookType tags
  have hpos := h.length_pos
  rw [SupportCodeLibrary.Mirrors, h.invoked fun _ hid => hid]
  generalize w.supportCodeLibrary.hookRegistry.findIds hookType tags = ids at hreverse hpos ⊢
  by_cases hdry : w.options.dryRun = true
  · simp only [hdry, Bool.true_eq_false, and_false, false_and, ↓reduceIte, or_false]
    rw [eq_comm, List.reverse_eq_nil_iff]
  · have hdry' := Bool.eq_false_of_not_eq_true hdry
    simp only [hdry', and_self, ↓reduceIte, true_and]
    constructor
    · intro hmirrors
      -- an initial part as long as the whole is the whole
      have hlength := congrArg List.length hmirrors
      rw [List.length_take, List.length_reverse] at hlength
      rw [List.take_of_length_le (by omega)] at hmirrors
      rcases Nat.le_one_iff_eq_zero_or_eq_one.mp (hreverse.mp hmirrors) with h0 | h1
      · exact .inl (List.length_eq_zero_iff.mp h0)
      · exact .inr h1
    · intro hfew
      rcases hfew with hnil | hone
      · simp [hnil]
      · have hpos' := hpos (List.ne_nil_of_length_pos (by omega))
        rw [List.take_of_length_le (by omega)]
        exact hreverse.mpr hone.le

theorem SuiteRule.mirrored_iff {failing : Bool} {s : SuiteRun} (h : w.SuiteRule failing s) :
    w.supportCodeLibrary.Mirrors .afterFeature
        (transformTags s.suite.gherkinDocument.feature.tags)
        (invokedHooks .afterFeature (s.after.flatMap HookRun.log)) ↔
      w.afterSuiteIds s.suite = [] ∨
        ((w.afterSuiteIds s.suite).length = 1 ∧ w.AfterFeatureReached s) := by
  cases h with
  | @withoutHooks suite cases hoff hcases =>
    have hunreached : ¬w.AfterFeatureReached
        { suite := suite, cases := cases, outcome := .ok (!cases.any w.caseFailed) } := by
      intro hreached
      cases hoff.symm.trans hreached.2.1
    rw [or_iff_left fun h => hunreached h.2]
    exact w.supportCodeLibrary.mirrors_nil_iff _ _
  | @aborted suite before e hon hbefore =>
    have hunreached : ¬w.AfterFeatureReached
        { suite := suite, before := before, outcome := .error e } := by
      intro hreached
      obtain ⟨_,hfast,hnot⟩ := hbefore.not_passes_of_error
      exact hnot (hreached.2.2 hfast)
    rw [or_iff_left fun h => hunreached h.2]
    exact w.supportCodeLibrary.mirrors_nil_iff _ _
  | @withHooks suite before results cases after r hon hbefore hcases hafter =>
    have hreached : w.AfterFeatureReached
        { suite := suite
          before := before
          cases := cases
          after := after
          outcome := r.map fun _ => !cases.any w.caseFailed } ↔ w.options.dryRun = false :=
      ⟨And.left, fun hdry => ⟨hdry, hon, fun hfast => hbefore.passes_of_ok hdry hfast⟩⟩
    rw [hreached, and_comm]
    exact hafter.mirrors_iff

/-- The after-all hooks run in reverse exactly when the run gets through to the last of them. -/
theorem RunRule.mirrored_iff (h : w.RunRule sourcedPickles report) :
    w.supportCodeLibrary.Mirrors .afterAll ∅ (invokedHooks .afterAll report.log) ↔
      w.afterAllIds = [] ∨ w.AfterAllReached report := by
  rw [h.invokedHooks_afterAll]
  have hloop {beforeAll afterAll : List HookRun} {results : List TestStepResult}
      {r : Except Fault (List TestStepResult)}
      (hbefore : w.HooksRule .testRun w.beforeAllIds beforeAll (.ok results))
      (hafter : w.HooksRule .testRun w.afterAllIds.reverse afterAll r)
      (hbeforeAll : report.beforeAll = beforeAll) (hafterAll : report.afterAll = afterAll) :
      w.supportCodeLibrary.Mirrors .afterAll ∅
          (invokedHooks .afterAll (afterAll.flatMap HookRun.log)) ↔
        w.afterAllIds = [] ∨ w.AfterAllReached report := by
    rw [SupportCodeLibrary.Mirrors, ← afterAllIds,
      hafter.invoked_eq_iff w.mem_afterAll_of_mem_reverse, List.reverse_eq_nil_iff,
      AfterAllReached, hbeforeAll, hafterAll]
    apply or_congr_right
    apply and_congr_right
    intro hdry
    rw [hafter.length_eq_iff hdry, List.length_reverse]
    apply imp_congr_right
    intro hfast
    exact (and_iff_right (hbefore.passes_of_ok hdry hfast)).symm
  cases h with
  | @aborted beforeAll e hbefore =>
    have hunreached : ¬w.AfterAllReached { beforeAll := beforeAll, outcome := .error e } := by
      intro hreached
      obtain ⟨_,hfast,hnot⟩ := hbefore.not_passes_of_error
      exact hnot (hreached.2 hfast).1
    rw [or_iff_left hunreached]
    exact w.supportCodeLibrary.mirrors_nil_iff _ _
  | failedBefore hbefore hfailing hafter => exact hloop hbefore hafter rfl rfl
  | executed hbefore hfailing hsuites hafter => exact hloop hbefore hafter rfl rfl

theorem SuiteRule.afterFeatureReached_iff (hindep : w.supportCodeLibrary.Independent)
    {failing : Bool} {s : SuiteRun} (h : w.SuiteRule failing s) : w.AfterFeatureReached s ↔
      w.ReportsAfterFeatureReached s.suite.gherkinDocument := by
  rw [AfterFeatureReached, ReportsAfterFeatureReached]
  apply and_congr_right
  intro hdry
  apply and_congr_right
  intro hon
  apply imp_congr_right
  intro hfast
  have hbefore {hs : List HookRun} {r : Except Fault (List TestStepResult)}
      (hbefore : w.HooksRule (suiteSite s.suite) (w.beforeSuiteIds s.suite) hs r) :
      (∀ h ∈ hs, h.Passes) ↔
        ¬BeforeFeatureNotPassed w.supportCodeLibrary s.suite.gherkinDocument := by
    rw [hbefore.passes_iff hdry hfast, hbefore.aborted_iff hindep hdry hfast]
    rfl
  cases h with
  | withoutHooks hoff hcases => cases hoff.symm.trans hon
  | aborted _ hrule => exact hbefore hrule
  | withHooks _ hrule hcases hafter => exact hbefore hrule

theorem RunRule.afterAllReached_iff (hindep : w.supportCodeLibrary.Independent)
    (h : w.RunRule sourcedPickles report) :
    w.AfterAllReached report ↔ w.ReportsAfterAllReached := by
  rw [AfterAllReached, ReportsAfterAllReached]
  apply and_congr_right
  intro hdry
  apply imp_congr_right
  intro hfast
  have hbefore {hs : List HookRun} {r : Except Fault (List TestStepResult)}
      (hbefore : w.HooksRule .testRun w.beforeAllIds hs r) :
      (∀ h ∈ hs, h.Passes) ↔ ¬BeforeAllNotPassed w.supportCodeLibrary := by
    rw [hbefore.passes_iff hdry hfast, hbefore.aborted_iff hindep hdry hfast]
    rfl
  have hafter {hs : List HookRun} {r : Except Fault (List TestStepResult)}
      (hafter : w.HooksRule .testRun w.afterAllIds.reverse hs r) :
      (∀ i h, hs[i]? = some h → i+1 < w.afterAllIds.length → h.Passes) ↔
        ∀ id ∈ w.afterAllIds.tail, ∀ status,
          w.supportCodeLibrary.HookReports .testRun id status → status = .passed := by
    have hlength := (hafter.length_eq_iff hdry).symm.trans
      (hafter.length_eq_iff_reports hindep hdry)
    -- the hook that is called last is the one found first
    simpa only [hfast, forall_true_left, List.length_reverse, List.dropLast_reverse,
      List.mem_reverse] using hlength
  cases h with
  | aborted hrule =>
    obtain ⟨_,_,hnot⟩ := hrule.not_passes_of_error
    exact iff_of_false (fun h => hnot h.1) fun h => hnot ((hbefore hrule).mpr h.1)
  | failedBefore hrule hfailing hrule' => exact and_congr (hbefore hrule) (hafter hrule')
  | executed hrule hfailing hsuites hrule' => exact and_congr (hbefore hrule) (hafter hrule')

/-- The After hooks of an attempt run in reverse whenever they all run. -/
theorem RunRule.attempt_mirrored_iff (h : w.RunRule sourcedPickles report) {cr : CaseRun}
    (hcr : cr ∈ report.cases) {a : AttemptRun} (ha : a ∈ cr.attempts) :
    w.supportCodeLibrary.Mirrors .after (transformPickleTags cr.assembled.pickle.tags)
        (invokedHooks .after (a.log cr.assembled.testCase.id)) ↔
      w.supportCodeLibrary.hookRegistry.findIds .after
          (transformPickleTags cr.assembled.pickle.tags) = [] ∨
        (cr.skip = false ∧ (w.testCaseRunner cr.assembled cr.skip).AfterHooksReached
          a.attempt a.id) := by
  obtain ⟨hsteps,before,steps,after,hparts,hassembled⟩ := h.attempt_assembledSteps hcr ha
  obtain ⟨hids,hinvoked,hreached,hskipped⟩ := hassembled.after_hooks hsteps hparts
  have hids' : (after.map fun s => s.testStep.hookId.getD "") =
      (w.supportCodeLibrary.hookRegistry.findIds .after
        (transformPickleTags cr.assembled.pickle.tags)).reverse := hids
  have hnil : w.supportCodeLibrary.hookRegistry.findIds .after
      (transformPickleTags cr.assembled.pickle.tags) = [] ↔ after = [] := by
    rw [← List.reverse_eq_nil_iff, ← hids', List.map_eq_nil_iff]
  have hlog : invokedHooks .after (a.log cr.assembled.testCase.id) =
      (after.filter StepRun.executed).map (fun s => s.testStep.hookId.getD "") := by
    rw [invokedHooks_attemptRun]
    exact hinvoked
  rw [SupportCodeLibrary.Mirrors, hlog, ← hids', map_filter_eq_map_iff, hnil]
  by_cases hskip : cr.skip = true
  · simp only [hskip, Bool.true_eq_false, false_and, or_false]
    constructor
    · intro hall
      by_contra hne
      obtain ⟨s,hs⟩ := List.exists_mem_of_ne_nil after hne
      cases (hall s hs).symm.trans (hskipped hskip s hs)
    · intro h
      simp [h]
  · have hskip' := Bool.eq_false_of_not_eq_true hskip
    rw [← hreached hskip', hskip', eq_self, true_and]
    constructor
    · exact .inr
    · intro h
      rcases h with h | h
      · simp [h]
      · exact h

/-- The after-step hooks of a step run as they are found, whatever became of the step. -/
theorem RunRule.step_mirrored_iff (h : w.RunRule sourcedPickles report) {cr : CaseRun}
    (hcr : cr ∈ report.cases) {a : AttemptRun} (ha : a ∈ cr.attempts) {s : StepRun}
    (hs : s ∈ a.steps) (hpickle : s.isPickleStep = true) (hexecuted : s.executed = true) :
    w.supportCodeLibrary.Mirrors .afterStep (transformPickleTags cr.assembled.pickle.tags)
        (invokedHooks .afterStep (s.log a.id)) ↔
      (w.supportCodeLibrary.hookRegistry.findIds .afterStep
        (transformPickleTags cr.assembled.pickle.tags)).length ≤ 1 := by
  obtain ⟨hsteps,_⟩ := h.attempt_assembledSteps hcr ha
  obtain ⟨_,_,_,hrule⟩ := hsteps.threaded.mem hs
  rw [invokedHooks_stepRun]
  cases hrule with
  | hookSkipped hid => simp [StepRun.executed] at hexecuted
  | hookExecuted hid => simp [StepRun.isPickleStep, hid] at hpickle
  | undefined => simp [StepRun.executed] at hexecuted
  | ambiguous => simp [StepRun.executed] at hexecuted
  | stepSkipped => simp [StepRun.executed] at hexecuted
  | stepExecuted hid hstep hids hskipping hbodies =>
    have hinvoked := hbodies.hooksOf_afterStep
    rw [SupportCodeLibrary.Mirrors]
    exact (Eq.congr_left hinvoked).trans (findIds_eq_reverse_iff _ _ _)

end Worker

/-- For every scope that a run enters, exactly when its after hooks are executed in the reverse
of the order in which they are found, each once: around the run and around a scenario whenever
they all get to run, around a feature and a step only if there is no order to reverse. For the
hooks outside the test cases this is told without running anything when user code ignores
generated ids. -/
theorem after_hooks_mirrored_iff {options : RuntimeOptions} (hoptions : options.Accepted)
    (testRunStartedId : String) (sourcedPickles : List PickleSource)
    (supportCodeLibrary : SupportCodeLibrary) (world : World idGenerator Event) :
    ∃ report : RunReport,
      Worker.RunRule ⟨testRunStartedId, options, supportCodeLibrary⟩ sourcedPickles report ∧
      (run (SerialRuntimeAdapter.run testRunStartedId sourcedPickles options supportCodeLibrary)
        world).1 = report.outcome ∧
      (run (SerialRuntimeAdapter.run testRunStartedId sourcedPickles options supportCodeLibrary)
        world).2.log = world.log ++ report.log ∧
      (supportCodeLibrary.Mirrors .afterAll ∅ (invokedHooks .afterAll report.log) ↔
        supportCodeLibrary.hookRegistry.findIds .afterAll ∅ = [] ∨
          Worker.AfterAllReached ⟨testRunStartedId, options, supportCodeLibrary⟩ report) ∧
      (∀ s ∈ report.suites, supportCodeLibrary.Mirrors .afterFeature
          (transformTags s.suite.gherkinDocument.feature.tags)
          (invokedHooks .afterFeature s.log) ↔
        supportCodeLibrary.hookRegistry.findIds .afterFeature
            (transformTags s.suite.gherkinDocument.feature.tags) = [] ∨
          ((supportCodeLibrary.hookRegistry.findIds .afterFeature
              (transformTags s.suite.gherkinDocument.feature.tags)).length = 1 ∧
            Worker.AfterFeatureReached ⟨testRunStartedId, options, supportCodeLibrary⟩ s)) ∧
      (∀ cr ∈ report.cases, ∀ a ∈ cr.attempts,
        supportCodeLibrary.Mirrors .after (transformPickleTags cr.assembled.pickle.tags)
            (invokedHooks .after (a.log cr.assembled.testCase.id)) ↔
          supportCodeLibrary.hookRegistry.findIds .after
              (transformPickleTags cr.assembled.pickle.tags) = [] ∨
            (cr.skip = false ∧ (Worker.testCaseRunner ⟨testRunStartedId, options,
              supportCodeLibrary⟩ cr.assembled cr.skip).AfterHooksReached a.attempt a.id)) ∧
      (∀ cr ∈ report.cases, ∀ a ∈ cr.attempts, ∀ s ∈ a.steps,
        s.isPickleStep = true → s.executed = true →
        (supportCodeLibrary.Mirrors .afterStep (transformPickleTags cr.assembled.pickle.tags)
            (invokedHooks .afterStep (s.log a.id)) ↔
          (supportCodeLibrary.hookRegistry.findIds .afterStep
            (transformPickleTags cr.assembled.pickle.tags)).length ≤ 1)) ∧
      (supportCodeLibrary.Independent →
        (Worker.AfterAllReached ⟨testRunStartedId, options, supportCodeLibrary⟩ report ↔
          Worker.ReportsAfterAllReached ⟨testRunStartedId, options, supportCodeLibrary⟩) ∧
        ∀ s ∈ report.suites,
          (Worker.AfterFeatureReached ⟨testRunStartedId, options, supportCodeLibrary⟩ s ↔
            Worker.ReportsAfterFeatureReached ⟨testRunStartedId, options, supportCodeLibrary⟩
              s.suite.gherkinDocument)) := by
  obtain ⟨_,hlog,report,hrule,hr,rfl⟩ := SerialRuntimeAdapter.emits_run hoptions testRunStartedId
    sourcedPickles supportCodeLibrary world
  refine ⟨report, hrule, hr, hlog, hrule.mirrored_iff, fun s hs => ?_,
    fun cr hcr a ha => hrule.attempt_mirrored_iff hcr ha,
    fun cr hcr a ha s hs => hrule.step_mirrored_iff hcr ha hs,
    fun hindep => ⟨hrule.afterAllReached_iff hindep, fun s hs => ?_⟩⟩
  · obtain ⟨_,hsuite⟩ := hrule.suiteRule hs
    rw [(hrule.invokedHooks_suite hs).2]
    exact hsuite.mirrored_iff
  · obtain ⟨_,hsuite⟩ := hrule.suiteRule hs
    exact hsuite.afterFeatureReached_iff hindep

/-- Two after hooks at each level and one before-step hook. -/
def pairedHooks : SupportCodeLibrary :=
  .ofDefinitions
    [.constant "1" .afterFeature .passed, .constant "2" .afterFeature .passed,
      .constant "3" .afterStep .passed, .constant "4" .afterStep .passed,
      .constant "5" .afterAll .passed, .constant "6" .afterAll .passed,
      .constant "7" .after .passed, .constant "8" .after .passed,
      .constant "9" .beforeStep .passed]
    [.constant "d" .passed]

def pairedStep : TestStep where
  id := "1"
  pickleStepId := some "s"
  stepDefinitionIds := some ["d"]
  stepMatchArgumentsLists := some [{}]

def pairedCase : AssembledTestCase where
  pickle := { id := "p", name := "paired", steps := [{ id := "s", text := "a step" }] }
  testCase :=
    { id := "0"
      pickleId := "p"
      testRunStartedId := some "run"
      testSteps := [pairedStep, { id := "2", hookId := some "8" },
        { id := "3", hookId := some "7" }] }

def pairedOptions : RuntimeOptions := { featureHooks := true, failGlobalHookFast := true }

def pairedWorker : Worker := ⟨"run", pairedOptions, pairedHooks⟩

def pairedPickles : List PickleSource := [⟨pairedCase.pickle, { uri := "a.feature" }⟩]

theorem independent_pairedHooks : pairedHooks.Independent := by
  apply SupportCodeLibrary.independent_ofDefinitions
  · intro d hd args started
    simp only [List.mem_cons, List.not_mem_nil, or_false] at hd
    rcases hd with rfl | rfl | rfl | rfl | rfl | rfl | rfl | rfl | rfl <;> rfl
  · intro d hd args started
    rw [List.mem_singleton.mp hd]
    rfl

/-- No before-all hook is there to end the run, and the after-all hook called first passes. -/
theorem reportsAfterAllReached_paired : pairedWorker.ReportsAfterAllReached := by
  have hbeforeAll : pairedHooks.hookRegistry.findIds .beforeAll ∅ = [] := by decide
  have htail : pairedWorker.afterAllIds.tail = ["6"] := by decide
  refine ⟨rfl, fun _ => ⟨fun hnot => ?_, fun id hid status hreport => ?_⟩⟩
  · obtain ⟨id,hid,_⟩ := hnot
    change id ∈ pairedHooks.hookRegistry.findIds .beforeAll ∅ at hid
    rw [hbeforeAll] at hid
    cases hid
  · rw [htail, List.mem_singleton] at hid
    subst hid
    have hd : pairedHooks.hookRegistry.getDefinitionById "6" =
      .ok (.constant "6" .afterAll .passed) := rfl
    have hstatus := (Worker.hookReports_iff independent_pairedHooks hd .testRun ⟨"", "", ""⟩
      status).mp hreport
    exact hstatus.symm

/-- Without before-all hooks a run always gets to its suites. -/
theorem Worker.RunRule.suitesRule_of_nil {w : Worker} {sourcedPickles : List PickleSource}
    {report : RunReport} (h : w.RunRule sourcedPickles report) (hnil : w.beforeAllIds = []) :
    w.SuitesRule sourcedPickles report.announced report.suites := by
  cases h with
  | aborted hbefore =>
    rw [hnil] at hbefore
    cases hbefore
  | failedBefore hbefore hfailing hafter =>
    rw [hnil] at hbefore
    cases hbefore
    exact absurd hfailing (by simp [hooksFailing, isFailing, getWorstTestStepResult])
  | executed hbefore hfailing hsuites hafter => exact hsuites

/-- In a run over the scenario the after-all hooks are reversed and the after-feature
hooks are not. -/
theorem after_hooks_mirrored_iff_paired : ∃ report : RunReport,
    pairedWorker.RunRule pairedPickles report ∧
    (run (SerialRuntimeAdapter.run "run" pairedPickles pairedOptions pairedHooks)
      (World.start decimalIds Event)).2.log = report.log ∧
    pairedHooks.Mirrors .afterAll ∅ (invokedHooks .afterAll report.log) ∧
    ∃ s ∈ report.suites, s.suite.gherkinDocument = { uri := "a.feature" } ∧
      ¬pairedHooks.Mirrors .afterFeature ∅ (invokedHooks .afterFeature s.log) := by
  have hoptions : pairedOptions.Accepted := ⟨by simp [pairedOptions], by simp [pairedOptions]⟩
  obtain ⟨report,hrule,_,hlog,hafterAll,hafterFeature,_,_,hreports⟩ := after_hooks_mirrored_iff
    hoptions "run" pairedPickles pairedHooks (World.start decimalIds Event)
  have hreached := (hreports independent_pairedHooks).1.mpr reportsAfterAllReached_paired
  refine ⟨report, hrule, hlog, hafterAll.mpr (.inr hreached), ?_⟩
  have hsuites := hrule.suitesRule_of_nil (by decide)
  obtain ⟨s,hs,hdocument,_⟩ := hsuites.exists_suite_of_source (List.mem_singleton_self _)
  have heq : s.suite.gherkinDocument = { uri := "a.feature" } := (Option.some_inj.mp hdocument).symm
  have htags : transformTags s.suite.gherkinDocument.feature.tags = ∅ := by rw [heq]; rfl
  refine ⟨s, hs, heq, fun hmirrors => ?_⟩
  have hfound : pairedHooks.hookRegistry.findIds .afterFeature ∅ = ["1", "2"] := by decide
  rw [← htags] at hmirrors
  have hfew := (hafterFeature s hs).mp hmirrors
  rw [htags, hfound] at hfew
  -- two hooks are neither none nor one
  simp at hfew

/-- In that run neither the after-feature hooks nor the after-step hooks are reversed. -/
theorem paired_hooks_not_mirrored :
    invokedHooks .afterFeature (run (makeRuntimeAndRun pairedOptions
        pairedPickles pairedHooks) (World.start decimalIds Event)).2.log ≠
      (pairedHooks.hookRegistry.findIds .afterFeature ∅).reverse ∧
    invokedHooks .afterStep (run (makeRuntimeAndRun pairedOptions
        pairedPickles pairedHooks) (World.start decimalIds Event)).2.log ≠
      (pairedHooks.hookRegistry.findIds .afterStep ∅).reverse :=
  ⟨by decide +kernel, by decide +kernel⟩

end CucumberCpp
