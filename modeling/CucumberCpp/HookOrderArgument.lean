import CucumberCpp.HookFailures
import CucumberCpp.HookOrder
import CucumberCpp.Registration

/-! Whether hooks run in the order in which they appear, and in that of their `order` arguments. -/
namespace CucumberCpp

open EventLog

variable {idGenerator : IdGenerator}

/-- In what was carried out of a sorted list two elements keep their order. -/
theorem sublist_pair_iff {α : Type} {R : α → α → Prop} (hasymm : ∀ a b, R a b → ¬R b a)
    {all done : List α} (hsorted : all.Pairwise R) (hinit : done <+: all) {x y : α} (hx : x ∈ all)
    (hy : y ∈ done) (hne : x ≠ y) : [x, y].Sublist done ↔ R x y := by
  obtain ⟨rest,rfl⟩ := hinit
  obtain ⟨hdone,_,hacross⟩ := List.pairwise_append.mp hsorted
  constructor
  · intro h
    exact List.pairwise_pair.mp (hdone.sublist h)
  · intro hxy
    -- what is not done yet is due after all that is
    have hxdone : x ∈ done := by
      rcases List.mem_append.mp hx with hx | hx
      · exact hx
      · exact absurd (hacross y hy x hx) (hasymm _ _ hxy)
    obtain ⟨l,l',rfl⟩ := List.append_of_mem hy
    have hxl : x ∈ l := by
      rcases List.mem_append.mp hxdone with hxl | hxl
      · exact hxl
      · have hxl' := List.mem_of_ne_of_mem hne hxl
        have hyx := (List.pairwise_cons.mp (List.pairwise_append.mp hdone).2.1).1 x hxl'
        exact absurd hyx (hasymm _ _ hxy)
    exact (List.singleton_sublist.mpr hxl).append (List.singleton_sublist.mpr List.mem_cons_self)

/-- The hooks of these types run in the reverse of the order in which they are found. -/
def HookType.reversed : HookType → Bool
  | .afterAll | .after => true
  | .beforeAll | .beforeFeature | .afterFeature | .before | .beforeStep | .afterStep => false

def HookType.isBefore : HookType → Bool
  | .beforeAll | .beforeFeature | .before | .beforeStep => true
  | .afterAll | .afterFeature | .after | .afterStep => false

/-- The hooks that apply, in the order in which they are to run. -/
def SupportCodeLibrary.schedule (supportCodeLibrary : SupportCodeLibrary) (hookType : HookType)
    (tags : Finset String) : List String :=
  if hookType.reversed then (supportCodeLibrary.hookRegistry.findIds hookType tags).reverse
  else supportCodeLibrary.hookRegistry.findIds hookType tags

/-- The hook due second of two: the larger order runs last before, and first after a scope. -/
def HookType.dueSecond (hookType : HookType) (smaller larger : String) : String :=
  if hookType.isBefore then larger else smaller

def HookType.dueFirst (hookType : HookType) (smaller larger : String) : String :=
  if hookType.isBefore then smaller else larger

/-- Of two hooks of a scope, given by their ids, the one with the smaller order runs first, or
last if they are after hooks. -/
def OrderHonoured (hookType : HookType) (executed : List String) (smaller larger : String) :
    Prop :=
  hookType.dueSecond smaller larger ∈ executed →
    [hookType.dueFirst smaller larger, hookType.dueSecond smaller larger].Sublist executed

/-- The ids put the two hooks in the order in which they are due. -/
def OrderAgrees : HookType → String → String → Prop
  | .beforeAll, smaller, larger | .afterAll, smaller, larger | .beforeFeature, smaller, larger
  | .before, smaller, larger | .after, smaller, larger | .beforeStep, smaller, larger =>
    smaller < larger
  | .afterFeature, smaller, larger | .afterStep, smaller, larger => larger < smaller

theorem SupportCodeLibrary.orderHonoured_iff (supportCodeLibrary : SupportCodeLibrary)
    {hookType : HookType} {tags : Finset String} {executed : List String}
    (hinit : executed <+: supportCodeLibrary.schedule hookType tags) {smaller larger : String}
    (hsmaller : smaller ∈ supportCodeLibrary.hookRegistry.findIds hookType tags)
    (hlarger : larger ∈ supportCodeLibrary.hookRegistry.findIds hookType tags)
    (hne : smaller ≠ larger) (hexecuted : hookType.dueSecond smaller larger ∈ executed) :
    OrderHonoured hookType executed smaller larger ↔ OrderAgrees hookType smaller larger := by
  have hfound := supportCodeLibrary.hookRegistry.findIds_sorted hookType tags
  rw [OrderHonoured, forall_prop_of_true hexecuted]
  have hascending {first second : String} (hall : hookType.reversed = false)
      (hfirst : first ∈ supportCodeLibrary.hookRegistry.findIds hookType tags)
      (hsecond : second ∈ executed) (hne : first ≠ second) :
      [first, second].Sublist executed ↔ first < second := by
    rw [schedule, hall] at hinit
    exact sublist_pair_iff (fun _ _ => lt_asymm) hfound hinit hfirst hsecond hne
  have hdescending {first second : String} (hall : hookType.reversed = true)
      (hfirst : first ∈ supportCodeLibrary.hookRegistry.findIds hookType tags)
      (hsecond : second ∈ executed) (hne : first ≠ second) :
      [first, second].Sublist executed ↔ second < first := by
    rw [schedule, hall] at hinit
    exact sublist_pair_iff (R := fun a b => b < a) (fun _ _ => lt_asymm)
      (List.pairwise_reverse.mpr hfound) hinit (List.mem_reverse.mpr hfirst) hsecond hne
  -- which way the type goes through what is found, and which of the two hooks is due second
  cases hookType with
  | beforeAll => exact hascending rfl hsmaller hexecuted hne
  | beforeFeature => exact hascending rfl hsmaller hexecuted hne
  | before => exact hascending rfl hsmaller hexecuted hne
  | beforeStep => exact hascending rfl hsmaller hexecuted hne
  | afterFeature => exact hascending rfl hlarger hexecuted hne.symm
  | afterStep => exact hascending rfl hlarger hexecuted hne.symm
  | afterAll => exact hdescending rfl hlarger hexecuted hne.symm
  | after => exact hdescending rfl hlarger hexecuted hne.symm

/-- A scope of a run: the type and the tags by which its hooks are selected, and the hooks
that it executed. -/
inductive RunReport.HookScope (report : RunReport) :
    HookType → Finset String → List String → Prop where
  | beforeAll : HookScope report .beforeAll ∅
      (invokedHooks .beforeAll (report.beforeAll.flatMap HookRun.log))
  | afterAll : HookScope report .afterAll ∅
      (invokedHooks .afterAll (report.afterAll.flatMap HookRun.log))
  | beforeFeature {s} (hs : s ∈ report.suites) : HookScope report .beforeFeature
      (transformTags s.suite.gherkinDocument.feature.tags)
      (invokedHooks .beforeFeature (s.before.flatMap HookRun.log))
  | afterFeature {s} (hs : s ∈ report.suites) : HookScope report .afterFeature
      (transformTags s.suite.gherkinDocument.feature.tags)
      (invokedHooks .afterFeature (s.after.flatMap HookRun.log))
  | before {cr a} (hcr : cr ∈ report.cases) (ha : a ∈ cr.attempts) : HookScope report .before
      (transformPickleTags cr.assembled.pickle.tags)
      (invokedHooks .before (a.log cr.assembled.testCase.id))
  | after {cr a} (hcr : cr ∈ report.cases) (ha : a ∈ cr.attempts) : HookScope report .after
      (transformPickleTags cr.assembled.pickle.tags)
      (invokedHooks .after (a.log cr.assembled.testCase.id))
  | beforeStep {cr a s} (hcr : cr ∈ report.cases) (ha : a ∈ cr.attempts) (hs : s ∈ a.steps) :
      HookScope report .beforeStep (transformPickleTags cr.assembled.pickle.tags)
        (invokedHooks .beforeStep (s.log a.id))
  | afterStep {cr a s} (hcr : cr ∈ report.cases) (ha : a ∈ cr.attempts) (hs : s ∈ a.steps) :
      HookScope report .afterStep (transformPickleTags cr.assembled.pickle.tags)
        (invokedHooks .afterStep (s.log a.id))

namespace TestCaseRunner

variable {c : TestCaseRunner} {attempt : UInt64} {startedId : String}

/-- Of hooks that follow one another, the ones before one that is executed are executed. -/
theorem executed_of_later {pre hooks : List StepRun} {s : StepRun}
    (h : Threaded (fun pre s => c.StepRule attempt startedId (stateAfter pre) s)
      (pre ++ hooks ++ [s]))
    (hhooks : ∀ t ∈ hooks, t.isPickleStep = false) (hs : StepRun.executed s = true) :
    ∀ t ∈ hooks, StepRun.executed t = true := by
  intro t ht
  by_contra hnot
  have hrule := h _ s [] rfl
  suffices hbodies : s.bodies = [] by simp [StepRun.executed, hbodies] at hs
  by_cases hskip : c.skip = true
  · exact (hrule.of_skip hskip (not_passed_of_skip hskip h.take)).1
  · have hskip' := Bool.eq_false_of_not_eq_true hskip
    obtain ⟨l,l',rfl⟩ := List.append_of_mem ht
    have ht' := h (pre ++ l) t (l' ++ [s]) (by simp)
    obtain ⟨hstatus,hshould⟩ := ht'.hook_not_executed (hhooks t ht)
      (by simpa [StepRun.executed] using hnot)
    -- a hook that is skipped for its place has no pickle step before it, and neither has `s`
    have hseen : (pre ++ l).any StepRun.isPickleStep = false := by
      rw [shouldSkipHook, hskip', Bool.false_or, Bool.and_eq_true, stateAfter_seenSteps] at hshould
      simpa using hshould.2
    have hnone : (pre ++ (l ++ t :: l')).any StepRun.isPickleStep = false := by
      rw [List.any_append, Bool.or_eq_false_iff] at hseen ⊢
      exact ⟨hseen.1, List.any_eq_false.mpr fun t' ht' => by simp [hhooks t' ht']⟩
    refine (hrule.of_notPassed hskip' (known_of_stepRules h.take) (.inr hnone) fun hpassed => ?_).1
    have hpass := (firstNotPassed_eq_none_iff _).mp hpassed t (by simp)
    cases hstatus.symm.trans hpass

/-- Of hooks that follow one another an initial part is executed. -/
theorem filter_executed_initial {pre hooks : List StepRun}
    (h : Threaded (fun pre s => c.StepRule attempt startedId (stateAfter pre) s) (pre ++ hooks))
    (hhooks : ∀ t ∈ hooks, t.isPickleStep = false) : hooks.filter StepRun.executed <+: hooks := by
  -- on the last hook: if it is executed, so are all before it
  induction hooks using List.reverseRecOn with
  | nil => exact List.prefix_rfl
  | append_singleton hooks s ih =>
    rw [← List.append_assoc] at h
    rw [List.filter_append]
    by_cases hs : StepRun.executed s = true
    · have hall := executed_of_later h (fun t ht => hhooks t (by simp [ht])) hs
      rw [List.filter_eq_self.mpr hall, List.filter_singleton, hs]
      exact List.prefix_rfl
    · have hinit := ih h.take fun t ht => hhooks t (by simp [ht])
      rw [List.filter_singleton, Bool.eq_false_of_not_eq_true hs]
      exact (by simpa using hinit.trans (List.prefix_append hooks [s]))

section

variable {before steps after : List StepRun}

theorem AssembledSteps.isPickleStep_of_hooks (h : AssembledSteps c before steps after) :
    (∀ s ∈ before, s.isPickleStep = false) ∧ ∀ s ∈ after, s.isPickleStep = false :=
  ⟨fun _ hs => h.isPickleStep_of_before hs, fun _ hs => h.isPickleStep_of_after hs⟩

/-- The Before hooks that an attempt executes are the first ones found. -/
theorem AssembledSteps.invoked_before_initial (h : AssembledSteps c before steps after)
    (hthreaded : Threaded (fun pre s => c.StepRule attempt startedId (stateAfter pre) s)
      (before ++ steps ++ after)) :
    ((before ++ steps ++ after).flatMap fun s => hooksOf .before s.bodies) <+:
      c.supportCodeLibrary.hookRegistry.findIds .before (transformPickleTags c.pickle.tags) := by
  have hbefore : Threaded (fun pre s => c.StepRule attempt startedId (stateAfter pre) s)
      ([] ++ before) := hthreaded.take.take
  have hinit := filter_executed_initial hbefore h.isPickleStep_of_hooks.1
  rw [h.invoked hthreaded (by decide) (by decide), ← hookIds_of_forall₂ h.before]
  simpa using hinit.map fun s => s.testStep.hookId.getD ""

/-- The After hooks that an attempt executes are the last ones found. -/
theorem AssembledSteps.invoked_after_initial (h : AssembledSteps c before steps after)
    (hthreaded : Threaded (fun pre s => c.StepRule attempt startedId (stateAfter pre) s)
      (before ++ steps ++ after)) :
    ((before ++ steps ++ after).flatMap fun s => hooksOf .after s.bodies) <+:
      (c.supportCodeLibrary.hookRegistry.findIds .after
        (transformPickleTags c.pickle.tags)).reverse := by
  have hinit : after.filter StepRun.executed <+: after :=
    filter_executed_initial hthreaded h.isPickleStep_of_hooks.2
  rw [h.invoked hthreaded (by decide) (by decide), ← hookIds_of_forall₂ h.after]
  simpa using hinit.map fun s => s.testStep.hookId.getD ""

/-- A test step runs all its before-step or after-step hooks or none of them. -/
theorem AssembledSteps.invoked_stepHooks_initial (h : AssembledSteps c before steps after)
    {state : AttemptState} {s : StepRun} (hs : s ∈ before ++ steps ++ after)
    (hrule : c.StepRule attempt startedId state s) {t : HookType}
    (ht : t = .beforeStep ∨ t = .afterStep) : hooksOf t s.bodies <+:
      c.supportCodeLibrary.hookRegistry.findIds t (transformPickleTags c.pickle.tags) := by
  have hhook {id : String} {hookType : HookType} {tags : Finset String}
      (hid : s.testStep.hookId = some id)
      (hmem : id ∈ c.supportCodeLibrary.hookRegistry.findIds hookType tags) (hne : hookType ≠ t) :
      hooksOf t s.bodies = [] := by
    rw [hrule.hooksOf_hook hid hmem, if_neg fun h => hne h.1]
  have hbefore : HookType.before ≠ t := by rcases ht with rfl | rfl <;> decide
  have hafter : HookType.after ≠ t := by rcases ht with rfl | rfl <;> decide
  rw [List.mem_append, List.mem_append] at hs
  rcases hs with (hs | hs) | hs
  · obtain ⟨id,hmem,hid⟩ := exists_left_of_forall₂ h.before hs
    rw [hhook hid hmem hbefore]
    exact List.nil_prefix
  · have hpickle := h.isPickleStep_of_step hs
    cases hrule with
    | hookSkipped => exact List.nil_prefix
    | hookExecuted hid => simp [StepRun.isPickleStep, hid] at hpickle
    | undefined => exact List.nil_prefix
    | ambiguous => exact List.nil_prefix
    | stepSkipped => exact List.nil_prefix
    | stepExecuted _ _ _ _ hbodies =>
      rw [hbodies.hooksOf]
      rcases ht with rfl | rfl <;> simp
  · obtain ⟨id,hmem,hid⟩ := exists_left_of_forall₂ h.after hs
    rw [hhook hid (List.mem_reverse.mp hmem) hafter]
    exact List.nil_prefix

end

end TestCaseRunner

namespace Worker

variable {w : Worker} {sourcedPickles : List PickleSource} {report : RunReport}

theorem HooksRule.invoked_initial {site : CallSite} {ids : List String} {hs : List HookRun}
    {r : Except Fault (List TestStepResult)} (h : w.HooksRule site ids hs r) {hookType : HookType}
    {tags : Finset String}
    (hids : ∀ id ∈ ids, id ∈ w.supportCodeLibrary.hookRegistry.findIds hookType tags) :
    invokedHooks hookType (hs.flatMap HookRun.log) <+: ids := by
  rw [h.invoked hids]
  split_ifs
  · exact List.take_prefix _ _
  · exact List.nil_prefix

/-- In every scope the hooks that are executed are the first ones of its schedule. -/
theorem RunRule.hookScope_initial (h : w.RunRule sourcedPickles report) {hookType : HookType}
    {tags : Finset String} {executed : List String}
    (hscope : report.HookScope hookType tags executed) :
    executed <+: w.supportCodeLibrary.schedule hookType tags := by
  cases hscope with
  | beforeAll =>
    cases h with
    | aborted hbefore => exact hbefore.invoked_initial fun _ h => h
    | failedBefore hbefore => exact hbefore.invoked_initial fun _ h => h
    | executed hbefore => exact hbefore.invoked_initial fun _ h => h
  | afterAll =>
    cases h with
    | aborted hbefore => exact List.nil_prefix
    | failedBefore _ _ hafter => exact hafter.invoked_initial fun _ h => List.mem_reverse.mp h
    | executed _ _ _ hafter => exact hafter.invoked_initial fun _ h => List.mem_reverse.mp h
  | beforeFeature hs =>
    obtain ⟨_,hsuite⟩ := h.suiteRule hs
    cases hsuite with
    | withoutHooks => exact List.nil_prefix
    | aborted _ hbefore => exact hbefore.invoked_initial fun _ h => h
    | withHooks _ hbefore => exact hbefore.invoked_initial fun _ h => h
  | afterFeature hs =>
    obtain ⟨_,hsuite⟩ := h.suiteRule hs
    cases hsuite with
    | withoutHooks => exact List.nil_prefix
    | aborted => exact List.nil_prefix
    | withHooks _ _ _ hafter => exact hafter.invoked_initial fun _ h => h
  | before hcr ha =>
    obtain ⟨hsteps,before,steps,after,hparts,hassembled⟩ := h.attempt_assembledSteps hcr ha
    rw [invokedHooks_attemptRun, hparts]
    exact hassembled.invoked_before_initial (hparts ▸ hsteps.threaded)
  | after hcr ha =>
    obtain ⟨hsteps,before,steps,after,hparts,hassembled⟩ := h.attempt_assembledSteps hcr ha
    rw [invokedHooks_attemptRun, hparts]
    exact hassembled.invoked_after_initial (hparts ▸ hsteps.threaded)
  | beforeStep hcr ha hs =>
    obtain ⟨hsteps,before,steps,after,hparts,hassembled⟩ := h.attempt_assembledSteps hcr ha
    obtain ⟨_,_,_,hrule⟩ := hsteps.threaded.mem hs
    rw [invokedHooks_stepRun]
    exact hassembled.invoked_stepHooks_initial (hparts ▸ hs) hrule (.inl rfl)
  | afterStep hcr ha hs =>
    obtain ⟨hsteps,before,steps,after,hparts,hassembled⟩ := h.attempt_assembledSteps hcr ha
    obtain ⟨_,_,_,hrule⟩ := hsteps.threaded.mem hs
    rw [invokedHooks_stepRun]
    exact hassembled.invoked_stepHooks_initial (hparts ▸ hs) hrule (.inr rfl)

/-- Unless a failing one can end the run, all before-all hooks are executed. -/
theorem RunRule.invoked_beforeAll (h : w.RunRule sourcedPickles report)
    (hdry : w.options.dryRun = false) (hfast : w.options.failGlobalHookFast = false) :
    invokedHooks .beforeAll (report.beforeAll.flatMap HookRun.log) = w.beforeAllIds := by
  have hall {hs : List HookRun} {r : Except Fault (List TestStepResult)}
      (hbefore : w.HooksRule .testRun w.beforeAllIds hs r) :
      invokedHooks .beforeAll (hs.flatMap HookRun.log) = w.beforeAllIds := by
    have hlength := (hbefore.all (.inr hfast)).1.length_eq
    rw [hbefore.invoked fun _ hid => hid, if_pos ⟨rfl, hdry⟩, ← hlength]
    exact List.take_length
  cases h with
  | aborted hbefore => exact hall hbefore
  | failedBefore hbefore => exact hall hbefore
  | executed hbefore => exact hall hbefore

end Worker

/-- A hook that accepts the tags is found under the id that its place gives it. -/
theorem mem_findIds_of_selected {parse : String → TagExpression} {d loaded : DefinitionRegistration}
    {start : ℕ} {hookType : HookType} {tags : Finset String}
    (hentries : loaded.entries = DefinitionRegistration.named idGenerator start d.entries)
    {i : ℕ} {e : HookEntry} (hi : d.entries[i]? = some (.hook e))
    (he : e.selected parse hookType tags = true) : idGenerator.name (start+i) ∈
      (HookRegistry.loadHooks parse loaded.getHooks).findIds hookType tags := by
  have hnamed : (DefinitionRegistration.named idGenerator start d.entries)[i]? =
      some (.hook { e with id := idGenerator.name (start+i) }) := by
    rw [DefinitionRegistration.named, List.getElem?_mapIdx, hi]
    rfl
  have hmem : { e with id := idGenerator.name (start+i) } ∈ loaded.getHooks := by
    rw [DefinitionRegistration.getHooks_of_named hentries]
    exact List.mem_filterMap.mpr ⟨_, List.mem_of_getElem? hnamed, rfl⟩
  rw [(findIds_perm_of_named hentries parse hookType tags).mem_iff]
  exact List.mem_map.mpr ⟨_, List.mem_filter.mpr ⟨hmem, he⟩, rfl⟩

/-- Where the ids increase with the places, the hooks that run before something run in the order
in which `GetHooks` lists them, by source location. -/
theorem before_hooks_in_order {options : RuntimeOptions} (hoptions : options.Accepted)
    (parse : String → TagExpression) (d : DefinitionRegistration) (stepRegistry : StepRegistry)
    (start : World idGenerator Event) :
    ∃ loaded, (run d.loadIds start).1 = .ok loaded ∧
      ∀ (testRunStartedId : String) (sourcedPickles : List PickleSource)
        (world : World idGenerator Event), ∃ report : RunReport,
      Worker.RunRule ⟨testRunStartedId, options, ⟨.loadHooks parse loaded.getHooks, stepRegistry⟩⟩
        sourcedPickles report ∧
      (run (SerialRuntimeAdapter.run testRunStartedId sourcedPickles options
          ⟨.loadHooks parse loaded.getHooks, stepRegistry⟩) world).1 = report.outcome ∧
      (run (SerialRuntimeAdapter.run testRunStartedId sourcedPickles options
          ⟨.loadHooks parse loaded.getHooks, stepRegistry⟩) world).2.log =
        world.log ++ report.log ∧
      ∀ hookType tags executed, hookType.isBefore = true →
        report.HookScope hookType tags executed →
        (∀ i j e f, i < j → d.entries[i]? = some (.hook e) → d.entries[j]? = some (.hook f) →
          e.selected parse hookType tags = true → f.selected parse hookType tags = true →
          idGenerator.name (start.next+i) < idGenerator.name (start.next+j)) →
        executed <+:
          (loaded.getHooks.filter (HookEntry.selected parse hookType tags)).map HookEntry.id := by
  obtain ⟨loaded,hload,hentries⟩ := d.run_loadIds start
  refine ⟨loaded, hload, fun testRunStartedId sourcedPickles world => ?_⟩
  obtain ⟨_,hlog,report,hrule,hr,rfl⟩ := SerialRuntimeAdapter.emits_run hoptions testRunStartedId
    sourcedPickles ⟨.loadHooks parse loaded.getHooks, stepRegistry⟩ world
  refine ⟨report, hrule, hr, hlog, ?_⟩
  intro hookType tags executed hbefore hscope hincreasing
  have hfound := (findIds_eq_iff_of_named hentries parse hookType tags).mpr hincreasing
  have hinit := hrule.hookScope_initial hscope
  have hreversed : hookType.reversed = false := by
    cases hookType <;> first | rfl | cases hbefore
  rw [SupportCodeLibrary.schedule, hreversed] at hinit
  rw [← hfound]
  exact hinit

/-- In every scope of every run: of two hooks with different orders that apply there, the
orders decide which runs first exactly when the ids, which `LoadIds` hands out by source
location, happen to be in the same order. -/
theorem hook_order_honoured_iff {options : RuntimeOptions} (hoptions : options.Accepted)
    (parse : String → TagExpression) (d : DefinitionRegistration) (stepRegistry : StepRegistry)
    (start : World idGenerator Event) :
    ∃ loaded, (run d.loadIds start).1 = .ok loaded ∧
      ∀ (testRunStartedId : String) (sourcedPickles : List PickleSource)
        (world : World idGenerator Event), ∃ report : RunReport,
      Worker.RunRule ⟨testRunStartedId, options, ⟨.loadHooks parse loaded.getHooks, stepRegistry⟩⟩
        sourcedPickles report ∧
      (run (SerialRuntimeAdapter.run testRunStartedId sourcedPickles options
          ⟨.loadHooks parse loaded.getHooks, stepRegistry⟩) world).1 = report.outcome ∧
      (run (SerialRuntimeAdapter.run testRunStartedId sourcedPickles options
          ⟨.loadHooks parse loaded.getHooks, stepRegistry⟩) world).2.log =
        world.log ++ report.log ∧
      ∀ hookType tags executed, report.HookScope hookType tags executed →
        ∀ i j e f, d.entries[i]? = some (.hook e) → d.entries[j]? = some (.hook f) →
          e.selected parse hookType tags = true → f.selected parse hookType tags = true →
          e.order < f.order →
          hookType.dueSecond (idGenerator.name (start.next+i)) (idGenerator.name (start.next+j)) ∈
            executed →
          (OrderHonoured hookType executed (idGenerator.name (start.next+i))
              (idGenerator.name (start.next+j)) ↔
            OrderAgrees hookType (idGenerator.name (start.next+i))
              (idGenerator.name (start.next+j))) := by
  obtain ⟨loaded,hload,hentries⟩ := d.run_loadIds start
  refine ⟨loaded, hload, fun testRunStartedId sourcedPickles world => ?_⟩
  obtain ⟨_,hlog,report,hrule,hr,rfl⟩ := SerialRuntimeAdapter.emits_run hoptions testRunStartedId
    sourcedPickles ⟨.loadHooks parse loaded.getHooks, stepRegistry⟩ world
  refine ⟨report, hrule, hr, hlog, ?_⟩
  intro hookType tags executed hscope i j e f hi hj he hf hlt hexecuted
  have hne : idGenerator.name (start.next+i) ≠ idGenerator.name (start.next+j) := by
    intro heq
    obtain rfl : i = j := Nat.add_left_cancel (idGenerator.distinct heq)
    cases hi.symm.trans hj
    exact lt_irrefl _ hlt
  exact SupportCodeLibrary.orderHonoured_iff _ (hrule.hookScope_initial hscope)
    (mem_findIds_of_selected hentries hi he) (mem_findIds_of_selected hentries hj hf) hne
    hexecuted

/-- Two before-all hooks on consecutive lines, the second with the smaller order. -/
def reorderedHooks : DefinitionRegistration :=
  (DefinitionRegistration.registerGlobalHook {} { order := 1 } .beforeAll (fun _ => .passed)
    (toLex ("hooks.cpp",1))).registerGlobalHook { order := 0 } .beforeAll (fun _ => .passed)
      (toLex ("hooks.cpp",2))

/-- They run by line, so the one with the smaller order runs second. -/
theorem order_not_honoured : ∃ loaded,
    (run reorderedHooks.loadIds (World.start decimalIds Event)).1 = .ok loaded ∧
    (loaded.getHooks.map fun hook => (hook.id,hook.order)) = [("0",1), ("1",0)] ∧
    invokedHooks .beforeAll (run (makeRuntimeAndRun {} []
      ⟨.loadHooks (fun _ _ => true) loaded.getHooks, .empty⟩)
        (World.start decimalIds Event)).2.log = ["0", "1"] ∧
    ¬OrderHonoured .beforeAll (invokedHooks .beforeAll (run (makeRuntimeAndRun {} []
      ⟨.loadHooks (fun _ _ => true) loaded.getHooks, .empty⟩)
        (World.start decimalIds Event)).2.log) "1" "0" := by
  refine ⟨_, rfl, rfl, by decide, fun honoured => ?_⟩
  have hsublist := honoured (by decide)
  revert hsublist
  decide

/-- In a run of these hooks both are executed, and the orders are not honoured because the
ids disagree with them. -/
theorem hook_order_honoured_iff_reordered : ∃ loaded,
    (run reorderedHooks.loadIds (World.start decimalIds Event)).1 = .ok loaded ∧
    ∃ report : RunReport,
      Worker.RunRule ⟨"run", {}, ⟨.loadHooks (fun _ _ => true) loaded.getHooks, .empty⟩⟩ []
        report ∧
      (run (SerialRuntimeAdapter.run "run" [] {}
        ⟨.loadHooks (fun _ _ => true) loaded.getHooks, .empty⟩)
          (World.start decimalIds Event)).1 = report.outcome ∧
      (run (SerialRuntimeAdapter.run "run" [] {}
        ⟨.loadHooks (fun _ _ => true) loaded.getHooks, .empty⟩)
          (World.start decimalIds Event)).2.log = report.log ∧
      invokedHooks .beforeAll (report.beforeAll.flatMap HookRun.log) = ["0", "1"] ∧
      (OrderHonoured .beforeAll (invokedHooks .beforeAll (report.beforeAll.flatMap HookRun.log))
        "1" "0" ↔ "1" < "0") ∧
      ¬OrderHonoured .beforeAll
        (invokedHooks .beforeAll (report.beforeAll.flatMap HookRun.log)) "1" "0" := by
  have hoptions : RuntimeOptions.Accepted {} := ⟨by simp, by simp⟩
  obtain ⟨loaded,hload,hruns⟩ := hook_order_honoured_iff hoptions (fun _ _ => true)
    reorderedHooks .empty (World.start decimalIds Event)
  obtain ⟨report,hrule,hr,hlog,hscopes⟩ := hruns "run" [] (World.start decimalIds Event)
  have hexecuted : invokedHooks .beforeAll (report.beforeAll.flatMap HookRun.log) =
      ["0", "1"] := by
    rw [hrule.invoked_beforeAll rfl rfl]
    cases hload
    decide
  have hiff := hscopes .beforeAll ∅ _ .beforeAll 1 0 _ _ rfl rfl rfl rfl (by decide)
    (hexecuted ▸ List.mem_cons_self)
  have hdisagrees : ¬("1" : String) < "0" := by decide
  exact ⟨loaded, hload, report, hrule, hr, hlog, hexecuted, hiff, hiff.not.mpr hdisagrees⟩

end CucumberCpp
