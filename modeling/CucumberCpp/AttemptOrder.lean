import CucumberCpp.RunRefinement

/-! Which test steps of an attempt are executed: nothing but After hooks once a
result is not a pass. -/
namespace CucumberCpp

open EventLog

variable {idGenerator : IdGenerator}

namespace TestCaseRunner

variable {c : TestCaseRunner} {attempt : UInt64} {startedId : String}

/-- Every result that is recorded says something. -/
theorem StepRule.known {state : AttemptState} {s : StepRun}
    (h : c.StepRule attempt startedId state s) : s.result.status ≠ .unknown := by
  cases h with
  | hookSkipped hhook hskip => exact fun h => by cases h
  | hookExecuted hhook hskip hd hb => exact BodyRun.result_known _
  | undefined hhook hstep hids hfollows id => exact fun h => by cases h
  | ambiguous hhook hstep hids hmany hfollows => exact fun h => by cases h
  | stepSkipped hhook hstep hids hcount hskipping => exact fun h => by cases h
  | @stepExecuted testStep pickleStep id bodies hhook hstep hids hskipping hbodies =>
    change (getWorstTestStepResult (bodies.map BodyRun.result)).status ≠ .unknown
    rcases eq_or_ne bodies [] with rfl | hne
    · exact fun h => by cases h
    · have hne' : bodies.map BodyRun.result ≠ [] := by simpa using hne
      have hmem := getWorstTestStepResult_mem hne'
      obtain ⟨b,_,hb⟩ := List.mem_map.mp hmem
      rw [← hb]
      exact b.result_known

theorem known_of_stepRules {steps : List StepRun}
    (h : Threaded (fun pre s => c.StepRule attempt startedId (stateAfter pre) s) steps) :
    ∀ s ∈ steps, s.result.status ≠ .unknown := by
  intro s hs
  obtain ⟨_,_,_,hrule⟩ := h.mem hs
  exact hrule.known

theorem getWorstStepResult_of_not_skip (hskip : c.skip = false) (rs : List TestStepResult) :
    c.getWorstStepResult rs = getWorstTestStepResult rs := by
  unfold getWorstStepResult
  cases rs with
  | nil => simp [hskip, getWorstTestStepResult_nil]
  | cons r rs => rfl

/-- The first result so far that is not a pass. -/
def firstNotPassed (steps : List StepRun) : Option StepRun :=
  steps.find? fun s => s.result.status != .passed

theorem firstNotPassed_eq_none_iff (steps : List StepRun) :
    firstNotPassed steps = none ↔ ∀ s ∈ steps, s.result.status = .passed := by
  simp [firstNotPassed]

theorem firstNotPassed_spec {steps : List StepRun} {r : StepRun}
    (h : firstNotPassed steps = some r) : r ∈ steps ∧ r.result.status ≠ .passed := by
  refine ⟨List.mem_of_find?_eq_some h, ?_⟩
  simpa using List.find?_some h

theorem isSkippingSteps_iff (hskip : c.skip = false) {steps : List StepRun}
    (hknown : ∀ s ∈ steps, s.result.status ≠ .unknown) :
    c.isSkippingSteps (steps.map StepRun.result) = true ↔ firstNotPassed steps ≠ none := by
  have hknown' : ∀ r ∈ steps.map StepRun.result, r.status ≠ .unknown := by
    simpa using hknown
  rw [ne_eq, firstNotPassed_eq_none_iff, isSkippingSteps, getWorstStepResult_of_not_skip hskip,
    bne_iff_ne, ne_eq, getWorstTestStepResult_passed_iff hknown']
  simp

theorem not_isSkippingSteps (hskip : c.skip = false) {steps : List StepRun}
    (hknown : ∀ s ∈ steps, s.result.status ≠ .unknown) (hnone : firstNotPassed steps = none) :
    c.isSkippingSteps (steps.map StepRun.result) = false := by
  rw [← Bool.not_eq_true, isSkippingSteps_iff hskip hknown, not_not]
  exact hnone

theorem followsSkippedStep_iff (hskip : c.skip = false) (steps : List StepRun) :
    c.followsSkippedStep (steps.map StepRun.result) = true ↔
      (getWorstTestStepResult (steps.map StepRun.result)).status = .skipped := by
  unfold followsSkippedStep
  rw [getWorstStepResult_of_not_skip hskip, hskip]
  cases steps <;> simp [getWorstTestStepResult_nil]

/-- A Before hook or a pickle step: what comes before the After hooks. -/
def IsEarly (pre : List StepRun) (s : StepRun) : Prop :=
  s.isPickleStep = true ∨ pre.any StepRun.isPickleStep = false

/-- The status of a pickle step that is not executed although no skipped step precedes it. -/
def unexecutedStatus (count : ℕ) : TestStepResultStatus :=
  if count = 0 then .undefined else if count = 1 then .skipped else .ambiguous

theorem unexecutedStatus_of_many {count : ℕ} (h : 1 < count) :
    unexecutedStatus count = .ambiguous := by
  unfold unexecutedStatus
  rw [if_neg (by omega), if_neg (by omega)]

/-- What a Before hook or pickle step does after a result that is not a pass. -/
theorem StepRule.of_notPassed (hskip : c.skip = false) {pre : List StepRun} {s : StepRun}
    (hknown : ∀ t ∈ pre, t.result.status ≠ .unknown)
    (h : c.StepRule attempt startedId (stateAfter pre) s) (hearly : IsEarly pre s)
    (hnot : firstNotPassed pre ≠ none) :
    s.bodies = [] ∧ (s.isPickleStep = false → s.result.status = .skipped) ∧
      ((getWorstTestStepResult (pre.map StepRun.result)).status = .skipped →
        s.result.status = .skipped) ∧
      ((getWorstTestStepResult (pre.map StepRun.result)).status ≠ .skipped →
        ∀ ids, s.isPickleStep = true → s.testStep.stepDefinitionIds = some ids →
          s.result.status = unexecutedStatus ids.length) := by
  have hskipping := (isSkippingSteps_iff hskip hknown).mpr hnot
  have hfollowing := c.followsSkippedStep_iff hskip pre
  cases h with
  | hookSkipped hhook hskip' =>
    refine ⟨rfl, fun _ => rfl, fun _ => rfl, fun _ ids hpickle _ => ?_⟩
    simp [StepRun.isPickleStep, hhook] at hpickle
  | hookExecuted hhook hskip' hd hb =>
    -- a hook this early counts as a before hook, so it would have been skipped
    have hpre : pre.any StepRun.isPickleStep = false :=
      hearly.resolve_left (by simp [StepRun.isPickleStep, hhook])
    rw [stateAfter_testStepResults, stateAfter_seenSteps, hpre] at hskip'
    simp [shouldSkipHook, hskipping] at hskip'
  | undefined hhook hstep hids hfollows id =>
    rw [stateAfter_testStepResults] at hfollows
    have hworst := mt hfollowing.mpr (by simp [hfollows])
    refine ⟨rfl, fun hpickle => ?_, fun h => absurd h hworst, fun _ ids _ hids' => ?_⟩
    · simp [StepRun.isPickleStep, hhook] at hpickle
    · obtain rfl : [] = ids := Option.some_inj.mp (hids.symm.trans hids')
      rfl
  | ambiguous hhook hstep hids hmany hfollows =>
    rw [stateAfter_testStepResults] at hfollows
    have hworst := mt hfollowing.mpr (by simp [hfollows])
    refine ⟨rfl, fun hpickle => ?_, fun h => absurd h hworst, fun _ ids _ hids' => ?_⟩
    · simp [StepRun.isPickleStep, hhook] at hpickle
    · obtain rfl := Option.some_inj.mp (hids.symm.trans hids')
      exact (unexecutedStatus_of_many hmany).symm
  | stepSkipped hhook hstep hids hcount hskipping' =>
    refine ⟨rfl, fun _ => rfl, fun _ => rfl, fun hworst ids _ hids' => ?_⟩
    rw [stateAfter_testStepResults, hfollowing] at hcount
    obtain rfl := Option.some_inj.mp (hids.symm.trans hids')
    have hone := hcount.resolve_left hworst
    rw [hone]
    rfl
  | stepExecuted hhook hstep hids hskipping' hbodies =>
    rw [stateAfter_testStepResults, hskipping] at hskipping'
    cases hskipping'

/-- What a test step of a skipped test case does. -/
theorem StepRule.of_skip (hskip : c.skip = true) {pre : List StepRun} {s : StepRun}
    (hpre : ∀ t ∈ pre, t.result.status ≠ .passed)
    (h : c.StepRule attempt startedId (stateAfter pre) s) :
    s.bodies = [] ∧ s.result.status ≠ .passed ∧
      (s.isPickleStep = false → s.result.status = .skipped) ∧
      (∀ ids, s.isPickleStep = true → s.testStep.stepDefinitionIds = some ids →
        s.result.status = unexecutedStatus ids.length) := by
  have hfollows : c.followsSkippedStep (pre.map StepRun.result) = false := by
    simp [followsSkippedStep, hskip]
  cases h with
  | hookSkipped hhook hskip' =>
    refine ⟨rfl, by simp, fun _ => rfl, fun ids hpickle _ => ?_⟩
    simp [StepRun.isPickleStep, hhook] at hpickle
  | hookExecuted hhook hskip' hd hb => simp [shouldSkipHook, hskip] at hskip'
  | undefined hhook hstep hids hfollows' id =>
    refine ⟨rfl, by simp, fun hpickle => ?_, fun ids _ hids' => ?_⟩
    · simp [StepRun.isPickleStep, hhook] at hpickle
    · obtain rfl := Option.some_inj.mp (hids.symm.trans hids')
      rfl
  | ambiguous hhook hstep hids hmany hfollows' =>
    refine ⟨rfl, by simp, fun hpickle => ?_, fun ids _ hids' => ?_⟩
    · simp [StepRun.isPickleStep, hhook] at hpickle
    · obtain rfl := Option.some_inj.mp (hids.symm.trans hids')
      exact (unexecutedStatus_of_many hmany).symm
  | stepSkipped hhook hstep hids hcount hskipping' =>
    refine ⟨rfl, by simp, fun _ => rfl, fun ids _ hids' => ?_⟩
    obtain rfl := Option.some_inj.mp (hids.symm.trans hids')
    rw [stateAfter_testStepResults, hfollows] at hcount
    rw [hcount.resolve_left Bool.false_ne_true]
    rfl
  | stepExecuted hhook hstep hids hskipping' hbodies =>
    -- the worst result of a skipped test case is never a pass, not even before the first step
    have hworst : (c.getWorstStepResult (pre.map StepRun.result)).status ≠ .passed := by
      unfold getWorstStepResult
      rcases eq_or_ne pre [] with rfl | hne
      · simp [hskip]
      · have hne' : pre.map StepRun.result ≠ [] := by simpa using hne
        obtain ⟨t,ht,heq⟩ := List.mem_map.mp (getWorstTestStepResult_mem hne')
        rw [List.isEmpty_eq_false_iff.mpr hne', ← heq]
        exact hpre t ht
    rw [stateAfter_testStepResults, isSkippingSteps] at hskipping'
    simp [hworst] at hskipping'

theorem not_passed_of_skip (hskip : c.skip = true) {steps : List StepRun}
    (h : Threaded (fun pre s => c.StepRule attempt startedId (stateAfter pre) s) steps) :
    ∀ s ∈ steps, s.result.status ≠ .passed := by
  induction steps using List.reverseRecOn with
  | nil => simp
  | append_singleton steps s ih =>
    have hpre := ih h.take
    intro t ht
    rw [List.mem_append, List.mem_singleton] at ht
    rcases ht with ht | rfl
    · exact hpre t ht
    · exact ((h steps t [] rfl).of_skip hskip hpre).2.1

theorem known_of_threaded {R : List StepRun → StepRun → Prop} {steps : List StepRun}
    (h : Threaded (fun pre s => c.StepRule attempt startedId (stateAfter pre) s ∧ R pre s) steps) :
    ∀ s ∈ steps, s.result.status ≠ .unknown :=
  known_of_stepRules (h.mono fun _ _ _ _ hrule => hrule.1)

theorem worst_skipped_iff {steps : List StepRun} {r : StepRun} (hr : r ∈ steps)
    (hstatus : r.result.status = .skipped)
    (hall : ∀ s ∈ steps, s.result.status = .passed ∨ s.result.status = .skipped) :
    (getWorstTestStepResult (steps.map StepRun.result)).status = .skipped := by
  have hne : steps.map StepRun.result ≠ [] := by
    intro hnil
    rw [List.map_eq_nil_iff.mp hnil] at hr
    cases hr
  obtain ⟨s,hs,heq⟩ := List.mem_map.mp (getWorstTestStepResult_mem hne)
  have hle := le_getWorstTestStepResult (List.mem_map_of_mem (f := StepRun.result) hr)
  rw [hstatus, ← heq] at hle
  rw [← heq]
  rcases hall s hs with h | h
  · rw [h] at hle
    exact absurd hle (by decide)
  · exact h

/-- After a first result that is a skip, everything up to the After hooks is skipped. -/
theorem worst_skipped_of_first_skipped (hskip : c.skip = false) {steps : List StepRun}
    (h : Threaded (fun pre s => c.StepRule attempt startedId (stateAfter pre) s ∧ IsEarly pre s)
      steps) {r : StepRun} (hr : firstNotPassed steps = some r)
    (hstatus : r.result.status = .skipped) :
    (getWorstTestStepResult (steps.map StepRun.result)).status = .skipped := by
  apply worst_skipped_iff (firstNotPassed_spec hr).1 hstatus
  -- by induction on the end: behind the first skip no step does worse than to be skipped
  induction steps using List.reverseRecOn with
  | nil => cases hr
  | append_singleton steps s ih =>
    have hpre := h.take
    obtain ⟨hrule,hearly⟩ := h steps s [] rfl
    unfold firstNotPassed at hr
    rw [List.find?_append, Option.or_eq_some_iff] at hr
    intro t ht
    rw [List.mem_append, List.mem_singleton] at ht
    rcases hr with hr | ⟨hnone,hr⟩
    · have hall := ih hpre hr
      rcases ht with ht | rfl
      · exact hall t ht
      · have hworst := worst_skipped_iff (firstNotPassed_spec hr).1 hstatus hall
        have hnot : firstNotPassed steps ≠ none := by
          rw [show firstNotPassed steps = some r from hr]
          exact Option.some_ne_none r
        exact .inr ((hrule.of_notPassed hskip (known_of_threaded hpre) hearly hnot).2.2.1 hworst)
    · rcases ht with ht | rfl
      · exact .inl ((firstNotPassed_eq_none_iff steps).mp hnone t ht)
      · have hmem := List.mem_of_find?_eq_some hr
        rw [List.mem_singleton] at hmem
        subst hmem
        exact .inr hstatus

variable (c attempt startedId)

/-- The hook's body ran at this place of the attempt and gave the result. -/
def HookExecuted (hookId : String) (pre : List StepRun) (s : StepRun) : Prop :=
  ∃ d b, c.supportCodeLibrary.hookRegistry.getDefinitionById hookId = .ok d ∧
    b = BodyRun.ofHook d (c.hookArgs (c.nextSite attempt (stateAfter pre))
      ⟨startedId, s.testStep.id⟩ (stateAfter pre).error) ∧
    s.bodies = [b] ∧ s.result = b.result

/-- The step's only definition was executed between its hooks. -/
def StepExecuted (pre : List StepRun) (s : StepRun) : Prop :=
  ∃ pickleStep id args, c.pickleStepOf s.testStep = some pickleStep ∧
    s.testStep.stepDefinitionIds = some [id] ∧
    s.testStep.stepMatchArgumentsLists = some [args] ∧
    c.StepBodies pickleStep s.testStep (c.nextSite attempt (stateAfter pre))
      ⟨startedId, s.testStep.id⟩ s.bodies ∧
    s.result = combineStepResults (s.bodies.map BodyRun.result)

variable {c attempt startedId}

theorem StepRule.hook_of_passed (hskip : c.skip = false) {pre : List StepRun} {s : StepRun}
    (hknown : ∀ t ∈ pre, t.result.status ≠ .unknown)
    (h : c.StepRule attempt startedId (stateAfter pre) s) (hnone : firstNotPassed pre = none)
    {hookId : String} (hid : s.testStep.hookId = some hookId) :
    c.HookExecuted attempt startedId hookId pre s := by
  have hskipping := not_isSkippingSteps hskip hknown hnone
  cases h with
  | hookSkipped hhook hskip' =>
    simp [shouldSkipHook, hskip, hskipping] at hskip'
  | hookExecuted hhook hskip' hd hb =>
    obtain rfl := Option.some_inj.mp (hhook.symm.trans hid)
    exact ⟨_, _, hd, hb, rfl, rfl⟩
  | undefined hhook => cases hhook.symm.trans hid
  | ambiguous hhook => cases hhook.symm.trans hid
  | stepSkipped hhook => cases hhook.symm.trans hid
  | stepExecuted hhook => cases hhook.symm.trans hid

theorem StepRule.pickleStep_of_passed (hskip : c.skip = false) {pre : List StepRun} {s : StepRun}
    (hknown : ∀ t ∈ pre, t.result.status ≠ .unknown)
    (h : c.StepRule attempt startedId (stateAfter pre) s) (hnone : firstNotPassed pre = none)
    (hpickle : s.isPickleStep = true) {ids : List String}
    {lists : List StepMatchArgumentsList} (hids : s.testStep.stepDefinitionIds = some ids)
    (hlists : s.testStep.stepMatchArgumentsLists = some lists)
    (hlength : lists.length = ids.length) :
    (ids.length = 0 → s.bodies = [] ∧ s.result.status = .undefined) ∧
      (1 < ids.length → s.bodies = [] ∧ s.result.status = .ambiguous) ∧
      (ids.length = 1 → c.StepExecuted attempt startedId pre s) := by
  have hskipping := not_isSkippingSteps hskip hknown hnone
  cases h with
  | hookSkipped hhook => simp [StepRun.isPickleStep, hhook] at hpickle
  | hookExecuted hhook => simp [StepRun.isPickleStep, hhook] at hpickle
  | undefined hhook hstep hids' hfollows id =>
    obtain rfl := Option.some_inj.mp (hids'.symm.trans hids)
    exact ⟨fun _ => ⟨rfl, rfl⟩, fun h => by simp at h, fun h => by simp at h⟩
  | ambiguous hhook hstep hids' hmany hfollows =>
    obtain rfl := Option.some_inj.mp (hids'.symm.trans hids)
    exact ⟨fun h => by omega, fun _ => ⟨rfl, rfl⟩, fun h => by omega⟩
  | stepSkipped hhook hstep hids' hcount hskipping' =>
    rw [stateAfter_testStepResults, hskipping] at hskipping'
    cases hskipping'
  | stepExecuted hhook hstep hids' hskipping' hbodies =>
    obtain rfl := Option.some_inj.mp (hids'.symm.trans hids)
    obtain ⟨args,rfl⟩ := List.length_eq_one_iff.mp hlength
    exact ⟨fun h => by simp at h, fun h => by simp at h,
      fun _ => ⟨_, _, args, hstep, hids, hlists, hbodies, rfl⟩⟩

/-- The records of an attempt, divided as assembly laid out the test steps. -/
structure AssembledSteps (c : TestCaseRunner) (before steps after : List StepRun) : Prop where
  before : List.Forall₂ (fun hookId s => s.testStep.hookId = some hookId)
    (c.supportCodeLibrary.hookRegistry.findIds .before (transformPickleTags c.pickle.tags)) before
  step : List.Forall₂
    (fun p s => s.testStep = pickleTestStep c.supportCodeLibrary p s.testStep.id)
    c.pickle.steps steps
  after : List.Forall₂ (fun hookId s => s.testStep.hookId = some hookId)
    (c.supportCodeLibrary.hookRegistry.findIds .after
      (transformPickleTags c.pickle.tags)).reverse after

theorem exists_assembledSteps_of_announcement {testRunStartedId : String} {a : Announcement}
    (hrule : AnnouncementRule c.supportCodeLibrary testRunStartedId a)
    (ha : a.assembled = ⟨c.pickle, c.testCase⟩) {runs : List StepRun}
    (hcomplete : runs.map StepRun.testStep = c.testCase.testSteps) :
    ∃ before steps after, runs = before ++ steps ++ after ∧
      AssembledSteps c before steps after := by
  have hpickle : a.source.pickle = c.pickle := congrArg AssembledTestCase.pickle ha
  have htestCase : a.testCase = c.testCase := congrArg AssembledTestCase.testCase ha
  obtain ⟨beforeSteps,steps,afterSteps,hall,hbefore,hsteps,hafter⟩ := hrule.testSteps
  rw [htestCase, ← hcomplete] at hall
  rw [hpickle] at hbefore hsteps hafter
  obtain ⟨init,after,rfl,hinit,rfl⟩ := List.map_eq_append_iff.mp hall
  obtain ⟨before,mid,rfl,rfl,rfl⟩ := List.map_eq_append_iff.mp hinit
  rw [List.forall₂_map_right_iff] at hbefore hsteps hafter
  have hhook (hookId : String) (s : StepRun) (hs : s.testStep = hookTestStep hookId s.testStep.id) :
      s.testStep.hookId = some hookId := by
    rw [hs]
    rfl
  exact ⟨before, mid, after, rfl, hbefore.imp hhook, hsteps, hafter.imp hhook⟩

theorem exists_assembledSteps
    (hassembled : IsAssembled idGenerator c.supportCodeLibrary ⟨c.pickle, c.testCase⟩)
    {runs : List StepRun} (hcomplete : runs.map StepRun.testStep = c.testCase.testSteps) :
    ∃ before steps after, runs = before ++ steps ++ after ∧
      AssembledSteps c before steps after := by
  obtain ⟨_,_,hrule,ha⟩ := hassembled.announcement
  exact exists_assembledSteps_of_announcement hrule ha hcomplete

namespace AssembledSteps

variable {before steps after : List StepRun}

theorem isPickleStep_of_before (h : AssembledSteps c before steps after) {s : StepRun}
    (hs : s ∈ before) : s.isPickleStep = false := by
  obtain ⟨_,_,hid⟩ := exists_left_of_forall₂ h.before hs
  simp [StepRun.isPickleStep, hid]

theorem isPickleStep_of_after (h : AssembledSteps c before steps after) {s : StepRun}
    (hs : s ∈ after) : s.isPickleStep = false := by
  obtain ⟨_,_,hid⟩ := exists_left_of_forall₂ h.after hs
  simp [StepRun.isPickleStep, hid]

theorem isPickleStep_of_step (h : AssembledSteps c before steps after) {s : StepRun}
    (hs : s ∈ steps) : s.isPickleStep = true := by
  obtain ⟨_,_,hstep⟩ := exists_left_of_forall₂ h.step hs
  rw [StepRun.isPickleStep, hstep]
  rfl

/-- Up to the After hooks, every record is that of a Before hook or a pickle step. -/
theorem isEarly (h : AssembledSteps c before steps after) {pre post : List StepRun} {s : StepRun}
    (hs : before ++ steps = pre ++ s :: post) : IsEarly pre s := by
  by_cases hpickle : s.isPickleStep = true
  · exact .inl hpickle
  · right
    have hmem : s ∈ before ++ steps := by simp [hs]
    have hbefore : s ∈ before :=
      (List.mem_append.mp hmem).resolve_right fun h' => hpickle (h.isPickleStep_of_step h')
    rw [List.any_eq_false]
    intro t ht
    rcases List.append_eq_append_iff.mp hs with ⟨l,hpre,_⟩ | ⟨l,hbefore',_⟩
    · -- `s` comes after all Before hooks, among the pickle steps
      rename_i hsteps
      have hstep : s ∈ steps := by simp [hsteps]
      exact absurd (h.isPickleStep_of_step hstep) hpickle
    · simp [h.isPickleStep_of_before (s := t) (by simp [hbefore', ht])]

end AssembledSteps

variable (c attempt startedId)

/-- A Before hook runs as long as everything before it passed, and is skipped afterwards. -/
structure BeforeHookShape (hookId : String) (pre : List StepRun) (s : StepRun) : Prop where
  executed : firstNotPassed pre = none → c.HookExecuted attempt startedId hookId pre s
  skipped : firstNotPassed pre ≠ none → s.bodies = [] ∧ s.result.status = .skipped

/-- What happens to a pickle step that matches `count` definitions. -/
structure PickleStepShape (count : ℕ) (pre : List StepRun) (s : StepRun) : Prop where
  undefined : firstNotPassed pre = none → count = 0 → s.bodies = [] ∧ s.result.status = .undefined
  ambiguous : firstNotPassed pre = none → 1 < count → s.bodies = [] ∧ s.result.status = .ambiguous
  executed : firstNotPassed pre = none → count = 1 → c.StepExecuted attempt startedId pre s
  afterSkipped : ∀ r, firstNotPassed pre = some r → r.result.status = .skipped →
    s.bodies = [] ∧ s.result.status = .skipped
  afterOther : ∀ r, firstNotPassed pre = some r → r.result.status ≠ .skipped →
    s.bodies = [] ∧ s.result.status = unexecutedStatus count

variable {c attempt startedId}

section

variable {before steps after : List StepRun}

theorem AssembledSteps.threaded (h : AssembledSteps c before steps after)
    (hthreaded : Threaded (fun pre s => c.StepRule attempt startedId (stateAfter pre) s)
      (before ++ steps ++ after)) :
    Threaded (fun pre s => c.StepRule attempt startedId (stateAfter pre) s ∧ IsEarly pre s)
      (before ++ steps) :=
  hthreaded.take.mono fun _ _ _ hs hrule => ⟨hrule, h.isEarly hs⟩

theorem AssembledSteps.beforeHookShape (h : AssembledSteps c before steps after)
    (hskip : c.skip = false)
    (hthreaded : Threaded (fun pre s => c.StepRule attempt startedId (stateAfter pre) s)
      (before ++ steps ++ after)) {i : ℕ} {hookId : String} {s : StepRun}
    (hid : s.testStep.hookId = some hookId) (hs : before[i]? = some s) :
    c.BeforeHookShape attempt startedId hookId (before.take i) s := by
  have hearly := (h.threaded hthreaded).take
  obtain ⟨hrule,hs'⟩ := hearly.getElem? hs
  have hknown : ∀ t ∈ before.take i, t.result.status ≠ .unknown := fun t ht =>
    known_of_threaded hearly t (List.mem_of_mem_take ht)
  have hpickle := h.isPickleStep_of_before (List.mem_of_getElem? hs)
  refine ⟨fun hnone => hrule.hook_of_passed hskip hknown hnone hid, fun hnot => ?_⟩
  have hnotPassed := hrule.of_notPassed hskip hknown hs' hnot
  exact ⟨hnotPassed.1, hnotPassed.2.1 hpickle⟩

theorem AssembledSteps.pickleStepShape (h : AssembledSteps c before steps after)
    (hskip : c.skip = false)
    (hthreaded : Threaded (fun pre s => c.StepRule attempt startedId (stateAfter pre) s)
      (before ++ steps ++ after)) {i : ℕ} {p : PickleStep} {s : StepRun}
    (hp : s.testStep = pickleTestStep c.supportCodeLibrary p s.testStep.id)
    (hs : steps[i]? = some s) :
    c.PickleStepShape attempt startedId (c.supportCodeLibrary.matching p.text).length
      (before ++ steps.take i) s := by
  have hearly := h.threaded hthreaded
  have hindex : (before ++ steps)[before.length+i]? = some s := by
    rw [List.getElem?_append_right (by omega), Nat.add_sub_cancel_left, hs]
  have htake : (before ++ steps).take (before.length+i) = before ++ steps.take i := by
    rw [List.take_length_add_append]
  obtain ⟨hrule,hs'⟩ := hearly.getElem? hindex
  rw [htake] at hrule hs'
  have hprefix : Threaded (fun pre s => c.StepRule attempt startedId (stateAfter pre) s ∧
      IsEarly pre s) (before ++ steps.take i) := by
    rw [← List.take_append_drop i steps, ← List.append_assoc] at hearly
    exact hearly.take
  have hknown := known_of_threaded hprefix
  have hpickle := h.isPickleStep_of_step (List.mem_of_getElem? hs)
  have hids := pickleTestStep_stepDefinitionIds c.supportCodeLibrary p s.testStep.id
  obtain ⟨lists,hlists,hlength⟩ :=
    pickleTestStep_stepMatchArgumentsLists c.supportCodeLibrary p s.testStep.id
  rw [← hp] at hids hlists
  have hpassed (hnone : firstNotPassed (before ++ steps.take i) = none) :=
    hrule.pickleStep_of_passed hskip hknown hnone hpickle hids hlists (by simpa using hlength)
  simp only [List.length_map] at hpassed
  refine ⟨fun hnone => (hpassed hnone).1, fun hnone => (hpassed hnone).2.1,
    fun hnone => (hpassed hnone).2.2, fun r hr hstatus => ?_, fun r hr hstatus => ?_⟩
  · have hnot := hrule.of_notPassed hskip hknown hs' (by simp [hr])
    exact ⟨hnot.1, hnot.2.2.1 (worst_skipped_of_first_skipped hskip hprefix hr hstatus)⟩
  · have hnot := hrule.of_notPassed hskip hknown hs' (by simp [hr])
    have hworst : (getWorstTestStepResult
        ((before ++ steps.take i).map StepRun.result)).status ≠ .skipped := by
      obtain ⟨hmem,hpass⟩ := firstNotPassed_spec hr
      have hle := le_getWorstTestStepResult (List.mem_map_of_mem (f := StepRun.result) hmem)
      have hunknown := hknown r hmem
      intro heq
      rw [heq] at hle
      -- only an unknown result or a pass is milder than a skip
      cases hst : r.result.status <;> rw [hst] at hle hunknown hpass hstatus
      · exact hunknown rfl
      · exact hpass rfl
      · exact hstatus rfl
      all_goals exact absurd hle (by decide)
    exact ⟨hnot.1, by simpa using hnot.2.2.2 hworst _ hpickle hids⟩

end

end TestCaseRunner

open TestCaseRunner in
/-- The course of an attempt that is not skipped: one record for each test step, and
up to the After hooks everything hangs on the first result that is not a pass. -/
theorem runAttempt_shape {c : TestCaseRunner}
    (hassembled : IsAssembled idGenerator c.supportCodeLibrary ⟨c.pickle, c.testCase⟩)
    (hskip : c.skip = false) (attempt : UInt64) (moreAttemptsAvailable : Bool)
    (world : World idGenerator Event) :
    ∃ (a : AttemptRun) (before steps after : List StepRun),
      (run (c.runAttempt attempt moreAttemptsAvailable) world).1 =
        .ok (a.willBeRetried, a.results) ∧
      (run (c.runAttempt attempt moreAttemptsAvailable) world).2.log =
        world.log ++ a.log c.testCase.id ∧
      a.steps.map StepRun.testStep = c.testCase.testSteps ∧
      a.steps = before ++ steps ++ after ∧ AssembledSteps c before steps after ∧
      (∀ s ∈ a.steps, s.result.status ≠ .unknown) ∧
      (∀ i hookId s, s.testStep.hookId = some hookId → before[i]? = some s →
        c.BeforeHookShape attempt a.id hookId (before.take i) s) ∧
      ∀ i p s, c.pickle.steps[i]? = some p → steps[i]? = some s →
        c.PickleStepShape attempt a.id (c.supportCodeLibrary.matching p.text).length
          (before ++ steps.take i) s := by
  have hres := resolves_of_isAssembled hassembled
  obtain ⟨seg,hlog,a,rfl,hrule,hr,rfl⟩ :=
    c.emits_runAttempt attempt moreAttemptsAvailable hres world
  obtain ⟨before,steps,after,hsteps,hparts⟩ :=
    exists_assembledSteps hassembled hrule.steps.complete
  have hthreaded := hrule.steps.threaded
  rw [hsteps] at hthreaded
  refine ⟨a, before, steps, after, hr, hlog, hrule.steps.complete, hsteps, hparts,
    known_of_stepRules hrule.steps.threaded,
    fun i hookId s hid hs => hparts.beforeHookShape hskip hthreaded hid hs,
    fun i p s hp hs => ?_⟩
  obtain ⟨hlt,rfl⟩ := List.getElem?_eq_some_iff.mp hs
  obtain ⟨hlt',rfl⟩ := List.getElem?_eq_some_iff.mp hp
  exact hparts.pickleStepShape hskip hthreaded (hparts.step.get hlt' hlt) hs

/-- A scenario with a failing Before hook and a step that nothing matches. -/
def failingHookCase : AssembledTestCase where
  pickle := { id := "p", name := "hooked", steps := [{ id := "s", text := "a step" }] }
  testCase :=
    { id := "0"
      pickleId := "p"
      testRunStartedId := some "run"
      testSteps :=
        [{ id := "1", hookId := some "b" },
          { id := "2", pickleStepId := some "s", stepDefinitionIds := some [],
            stepMatchArgumentsLists := some [] }] }

def failingHookLibrary : SupportCodeLibrary :=
  .ofDefinitions [.constant "b" .before .failed] []

theorem isAssembled_failingHookCase :
    IsAssembled decimalIds failingHookLibrary failingHookCase :=
  ⟨"run", [⟨failingHookCase.pickle, { uri := "a.feature" }⟩], World.start _ _, _, rfl, _,
    List.mem_singleton_self _, List.mem_singleton_self _⟩

/-- Both test steps of that scenario get a result. -/
theorem runAttempt_shape_failingHook :
    ∃ a : AttemptRun,
      (run (TestCaseRunner.runAttempt (Worker.testCaseRunner ⟨"run", {}, failingHookLibrary⟩
        failingHookCase false) 0 false) (World.start decimalIds Event)).2.log = a.log "0" ∧
      a.steps.length = 2 ∧ ∀ s ∈ a.steps, s.result.status ≠ .unknown := by
  let c := Worker.testCaseRunner ⟨"run", {}, failingHookLibrary⟩ failingHookCase false
  have hassembled : IsAssembled decimalIds c.supportCodeLibrary ⟨c.pickle, c.testCase⟩ :=
    isAssembled_failingHookCase
  obtain ⟨a,_,_,_,_,hlog,hcomplete,_,_,hknown,_⟩ :=
    runAttempt_shape hassembled rfl 0 false (World.start decimalIds Event)
  refine ⟨a, hlog, ?_, hknown⟩
  rw [← List.length_map (f := StepRun.testStep), hcomplete]
  rfl

end CucumberCpp
