import CucumberCpp.AfterHooks
import CucumberCpp.AssembledSuites
import CucumberCpp.HookFailures

/-! Whether a hook that ends its feature stops the execution of scenarios: in
the features that follow only together with fail-fast. -/
namespace CucumberCpp

open EventLog Grouping

variable {idGenerator : IdGenerator}

/-- A hook around the run or a feature did not pass, with scenarios possibly still to come. -/
def Event.Stops : Event → Prop
  | .invoked (.hook data _) result =>
    data.type ∈ [HookType.beforeAll, .beforeFeature, .afterFeature] ∧ result.status ≠ .passed
  | _ => False

instance : DecidablePred Event.Stops
  | .invoked (.hook data _) result => inferInstanceAs (Decidable
      (data.type ∈ [HookType.beforeAll, .beforeFeature, .afterFeature] ∧ result.status ≠ .passed))
  | .invoked (.step _ _) _ => .isFalse id
  | .broadcast _ => .isFalse id

/-- A step definition, or a hook of a scenario or a step, was executed. -/
def Event.ofScenario : Event → Bool
  | .invoked call _ => call.ofScenario
  | .broadcast _ => false

/-- Nothing of a scenario is executed once such a hook has not passed. -/
def StopsAtHookFailure (es : List Event) : Prop :=
  es.Pairwise fun e e' => e.Stops → e'.ofScenario = false

namespace TestCaseRunner

variable {c : TestCaseRunner} {attempt : UInt64} {startedId : String}
  {before steps after runs : List StepRun}

theorem StepBodies.ne_nil {pickleStep : PickleStep} {testStep : TestStep} {site : CallSite}
    {started : TestStepStarted} {bs : List BodyRun}
    (h : c.StepBodies pickleStep testStep site started bs) : bs ≠ [] := by
  cases h with
  | @hooksOnly before after hbefore hafter hfailed =>
    intro hnil
    -- without before-step hooks none of them failed
    rw [(List.append_eq_nil_iff.mp hnil).1] at hfailed
    cases hfailed
  | withDefinition => simp

/-- The first test step executes something unless it is a step that does not
match exactly one definition. -/
theorem StepsRule.first_bodies (hskip : c.skip = false)
    (hsteps : c.StepsRule attempt startedId runs)
    {s : StepRun} (hfirst : runs.head? = some s) :
    (s.isPickleStep = false → s.bodies ≠ []) ∧ ∀ p, s.isPickleStep = true →
      s.testStep = pickleTestStep c.supportCodeLibrary p s.testStep.id →
      (s.bodies ≠ [] ↔ (c.supportCodeLibrary.matching p.text).length = 1) ∧
      (s.bodies = [] → s.result.status ≠ .passed) := by
  obtain ⟨rest,hruns⟩ := List.head?_eq_some_iff.mp hfirst
  have hrule := hsteps.threaded [] s rest hruns
  have hnone : firstNotPassed [] = none := rfl
  refine ⟨fun hhook => ?_, fun p hpickle htestStep => ?_⟩
  · obtain ⟨hookId,hid⟩ := Option.isSome_iff_exists.mp (s.hookId_isSome_of_not_pickleStep hhook)
    obtain ⟨_,_,_,_,hbodies,_⟩ := hrule.hook_of_passed hskip (by simp) hnone hid
    simp [hbodies]
  · obtain ⟨lists,hlists,hlength⟩ :=
      pickleTestStep_stepMatchArgumentsLists c.supportCodeLibrary p s.testStep.id
    have hids := pickleTestStep_stepDefinitionIds c.supportCodeLibrary p s.testStep.id
    rw [← htestStep] at hlists hids
    have hcount := hrule.pickleStep_of_passed hskip (by simp) hnone hpickle hids hlists
      (by rw [hlength, List.length_map])
    rw [List.length_map] at hcount
    obtain ⟨hundefined,hambiguous,hexecuted⟩ := hcount
    rcases Nat.lt_trichotomy (c.supportCodeLibrary.matching p.text).length 1 with hlt | heq | hgt
    · obtain ⟨hbodies,hstatus⟩ := hundefined (by omega)
      exact ⟨by simp [hbodies]; omega, fun _ => by simp [hstatus]⟩
    · obtain ⟨_,_,_,_,_,_,hbodies,_⟩ := hexecuted heq
      have hne := hbodies.ne_nil
      exact ⟨by simp [hne, heq], fun h => absurd h hne⟩
    · obtain ⟨hbodies,hstatus⟩ := hambiguous hgt
      exact ⟨by simp [hbodies]; omega, fun _ => by simp [hstatus]⟩

/-- What executes first in a silent attempt can only be a step. -/
theorem StepsRule.isPickleStep_of_silent (hskip : c.skip = false)
    (hsteps : c.StepsRule attempt startedId runs) (hsilent : ∀ s ∈ runs, s.bodies = [])
    {s : StepRun} (hs : runs.head? = some s) : s.isPickleStep = true := by
  by_contra hhook
  exact (hsteps.first_bodies hskip hs).1 (Bool.eq_false_of_not_eq_true hhook)
    (hsilent s (List.mem_of_head? hs))

theorem StepsRule.noHooks_of_silent (hskip : c.skip = false)
    (hsteps : c.StepsRule attempt startedId runs) (hparts : runs = before ++ steps ++ after)
    (hassembled : AssembledSteps c before steps after) (hsilent : ∀ s ∈ runs, s.bodies = []) :
    before = [] ∧ after = [] := by
  have hhead {s : StepRun} (hs : runs.head? = some s) : s.isPickleStep = true :=
    hsteps.isPickleStep_of_silent hskip hsilent hs
  constructor
  · cases before with
    | nil => rfl
    | cons s rest =>
      have hpickle := hhead (s := s) (by simp [hparts])
      cases (hassembled.isPickleStep_of_before List.mem_cons_self).symm.trans hpickle
  · rw [List.eq_nil_iff_forall_not_mem]
    intro s hs
    have hhook := hassembled.isPickleStep_of_after hs
    have hmem : s ∈ runs := by simp [hparts, hs]
    -- an After hook behind a pickle step is executed, and so is one that comes first
    obtain ⟨pre,post,hsplit,hrule⟩ := hsteps.threaded.mem hmem
    cases pre with
    | nil => cases hhook.symm.trans (hhead (by simp [hsplit]))
    | cons t pre =>
      have hpickle := hhead (s := t) (by simp [hsplit])
      have hexecuted := hrule.executed_of_seen hskip (by simp [hpickle]) hhook
      simp [StepRun.executed, hsilent s hmem] at hexecuted

theorem StepsRule.unmatched_of_silent (hskip : c.skip = false)
    (hsteps : c.StepsRule attempt startedId runs) (hparts : runs = steps ++ after)
    (hassembled : AssembledSteps c [] steps after) (hsilent : ∀ s ∈ runs, s.bodies = [])
    {p : PickleStep} (hp : c.pickle.steps.head? = some p) :
    (c.supportCodeLibrary.matching p.text).length ≠ 1 := by
  intro hone
  obtain ⟨rest,hpickleSteps⟩ := List.head?_eq_some_iff.mp hp
  have hstep := hassembled.step
  rw [hpickleSteps] at hstep
  obtain ⟨s,rest',htestStep,_,rfl⟩ := List.forall₂_cons_left_iff.mp hstep
  have hfirst : runs.head? = some s := by simp [hparts]
  have hpickle := hsteps.isPickleStep_of_silent hskip hsilent hfirst
  have hcount := (hsteps.first_bodies hskip hfirst).2 p hpickle htestStep
  exact hcount.1.mpr hone (hsilent s (List.mem_of_head? hfirst))

/-- Without hooks a first step that nothing or too much matches keeps all others from
being executed. -/
theorem StepsRule.silent_of_unmatched (hskip : c.skip = false)
    (hsteps : c.StepsRule attempt startedId runs) (hassembled : AssembledSteps c [] runs [])
    (hcount : ∀ p, c.pickle.steps.head? = some p →
      (c.supportCodeLibrary.matching p.text).length ≠ 1) : ∀ s ∈ runs, s.bodies = [] := by
  have hpickle : ∀ s ∈ runs, s.isPickleStep = true := fun s hs =>
    hassembled.isPickleStep_of_step hs
  obtain ⟨hlength,hstep⟩ := List.forall₂_iff_get.mp hassembled.step
  cases runs with
  | nil => simp
  | cons first rest =>
    have hpos : 0 < c.pickle.steps.length := by simp [hlength]
    have hnot := hcount c.pickle.steps[0] (List.head?_eq_getElem?.trans (by simp [hpos]))
    have hfirst := (hsteps.first_bodies hskip rfl).2 _ (hpickle first List.mem_cons_self)
      (hstep 0 hpos (by simp))
    have hbodies : first.bodies = [] := by
      by_contra hne
      exact hnot (hfirst.1.mp hne)
    intro s hs
    obtain ⟨i,hi,rfl⟩ := List.getElem_of_mem hs
    rcases Nat.eq_zero_or_pos i with rfl | hipos
    · exact hbodies
    -- the first step did not pass, so no later one is executed
    have hshape := hassembled.pickleStepShape hskip (by simpa using hsteps.threaded)
      (hstep i (by omega) hi) (List.getElem?_eq_getElem hi)
    have hmem : first ∈ [] ++ (first :: rest).take i := by
      rw [List.nil_append, List.take_cons hipos]
      exact List.mem_cons_self
    cases hr : firstNotPassed ([] ++ (first :: rest).take i) with
    | none => exact absurd ((firstNotPassed_eq_none_iff _).mp hr first hmem) (hfirst.2 hbodies)
    | some r =>
      by_cases hskipped : r.result.status = .skipped
      · exact (hshape.afterSkipped r hr hskipped).1
      · exact (hshape.afterOther r hr hskipped).1

/-- An attempt executes nothing exactly when no hook belongs to it and its first
step does not match exactly one definition. -/
theorem StepsRule.silent_iff (hskip : c.skip = false) (hsteps : c.StepsRule attempt startedId runs)
    (hparts : runs = before ++ steps ++ after) (hassembled : AssembledSteps c before steps after) :
    (∀ s ∈ runs, s.bodies = []) ↔
      c.supportCodeLibrary.hookRegistry.findIds .before (transformPickleTags c.pickle.tags) = [] ∧
      c.supportCodeLibrary.hookRegistry.findIds .after (transformPickleTags c.pickle.tags) = [] ∧
      ∀ p, c.pickle.steps.head? = some p →
        (c.supportCodeLibrary.matching p.text).length ≠ 1 := by
  have hbefore : before = [] ↔ c.supportCodeLibrary.hookRegistry.findIds .before
      (transformPickleTags c.pickle.tags) = [] := by
    rw [← List.length_eq_zero_iff, ← List.length_eq_zero_iff, hassembled.before.length_eq]
  have hafter : after = [] ↔ c.supportCodeLibrary.hookRegistry.findIds .after
      (transformPickleTags c.pickle.tags) = [] := by
    rw [← List.length_eq_zero_iff, ← hassembled.after.length_eq, List.length_reverse,
      List.length_eq_zero_iff]
  rw [← hbefore, ← hafter]
  constructor
  · intro hsilent
    obtain ⟨rfl,rfl⟩ := hsteps.noHooks_of_silent hskip hparts hassembled hsilent
    exact ⟨rfl, rfl, fun p hp =>
      hsteps.unmatched_of_silent hskip (by simpa using hparts) hassembled hsilent hp⟩
  · rintro ⟨rfl,rfl,hcount⟩
    obtain rfl : runs = steps := by simpa using hparts
    exact hsteps.silent_of_unmatched hskip hassembled hcount

end TestCaseRunner

namespace Worker

variable (w : Worker)

/-- Executing a pickle executes something of it: there is an attempt at it, and a
hook belongs to it or its first step matches exactly one definition. -/
def Invokes (pickle : Pickle) : Prop :=
  (w.repeatsForPickle pickle).getD (1+retriesForPickle pickle w.options) ≠ 0 ∧
    (w.supportCodeLibrary.hookRegistry.findIds .before (transformPickleTags pickle.tags) ≠ [] ∨
      w.supportCodeLibrary.hookRegistry.findIds .after (transformPickleTags pickle.tags) ≠ [] ∨
      ∃ p, pickle.steps.head? = some p ∧
        (w.supportCodeLibrary.matching p.text).length = 1)

variable {w} {sourcedPickles : List PickleSource} {announced : List Announcement}
  {suites : List SuiteRun} {report : RunReport}

theorem CaseRule.attempts_eq_nil_iff {failing : Bool} {cr : CaseRun} (h : w.CaseRule failing cr) :
    cr.attempts = [] ↔ (w.testCaseRunner cr.assembled cr.skip).maximumAttempts.toNat = 0 := by
  constructor
  · intro hnil
    by_contra hzero
    obtain ⟨init,last,hattempts,_⟩ :=
      (h.attempts.shape (Nat.pos_of_ne_zero hzero) (by simp)).retried
    simp [hnil] at hattempts
  · intro hzero
    have hattempts := h.attempts
    rw [hzero] at hattempts
    generalize cr.attempts = attempts, cr.status = status at hattempts
    cases hattempts
    rfl

theorem CaseRule.silent_iff {failing : Bool} {cr : CaseRun} (h : w.CaseRule failing cr)
    (hskip : cr.skip = false) {testRunStartedId : String} {an : Announcement}
    (hrule : AnnouncementRule w.supportCodeLibrary testRunStartedId an)
    (han : an.assembled = cr.assembled) :
    invocations cr.log = [] ↔ ¬w.Invokes cr.assembled.pickle := by
  have hsteps := h.assembledSteps hrule han
  have hmax : (w.testCaseRunner cr.assembled cr.skip).maximumAttempts =
      (w.repeatsForPickle cr.assembled.pickle).getD
        (1+retriesForPickle cr.assembled.pickle w.options) := by
    simp [testCaseRunner, hskip]
  have hsilent : ∀ a ∈ cr.attempts, ((∀ s ∈ a.steps, s.bodies = []) ↔
      w.supportCodeLibrary.hookRegistry.findIds .before
          (transformPickleTags cr.assembled.pickle.tags) = [] ∧
        w.supportCodeLibrary.hookRegistry.findIds .after
          (transformPickleTags cr.assembled.pickle.tags) = [] ∧
        ∀ p, cr.assembled.pickle.steps.head? = some p →
          (w.supportCodeLibrary.matching p.text).length ≠ 1) := by
    intro a ha
    obtain ⟨hrules,before,steps,after,hparts,hassembled⟩ := hsteps a ha
    exact hrules.silent_iff (c := w.testCaseRunner cr.assembled cr.skip) hskip hparts hassembled
  have hzero : cr.attempts = [] ↔ (w.repeatsForPickle cr.assembled.pickle).getD
      (1+retriesForPickle cr.assembled.pickle w.options) = 0 := by
    rw [h.attempts_eq_nil_iff, hmax]
    exact UInt64.toNat_inj (b := 0)
  rw [invocations_caseRun_eq_nil_iff, Invokes, not_and_or, not_not, ← hzero]
  constructor
  · intro hall
    rcases List.eq_nil_or_concat cr.attempts with hnil | ⟨init,a,hattempts⟩
    · exact .inl hnil
    · have ha : a ∈ cr.attempts := by simp [hattempts]
      obtain ⟨hbefore,hafter,hcount⟩ := (hsilent a ha).mp (hall a ha)
      right
      simp only [hbefore, hafter, ne_eq, not_true_eq_false, false_or, not_exists, not_and]
      exact hcount
  · intro hnone a ha
    rcases hnone with hnil | hnone
    · simp [hnil] at ha
    · apply (hsilent a ha).mpr
      simpa only [not_or, not_not, not_exists, not_and, ne_eq] using hnone

end Worker

/-- A suite of which no scenario executed anything. -/
def SuiteRun.Silent (s : SuiteRun) : Prop := ∀ cr ∈ s.cases, invocations cr.log = []

/-- A suite that one of its hooks ended. -/
def SuiteRun.Aborted (s : SuiteRun) : Prop := ∃ e, s.outcome = .error e

section Events

theorem SuiteRun.events_log (s : SuiteRun) :
    events s.log = (s.before.flatMap fun h => events h.log) ++
      (s.cases.flatMap fun cr => events cr.log) ++ s.after.flatMap fun h => events h.log := by
  simp [SuiteRun.log, events_flatMap]

/-- A hook outside the test cases executes nothing of a scenario, and stops what
is around it exactly when it ended it. -/
theorem HookRun.Fatal.stops_iff {hookType : HookType} {h : HookRun} (hfatal : h.Fatal hookType)
    (htype : hookType ∈ [HookType.beforeAll, .beforeFeature, .afterFeature]) :
    (∃ e ∈ events h.log, e.Stops) ↔ h.Aborted := by
  obtain ⟨b,data,args,hb,hcall,rfl,_,hresult⟩ := hfatal.body
  constructor
  · intro hstops
    obtain ⟨e,he,hstops⟩ := hstops
    rcases (mem_events_hookRun hb e).mp he with rfl | rfl | ⟨_,_,rfl⟩ | ⟨_,_,rfl⟩
    · exact hstops.elim
    · rw [hcall] at hstops
      rcases hresult with ⟨hpassed,_⟩ | ⟨_,haborted⟩
      · exact absurd ((status_passed_iff b).mp hpassed) hstops.2
      · exact haborted
    · exact hstops.elim
    · exact hstops.elim
  · intro haborted
    have hlogged : Event.invoked b.call b.outcome.result ∈ events h.log := by
      rw [mem_events_hookRun hb]
      exact .inr (.inl rfl)
    rcases hresult with ⟨_,hok⟩ | ⟨hnot,_⟩
    · obtain ⟨_,haborted⟩ := haborted
      cases hok.symm.trans haborted
    · rw [hcall] at hlogged
      exact ⟨_, hlogged, htype, fun hpassed => hnot ((status_passed_iff b).mpr hpassed)⟩

theorem HookRun.Fatal.not_ofScenario {hookType : HookType} {h : HookRun}
    (hfatal : h.Fatal hookType) (hglobal : hookType.isGlobal = true) :
    ∀ e ∈ events h.log, e.ofScenario = false := by
  obtain ⟨b,data,args,hb,hcall,rfl,_⟩ := hfatal.body
  intro e he
  rcases (mem_events_hookRun hb e).mp he with rfl | rfl | ⟨_,_,rfl⟩ | ⟨_,_,rfl⟩
  · rfl
  · simp [Event.ofScenario, hcall, Invocation.ofScenario, hglobal]
  · rfl
  · rfl

theorem HookRun.Fatal.quiet {hookType : HookType} {hs : List HookRun}
    (hfatal : ∀ h ∈ hs, h.Fatal hookType) (hglobal : hookType.isGlobal = true) :
    ∀ e ∈ hs.flatMap fun h => events h.log, e.ofScenario = false := by
  intro e he
  obtain ⟨h,hh,he⟩ := List.mem_flatMap.mp he
  exact (hfatal h hh).not_ofScenario hglobal e he

/-- Where nothing of a scenario is executed there is nothing to stop. -/
theorem stopsAtHookFailure_of_quiet {es : List Event} (h : ∀ e ∈ es, e.ofScenario = false) :
    StopsAtHookFailure es :=
  List.pairwise_of_forall_mem_list fun _ _ e he _ => h e he

theorem Announcement.quiet {announced : List Announcement} :
    ∀ e ∈ events (announced.flatMap Announcement.log), ¬e.Stops ∧ e.ofScenario = false := by
  intro e he
  rw [events_flatMap, List.mem_flatMap] at he
  obtain ⟨a,_,he⟩ := he
  rw [a.events_log, List.mem_singleton] at he
  rw [he]
  exact ⟨fun h => h.elim, rfl⟩

theorem Event.Stops.ofGlobalHook {e : Event} (h : e.Stops) : e.ofGlobalHook = true := by
  cases e with
  | invoked call result =>
    cases call with
    | hook data args =>
      have htype := h.1
      simp only [List.mem_cons, List.not_mem_nil, or_false] at htype
      rcases htype with htype | htype | htype <;>
        simp [Event.ofGlobalHook, Invocation.ofScenario, htype, HookType.isGlobal]
    | step id args => exact h.elim
  | broadcast envelope => exact h.elim

/-- In the log of a test case whatever is executed belongs to its scenario. -/
theorem ofScenario_iff {cr : CaseRun} (hcase : ∀ e ∈ events cr.log, e.ofGlobalHook = false) :
    (∃ e ∈ events cr.log, e.ofScenario = true) ↔ invocations cr.log ≠ [] := by
  rw [invocations, ne_eq, List.filterMap_eq_nil_iff, not_forall]
  apply exists_congr
  intro e
  rw [Classical.not_imp]
  apply and_congr_right
  intro he
  have hother := hcase e he
  cases e with
  | invoked call result =>
    have hcall : call.ofScenario = true := by simpa [Event.ofGlobalHook] using hother
    simp [Event.ofScenario, hcall, Event.invocation?]
  | broadcast envelope => simp [Event.ofScenario, Event.invocation?]

end Events

namespace Worker

variable {w : Worker} {sourcedPickles : List PickleSource} {announced : List Announcement}
  {suites : List SuiteRun} {report : RunReport}

/-- The hooks around a suite. -/
theorem SuiteRule.fatal (hdry : w.options.dryRun = false)
    (hfast : w.options.failGlobalHookFast = true) {failing : Bool} {s : SuiteRun}
    (h : w.SuiteRule failing s) : (∀ h' ∈ s.before, h'.Fatal .beforeFeature) ∧
      (∀ h' ∈ s.after, h'.Fatal .afterFeature) ∧ ((∃ h' ∈ s.before, h'.Aborted) → s.cases = []) ∧
      (s.Aborted ↔ ∃ h' ∈ s.before ++ s.after, h'.Aborted) := by
  obtain ⟨hbefore',hafter'⟩ := h.hooks_fatal hdry hfast
  refine ⟨hbefore', hafter', ?_⟩
  cases h with
  | withoutHooks hoff hcases => exact ⟨by simp, by simp [SuiteRun.Aborted]⟩
  | @aborted suite before e hon hbefore =>
    refine ⟨fun _ => rfl, ?_⟩
    rw [List.append_nil]
    exact iff_of_true ⟨e, rfl⟩ hbefore.aborted
  | @withHooks suite before results cases after r hon hbefore hcases hafter =>
    have hnone : ¬∃ h' ∈ before, h'.Aborted := hbefore.not_aborted
    have hr : (∃ e, r.map (fun _ => !cases.any w.caseFailed) = .error e) ↔ ∃ e, r = .error e := by
      cases r <;> simp [Except.map]
    refine ⟨fun h => absurd h hnone, ?_⟩
    simp only [List.mem_append, or_and_right, exists_or, hnone, false_or]
    exact hr.trans hafter.error_iff

/-- What a suite logs, apart: its hooks execute nothing of a scenario, and nothing in its
test cases can stop it. -/
theorem SuitesRule.suite_parts (h : w.SuitesRule sourcedPickles announced suites)
    (hdry : w.options.dryRun = false) (hfast : w.options.failGlobalHookFast = true)
    {s : SuiteRun} (hs : s ∈ suites) :
    (∀ e ∈ s.before.flatMap fun h' => events h'.log, e.ofScenario = false) ∧
      (∀ e ∈ s.cases.flatMap fun cr => events cr.log, ¬e.Stops) ∧
      (∀ e ∈ s.after.flatMap fun h' => events h'.log, e.ofScenario = false) := by
  obtain ⟨_,_,_,hrule⟩ := h.threaded.mem hs
  obtain ⟨hbefore,hafter,_⟩ := hrule.fatal hdry hfast
  refine ⟨HookRun.Fatal.quiet hbefore rfl, ?_, HookRun.Fatal.quiet hafter rfl⟩
  intro e he hstops
  obtain ⟨cr,hcr,he⟩ := List.mem_flatMap.mp he
  have hcase := not_ofGlobalHook_of_mem_caseRun (h.ofScenario hs hcr) he
  cases hcase.symm.trans hstops.ofGlobalHook

/-- Within a suite nothing of a scenario comes after a hook that ended it. -/
theorem SuitesRule.suite_stops (h : w.SuitesRule sourcedPickles announced suites)
    (hdry : w.options.dryRun = false) (hfast : w.options.failGlobalHookFast = true)
    {s : SuiteRun} (hs : s ∈ suites) : StopsAtHookFailure (events s.log) := by
  obtain ⟨_,_,_,hrule⟩ := h.threaded.mem hs
  obtain ⟨hfatal,_,hcases,_⟩ := hrule.fatal hdry hfast
  obtain ⟨hbefore,hcases',hafter⟩ := h.suite_parts hdry hfast hs
  rw [StopsAtHookFailure, SuiteRun.events_log, List.append_assoc, List.pairwise_append,
    List.pairwise_append]
  refine ⟨stopsAtHookFailure_of_quiet hbefore,
    ⟨List.pairwise_of_forall_mem_list fun e he _ _ hstops => absurd hstops (hcases' e he),
      stopsAtHookFailure_of_quiet hafter, fun _ _ e he _ => hafter e he⟩, ?_⟩
  intro e he e' he' hstops
  obtain ⟨h',hh',he⟩ := List.mem_flatMap.mp he
  have hended := ((hfatal h' hh').stops_iff (by simp)).mp ⟨e, he, hstops⟩
  -- a hook that ended the suite left no test cases
  rw [hcases ⟨h', hh', hended⟩] at he'
  exact hafter e' (by simpa using he')

theorem SuitesRule.stops_iff_aborted (h : w.SuitesRule sourcedPickles announced suites)
    (hdry : w.options.dryRun = false) (hfast : w.options.failGlobalHookFast = true)
    {s : SuiteRun} (hs : s ∈ suites) : (∃ e ∈ events s.log, e.Stops) ↔ s.Aborted := by
  obtain ⟨_,_,_,hrule⟩ := h.threaded.mem hs
  obtain ⟨hbefore,hafter,_,haborted⟩ := hrule.fatal hdry hfast
  obtain ⟨_,hcases,_⟩ := h.suite_parts hdry hfast hs
  have hbefore' := exists_mem_flatMap_iff fun h' hh' => (hbefore h' hh').stops_iff (by simp)
  have hafter' := exists_mem_flatMap_iff fun h' hh' => (hafter h' hh').stops_iff (by simp)
  have hnone : ¬∃ e ∈ s.cases.flatMap fun cr => events cr.log, e.Stops := by
    intro h
    obtain ⟨e,he,hstops⟩ := h
    exact hcases e he hstops
  rw [haborted, SuiteRun.events_log]
  simp only [List.mem_append, or_and_right, exists_or, hbefore', hafter', hnone, or_false]

theorem SuitesRule.quiet_iff_silent (h : w.SuitesRule sourcedPickles announced suites)
    (hdry : w.options.dryRun = false) (hfast : w.options.failGlobalHookFast = true)
    {s : SuiteRun} (hs : s ∈ suites) :
    (∀ e ∈ events s.log, e.ofScenario = false) ↔ s.Silent := by
  obtain ⟨hbefore,_,hafter⟩ := h.suite_parts hdry hfast hs
  have hsilent : (∀ e ∈ s.cases.flatMap fun cr => events cr.log, e.ofScenario = false) ↔
      s.Silent := by
    have hexecuted := exists_mem_flatMap_iff fun (cr : CaseRun) hcr =>
      ofScenario_iff fun e he => not_ofGlobalHook_of_mem_caseRun (h.ofScenario hs hcr) he
    simpa only [not_exists, not_and, Bool.not_eq_true, not_not, SuiteRun.Silent]
      using not_congr hexecuted
  rw [SuiteRun.events_log, ← hsilent]
  simp only [List.mem_append, or_imp, forall_and]
  exact ⟨fun h => h.1.2, fun h => ⟨⟨hbefore, h⟩, hafter⟩⟩

theorem SuitesRule.stops_iff (h : w.SuitesRule sourcedPickles announced suites)
    (hdry : w.options.dryRun = false) (hfast : w.options.failGlobalHookFast = true) :
    StopsAtHookFailure (events (suites.flatMap SuiteRun.log)) ↔
      suites.Pairwise fun s s' => s.Aborted → s'.Silent := by
  rw [StopsAtHookFailure, events_flatMap, List.pairwise_flatMap]
  refine (and_iff_right fun s hs => h.suite_stops hdry hfast hs).trans ?_
  apply List.Pairwise.iff_of_mem
  intro s s' hs hs'
  rw [← h.stops_iff_aborted hdry hfast hs, ← h.quiet_iff_silent hdry hfast hs']
  constructor
  · intro h hfailed e' he'
    obtain ⟨e,he,hstops⟩ := hfailed
    exact h e he e' he' hstops
  · exact fun h e he e' he' hstops => h ⟨e, he, hstops⟩ e' he'

theorem HooksRule.quiet {site : CallSite} {ids : List String} {hs : List HookRun}
    {r : Except Fault (List TestStepResult)} {hookType : HookType} {tags : Finset String}
    (h : w.HooksRule site ids hs r) (hdry : w.options.dryRun = false)
    (hfast : w.options.failGlobalHookFast = true) (hglobal : hookType.isGlobal = true)
    (hids : ∀ id ∈ ids, id ∈ w.supportCodeLibrary.hookRegistry.findIds hookType tags) :
    ∀ e ∈ events (hs.flatMap HookRun.log), e.ofScenario = false := by
  rw [events_flatMap]
  exact HookRun.Fatal.quiet (h.fatal hdry hfast hids) hglobal

/-- A run stops at its first failing hook exactly when no suite that a hook ended
is followed by one that executes something. -/
theorem RunRule.stops_iff (h : w.RunRule sourcedPickles report)
    (hdry : w.options.dryRun = false) (hfast : w.options.failGlobalHookFast = true) :
    StopsAtHookFailure (events report.log) ↔
      report.suites.Pairwise fun s s' => s.Aborted → s'.Silent := by
  have hbeforeIds : ∀ id ∈ w.beforeAllIds,
      id ∈ w.supportCodeLibrary.hookRegistry.findIds .beforeAll ∅ := fun _ hid => hid
  have hafterIds : ∀ id ∈ w.afterAllIds.reverse,
      id ∈ w.supportCodeLibrary.hookRegistry.findIds .afterAll ∅ :=
    fun _ hid => List.mem_reverse.mp hid
  cases h with
  | aborted hbefore =>
    have hbefore' := hbefore.quiet hdry hfast rfl hbeforeIds
    exact iff_of_true (by simpa [RunReport.log] using stopsAtHookFailure_of_quiet hbefore') .nil
  | failedBefore hbefore hfailing hafter =>
    cases (hbefore.not_failing hdry hfast).symm.trans hfailing
  | @executed beforeAll _ announced suites afterAll _ hbefore hfailing hsuites hafter =>
    have hbefore' := hbefore.quiet hdry hfast rfl hbeforeIds
    have hafter' := hafter.quiet hdry hfast rfl hafterIds
    have hpassed : ∀ e ∈ events (beforeAll.flatMap HookRun.log), ¬e.Stops := by
      intro e he hstops
      rw [events_flatMap, List.mem_flatMap] at he
      obtain ⟨h',hh',he⟩ := he
      have hfatal := hbefore.fatal hdry hfast hbeforeIds h' hh'
      have haborted := (hfatal.stops_iff (by simp)).mp ⟨e, he, hstops⟩
      exact hbefore.not_aborted ⟨h', hh', haborted⟩
    rw [← hsuites.stops_iff hdry hfast]
    simp only [RunReport.log, events_append, List.append_assoc]
    unfold StopsAtHookFailure
    rw [List.pairwise_append, List.pairwise_append, List.pairwise_append]
    constructor
    · intro h
      exact h.2.1.2.1.1
    · intro h
      refine ⟨stopsAtHookFailure_of_quiet hbefore',
        ⟨stopsAtHookFailure_of_quiet fun e he => (Announcement.quiet e he).2,
          ⟨h, stopsAtHookFailure_of_quiet hafter', fun _ _ e he _ => hafter' e he⟩, ?_⟩, ?_⟩
      · exact fun e he _ _ hstops => absurd hstops (Announcement.quiet e he).1
      · exact fun e he _ _ hstops => absurd hstops (hpassed e he)

end Worker

namespace Worker

/-- No feature with a failing hook is followed by one whose before-feature hooks
pass and that executes something. -/
def NothingAfterHookFailure (w : Worker) (sourcedPickles : List PickleSource) : Prop :=
  (keysOf (·.gherkinDocument.uri) sourcedPickles).Pairwise fun uri uri' =>
    ∀ document, documentOf sourcedPickles uri = some document →
      FeatureHookNotPassed w.supportCodeLibrary document →
      ∀ document', documentOf sourcedPickles uri' = some document' →
        BeforeFeatureNotPassed w.supportCodeLibrary document' ∨
          ∀ source ∈ group (·.gherkinDocument.uri) sourcedPickles uri', ¬w.Invokes source.pickle

/-- The inputs on which a failing hook outside the test cases stops the run. -/
def HookFailureStops (w : Worker) (sourcedPickles : List PickleSource) : Prop :=
  w.options.failFast = true ∨ w.options.featureHooks = false ∨
    BeforeAllNotPassed w.supportCodeLibrary ∨ w.NothingAfterHookFailure sourcedPickles

variable {w : Worker} {sourcedPickles : List PickleSource} {announced : List Announcement}
  {suites : List SuiteRun} {report : RunReport}

theorem SuitesRule.uris (h : w.SuitesRule sourcedPickles announced suites) :
    suites.map (·.suite.gherkinDocument.uri) = keysOf (·.gherkinDocument.uri) sourcedPickles := by
  have hsuites := suitesOf_uris announced
  rw [← h.complete, List.map_map] at hsuites
  rw [← h.sources, keysOf, List.map_map]
  exact hsuites

theorem SuitesRule.documentOf_eq (h : w.SuitesRule sourcedPickles announced suites)
    {s : SuiteRun} (hs : s ∈ suites) :
    documentOf sourcedPickles s.suite.gherkinDocument.uri = some s.suite.gherkinDocument := by
  have hsuite : s.suite ∈ suitesOf announced := h.complete ▸ List.mem_map_of_mem hs
  obtain ⟨uri,_,hsuiteOf,_⟩ := exists_announcement_of_suite hsuite
  rw [← h.sources, suiteOf_uri hsuiteOf]
  exact suiteOf_gherkinDocument hsuiteOf

/-- The test cases of a suite are for the pickles of its file. -/
theorem SuitesRule.pickles_eq (h : w.SuitesRule sourcedPickles announced suites)
    {s : SuiteRun} (hs : s ∈ suites) : s.suite.testCases.map AssembledTestCase.pickle =
      (group (·.gherkinDocument.uri) sourcedPickles s.suite.gherkinDocument.uri).map
        PickleSource.pickle := by
  have hsuite : s.suite ∈ suitesOf announced := h.complete ▸ List.mem_map_of_mem hs
  obtain ⟨uri,_,hsuiteOf,_⟩ := exists_announcement_of_suite hsuite
  rw [suiteOf_testCases hsuiteOf, suiteOf_uri hsuiteOf, ← h.sources, group, group,
    List.filter_map, List.map_map, List.map_map]
  rfl

theorem SuitesRule.silent_iff (h : w.SuitesRule sourcedPickles announced suites)
    (hindep : w.supportCodeLibrary.Independent) (hdry : w.options.dryRun = false)
    (hfast : w.options.failGlobalHookFast = true) (hon : w.options.featureHooks = true)
    (hgo : w.options.failFast = false) {s : SuiteRun} (hs : s ∈ suites) :
    s.Silent ↔ BeforeFeatureNotPassed w.supportCodeLibrary s.suite.gherkinDocument ∨
      ∀ source ∈ group (·.gherkinDocument.uri) sourcedPickles s.suite.gherkinDocument.uri,
        ¬w.Invokes source.pickle := by
  obtain ⟨_,_,_,hrule⟩ := h.threaded.mem hs
  have hannounced (cr : CaseRun) (hcr : cr ∈ s.cases) := h.announcement_of_mem hs hcr
  have hpickles := h.pickles_eq hs
  have hgroup : (∀ source ∈ group (·.gherkinDocument.uri) sourcedPickles
      s.suite.gherkinDocument.uri, ¬w.Invokes source.pickle) ↔
        ∀ pickle ∈ s.suite.testCases.map AssembledTestCase.pickle, ¬w.Invokes pickle := by
    rw [hpickles, List.forall_mem_map]
  rw [hgroup]
  cases hrule with
  | withoutHooks hoff hcases => cases hon.symm.trans hoff
  | aborted _ hbefore =>
    have hnot := (hbefore.aborted_iff hindep hdry hfast).mp hbefore.aborted
    exact iff_of_true (by simp [SuiteRun.Silent]) (.inl hnot)
  | @withHooks suite _ _ _ _ _ _ hbefore hcases hafter =>
    have hpassed : ¬BeforeFeatureNotPassed w.supportCodeLibrary suite.gherkinDocument :=
      (hbefore.aborted_iff hindep hdry hfast).not.mp hbefore.not_aborted
    rw [or_iff_right hpassed, ← hcases.complete, List.map_map, List.forall_mem_map]
    apply forall_congr'
    intro cr
    apply forall_congr'
    intro hcr
    obtain ⟨_,_,_,hcase⟩ := hcases.threaded.mem hcr
    obtain ⟨_,_,han,hrule⟩ := hannounced cr hcr
    exact hcase.silent_iff (hcase.skip.trans (by simp [skipTestCase, hdry, hgo])) hrule han

/-- Under fail-fast nothing is executed in the suites after one that a hook ended. -/
theorem SuitesRule.silent_of_failFast (h : w.SuitesRule sourcedPickles announced suites)
    (hstop : w.options.failFast = true) :
    suites.Pairwise fun s s' => s.Aborted → s'.Silent := by
  apply Threaded.pairwise
  intro pre s' post hsuites s hs haborted cr hcr
  have hs' : s' ∈ suites := by simp [hsuites]
  have hfailed : s.failed = true := by
    obtain ⟨_,he⟩ := haborted
    simp [SuiteRun.failed, he]
  have hany : pre.any SuiteRun.failed = true := List.any_eq_true.mpr ⟨s, hs, hfailed⟩
  have hrule := h.threaded pre s' post hsuites
  simp only [hany] at hrule
  rcases hrule.endedBefore_or_casesRule with ⟨_,hnil,_⟩ | ⟨_,hfailing,hcases⟩
  · rw [hnil] at hcr
    cases hcr
  · obtain ⟨_,_,_,hcase⟩ := hcases.threaded.mem hcr
    rw [hfailing rfl, Bool.or_true] at hcase
    exact (h.skippedCase hs' hcr hcase (by simp [skipTestCase, hstop])).uninvoked

theorem RunRule.hookFailureStops_iff (h : w.RunRule sourcedPickles report)
    (hindep : w.supportCodeLibrary.Independent) (hdry : w.options.dryRun = false)
    (hfast : w.options.failGlobalHookFast = true) :
    (report.suites.Pairwise fun s s' => s.Aborted → s'.Silent) ↔
      w.HookFailureStops sourcedPickles := by
  cases h with
  | aborted hbefore =>
    have hnot := (hbefore.aborted_iff hindep hdry hfast).mp hbefore.aborted
    exact iff_of_true .nil (.inr (.inr (.inl hnot)))
  | failedBefore hbefore hfailing hafter =>
    cases (hbefore.not_failing hdry hfast).symm.trans hfailing
  | @executed _ _ announced suites _ _ hbefore hfailing hsuites hafter =>
    have hpassed : ¬BeforeAllNotPassed w.supportCodeLibrary :=
      (hbefore.aborted_iff hindep hdry hfast).not.mp hbefore.not_aborted
    by_cases hstop : w.options.failFast = true
    · exact iff_of_true (hsuites.silent_of_failFast hstop) (.inl hstop)
    by_cases hon : w.options.featureHooks = true
    · have hsuite {s : SuiteRun} (hs : s ∈ suites) : s.Aborted ↔
          FeatureHookNotPassed w.supportCodeLibrary s.suite.gherkinDocument := by
        obtain ⟨_,_,_,hrule⟩ := hsuites.threaded.mem hs
        rw [(hrule.fatal hdry hfast).2.2.2, hrule.aborted_iff hindep hdry hfast]
        simp [hon]
      have hnothing : (suites.Pairwise fun s s' => s.Aborted → s'.Silent) ↔
          w.NothingAfterHookFailure sourcedPickles := by
        unfold NothingAfterHookFailure
        rw [← hsuites.uris, List.pairwise_map]
        apply List.Pairwise.iff_of_mem
        intro s s' hs hs'
        rw [hsuite hs, hsuites.silent_iff hindep hdry hfast hon
          (Bool.eq_false_of_not_eq_true hstop) hs', hsuites.documentOf_eq hs,
          hsuites.documentOf_eq hs']
        simp
      rw [hnothing, HookFailureStops]
      simp [hstop, hon, hpassed]
    · have hnone : suites.Pairwise fun s s' => s.Aborted → s'.Silent := by
        apply List.pairwise_of_forall_mem_list
        intro s hs _ _ haborted
        obtain ⟨_,_,_,hrule⟩ := hsuites.threaded.mem hs
        rw [(hrule.fatal hdry hfast).2.2.2, hrule.aborted_iff hindep hdry hfast] at haborted
        exact absurd haborted.1 hon
      exact iff_of_true hnone (.inr (.inl (Bool.eq_false_of_not_eq_true hon)))

end Worker

/-- Under `failGlobalHookFast` the first hook outside the test cases that does not
pass stops all execution of scenarios exactly when no suite ended by a hook is
followed by one that executes something; fail-fast is enough for that. Which inputs
those are can be told without running them when user code ignores generated ids. -/
theorem stopsAtHookFailure_iff {options : RuntimeOptions} (hoptions : options.Accepted)
    (hdry : options.dryRun = false) (hfast : options.failGlobalHookFast = true)
    (testRunStartedId : String) (sourcedPickles : List PickleSource)
    (supportCodeLibrary : SupportCodeLibrary) (world : World idGenerator Event) :
    ∃ seg report, (run (Coordinator.run testRunStartedId (SerialRuntimeAdapter.run
        testRunStartedId sourcedPickles options supportCodeLibrary)) world).2.log =
          world.log ++ seg ∧
      Worker.RunRule ⟨testRunStartedId, options, supportCodeLibrary⟩ sourcedPickles report ∧
      (run (Coordinator.run testRunStartedId (SerialRuntimeAdapter.run testRunStartedId
        sourcedPickles options supportCodeLibrary)) world).1 = report.outcome ∧
      seg = .said (.broadcast (.testRunStarted ⟨testRunStartedId⟩)) ::
        (report.log ++ runFinishedLog testRunStartedId report.outcome) ∧
      (StopsAtHookFailure (events seg) ↔
        report.suites.Pairwise fun s s' => s.Aborted → s'.Silent) ∧
      (options.failFast = true → StopsAtHookFailure (events seg)) ∧
      (supportCodeLibrary.Independent → (StopsAtHookFailure (events seg) ↔
        Worker.HookFailureStops ⟨testRunStartedId, options, supportCodeLibrary⟩
          sourcedPickles)) := by
  let w : Worker := ⟨testRunStartedId, options, supportCodeLibrary⟩
  obtain ⟨seg,report,tail,hlog,hrule,hr,hseg,_,htail,hevents⟩ :=
    exists_report hoptions testRunStartedId sourcedPickles supportCodeLibrary world
  have hstops : StopsAtHookFailure (events seg) ↔
      report.suites.Pairwise fun s s' => s.Aborted → s'.Silent := by
    rw [← hrule.stops_iff hdry hfast, hevents]
    have htail' : ∀ e ∈ tail, e.ofScenario = false := by
      intro e he
      obtain ⟨_,rfl⟩ := htail e he
      rfl
    unfold StopsAtHookFailure
    rw [List.pairwise_cons, List.pairwise_append]
    constructor
    · exact fun h => h.2.1
    · intro h
      exact ⟨fun _ _ hstops => hstops.elim, h,
        List.pairwise_of_forall_mem_list fun _ _ e he _ => htail' e he,
        fun _ _ e he _ => htail' e he⟩
  refine ⟨seg, report, hlog, hrule, hr, hseg, hstops, fun hstop => hstops.mpr ?_,
    fun hindep => ?_⟩
  · cases hrule with
    | aborted => exact .nil
    | failedBefore => exact .nil
    | executed _ _ hsuites _ => exact hsuites.silent_of_failFast hstop
  · rw [hstops]
    exact hrule.hookFailureStops_iff (w := w) hindep hdry hfast

/-- What is logged when the hook of the first feature fails and the second feature
has a scenario with one step. -/
def laterFeatureEvents : List Event :=
  events (run (Coordinator.run "run" (SerialRuntimeAdapter.run "run" failingFeatures.reverse
    { featureHooks := true, failGlobalHookFast := true } failingFeatureLibrary))
      (World.start decimalIds Event)).2.log

theorem stopsAtHookFailure_iff_laterFeature : StopsAtHookFailure laterFeatureEvents ↔
    Worker.HookFailureStops ⟨"run", { featureHooks := true, failGlobalHookFast := true },
      failingFeatureLibrary⟩ failingFeatures.reverse := by
  have hoptions : RuntimeOptions.Accepted { featureHooks := true, failGlobalHookFast := true } :=
    ⟨by simp, by simp⟩
  have hindep : failingFeatureLibrary.Independent := by
    apply SupportCodeLibrary.independent_ofDefinitions
    · intro d hd args started
      rw [List.mem_singleton.mp hd]
      rfl
    · intro d hd args started
      rw [List.mem_singleton.mp hd]
      rfl
  obtain ⟨seg,_,hlog,_,_,_,_,_,hstops⟩ := stopsAtHookFailure_iff hoptions rfl rfl "run"
    failingFeatures.reverse failingFeatureLibrary (World.start decimalIds Event)
  rw [laterFeatureEvents, hlog]
  exact hstops hindep

/-- The step of the second feature is executed after the hook has failed. -/
theorem not_stopsAtHookFailure_laterFeature : ¬StopsAtHookFailure laterFeatureEvents := by
  unfold StopsAtHookFailure
  decide

end CucumberCpp
