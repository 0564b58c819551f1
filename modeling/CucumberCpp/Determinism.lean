import CucumberCpp.RunReport

/-! User code that does not look at generated ids gives a test case the same
results wherever in a run it is executed. -/
namespace CucumberCpp

open EventLog

/-- The result of a factory does not depend on the ids it is given. -/
structure SupportCodeLibrary.Independent (supportCodeLibrary : SupportCodeLibrary) : Prop where
  hook : ∀ id d, supportCodeLibrary.hookRegistry.getDefinitionById id = .ok d → ∀ args started,
    (d.factory { args with stepOrHookStarted := started }).result = (d.factory args).result
  step : ∀ id d, supportCodeLibrary.stepRegistry.getDefinitionById id = .ok d → ∀ args started,
    (d.factory { args with stepOrHookStarted := started }).result = (d.factory args).result

/-- A library of definitions that do not look at ids. -/
theorem SupportCodeLibrary.independent_ofDefinitions {hooks : List HookDefinition}
    {steps : List StepDefinition}
    (hhooks : ∀ d ∈ hooks, ∀ args started,
      (d.factory { args with stepOrHookStarted := started }).result = (d.factory args).result)
    (hsteps : ∀ d ∈ steps, ∀ args started,
      (d.factory { args with stepOrHookStarted := started }).result = (d.factory args).result) :
    (SupportCodeLibrary.ofDefinitions hooks steps).Independent := by
  constructor
  · intro id d hd
    exact hhooks d (mem_hooks_of_getDefinitionById hd)
  · intro id d hd
    exact hsteps d (mem_steps_of_getDefinitionById hd)

/-- The same test step but for its id. -/
def TestStep.Similar (s t : TestStep) : Prop := t = { s with id := t.id }

namespace TestStep.Similar

variable {s t : TestStep}

theorem hookId (h : s.Similar t) : t.hookId = s.hookId := by
  rw [h]

theorem pickleStepId (h : s.Similar t) : t.pickleStepId = s.pickleStepId := by
  rw [h]

theorem stepDefinitionIds (h : s.Similar t) : t.stepDefinitionIds = s.stepDefinitionIds := by
  rw [h]

theorem stepMatchArgumentsLists (h : s.Similar t) :
    t.stepMatchArgumentsLists = s.stepMatchArgumentsLists := by
  rw [h]

end TestStep.Similar

theorem forall₂_similar {α : Type} {mk : α → String → TestStep}
    (hmk : ∀ x id id', mk x id' = { mk x id with id := id' }) {xs : List α} {ss ts : List TestStep}
    (hs : List.Forall₂ (fun x s => s = mk x s.id) xs ss)
    (ht : List.Forall₂ (fun x t => t = mk x t.id) xs ts) :
    List.Forall₂ TestStep.Similar ss ts := by
  induction hs generalizing ts with
  | nil =>
    cases ht
    exact .nil
  | @cons x s xs ss hx _ ih =>
    cases ht with
    | @cons _ t _ ts hx' htail =>
      refine .cons ?_ (ih htail)
      calc
        t = mk x t.id := hx'
        _ = { mk x s.id with id := t.id } := hmk x s.id t.id
        _ = { s with id := t.id } := by rw [← hx]

/-- Test cases for the same pickle have the same test steps but for their ids. -/
theorem AnnouncementRule.similar {supportCodeLibrary : SupportCodeLibrary} {id id' : String}
    {a a' : Announcement} (h : AnnouncementRule supportCodeLibrary id a)
    (h' : AnnouncementRule supportCodeLibrary id' a')
    (hpickle : a'.source.pickle = a.source.pickle) :
    List.Forall₂ TestStep.Similar a.testCase.testSteps a'.testCase.testSteps := by
  obtain ⟨before,steps,after,hall,hrule⟩ := h.testSteps
  obtain ⟨before',steps',after',hall',hrule'⟩ := h'.testSteps
  rw [hpickle] at hrule'
  rw [hall, hall']
  have hhook : ∀ (x id id' : String), hookTestStep x id' = { hookTestStep x id with id := id' } :=
    fun _ _ _ => rfl
  have hbefore := forall₂_similar hhook hrule.before hrule'.before
  have hsteps := forall₂_similar (fun _ _ _ => rfl) hrule.step hrule'.step
  have hafter := forall₂_similar hhook hrule.after hrule'.after
  exact List.rel_append (List.rel_append hbefore hsteps) hafter

namespace TestCaseRunner

variable {c : TestCaseRunner} {attempt : UInt64} {startedId startedId' : String}

/-- The same runner for another test case of the same pickle. -/
def onTestCase (c : TestCaseRunner) (testCase : TestCase) : TestCaseRunner :=
  { c with testCase := testCase }

/-- Runners for one pickle, whatever their test cases and the limits on their attempts. -/
structure Alike (c c' : TestCaseRunner) : Prop where
  pickle : c'.pickle = c.pickle
  skip : c'.skip = c.skip
  supportCodeLibrary : c'.supportCodeLibrary = c.supportCodeLibrary

theorem alike_onTestCase (c : TestCaseRunner) (testCase : TestCase) :
    c.Alike (c.onTestCase testCase) :=
  ⟨rfl, rfl, rfl⟩

section

variable {c' : TestCaseRunner}

theorem Alike.stepBodies (halike : c.Alike c') {pickleStep : PickleStep} {testStep : TestStep}
    {site : CallSite} {started : TestStepStarted} {bs : List BodyRun}
    (h : c'.StepBodies pickleStep testStep site started bs) :
    c.StepBodies pickleStep testStep site started bs := by
  obtain ⟨pickle,_,_,_,skip,supportCodeLibrary⟩ := c
  obtain ⟨rfl,rfl,rfl⟩ := halike
  cases h with
  | hooksOnly hbefore hafter hfailed => exact .hooksOnly hbefore hafter hfailed
  | withDefinition hbefore hafter hfailed hids hlists hd =>
    exact .withDefinition hbefore hafter hfailed hids hlists hd

/-- What a test step does is up to the pickle and the support code alone. -/
theorem Alike.stepRule (halike : c.Alike c') {state : AttemptState} {s : StepRun}
    (h : c'.StepRule attempt startedId state s) : c.StepRule attempt startedId state s := by
  have hbodies := @halike.stepBodies
  obtain ⟨pickle,testCase,maximumAttempts,repeats,skip,supportCodeLibrary⟩ := c
  obtain ⟨rfl,rfl,rfl⟩ := halike
  cases h with
  | hookSkipped hhook hskip => exact .hookSkipped hhook hskip
  | hookExecuted hhook hskip hd hb =>
    exact .hookExecuted (c := ⟨_, testCase, maximumAttempts, repeats, _, _⟩) hhook hskip hd hb
  | undefined hhook hstep hids hfollows id =>
    exact .undefined (c := ⟨_, testCase, maximumAttempts, repeats, _, _⟩) hhook hstep hids
      hfollows id
  | ambiguous hhook hstep hids hmany hfollows => exact .ambiguous hhook hstep hids hmany hfollows
  | stepSkipped hhook hstep hids hcount hskipping =>
    exact .stepSkipped hhook hstep hids hcount hskipping
  | stepExecuted hhook hstep hids hskipping h' =>
    exact .stepExecuted hhook hstep hids hskipping (hbodies h')

end

variable {testCase : TestCase}

theorem hookBody_result (hindep : c.supportCodeLibrary.Independent) {id : String}
    {d : HookDefinition} (hd : c.supportCodeLibrary.hookRegistry.getDefinitionById id = .ok d)
    (site : CallSite) (started started' : TestStepStarted) (hasError : Bool) :
    (BodyRun.ofHook d (c.hookArgs site started hasError)).result =
      (BodyRun.ofHook d (c.hookArgs site started' hasError)).result :=
  congrArg transformTestStepResult
    (hindep.hook id d hd (c.hookArgs site started' hasError)
      (.step (transformTestStepStarted started)))

theorem StepHooksRule.results_eq (hindep : c.supportCodeLibrary.Independent) {hookType : HookType}
    {site : CallSite} {started started' : TestStepStarted} {bs bs' : List BodyRun}
    (h : c.StepHooksRule hookType site started bs)
    (h' : c.StepHooksRule hookType site started' bs') :
    bs.map BodyRun.result = bs'.map BodyRun.result := by
  unfold StepHooksRule at h h'
  generalize c.supportCodeLibrary.hookRegistry.findIds hookType _ = ids at h h'
  induction h generalizing bs' with
  | nil =>
    cases h'
    rfl
  | @cons id b ids bs hb _ ih =>
    cases h' with
    | cons hb' htail =>
      obtain ⟨d,hd,rfl⟩ := hb
      obtain ⟨d',hd',rfl⟩ := hb'
      obtain rfl : d = d' := Except.ok.inj (hd.symm.trans hd')
      rw [List.map_cons, List.map_cons, ih htail,
        hookBody_result hindep hd site started started']

theorem StepBodies.results_eq (hindep : c.supportCodeLibrary.Independent) {pickleStep : PickleStep}
    {testStep testStep' : TestStep} (hsimilar : testStep.Similar testStep') {site : CallSite}
    {started started' : TestStepStarted} {bs bs' : List BodyRun}
    (h : c.StepBodies pickleStep testStep site started bs)
    (h' : c.StepBodies pickleStep testStep' site started' bs') :
    bs.map BodyRun.result = bs'.map BodyRun.result := by
  cases h with
  | hooksOnly hbefore hafter hfailed =>
    cases h' with
    | hooksOnly hbefore' hafter' hfailed' =>
      rw [List.map_append, List.map_append, hbefore.results_eq hindep hbefore',
        hafter.results_eq hindep hafter']
    | withDefinition hbefore' hafter' hfailed' =>
      rw [hbefore.results_eq hindep hbefore'] at hfailed
      exact absurd hfailed hfailed'
  | @withDefinition _ _ id _ d args _ hbefore hafter hfailed hids hlists hd =>
    cases h' with
    | hooksOnly hbefore' hafter' hfailed' =>
      rw [hbefore.results_eq hindep hbefore'] at hfailed
      exact absurd hfailed' hfailed
    | @withDefinition _ _ id' _ d' args' _ hbefore' hafter' hfailed' hids' hlists' hd' =>
      rw [hsimilar.stepDefinitionIds, hids] at hids'
      rw [hsimilar.stepMatchArgumentsLists, hlists] at hlists'
      cases hids'
      cases hlists'
      obtain rfl : d = d' := Except.ok.inj (hd.symm.trans hd')
      have hstep : (BodyRun.ofStep d (stepArgs pickleStep site started args)).result =
          (BodyRun.ofStep d (stepArgs pickleStep site started' args)).result :=
        congrArg transformTestStepResult (hindep.step id d hd
          (stepArgs pickleStep site started' args) (.step (transformTestStepStarted started)))
      rw [List.map_append, List.map_append, List.map_cons, List.map_cons,
        hbefore.results_eq hindep hbefore', hafter.results_eq hindep hafter', hstep]

theorem StepRule.result_eq (hindep : c.supportCodeLibrary.Independent) {state : AttemptState}
    {s s' : StepRun} (h : c.StepRule attempt startedId state s)
    (h' : c.StepRule attempt startedId' state s') (hsimilar : s.testStep.Similar s'.testStep) :
    s.result = s'.result := by
  have hhookId := hsimilar.hookId
  have hids := hsimilar.stepDefinitionIds
  have hpickleStep : c.pickleStepOf s'.testStep = c.pickleStepOf s.testStep := by
    unfold pickleStepOf
    rw [hsimilar.pickleStepId]
  cases h with
  | hookSkipped hhook hskip => cases h' <;> simp_all
  | hookExecuted hhook hskip hd hb =>
    cases h' with
    | hookExecuted hhook' hskip' hd' hb' =>
      obtain rfl := Option.some_inj.mp (hhook'.symm.trans (hhookId.trans hhook))
      obtain rfl := Except.ok.inj (hd'.symm.trans hd)
      subst hb hb'
      exact hookBody_result hindep hd _ _ _ _
    | _ => simp_all
  | undefined hhook hstep hids' hfollows id => cases h' <;> simp_all
  | ambiguous hhook hstep hids' hmany hfollows =>
    cases h' with
    | stepExecuted hhook' hstep' hids'' =>
      obtain rfl := Option.some_inj.mp (hids''.symm.trans (hids.trans hids'))
      simp at hmany
    | _ => simp_all
  | stepSkipped hhook hstep hids' hcount hskipping => cases h' <;> simp_all
  | stepExecuted hhook hstep hids' hskipping hbodies =>
    cases h' with
    | stepExecuted hhook' hstep' hids'' hskipping' hbodies' =>
      obtain rfl := Option.some_inj.mp (hstep'.symm.trans (hpickleStep.trans hstep))
      exact congrArg combineStepResults (hbodies.results_eq hindep hsimilar hbodies')
    | _ => simp_all

end TestCaseRunner

/-- Two records of the same test step with the same result. -/
structure StepRun.Agrees (s s' : StepRun) : Prop where
  similar : s.testStep.Similar s'.testStep
  result : s.result = s'.result

theorem stateAfter_congr {pre pre' : List StepRun} (h : List.Forall₂ StepRun.Agrees pre pre') :
    stateAfter pre = stateAfter pre' := by
  have hfold : ∀ state,
      pre.foldl AttemptState.after state = pre'.foldl AttemptState.after state := by
    induction h with
    | nil => exact fun _ => rfl
    | @cons s s' _ _ hs _ ih =>
      intro state
      have hpickle : s.isPickleStep = s'.isPickleStep := by
        rw [StepRun.isPickleStep, StepRun.isPickleStep, hs.similar.hookId]
      have hafter : state.after s = state.after s' := by
        simp only [AttemptState.after, hpickle, hs.result]
      rw [List.foldl_cons, List.foldl_cons, hafter, ih]
  exact hfold {}

theorem results_eq_of_agree {steps steps' : List StepRun}
    (h : List.Forall₂ StepRun.Agrees steps steps') :
    steps.map StepRun.result = steps'.map StepRun.result := by
  induction h with
  | nil => rfl
  | cons hs _ ih => rw [List.map_cons, List.map_cons, hs.result, ih]

namespace TestCaseRunner

variable {c : TestCaseRunner} {attempt : UInt64} {startedId startedId' : String}
  {testCase : TestCase}

/-- Both attempts are in the same state before each of their test steps. -/
theorem StepsRule.agree (hindep : c.supportCodeLibrary.Independent) {c' : TestCaseRunner}
    (halike : c.Alike c')
    (hsimilar : List.Forall₂ TestStep.Similar c.testCase.testSteps c'.testCase.testSteps)
    {steps steps' : List StepRun} (h : c.StepsRule attempt startedId steps)
    (h' : c'.StepsRule attempt startedId' steps') :
    List.Forall₂ StepRun.Agrees steps steps' := by
  have hsteps :
      List.Forall₂ (fun s s' : StepRun => s.testStep.Similar s'.testStep) steps steps' := by
    rw [← h.complete, ← h'.complete, List.forall₂_map_left_iff,
      List.forall₂_map_right_iff] at hsimilar
    exact hsimilar
  have hrest : ∀ pre pre', List.Forall₂ StepRun.Agrees pre pre' →
      Threaded (fun pre s => c.StepRule attempt startedId (stateAfter pre) s) (pre ++ steps) →
      Threaded (fun pre s => c'.StepRule attempt startedId' (stateAfter pre) s) (pre' ++ steps') → List.Forall₂ StepRun.Agrees steps steps' := by
    clear h h' hsimilar
    induction hsteps with
    | nil => exact fun _ _ _ _ _ => .nil
    | @cons s s' steps steps' hs _ ih =>
      intro pre pre' hpre hthreaded hthreaded'
      have hrule := hthreaded pre s steps rfl
      have hrule' := halike.stepRule (hthreaded' pre' s' steps' rfl)
      rw [← stateAfter_congr hpre] at hrule'
      have hagrees : s.Agrees s' := ⟨hs, hrule.result_eq hindep hrule' hs⟩
      have hpre' := List.rel_append hpre (.cons hagrees .nil)
      exact .cons hagrees (ih (pre ++ [s]) (pre' ++ [s']) hpre' (by simpa using hthreaded)
        (by simpa using hthreaded'))
  exact hrest [] [] .nil h.threaded h'.threaded

theorem AttemptRule.results_eq (hindep : c.supportCodeLibrary.Independent)
    (hsimilar : List.Forall₂ TestStep.Similar c.testCase.testSteps testCase.testSteps)
    {more : Bool} {a a' : AttemptRun} (hnumber : a'.attempt = a.attempt)
    (h : c.AttemptRule more a) (h' : (c.onTestCase testCase).AttemptRule more a') :
    a'.results = a.results ∧ a'.willBeRetried = a.willBeRetried := by
  have hsteps' := h'.steps
  rw [hnumber] at hsteps'
  have hresults : a'.results = a.results :=
    (results_eq_of_agree (h.steps.agree hindep (c.alike_onTestCase testCase) hsimilar
      hsteps')).symm
  refine ⟨hresults, ?_⟩
  rw [h'.retried, h.retried, hresults]
  rfl

/-- Attempts at test cases for the same pickle lead to the same status. -/
theorem AttemptsRule.status_eq (hindep : c.supportCodeLibrary.Independent)
    (hsimilar : List.Forall₂ TestStep.Similar c.testCase.testSteps testCase.testSteps)
    {overallResult : TestStepResult} {remaining : ℕ} {attempts attempts' : List AttemptRun}
    {status status' : TestStepResultStatus}
    (h : c.AttemptsRule overallResult attempt remaining attempts status)
    (h' : (c.onTestCase testCase).AttemptsRule overallResult attempt remaining attempts' status') :
    status' = status := by
  induction h generalizing attempts' with
  | exhausted =>
    cases h'
    rfl
  | last hnumber hrule hretry =>
    cases h' with
    | last hnumber' hrule' hretry' =>
      have hresults := (hrule.results_eq hindep hsimilar (hnumber'.trans hnumber.symm) hrule').1
      rw [hresults]
      rfl
    | again hnumber' hrule' hretry' =>
      have hretried := (hrule.results_eq hindep hsimilar (hnumber'.trans hnumber.symm) hrule').2
      rw [hretry, hretry'] at hretried
      cases hretried
  | again hnumber hrule hretry hrest ih =>
    cases h' with
    | last hnumber' hrule' hretry' =>
      have hretried := (hrule.results_eq hindep hsimilar (hnumber'.trans hnumber.symm) hrule').2
      rw [hretry, hretry'] at hretried
      cases hretried
    | again hnumber' hrule' hretry' hrest' =>
      have hresults := (hrule.results_eq hindep hsimilar (hnumber'.trans hnumber.symm) hrule').1
      rw [hresults] at hrest'
      exact ih hrest'

end TestCaseRunner

namespace Worker

/-- The worker of another run with the same library and options, but for `failFast`. -/
structure Matches (w w' : Worker) : Prop where
  library : w'.supportCodeLibrary = w.supportCodeLibrary
  options : ∃ failFast, w'.options = { w.options with failFast := failFast }

variable {w w' : Worker}

theorem Matches.symm (h : w.Matches w') : w'.Matches w := by
  obtain ⟨hlibrary,failFast,hoptions⟩ := h
  exact ⟨hlibrary.symm, w.options.failFast, by rw [hoptions]⟩

theorem Matches.dryRun (h : w.Matches w') : w'.options.dryRun = w.options.dryRun := by
  obtain ⟨_,_,hoptions⟩ := h
  rw [hoptions]

theorem Matches.hooksReturn (h : w.Matches w') (hreturn : w.options.HooksReturn) :
    w'.options.HooksReturn := by
  obtain ⟨_,_,hoptions⟩ := h
  rw [hoptions]
  exact hreturn

theorem Matches.caseFailed (h : w.Matches w') {cr cr' : CaseRun}
    (hstatus : cr'.status = cr.status) :
    w'.caseFailed cr' = w.caseFailed cr := by
  obtain ⟨_,_,hoptions⟩ := h
  simp only [Worker.caseFailed, isStatusFailed, hoptions, hstatus]

theorem Matches.testCaseRunner (h : w.Matches w') {assembled assembled' : AssembledTestCase}
    (hpickle : assembled'.pickle = assembled.pickle) (skip : Bool) :
    w'.testCaseRunner assembled' skip =
      (w.testCaseRunner assembled skip).onTestCase assembled'.testCase := by
  obtain ⟨hlibrary,_,hoptions⟩ := h
  simp only [Worker.testCaseRunner, TestCaseRunner.onTestCase, repeatsForPickle, retriesForPickle,
    hlibrary, hoptions, hpickle]

theorem HookRule.result_eq (hindep : w.supportCodeLibrary.Independent) (hmatches : w.Matches w')
    (hreturn : w.options.HooksReturn) {site : CallSite} {id : String} {h h' : HookRun}
    (hrule : w.HookRule site id h) (hrule' : w'.HookRule site id h') : h'.result = h.result := by
  have hreturn' := hmatches.hooksReturn hreturn
  have hdryRun := hmatches.dryRun
  cases hrule with
  | dry hd hdry =>
    cases hrule' with
    | dry => rfl
    | executed hd' hdry' => cases hdry'.symm.trans (hdryRun.trans hdry)
    | aborted hd' hdry' => cases hdry'.symm.trans (hdryRun.trans hdry)
  | executed hd hdry hb hgo =>
    cases hrule' with
    | dry hd' hdry' => cases hdry'.symm.trans (hdryRun.trans hdry)
    | @executed d' startedId' _ hd' hdry' hb' hgo' =>
      rw [hmatches.library] at hd'
      obtain rfl := Except.ok.inj (hd'.symm.trans hd)
      subst hb hb'
      exact congrArg transformTestStepResult
        (hindep.hook id d' hd (globalHookArgs site _) (.hook ⟨startedId'⟩))
    | aborted hd' hdry' hb' hstatus' hfast' =>
      rcases hreturn' with h | h
      · cases hdry'.symm.trans h
      · cases hfast'.symm.trans h
  | aborted hd hdry hb hstatus hfast =>
    rcases hreturn with h | h
    · cases hdry.symm.trans h
    · cases hfast.symm.trans h

theorem HooksRule.results_eq (hindep : w.supportCodeLibrary.Independent) (hmatches : w.Matches w')
    (hreturn : w.options.HooksReturn) {site : CallSite} {ids : List String} {hs hs' : List HookRun}
    {r r' : Except Fault (List TestStepResult)} (h : w.HooksRule site ids hs r)
    (h' : w'.HooksRule site ids hs' r') : hs'.map HookRun.result = hs.map HookRun.result := by
  have hall := (h.all hreturn).1
  have hall' := (h'.all (hmatches.hooksReturn hreturn)).1
  clear h h'
  induction hall generalizing hs' with
  | nil =>
    cases hall'
    rfl
  | cons hrule _ ih =>
    cases hall' with
    | cons hrule' htail =>
      rw [List.map_cons, List.map_cons, hrule.result_eq hindep hmatches hreturn hrule', ih htail]

end Worker

end CucumberCpp
