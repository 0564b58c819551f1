import CucumberCpp.AttemptReport

/-! Every attempt the runner makes leaves the log of a report that follows the
rules, whatever the world it starts in. -/
namespace CucumberCpp

open EventLog

variable {idGenerator : IdGenerator}

theorem emits_broadcastAttachments (attachments : List Attachment) :
    Emits (broadcastAttachments attachments : Run idGenerator Unit) fun r s =>
      r = .ok () ∧ s = attachments.map fun a => .said (.broadcast (.attachment a)) := by
  induction attachments with
  | nil => exact emits_pure ⟨rfl, rfl⟩
  | cons a attachments ih =>
    unfold broadcastAttachments
    apply emits_broadcastEvent_bind
    apply ih.mono
    intro r s h
    exact ⟨h.1, by rw [h.2]; rfl⟩

theorem emits_executeBody (b : BodyRun) :
    Emits (executeBody b.call b.outcome : Run idGenerator Util.TestStepResult) fun r s =>
      r = .ok b.outcome.result ∧ s = b.log := by
  unfold executeBody
  apply emits_say_bind
  apply (emits_broadcastAttachments b.outcome.attachments).bind_ok (by simp)
  intro u s h
  apply emits_pure
  exact ⟨rfl, by rw [h.2, List.append_nil]; rfl⟩

theorem emits_invokeHook (d : HookDefinition) (args : HookArgs) :
    Emits (invokeHook d args : Run idGenerator TestStepResult) fun r s =>
      r = .ok (BodyRun.ofHook d args).result ∧ s = (BodyRun.ofHook d args).log := by
  apply (emits_executeBody (.ofHook d args)).bind_ok (by simp)
  intro result s h
  cases h.1
  apply emits_pure
  exact ⟨rfl, by rw [h.2, List.append_nil]⟩

theorem emits_invokeStep (d : StepDefinition) (args : StepArgs) :
    Emits (invokeStep d args : Run idGenerator TestStepResult) fun r s =>
      r = .ok (BodyRun.ofStep d args).result ∧ s = (BodyRun.ofStep d args).log := by
  apply (emits_executeBody (.ofStep d args)).bind_ok (by simp)
  intro result s h
  cases h.1
  apply emits_pure
  exact ⟨rfl, by rw [h.2, List.append_nil]⟩

namespace TestCaseRunner

variable (c : TestCaseRunner)

theorem emits_runStepHooks (hookType : HookType) (site : CallSite) (started : TestStepStarted) :
    Emits (c.runStepHooks hookType site started : Run idGenerator (List TestStepResult))
      fun r s => ∃ bs, c.StepHooksRule hookType site started bs ∧
        r = .ok (bs.map BodyRun.result) ∧ s = bs.flatMap BodyRun.log := by
  have hround : ∀ id ∈ c.supportCodeLibrary.hookRegistry.findIds hookType
      (transformPickleTags c.pickle.tags),
      Emits (do
        let definition ← fromExcept (c.supportCodeLibrary.hookRegistry.getDefinitionById id)
        invokeHook definition (c.hookArgs site started false) : Run idGenerator TestStepResult)
        fun r s => ∃ b, c.IsStepHookRun site started id b ∧ r = .ok b.result ∧ s = b.log := by
    intro id hid
    obtain ⟨d,hd,_⟩ := HookRegistry.getDefinitionById_of_mem hid
    apply emits_fromExcept_bind hd
    apply (emits_invokeHook d (c.hookArgs site started false)).mono
    intro r s h
    exact ⟨_, ⟨d, hd, rfl⟩, h⟩
  apply (emits_mapM' _ hround).mono
  intro r s h
  obtain ⟨bs,hbs,hs⟩ := h
  obtain ⟨hall,hr⟩ := hbs.total
  exact ⟨bs, hall, hr, hs⟩

theorem emits_runStepDefinition {pickleStep : PickleStep} {testStep : TestStep} {site : CallSite}
    {started : TestStepStarted} {id : String} {ids : List String} {args : StepMatchArgumentsList}
    {lists : List StepMatchArgumentsList} {d : StepDefinition}
    (hids : testStep.stepDefinitionIds = some (id :: ids))
    (hlists : testStep.stepMatchArgumentsLists = some (args :: lists))
    (hd : c.supportCodeLibrary.stepRegistry.getDefinitionById id = .ok d) :
    Emits (c.runStepDefinition pickleStep testStep site started : Run idGenerator TestStepResult)
      fun r s => r = .ok (BodyRun.ofStep d (stepArgs pickleStep site started args)).result ∧
        s = (BodyRun.ofStep d (stepArgs pickleStep site started args)).log := by
  unfold runStepDefinition
  rw [hids, hlists]
  exact emits_fromExcept_bind hd (emits_invokeStep d _)

theorem emits_runBetweenStepHooks {pickleStep : PickleStep} {testStep : TestStep}
    {site : CallSite} {started : TestStepStarted} {id : String} {ids : List String}
    {args : StepMatchArgumentsList} {lists : List StepMatchArgumentsList} {d : StepDefinition}
    {before : List BodyRun} (hbefore : c.StepHooksRule .beforeStep site started before)
    (hids : testStep.stepDefinitionIds = some (id :: ids))
    (hlists : testStep.stepMatchArgumentsLists = some (args :: lists))
    (hd : c.supportCodeLibrary.stepRegistry.getDefinitionById id = .ok d) :
    Emits (c.runBetweenStepHooks (before.map BodyRun.result) pickleStep testStep site started :
      Run idGenerator (List TestStepResult))
      fun r s => ∃ middle, (∀ after, c.StepHooksRule .afterStep site started after →
        c.StepBodies pickleStep testStep site started (before ++ middle ++ after)) ∧
        r = .ok ((before ++ middle).map BodyRun.result) ∧ s = middle.flatMap BodyRun.log := by
  unfold runBetweenStepHooks
  split_ifs with hfailed
  · apply emits_pure
    exact ⟨[], fun after hafter => by simpa using .hooksOnly hbefore hafter hfailed,
      by simp, rfl⟩
  · apply (c.emits_runStepDefinition hids hlists hd).bind_ok (by simp)
    intro result s h
    obtain ⟨hr,rfl⟩ := h
    cases hr
    apply emits_pure
    refine ⟨[.ofStep d (stepArgs pickleStep site started args)], ?_, by simp, by simp⟩
    intro after hafter
    simpa using .withDefinition hbefore hafter hfailed hids hlists hd

theorem emits_executeStep {pickleStep : PickleStep} {testStep : TestStep} {site : CallSite}
    {started : TestStepStarted} {id : String} {ids : List String} {args : StepMatchArgumentsList}
    {lists : List StepMatchArgumentsList} {d : StepDefinition}
    (hids : testStep.stepDefinitionIds = some (id :: ids))
    (hlists : testStep.stepMatchArgumentsLists = some (args :: lists))
    (hd : c.supportCodeLibrary.stepRegistry.getDefinitionById id = .ok d) :
    Emits (c.executeStep pickleStep testStep site started : Run idGenerator TestStepResult)
      fun r s => ∃ bs, c.StepBodies pickleStep testStep site started bs ∧
        r = .ok (combineStepResults (bs.map BodyRun.result)) ∧ s = bs.flatMap BodyRun.log := by
  unfold executeStep
  apply (c.emits_runStepHooks .beforeStep site started).bind_ok (by simp)
  intro beforeResults s h
  obtain ⟨before,hbefore,hr,rfl⟩ := h
  cases hr
  apply (c.emits_runBetweenStepHooks hbefore hids hlists hd).bind_ok (by simp)
  intro stepResults s h
  obtain ⟨middle,hbodies,hr,rfl⟩ := h
  cases hr
  apply (c.emits_runStepHooks .afterStep site started).bind_ok (by simp)
  intro afterResults s h
  obtain ⟨after,hafter,hr,rfl⟩ := h
  cases hr
  apply emits_pure
  exact ⟨before ++ middle ++ after, hbodies after hafter, by simp, by simp⟩

section

variable {attempt : UInt64} {startedId : String} {state : AttemptState} {testStep : TestStep}

theorem emits_runHook {id : String} {d : HookDefinition} (hhook : testStep.hookId = some id)
    (hd : c.supportCodeLibrary.hookRegistry.getDefinitionById id = .ok d) :
    Emits (c.runHook state.testStepResults d (!state.seenSteps) (c.nextSite attempt state)
      ⟨startedId, testStep.id⟩ state.error : Run idGenerator TestStepResult)
      fun r t => ∃ s : StepRun, s.testStep = testStep ∧ c.StepRule attempt startedId state s ∧
        r = .ok s.result ∧ t = s.suggestionLog ++ s.bodies.flatMap BodyRun.log := by
  unfold runHook
  split_ifs with hskip
  · apply emits_pure
    exact ⟨_, rfl, .hookSkipped hhook hskip, rfl, rfl⟩
  · have hskip' := Bool.eq_false_of_not_eq_true hskip
    apply (emits_invokeHook d _).mono
    intro r t h
    obtain ⟨hr,rfl⟩ := h
    exact ⟨_, rfl, .hookExecuted hhook hskip' hd rfl, hr, by simp [StepRun.suggestionLog]⟩

theorem isSkippingSteps_of_followsSkippedStep {results : List TestStepResult}
    (h : c.followsSkippedStep results = true) : c.isSkippingSteps results = true := by
  simp only [followsSkippedStep, Bool.and_eq_true, beq_iff_eq] at h
  simp [isSkippingSteps, h.2]

theorem emits_runStep {pickleStep : PickleStep} {ids : List String}
    {lists : List StepMatchArgumentsList} (hhook : testStep.hookId = none)
    (hstep : c.pickleStepOf testStep = some pickleStep)
    (hids : testStep.stepDefinitionIds = some ids)
    (hlists : testStep.stepMatchArgumentsLists = some lists) (hlength : lists.length = ids.length)
    (hd : ∀ id ∈ ids, ∃ d, c.supportCodeLibrary.stepRegistry.getDefinitionById id = .ok d) :
    Emits (c.runStep state.testStepResults pickleStep testStep (c.nextSite attempt state)
      ⟨startedId, testStep.id⟩ : Run idGenerator TestStepResult)
      fun r t => ∃ s : StepRun, s.testStep = testStep ∧ c.StepRule attempt startedId state s ∧
        r = .ok s.result ∧ t = s.suggestionLog ++ s.bodies.flatMap BodyRun.log := by
  -- past the checks for undefined and ambiguous steps, a step that follows no skipped one
  -- has exactly one definition
  have hone (hf : c.followsSkippedStep state.testStepResults = false)
      (hnone : ¬(ids.length = 0 ∧ c.followsSkippedStep state.testStepResults = false))
      (hmany : ¬(1 < ids.length ∧ c.followsSkippedStep state.testStepResults = false)) :
      ids.length = 1 := by
    have h0 : ids.length ≠ 0 := fun h => hnone ⟨h, hf⟩
    have h1 : ¬1 < ids.length := fun h => hmany ⟨h, hf⟩
    omega
  unfold runStep
  rw [hids]
  dsimp only
  split_ifs with hnone hmany hskipping
  · apply emits_nextId_bind
    intro id
    apply emits_broadcastEvent_bind
    apply emits_pure
    have hnil : ids = [] := List.length_eq_zero_iff.mp hnone.1
    exact ⟨_, rfl, .undefined hhook hstep (by rw [hids, hnil]) hnone.2 id, rfl, rfl⟩
  · apply emits_pure
    exact ⟨_, rfl, .ambiguous hhook hstep hids hmany.1 hmany.2, rfl, rfl⟩
  · apply emits_pure
    refine ⟨_, rfl, .stepSkipped hhook hstep hids ?_ hskipping, rfl, rfl⟩
    by_cases hf : c.followsSkippedStep state.testStepResults = true
    · exact .inl hf
    · exact .inr (hone (Bool.eq_false_of_not_eq_true hf) hnone hmany)
  · have hf : c.followsSkippedStep state.testStepResults = false := by
      apply Bool.eq_false_of_not_eq_true
      intro hf
      exact hskipping (c.isSkippingSteps_of_followsSkippedStep hf)
    have hlen := hone hf hnone hmany
    obtain ⟨id,rfl⟩ := List.length_eq_one_iff.mp hlen
    obtain ⟨args,rfl⟩ := List.length_eq_one_iff.mp (hlength.trans hlen)
    obtain ⟨d,hd⟩ := hd id List.mem_cons_self
    have hskipping' := Bool.eq_false_of_not_eq_true hskipping
    apply (c.emits_executeStep hids hlists hd).mono
    intro r t h
    obtain ⟨bs,hbs,hr,ht⟩ := h
    exact ⟨_, rfl, .stepExecuted hhook hstep hids hskipping' hbs, hr, ht⟩

end

/-- Between its two messages, a test step behaves as some record allows. -/
theorem emits_runStartedStep (attempt : UInt64) (startedId : String) (state : AttemptState)
    (testStep : TestStep) (hres : c.Resolves testStep) :
    Emits (c.runStartedStep attempt state testStep ⟨startedId, testStep.id⟩ :
      Run idGenerator (TestStepResult × AttemptState))
      fun r t => ∃ s : StepRun, s.testStep = testStep ∧ c.StepRule attempt startedId state s ∧
        r = .ok (s.result, state.after s) ∧
        t = s.suggestionLog ++ s.bodies.flatMap BodyRun.log := by
  unfold runStartedStep
  cases hres with
  | @hook id d hhook hd =>
    rw [hhook]
    apply emits_fromExcept_bind hd
    apply (c.emits_runHook hhook hd).bind_ok (by simp)
    intro result t h
    obtain ⟨s,hs,hrule,hr,rfl⟩ := h
    cases hr
    have hpickle : s.isPickleStep = false := by simp [StepRun.isPickleStep, hs, hhook]
    apply emits_pure
    exact ⟨s, hs, hrule, by rw [state.after_of_hook hpickle], by rw [List.append_nil]⟩
  | @pickleStep pickleStep ids lists hhook hstep hids hlists hlength hd =>
    obtain ⟨stepId,hstepId,hfind⟩ := Option.bind_eq_some_iff.mp hstep
    simp only [hhook, hstepId, hfind]
    apply (c.emits_runStep hhook hstep hids hlists hlength hd).bind_ok (by simp)
    intro result t h
    obtain ⟨s,hs,hrule,hr,rfl⟩ := h
    cases hr
    have hpickle : s.isPickleStep = true := by simp [StepRun.isPickleStep, hs, hhook]
    apply emits_pure
    exact ⟨s, hs, hrule, by rw [state.after_of_pickleStep hpickle], by rw [List.append_nil]⟩

theorem emits_runTestStep (attempt : UInt64) (startedId : String) (state : AttemptState)
    (testStep : TestStep) (hres : c.Resolves testStep) :
    Emits (c.runTestStep attempt startedId state testStep : Run idGenerator AttemptState)
      fun r t => ∃ s : StepRun, s.testStep = testStep ∧ c.StepRule attempt startedId state s ∧
        r = .ok (state.after s) ∧ t = s.log startedId := by
  unfold runTestStep
  apply emits_broadcastEvent_bind
  apply (c.emits_runStartedStep attempt startedId state testStep hres).bind_ok (by simp)
  intro next t h
  obtain ⟨s,hs,hrule,hr,rfl⟩ := h
  cases hr
  apply emits_broadcastEvent_bind
  apply emits_pure
  exact ⟨s, hs, hrule, rfl, by simp [StepRun.log, hs]⟩

theorem emits_runAttempt (attempt : UInt64) (moreAttemptsAvailable : Bool)
    (hres : ∀ testStep ∈ c.testCase.testSteps, c.Resolves testStep) :
    Emits (c.runAttempt attempt moreAttemptsAvailable :
      Run idGenerator (Bool × List TestStepResult))
      fun r t => ∃ a : AttemptRun, a.attempt = attempt ∧ c.AttemptRule moreAttemptsAvailable a ∧
        r = .ok (a.willBeRetried, a.results) ∧ t = a.log c.testCase.id := by
  unfold runAttempt
  apply emits_nextId_bind
  intro id
  apply emits_broadcastEvent_bind
  have hround (pre : List StepRun) (testStep : TestStep) (hmem : testStep ∈ c.testCase.testSteps) :
      Emits (c.runTestStep attempt id (stateAfter pre) testStep : Run idGenerator AttemptState)
        fun r t => ∃ s : StepRun, s.testStep = testStep ∧
          c.StepRule attempt id (stateAfter pre) s ∧ r = .ok (stateAfter (pre ++ [s])) ∧
          t = s.log id := by
    simpa only [stateAfter_concat] using
      c.emits_runTestStep attempt id (stateAfter pre) testStep (hres testStep hmem)
  have hloop := emits_foldlM stateAfter c.testCase.testSteps hround
  apply Emits.bind hloop
  · intro state t h
    obtain ⟨steps,hcomplete,hthreaded,hr,rfl⟩ := h
    cases hr
    apply emits_broadcastEvent_bind
    apply emits_pure
    let a : AttemptRun :=
      ⟨id, attempt, steps, c.willRetry (steps.map StepRun.result) moreAttemptsAvailable⟩
    refine ⟨a, rfl, ⟨⟨hcomplete, hthreaded⟩, rfl⟩, ?_, ?_⟩
    · simp [a, AttemptRun.results]
    · simp [a, AttemptRun.log]
  · intro e t h
    obtain ⟨_,_,_,hr,_⟩ := h
    cases hr

theorem emits_runAttempts (hres : ∀ testStep ∈ c.testCase.testSteps, c.Resolves testStep)
    (remaining : ℕ) (overallResult : TestStepResult) (attempt : UInt64) :
    Emits (c.runAttempts overallResult attempt remaining : Run idGenerator TestStepResultStatus)
      fun r t => ∃ attempts status,
        c.AttemptsRule overallResult attempt remaining attempts status ∧
        r = .ok status ∧ t = attempts.flatMap (AttemptRun.log c.testCase.id) := by
  induction remaining generalizing overallResult attempt with
  | zero => exact emits_pure ⟨[], _, .exhausted, rfl, rfl⟩
  | succ remaining ih =>
    unfold runAttempts
    apply (c.emits_runAttempt attempt (attempt+1 < c.maximumAttempts) hres).bind_ok (by simp)
    intro attempted t h
    obtain ⟨a,hnumber,hrule,hr,rfl⟩ := h
    cases hr
    by_cases hretry : a.willBeRetried = true
    · simp only [hretry, ↓reduceIte]
      apply (ih _ _).mono
      intro r t h
      obtain ⟨attempts,status,hrest,hr,rfl⟩ := h
      exact ⟨a :: attempts, status, .again hnumber hrule hretry hrest, hr, by simp⟩
    · simp only [hretry, Bool.false_eq_true, ↓reduceIte]
      apply emits_pure
      exact ⟨[a], _, .last hnumber hrule (Bool.eq_false_of_not_eq_true hretry), rfl, by simp⟩

end TestCaseRunner

end CucumberCpp
