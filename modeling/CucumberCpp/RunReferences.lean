import CucumberCpp.MessageReferences

/-! The references in the messages of a run, given what the messages before it declared. -/
namespace CucumberCpp

open EventLog References

variable {idGenerator : IdGenerator}

/-- The call that makes an attachment, in the context of the event that it belongs to. -/
def contextCallOf (a : Attachment) : ContextCall :=
  match a.contentEncoding with
  | .identity => .attach a.body (.options { mediaType := a.mediaType, fileName := a.fileName })
  | .base64 => .attachStream a.body (.options { mediaType := a.mediaType, fileName := a.fileName })

/-- A body that makes these attachments, one after the other. -/
def attaching (attachments : List Attachment) (result : Util.TestStepResult) : UserCode :=
  attachments.foldr (fun a next => .context (contextCallOf a) next) (.finish result)

theorem perform_contextCallOf {a : Attachment} {c : ExecutionContext}
    (h : a.BelongsTo c.stepOrHookStarted.openEvent) : (contextCallOf a).perform id c = a := by
  obtain ⟨stepOrHookStarted⟩ := c
  obtain ⟨body,contentEncoding,mediaType,fileName,caseId,stepId,hookId⟩ := a
  cases stepOrHookStarted with
  | step started =>
    obtain ⟨rfl,rfl,rfl⟩ := h
    cases contentEncoding <;> rfl
  | hook started =>
    obtain ⟨rfl,rfl,rfl⟩ := h
    cases contentEncoding <;> rfl

theorem executes_attaching {stepCode : StepDefinition → StepArgs → UserCode}
    {c : ExecutionContext} {runner : Option NestedTestCaseRunner} {attachments : List Attachment}
    {result : Util.TestStepResult}
    (h : ∀ a ∈ attachments, a.BelongsTo c.stepOrHookStarted.openEvent) :
    Executes id stepCode c runner (attaching attachments result) attachments result := by
  induction attachments with
  | nil => exact .finish
  | cons a attachments ih =>
    rw [List.forall_mem_cons] at h
    have hcall : Executes id stepCode c runner (attaching (a :: attachments) result)
        ((contextCallOf a).perform id c :: attachments) result := .context (ih h.2)
    rwa [perform_contextCallOf h.1] at hcall

/-- The bodies of a library attach to the events that their contexts were constructed with. -/
structure SupportCodeLibrary.Attributes (l : SupportCodeLibrary) : Prop where
  hook : ∀ id d, l.hookRegistry.getDefinitionById id = .ok d → ∀ args : HookArgs,
    ∀ a ∈ (d.factory args).attachments, a.BelongsTo args.stepOrHookStarted.openEvent
  step : ∀ id d, l.stepRegistry.getDefinitionById id = .ok d → ∀ (args : StepArgs) started,
    args.stepOrHookStarted = .step started → ∀ a ∈ (d.factory args).attachments,
      a.BelongsTo args.stepOrHookStarted.openEvent

/-- Such a library does what some user code would do. -/
def UserCodeLibrary.ofAttributes (l : SupportCodeLibrary) (h : l.Attributes) :
    UserCodeLibrary where
  supportCodeLibrary := l
  toBase64 := id
  hookCode := fun d args => attaching (d.factory args).attachments (d.factory args).result
  stepCode := fun d args => attaching (d.factory args).attachments (d.factory args).result
  hook := fun id d hd args => executes_attaching (h.hook id d hd args)
  step := by
    intro id d hd args started hstarted
    apply executes_attaching
    rw [← hstarted]
    exact h.step id d hd args started hstarted

/-- What a worker can refer to before its run has started. -/
structure Worker.Knows (w : Worker) (sourcedPickles : List PickleSource)
    (known : MessageName → Prop) : Prop where
  testRun : known (.testRun,w.testRunStartedId)
  hooks : ∀ id d, w.supportCodeLibrary.hookRegistry.getDefinitionById id = .ok d →
    known (.hook,d.data.id)
  steps : ∀ d ∈ w.supportCodeLibrary.stepRegistry.registry, known (.stepDefinition,d.id)
  pickles : ∀ source ∈ sourcedPickles, known (.pickle,source.pickle.id) ∧
    ∀ step ∈ source.pickle.steps, known (.pickleStep,step.id)

namespace Worker

variable {w : Worker} {sourcedPickles : List PickleSource} {known known' : MessageName → Prop}

theorem Knows.mono (h : w.Knows sourcedPickles known) (hknown : ∀ n, known n → known' n) :
    w.Knows sourcedPickles known' where
  testRun := hknown _ h.testRun
  hooks := fun id d hd => hknown _ (h.hooks id d hd)
  steps := fun d hd => hknown _ (h.steps d hd)
  pickles := fun source hsource => ⟨hknown _ (h.pickles source hsource).1,
    fun step hstep => hknown _ ((h.pickles source hsource).2 step hstep)⟩

theorem closed_flatMap_log {α : Type} {log : α → List (Entry String Event)} {xs : List α}
    (h : ∀ x ∈ xs, runNames.Closed known (broadcasts (log x))) :
    runNames.Closed known (broadcasts (xs.flatMap log)) := by
  rw [broadcasts_flatMap_log]
  exact Vocabulary.closed_flatMap h

theorem Knows.closed_hooksRule (hknows : w.Knows sourcedPickles known)
    (hattributes : w.supportCodeLibrary.Attributes) {site : CallSite} {ids : List String}
    {hs : List HookRun} {r : Except Fault (List TestStepResult)} (h : w.HooksRule site ids hs r) :
    runNames.Closed known (broadcasts (hs.flatMap HookRun.log)) := by
  refine closed_flatMap_log fun h' hh' => ?_
  obtain ⟨id,_,hrule⟩ := h.mem hh'
  cases hrule with
  | dry hd _ => exact closed_hookRun hknows.testRun (hknows.hooks _ _ hd) (by simp)
  | executed hd _ hb =>
    refine closed_hookRun hknows.testRun (hknows.hooks _ _ hd) fun b hmem => ?_
    rw [List.mem_singleton.mp hmem, hb]
    exact hattributes.hook _ _ hd _
  | aborted hd _ hb =>
    refine closed_hookRun hknows.testRun (hknows.hooks _ _ hd) fun b hmem => ?_
    rw [List.mem_singleton.mp hmem, hb]
    exact hattributes.hook _ _ hd _

/-- A test step refers to a hook, or to a pickle step and the definitions that match it. -/
theorem Knows.testSteps (hknows : w.Knows sourcedPickles known) {a : Announcement}
    (h : AnnouncementRule w.supportCodeLibrary w.testRunStartedId a)
    (hsource : a.source ∈ sourcedPickles) :
    ∀ s ∈ a.testCase.testSteps, ∀ n ∈ s.refers, known n := by
  have hhook {hookType : HookType} {tags : Finset String} {hookId : String} {s : TestStep}
      (hmem : hookId ∈ w.supportCodeLibrary.hookRegistry.findIds hookType tags)
      (hs : s = hookTestStep hookId s.id) : ∀ n ∈ s.refers, known n := by
    obtain ⟨d,hd,hid,_⟩ := HookRegistry.getDefinitionById_of_mem hmem
    rw [hs]
    intro n hn
    rw [List.mem_singleton.mp hn, ← hid]
    exact hknows.hooks hookId d hd
  have hstep {pickleStep : PickleStep} {s : TestStep} (hmem : pickleStep ∈ a.source.pickle.steps)
      (hs : s = pickleTestStep w.supportCodeLibrary pickleStep s.id) :
      ∀ n ∈ s.refers, known n := by
    rw [hs]
    intro n hn
    rw [TestStep.refers, pickleTestStep_stepDefinitionIds] at hn
    rcases List.mem_cons.mp hn with rfl | hn
    · exact (hknows.pickles _ hsource).2 pickleStep hmem
    · obtain ⟨id,hid,rfl⟩ := List.mem_map.mp hn
      obtain ⟨d,hd,rfl⟩ := List.mem_map.mp hid
      exact hknows.steps d (List.mem_of_mem_filter hd)
  obtain ⟨beforeSteps,steps,afterSteps,htestSteps,hrule⟩ := h.testSteps
  intro s hs
  rw [htestSteps, List.mem_append, List.mem_append] at hs
  rcases hs with (hs | hs) | hs
  · obtain ⟨id,hid,hs'⟩ := exists_left_of_forall₂ hrule.before hs
    exact hhook hid hs'
  · obtain ⟨pickleStep,hmem,hs'⟩ := exists_left_of_forall₂ hrule.step hs
    exact hstep hmem hs'
  · obtain ⟨id,hid,hs'⟩ := exists_left_of_forall₂ hrule.after hs
    exact hhook (List.mem_reverse.mp hid) hs'

theorem Knows.closed_announcement (hknows : w.Knows sourcedPickles known) {a : Announcement}
    (h : AnnouncementRule w.supportCodeLibrary w.testRunStartedId a)
    (hsource : a.source ∈ sourcedPickles) : runNames.Closed known (broadcasts a.log) := by
  rw [broadcasts_announcement]
  apply Vocabulary.closed_singleton
  intro n hn
  rcases List.mem_cons.mp hn with rfl | hn
  · rw [h.pickleId]
    exact (hknows.pickles _ hsource).1
  rcases List.mem_append.mp hn with hn | hn
  · rw [h.testRunStartedId] at hn
    rw [List.mem_singleton.mp hn]
    exact hknows.testRun
  · obtain ⟨s,hs,hn⟩ := List.mem_flatMap.mp hn
    exact hknows.testSteps h hsource s hs n hn

/-- The names that the announcements have added are known. -/
def Announced (announced : List Announcement) (known : MessageName → Prop) : Prop :=
  ∀ a ∈ announced, known (.testCase,a.testCase.id) ∧
    ∀ s ∈ a.testCase.testSteps, known (.testStep,s.id)

theorem Knows.closed_caseRule (hknows : w.Knows sourcedPickles known)
    (hattributes : w.supportCodeLibrary.Attributes) {announced : List Announcement}
    (hannounced : Announced announced known) {failing : Bool} {cr : CaseRun}
    (h : w.CaseRule failing cr) {a : Announcement} (ha : a ∈ announced)
    (hsource : a.source ∈ sourcedPickles) (hassembled : a.assembled = cr.assembled) :
    runNames.Closed known (broadcasts cr.log) := by
  obtain ⟨hcase,hsteps⟩ := hannounced a ha
  have htestCase : cr.assembled.testCase = a.testCase := by rw [← hassembled]; rfl
  have hpickle : cr.assembled.pickle = a.source.pickle := by rw [← hassembled]; rfl
  refine closed_flatMap_log fun attempt hattempt => ?_
  have hrule := h.attempts.stepsRule attempt hattempt
  apply closed_attemptRun (by rwa [htestCase])
  intro s hs
  obtain ⟨_,_,_,hstep⟩ := hrule.threaded.mem hs
  have hmem : s.testStep ∈ a.testCase.testSteps := by
    rw [← htestCase]
    exact hrule.complete ▸ List.mem_map_of_mem hs
  refine closed_stepRun (.inr rfl) (.inl (hsteps _ hmem)) ?_
    ((UserCodeLibrary.ofAttributes _ hattributes).stepRule_belongsTo
      (c := w.testCaseRunner cr.assembled cr.skip) rfl hstep)
  intro m hm
  cases hstep with
  | undefined _ hpickleStep =>
    obtain rfl := Option.some.inj hm
    obtain ⟨id,_,hfind⟩ := Option.bind_eq_some_iff.mp hpickleStep
    have hmemStep := List.mem_of_find?_eq_some hfind
    change _ ∈ cr.assembled.pickle.steps at hmemStep
    rw [hpickle] at hmemStep
    exact .inl ((hknows.pickles _ hsource).2 _ hmemStep)
  | _ => cases hm

theorem Knows.closed_suiteRule (hknows : w.Knows sourcedPickles known)
    (hattributes : w.supportCodeLibrary.Attributes) {announced : List Announcement}
    (hannounced : Announced announced known) {failing : Bool} {s : SuiteRun}
    (h : w.SuiteRule failing s) (hcases : ∀ cr ∈ s.cases, ∃ a ∈ announced,
      a.assembled = cr.assembled ∧ a.source ∈ sourcedPickles) :
    runNames.Closed known (broadcasts s.log) := by
  have hclosed : runNames.Closed known (broadcasts (s.cases.flatMap CaseRun.log)) := by
    refine closed_flatMap_log fun cr hcr => ?_
    obtain ⟨_,hcase⟩ := h.caseRule cr hcr
    obtain ⟨a,ha,hassembled,hsource⟩ := hcases cr hcr
    exact hknows.closed_caseRule hattributes hannounced hcase ha hsource hassembled
  rw [SuiteRun.log, broadcasts_append, broadcasts_append]
  cases h with
  | withoutHooks =>
    exact (Vocabulary.closed_nil.append_closed hclosed).append_closed Vocabulary.closed_nil
  | aborted _ hbefore =>
    have hbeforeClosed := hknows.closed_hooksRule hattributes hbefore
    exact (hbeforeClosed.append_closed hclosed).append_closed Vocabulary.closed_nil
  | withHooks _ hbefore _ hafter =>
    have hbeforeClosed := hknows.closed_hooksRule hattributes hbefore
    have hafterClosed := hknows.closed_hooksRule hattributes hafter
    exact (hbeforeClosed.append_closed hclosed).append_closed hafterClosed

theorem declared_announcements (announced : List Announcement) :
    runNames.declared (broadcasts (announced.flatMap Announcement.log)) =
      announced.flatMap fun a => (.testCase,a.testCase.id) ::
        a.testCase.testSteps.map fun s => (.testStep,s.id) := by
  have hlog : broadcasts (announced.flatMap Announcement.log) =
      announced.map fun a => .testCase a.testCase := by
    rw [broadcasts_flatMap_log, List.map_eq_flatMap]
    exact List.flatMap_congr fun a _ => broadcasts_announcement a
  rw [hlog, Vocabulary.declared, List.flatMap_map]
  rfl

/-- Every message of a run refers to names that were known or that the run has declared. -/
theorem Knows.closed_runRule (hknows : w.Knows sourcedPickles known)
    (hattributes : w.supportCodeLibrary.Attributes) {report : RunReport}
    (h : w.RunRule sourcedPickles report) : runNames.Closed known (broadcasts report.log) := by
  simp only [RunReport.log, broadcasts_append]
  cases h with
  | aborted hbefore =>
    have hbeforeClosed := hknows.closed_hooksRule hattributes hbefore
    simpa using hbeforeClosed
  | failedBefore hbefore _ hafter =>
    have hbeforeClosed := hknows.closed_hooksRule hattributes hbefore
    have hafterClosed := hknows.closed_hooksRule hattributes hafter
    simpa using hbeforeClosed.append_closed hafterClosed
  | @executed beforeAll results announced suites afterAll r hbefore _ hsuites hafter =>
    have hbeforeClosed := hknows.closed_hooksRule hattributes hbefore
    have hafterClosed := hknows.closed_hooksRule hattributes hafter
    have hsource : ∀ a ∈ announced, a.source ∈ sourcedPickles := fun a ha =>
      hsuites.sources ▸ List.mem_map_of_mem ha
    have hannouncedClosed : runNames.Closed known
        (broadcasts (announced.flatMap Announcement.log)) :=
      closed_flatMap_log fun a ha =>
        hknows.closed_announcement (hsuites.announcement a ha) (hsource a ha)
    -- the suites also refer to what was announced
    have hannounced : Announced announced fun n => known n ∨ n ∈ runNames.declared
        (broadcasts (announced.flatMap Announcement.log)) := by
      intro a ha
      rw [declared_announcements]
      refine ⟨.inr (List.mem_flatMap.mpr ⟨a, ha, List.mem_cons_self⟩), fun s hs => .inr ?_⟩
      exact List.mem_flatMap.mpr ⟨a, ha, List.mem_cons_of_mem _ (List.mem_map_of_mem hs)⟩
    have hsuitesClosed := closed_flatMap_log fun s hs => by
      obtain ⟨_,_,_,hsuite⟩ := hsuites.threaded.mem hs
      refine (hknows.mono fun n hn => .inl hn).closed_suiteRule hattributes hannounced hsuite
        fun cr hcr => ?_
      obtain ⟨a,ha,hassembled,_⟩ := hsuites.announcement_of_mem hs hcr
      exact ⟨a, ha, hassembled, hsource a ha⟩
    rw [List.append_assoc (broadcasts (beforeAll.flatMap HookRun.log))]
    exact (hbeforeClosed.append_closed (hannouncedClosed.append hsuitesClosed)).append_closed
      hafterClosed

end Worker

end CucumberCpp
