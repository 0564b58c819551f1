import CucumberCpp.JunitReport

/-! The JUnit document of a call and the result of the call. -/
namespace CucumberCpp

open EventLog JunitXmlFormatter

variable {idGenerator : IdGenerator}

theorem forall₂_trans {α β γ : Type} {R : α → β → Prop} {S : β → γ → Prop} {xs : List α}
    {ys : List β} {zs : List γ} (h : List.Forall₂ R xs ys) (h' : List.Forall₂ S ys zs) :
    List.Forall₂ (fun x z => ∃ y ∈ ys, R x y ∧ S y z) xs zs := by
  induction h generalizing zs with
  | nil =>
    cases h'
    exact .nil
  | cons hR _ ih =>
    obtain _ | ⟨hS,hrest⟩ := h'
    refine .cons ⟨_, List.mem_cons_self, hR, hS⟩ ((ih hrest).imp ?_)
    rintro x z ⟨y,hy,hxy⟩
    exact ⟨y, List.mem_cons_of_mem _ hy, hxy⟩

theorem any_of_forall₂ {α β : Type} {p : α → Bool} {q : β → Bool} {xs : List α} {ys : List β}
    (h : List.Forall₂ (fun x y => p x = q y) xs ys) : xs.any p = ys.any q := by
  induction h with
  | nil => rfl
  | cons hxy _ ih => rw [List.any_cons, List.any_cons, ih, hxy]

theorem toUnderlying_injective : Function.Injective toUnderlying := by
  intro s t h
  cases s <;> cases t <;> first | rfl | cases h

/-- The most severe result of an attempt decides how the formatter takes it. -/
theorem failureKind?_of_mostSevere {results : List TestStepResult} {result : Option TestStepResult}
    (h : MostSevere results result) :
    (result.any fun r => failureKind? r.status = some .failure) =
      decide (failureKind? (getWorstTestStepResult results).status = some .failure) := by
  cases result with
  | none =>
    rw [show results = [] from h]
    rfl
  | some r =>
    obtain ⟨hmem,hmax⟩ := h
    have hworst := getWorstTestStepResult_mem (List.ne_nil_of_mem hmem)
    have hstatus : r.status = (getWorstTestStepResult results).status :=
      toUnderlying_injective (le_antisymm (le_getWorstTestStepResult hmem) (hmax _ hworst))
    rw [Option.any_some, hstatus]

/-- Only the last attempt at a test case is not retried. -/
def CaseRun.Concluded (cr : CaseRun) : Prop :=
  ∃ init last, cr.attempts = init ++ [last] ∧ (∀ a ∈ init, a.willBeRetried = true) ∧
    last.willBeRetried = false

theorem forall₂_lastAttempts {cases : List CaseRun} (h : ∀ cr ∈ cases, cr.Concluded) :
    List.Forall₂ (fun cr p => ∃ init, cr.attempts = init ++ [p.2]) cases
      ((cases.flatMap fun cr => cr.attempts.map fun a => (cr.assembled.testCase.id,a)).filter
        fun p => !p.2.willBeRetried) := by
  induction cases with
  | nil => exact .nil
  | cons cr cases ih =>
    rw [List.forall_mem_cons] at h
    obtain ⟨⟨init,last,hattempts,hinit,hlast⟩,hrest⟩ := h
    have hretried : (init.map fun a => (cr.assembled.testCase.id,a)).filter
        (fun p => !p.2.willBeRetried) = [] := by
      apply List.filter_eq_nil_iff.mpr
      intro p hp
      obtain ⟨a,ha,rfl⟩ := List.mem_map.mp hp
      simp [hinit a ha]
    rw [List.flatMap_cons, List.filter_append, hattempts, List.map_append, List.filter_append,
      hretried, List.nil_append, List.map_singleton, List.filter_singleton, hlast]
    exact .cons ⟨init, hattempts⟩ (ih hrest)

/-- What the document says of the run. -/
structure JunitAgrees (options : RuntimeOptions) (r : RunReport) (success : Bool)
    (suite : XmlNode) : Prop where
  summarised : suite.Summarised
  testCases : List.Forall₂ (fun cr node => ∃ init last, cr.attempts = init ++ [last] ∧
      node.hasChild "failure" =
        decide (failureKind? (getWorstTestStepResult last.results).status = some .failure))
    r.cases suite.children
  verdict : options.dryRun = false → options.strict = true →
    (∀ cr ∈ r.cases, ∀ n, ¬options.RepeatApplies cr.assembled.pickle n) →
    (success = true ↔ (∀ h ∈ r.beforeAll ++ r.afterAll, h.result.status = .passed) ∧
      (∀ s ∈ r.suites, ∀ h ∈ s.before ++ s.after, ¬h.Aborted) ∧
      ∀ node ∈ suite.children, node.hasChild "failure" = false)
  dryRun : options.dryRun = true → success = true

section

variable {w : Worker} {sourcedPickles : List PickleSource} {r : RunReport}

theorem Worker.RunRule.concluded (h : w.RunRule sourcedPickles r) (hoptions : w.options.Accepted)
    (hretry : w.options.retry.toNat < 2^64-1) : ∀ cr ∈ r.cases, cr.Concluded := by
  intro cr hcr
  obtain ⟨_,hrule⟩ := h.caseRule cr hcr
  have hshape := hrule.attempts.shape (maximumAttempts_pos hoptions hretry) (by simp)
  obtain ⟨init,last,hattempts,hinit,hlast,_⟩ := hshape.retried
  exact ⟨init, last, hattempts, hinit, hlast⟩

/-- Without repetitions a test case fails in a strict run when its last attempt did. -/
theorem Worker.RunRule.caseFailed_eq (h : w.RunRule sourcedPickles r)
    (hoptions : w.options.Accepted) (hretry : w.options.retry.toNat < 2^64-1)
    (hdry : w.options.dryRun = false) (hstrict : w.options.strict = true) {cr : CaseRun}
    (hcr : cr ∈ r.cases) (hrepeat : ∀ n, ¬w.options.RepeatApplies cr.assembled.pickle n)
    {init : List AttemptRun} {last : AttemptRun} (hattempts : cr.attempts = init ++ [last]) :
    w.caseFailed cr =
      decide (failureKind? (getWorstTestStepResult last.results).status = some .failure) := by
  obtain ⟨_,hrule⟩ := h.caseRule cr hcr
  have hpos : 0 < (w.testCaseRunner cr.assembled cr.skip).maximumAttempts.toNat :=
    maximumAttempts_pos hoptions hretry
  have hshape := hrule.attempts.shape hpos (by simp)
  obtain ⟨init',last',hattempts',_,_,hstatus⟩ := hshape.retried
  obtain ⟨_,heq⟩ := List.append_inj' (hattempts.symm.trans hattempts') rfl
  obtain rfl := List.singleton_injective heq
  have hknown := (hrule.attempts.known hpos (by simp) (by simp)).2
  have hcase := hstatus (not_repeats_testCaseRunner hrepeat)
  -- without steps an attempt has passed, or been skipped with its test case
  have hworst : failureKind? cr.status = some .failure ↔
      failureKind? (getWorstTestStepResult last.results).status = some .failure := by
    rw [hcase, TestCaseRunner.attemptStatus, TestCaseRunner.getWorstStepResult]
    split_ifs with hempty hskip
    · rw [List.isEmpty_iff.mp hempty]
      simp [failureKind?, getWorstTestStepResult_nil]
    · rw [List.isEmpty_iff.mp hempty]
      simp [failureKind?, getWorstTestStepResult_nil]
    · rfl
  have hfailing : IsFailingStatus true cr.status ↔ failureKind? cr.status = some .failure := by
    cases hs : cr.status with
    | unknown => exact absurd hs hknown
    | _ => simp [IsFailingStatus, failureKind?]
  rw [Bool.eq_iff_iff, decide_eq_true_eq, Worker.caseFailed, Worker.isStatusFailed_iff hdry,
    hstrict, hfailing, hworst]

/-- The document of a query that was told of a run. -/
theorem Worker.RunRule.junitAgrees (h : w.RunRule sourcedPickles r)
    (hoptions : w.options.Accepted) (hretry : w.options.retry.toNat < 2^64-1)
    {messages : List Message} (htells : TellsOf (runEnvelopes messages) r.attempts)
    {gherkin : Gherkin}
    (htraced : ∀ q ∈ r.attempts, Traced gherkin messages ⟨q.2.attempt, q.2.id, q.1⟩)
    {query : JunitQuery} (hdocumented : query.Documented gherkin messages)
    (f : JunitXmlFormatter) {success : Bool} (houtcome : r.outcome = .ok success) :
    ∃ report, makeReport query f = .ok report ∧
      JunitAgrees w.options r success (testSuiteNode f report) := by
  have hstartedTraced : ∀ started ∈ unretried (runEnvelopes messages),
      Traced gherkin messages started := by
    intro started hmem
    rw [htells.unretried_eq] at hmem
    obtain ⟨q,hq,rfl⟩ := List.mem_map.mp hmem
    exact htraced q (List.mem_of_mem_filter hq)
  obtain ⟨report,hreport,hsummarised,hnodes⟩ := exists_suite (f := f) hdocumented hstartedTraced
  have hlasts := forall₂_lastAttempts (h.concluded hoptions hretry)
  rw [htells.unretried_eq, List.forall₂_map_left_iff] at hnodes
  have htestCases : List.Forall₂ (fun cr node => ∃ init last, cr.attempts = init ++ [last] ∧
      node.hasChild "failure" =
        decide (failureKind? (getWorstTestStepResult last.results).status = some .failure))
      r.cases (testSuiteNode f report).children := by
    apply (forall₂_trans hlasts hnodes).imp
    rintro cr node ⟨p,hp,⟨init,hattempts⟩,hnode⟩
    refine ⟨init, p.2, hattempts, ?_⟩
    have hstarted : (⟨p.2.attempt, p.2.id, p.1⟩ : TestCaseStarted) ∈
        query.findAllTestCaseStarted := by
      rw [hdocumented.started, htells.unretried_eq]
      exact List.mem_map_of_mem hp
    have hsevere := hdocumented.mostSevere _ hstarted (htraced p (List.mem_of_mem_filter hp))
    rw [htells.resultsOf_eq (List.mem_of_mem_filter hp)] at hsevere
    rw [← failureKind?_of_mostSevere hsevere]
    exact hnode .failure
  refine ⟨report, hreport, hsummarised, htestCases, fun hdry hstrict hrepeat => ?_, fun hdry =>
    Except.ok.inj (houtcome.symm.trans (h.of_dryRun hdry).1)⟩
  rw [h.success_iff hdry houtcome]
  refine and_congr_right fun _ => and_congr_right fun _ => ?_
  have hany : r.cases.any w.caseFailed =
      (testSuiteNode f report).children.any (XmlNode.hasChild "failure") := by
    apply any_of_forall₂
    apply (List.forall₂_and_left (p := (· ∈ r.cases)) _ _).mpr ⟨fun _ hcr => hcr, htestCases⟩ |>.imp
    rintro cr node ⟨hcr,init,last,hattempts,hnode⟩
    rw [hnode]
    exact h.caseFailed_eq hoptions hretry hdry hstrict hcr (hrepeat cr hcr) hattempts
  rw [hany]
  simp

end

namespace Api

variable {d : Dependencies} {registered : Registered} {options : RunOptions}

theorem unfinished_report (r : RunReport) :
    ∀ m ∈ (CucumberCpp.broadcasts r.log).map Message.run, Unfinished m := by
  intro m hm finished heq
  obtain ⟨e,he,rfl⟩ := List.mem_map.mp hm
  obtain rfl := Message.run.inj heq
  have hnone := List.filterMap_eq_nil_iff.mp (gathered_testRunFinished r) _ he
  cases hnone

/-- What the formatter makes of a call: no document unless the run finished, and otherwise one
that counts the test cases of the run. -/
inductive JunitOutcome (f : JunitXmlFormatter) (options : RunOptions) (r : RunReport)
    (messages : List Message) : Prop where
  | unfinished {e} (houtcome : r.outcome = .error e) (hdocuments : f.documents messages = .ok [])
  | finished {success suite} (houtcome : r.outcome = .ok success)
      (hdocuments : f.documents messages = .ok [suite])
      (hagrees : JunitAgrees options.runtime r success suite)

theorem Completed.junitOutcome {files : List FileRun} {p : RunPhase} {r : Except Fault Bool}
    {s : List (EventLog.Entry String ApiEvent)}
    (h : Completed d registered options files p r s)
    (hfiles : ∀ f ∈ files, d.gherkin.FileRule f) (hdrawn : (drawn s).Nodup)
    (hretry : options.runtime.retry.toNat < 2^64-1) {f : JunitXmlFormatter}
    (hdocumented : (f.query (CucumberCpp.messages s)).Documented d.gherkin
      (CucumberCpp.messages s)) :
    JunitOutcome f options p.report (CucumberCpp.messages s) := by
  obtain ⟨_,_,_,hrule⟩ := h.ran
  have hmessages : CucumberCpp.messages s = files.flatMap FileRun.messages ++
      p.supportCode.map .supportCode ++ .run (.testRunStarted ⟨p.testRunStartedId⟩) ::
        ((CucumberCpp.broadcasts p.report.log).map .run ++ (CucumberCpp.broadcasts
          (runFinishedLog p.testRunStartedId p.report.outcome)).map .run) := by
    rw [h.messages, p.broadcasts_eq, List.map_cons, List.map_append]
  -- all messages but the last one of a run that returns
  have hbefore : ∀ m ∈ files.flatMap FileRun.messages ++ p.supportCode.map .supportCode ++
      .run (.testRunStarted ⟨p.testRunStartedId⟩) ::
        (CucumberCpp.broadcasts p.report.log).map .run, Unfinished m := by
    intro m hm
    rw [List.mem_append, List.mem_append, List.mem_cons] at hm
    rcases hm with (hm | hm) | rfl | hm
    · exact (files_aside files m hm).2
    · exact (support_aside p.supportCode m hm).2
    · simp [Unfinished]
    · exact unfinished_report p.report m hm
  cases houtcome : p.report.outcome with
  | error e =>
    rw [houtcome, runFinishedLog, broadcasts_nil, List.map_nil, List.append_nil] at hmessages
    apply JunitOutcome.unfinished houtcome
    rw [hmessages]
    exact documents_of_unfinished hbefore
  | ok success =>
    rw [houtcome, runFinishedLog, broadcasts_broadcast, broadcasts_nil, List.map_singleton,
      ← List.cons_append, ← List.append_assoc] at hmessages
    rcases hrule.run with ⟨haccepted,hrun⟩ | ⟨_,e,he⟩
    · obtain ⟨report,hreport,hagrees⟩ := hrun.junitAgrees haccepted hretry
        (h.tellsOf hdrawn) (h.traced hfiles hdrawn) hdocumented f houtcome
      apply JunitOutcome.finished houtcome _ hagrees
      rw [hmessages] at hreport ⊢
      exact documents_of_finished hbefore _ hreport
    · rw [he] at houtcome
      cases houtcome

theorem Completed.unambiguous {files : List FileRun} {p : RunPhase} {r : Except Fault Bool}
    {s : List (EventLog.Entry String ApiEvent)} (h : Completed d registered options files p r s)
    (hdrawn : (drawn s).Nodup)
    (hdeclared : (messageNames.declared (CucumberCpp.messages s)).Nodup) :
    Unambiguous (CucumberCpp.messages s) where
  declared := hdeclared
  finished := by
    have htells := h.tellsOf hdrawn
    rw [htells.finished, List.map_map]
    exact htells.distinct

/-- The formatter writes a document exactly when the run of a call returns. The counts of the
document are those of its elements, one for each test case that was attempted, and an element has
failed as the last attempt at its test case has. A strict run without repetitions succeeds when
its before-all and after-all hooks passed, no feature hook ended a suite and no element has
failed, and a dry run always does. -/
theorem junit_report_agrees (hgherkin : d.gherkin.Documented)
    (hretry : options.runtime.retry.toNat < 2^64-1) (f : JunitXmlFormatter)
    (hdocumented : ∀ messages, Unambiguous messages →
      (f.query messages).Documented d.gherkin messages)
    (world : World idGenerator ApiEvent) :
    ∃ seg, (run (runCucumber d registered options) world).2.log = world.log ++ seg ∧
      ((∃ files, Stopped d options files (run (runCucumber d registered options) world).1 seg ∧
          f.documents (messages seg) = .ok []) ∨
        ∃ files p, Completed d registered options files p
            (run (runCucumber d registered options) world).1 seg ∧
          JunitOutcome f options p.report (messages seg)) := by
  obtain ⟨seg,hlog,hrule⟩ := emits_runCucumber d registered options hgherkin world
  have hdrawn := drawn_segment_nodup _ world seg hlog
  have hdeclared : (messageNames.declared (messages seg)).Nodup :=
    (nodup_of_subperm (hrule.declared_subperm hgherkin) hdrawn).of_map _
  refine ⟨seg, hlog, ?_⟩
  obtain ⟨files,hfiles,hstopped | ⟨p,hcompleted⟩⟩ := hrule.phases
  · refine .inl ⟨files, hstopped, documents_of_unfinished fun m hm => ?_⟩
    rw [hstopped.messages] at hm
    exact (files_aside files m hm).2
  · have hunambiguous := hcompleted.unambiguous hdrawn hdeclared
    exact .inr ⟨files, p, hcompleted,
      hcompleted.junitOutcome hfiles hdrawn hretry (hdocumented _ hunambiguous)⟩

/-- The test case that was started, looked up by its id. -/
def streamTestCase (messages : List Message) (started : TestCaseStarted) : Option TestCase :=
  ((runEnvelopes messages).filterMap Envelope.testCase?).find? fun t => t.id = started.testCaseId

def streamPickle (messages : List Message) (started : TestCaseStarted) : Option ListedPickle :=
  (streamTestCase messages started).bind fun testCase =>
    (messages.filterMap Message.pickle?).find? fun p => p.id = testCase.pickleId

/-- The document of a pickle, looked up by its `uri`. -/
def streamDocument (messages : List Message) (pickle : ListedPickle) : Option GherkinDocument :=
  (messages.filterMap Message.gherkinDocument?).find? fun document => document.uri = pickle.uri

/-- A query that answers from the messages. What an attempt was written as it knows only once it
has seen the document; all clocks stand still. -/
def streamQuery (messages : List Message) : JunitQuery :=
  let envelopes := runEnvelopes messages
  let mostSevere (started : TestCaseStarted) : Option TestStepResult :=
    if (resultsOf envelopes started).isEmpty then none
    else some (getWorstTestStepResult (resultsOf envelopes started))
  { findAllTestCaseStarted := unretried envelopes
    countTestCasesStarted := (unretried envelopes).length
    countMostSevereTestStepResultStatus := fun status => some <|
      (unretried envelopes).countP fun started =>
        (mostSevere started).map TestStepResult.status = some status
    findMostSevereTestStepResultBy := mostSevere
    findPickleBy := streamPickle messages
    findLineageBy := fun started =>
      ((streamPickle messages started).bind (streamDocument messages)).map fun document =>
        { feature := some document.uri }
    findTestCaseDurationBy := fun _ => some {}
    findTestStepFinishedAndTestStepBy := fun started =>
      ((envelopes.filterMap Envelope.testStepFinished?).filter fun finished =>
        finished.testCaseStartedId = started.id).filterMap fun finished =>
          (streamTestCase messages started).bind fun testCase =>
            (testCase.testSteps.find? fun t => t.id = finished.testStepId).map fun testStep =>
              (finished,testStep)
    findPickleStepBy := fun testStep =>
      ((messages.filterMap Message.pickle?).flatMap fun p => p.steps).find? fun s =>
        some s.id = testStep.pickleStepId
    findStepBy := fun pickleStep =>
      (((messages.filterMap Message.pickle?).find? fun p =>
        p.steps.any fun s => s.id = pickleStep.id).bind (streamDocument messages)).map fun _ =>
          { keyword := "Given " }
    findTestRunDuration := some {}
    findTestRunStarted := some ⟨0,0⟩ }

section

variable {gherkin : Gherkin} {messages : List Message} {started : TestCaseStarted}
  {testCase : TestCase} {pickle : ListedPickle} {document : GherkinDocument}

theorem streamTestCase_eq (hdeclared : (messageNames.declared messages).Nodup)
    (h : Traces gherkin messages started testCase pickle document) :
    streamTestCase messages started = some testCase := by
  have hmem : testCase ∈ (runEnvelopes messages).filterMap Envelope.testCase? :=
    List.mem_filterMap.mpr ⟨_, mem_runEnvelopes.mpr h.broadcast, rfl⟩
  have hsome : (streamTestCase messages started).isSome := by
    rw [streamTestCase, List.find?_isSome]
    exact ⟨testCase, hmem, decide_eq_true h.id⟩
  obtain ⟨found,hfound⟩ := Option.isSome_iff_exists.mp hsome
  obtain ⟨envelope,henvelope,htestCase⟩ := List.mem_filterMap.mp (List.mem_of_find?_eq_some hfound)
  have hfoundId : found.id = started.testCaseId := by
    simpa using List.find?_some hfound
  cases envelope with
  | testCase found' =>
    obtain rfl := Option.some.inj htestCase
    rw [hfound, testCase_eq_of_id hdeclared (mem_runEnvelopes.mp henvelope) h.broadcast
      (hfoundId.trans h.id.symm)]
  | _ => cases htestCase

theorem mem_pickles : pickle ∈ messages.filterMap Message.pickle? ↔ .pickle pickle ∈ messages := by
  rw [List.mem_filterMap]
  constructor
  · rintro ⟨message,hmem,hpickle⟩
    cases message with
    | pickle pickle' =>
      obtain rfl := Option.some.inj hpickle
      exact hmem
    | _ => cases hpickle
  · intro hmem
    exact ⟨_, hmem, rfl⟩

/-- A pickle that is looked up by what it alone has is found. -/
theorem find?_pickles {q : ListedPickle → Bool} (hmem : .pickle pickle ∈ messages)
    (hq : q pickle = true) (hunique : ∀ p, .pickle p ∈ messages → q p = true → p = pickle) :
    (messages.filterMap Message.pickle?).find? q = some pickle := by
  have hsome : ((messages.filterMap Message.pickle?).find? q).isSome :=
    List.find?_isSome.mpr ⟨pickle, mem_pickles.mpr hmem, hq⟩
  obtain ⟨found,hfound⟩ := Option.isSome_iff_exists.mp hsome
  have hfoundMem := mem_pickles.mp (List.mem_of_find?_eq_some hfound)
  rw [hfound, hunique found hfoundMem (List.find?_some hfound)]

theorem streamPickle_eq (hdeclared : (messageNames.declared messages).Nodup)
    (h : Traces gherkin messages started testCase pickle document) :
    streamPickle messages started = some pickle := by
  rw [streamPickle, streamTestCase_eq hdeclared h, Option.bind_some]
  apply find?_pickles h.pickleBroadcast (decide_eq_true h.pickleId)
  intro p hp hid
  exact pickle_eq_of_id hdeclared hp h.pickleBroadcast
    ((of_decide_eq_true hid).trans h.pickleId.symm)

theorem streamDocument_isSome
    (huri : ∀ ast uri names, ∀ p ∈ (gherkin.compile ast uri names).2, p.uri = ast.uri)
    (h : Traces gherkin messages started testCase pickle document) :
    (streamDocument messages pickle).isSome := by
  obtain ⟨uri,names,hcompiled⟩ := h.compiled
  rw [streamDocument, List.find?_isSome]
  exact ⟨document, List.mem_filterMap.mpr ⟨_, h.documentBroadcast, rfl⟩,
    decide_eq_true (huri document uri names pickle hcompiled).symm⟩

theorem streamQuery_resolves (hdeclared : (messageNames.declared messages).Nodup)
    (huri : ∀ ast uri names, ∀ p ∈ (gherkin.compile ast uri names).2, p.uri = ast.uri)
    (h : Traces gherkin messages started testCase pickle document) :
    (streamQuery messages).Resolves started where
  pickle := Option.isSome_iff_exists.mpr ⟨pickle, streamPickle_eq hdeclared h⟩
  lineage := by
    rw [streamQuery, Option.isSome_map, streamPickle_eq hdeclared h, Option.bind_some]
    exact streamDocument_isSome huri h
  step := by
    intro p hp hstep
    obtain ⟨finished,_,hfinished⟩ := List.mem_filterMap.mp hp
    rw [streamTestCase_eq hdeclared h, Option.bind_some, Option.map_eq_some_iff] at hfinished
    obtain ⟨testStep,htestStep,rfl⟩ := hfinished
    obtain ⟨pickleStepId,hid⟩ := Option.isSome_iff_exists.mp hstep
    obtain ⟨pickleStep,hmem,rfl⟩ :=
      h.step testStep (List.mem_of_find?_eq_some htestStep) _ hid
    have hfound : ((streamQuery messages).findPickleStepBy testStep).isSome := by
      rw [streamQuery, List.find?_isSome]
      exact ⟨pickleStep, List.mem_flatMap.mpr ⟨pickle, mem_pickles.mpr h.pickleBroadcast, hmem⟩,
        decide_eq_true hid.symm⟩
    obtain ⟨found,hsome⟩ := Option.isSome_iff_exists.mp hfound
    have hfoundId : found.id = pickleStep.id := by
      have heq := List.find?_some hsome
      rw [hid, decide_eq_true_eq] at heq
      exact Option.some.inj heq
    -- the pickle that the step is looked up in is the one of the attempt
    have hpickle : (messages.filterMap Message.pickle?).find? (fun p =>
        p.steps.any fun s => s.id = found.id) = some pickle := by
      apply find?_pickles h.pickleBroadcast
      · exact List.any_eq_true.mpr ⟨pickleStep, hmem, decide_eq_true hfoundId.symm⟩
      · intro p' hp' hany
        obtain ⟨s,hs,hsid⟩ := List.any_eq_true.mp hany
        exact pickle_eq_of_step hdeclared hp' h.pickleBroadcast hs hmem
          ((of_decide_eq_true hsid).trans hfoundId)
    rw [Option.isSome_bind, hsome]
    simp only [Option.any_some, streamQuery, hpickle, Option.bind_some, Option.isSome_map]
    exact streamDocument_isSome huri h

theorem streamQuery_documented
    (huri : ∀ ast uri names, ∀ p ∈ (gherkin.compile ast uri names).2, p.uri = ast.uri)
    (hunambiguous : Unambiguous messages) : (streamQuery messages).Documented gherkin messages where
  started := rfl
  counted := rfl
  statuses := fun _ => rfl
  mostSevere := by
    intro started _ _
    simp only [streamQuery]
    split_ifs with hempty
    · exact List.isEmpty_iff.mp hempty
    · have hne : resultsOf (runEnvelopes messages) started ≠ [] := fun heq => hempty (by simp [heq])
      exact ⟨getWorstTestStepResult_mem hne, fun _ hmem => le_getWorstTestStepResult hmem⟩
  resolves := by
    rintro started _ ⟨testCase,pickle,document,h⟩
    exact streamQuery_resolves hunambiguous.declared huri h

end

/-- Right for numbers that are not negative and for characters of one column. -/
def plainFormatting : Formatting where
  zeroPadded := fun width n =>
    List.replicate (width-(decimal n.toNat).length) '0' ++ decimal n.toNat
  leftAligned := fun fill width text => text ++ List.replicate (width-text.length) fill
  gmtime := fun _ => ⟨70,0,1,0,0,0⟩

def streamFormatter : JunitXmlFormatter where
  query := streamQuery
  reduce := fun _ pickle => pickle.name.toList
  fmt := plainFormatting

/-- Two files with a scenario each; of their steps only that of the first is defined. -/
def mixedGherkin : Gherkin where
  slurp := fun uri => .ok uri
  parse := fun uri _ _ => (1,.ok { uri := uri })
  compile := fun ast _ names => (2,
    [{ id := names 1
       name := ast.uri
       steps := [{ id := names 0, text := if ast.uri = "a.feature" then "passes" else "fails" }]
       uri := ast.uri
       location := none }])

def mixedDependencies : Dependencies := { stepDependencies with gherkin := mixedGherkin }

def mixedOptions : RunOptions where
  sources := { paths := ["a.feature", "c.feature"] }
  runtime := { strict := true }

theorem mixedGherkin_documented : mixedGherkin.Documented where
  ids := fun _ _ names => (List.Perm.swap (names 0) (names 1) []).subperm
  errors := by simp [mixedGherkin]

/-- The second of two test cases fails the document and the call. -/
theorem junit_report_agrees_mixed :
    ∃ seg files p suite, (run (runCucumber mixedDependencies stepRegistered mixedOptions)
        (World.start decimalIds ApiEvent)).2.log = seg ∧
      Completed mixedDependencies stepRegistered mixedOptions files p (.ok false) seg ∧
      streamFormatter.documents (messages seg) = .ok [suite] ∧
      JunitAgrees mixedOptions.runtime p.report false suite ∧
      suite.attribute? "tests" = some (.unsigned 2) ∧
      suite.attribute? "failures" = some (.unsigned 1) ∧
      suite.children.map (XmlNode.hasChild "failure") = [false, true] := by
  have hresult : (run (runCucumber mixedDependencies stepRegistered mixedOptions)
      (World.start decimalIds ApiEvent)).1 = .ok false := by decide +kernel
  have hdocuments : (streamFormatter.documents (messages (run (runCucumber mixedDependencies
      stepRegistered mixedOptions) (World.start decimalIds ApiEvent)).2.log)).map (fun suites =>
        suites.map fun suite => (suite.attribute? "tests", suite.attribute? "failures",
          suite.children.map (XmlNode.hasChild "failure"))) =
      .ok [(some (.unsigned 2),some (.unsigned 1),[false, true])] := by decide +kernel
  have huri : ∀ ast uri names, ∀ p ∈ (mixedGherkin.compile ast uri names).2, p.uri = ast.uri := by
    intro ast uri names p hp
    rw [List.mem_singleton.mp hp]
  have hretry : mixedOptions.runtime.retry.toNat < 2^64-1 := by decide
  obtain ⟨seg,hlog,hphases⟩ :=
    @junit_report_agrees decimalIds mixedDependencies stepRegistered mixedOptions
      mixedGherkin_documented hretry streamFormatter (fun _ => streamQuery_documented huri)
      (World.start decimalIds ApiEvent)
  rw [show (World.start decimalIds ApiEvent).log = [] from rfl, List.nil_append] at hlog
  rw [hlog] at hdocuments
  rw [hresult] at hphases
  rcases hphases with ⟨files,_,hnone⟩ | ⟨files,p,hcompleted,houtcome⟩
  · rw [hnone] at hdocuments
    cases hdocuments
  · cases houtcome with
    | unfinished _ hnone =>
      rw [hnone] at hdocuments
      cases hdocuments
    | @finished success suite hsuccess hone hagrees =>
      rw [hone] at hdocuments
      obtain ⟨htests,hfailures,hchildren⟩ : suite.attribute? "tests" = some (.unsigned 2) ∧
          suite.attribute? "failures" = some (.unsigned 1) ∧
          suite.children.map (XmlNode.hasChild "failure") = [false, true] := by
        simpa [Except.map] using hdocuments
      obtain rfl : success = false := by
        rw [← hcompleted.result] at hsuccess
        exact (Except.ok.inj hsuccess).symm
      exact ⟨seg, files, p, suite, hlog, hcompleted, hone, hagrees, htests, hfailures, hchildren⟩

end Api

end CucumberCpp
