import CucumberCpp.AttemptMessages
import CucumberCpp.DeclaredIds

/-! From the attempts that a call has started its messages lead back to the pickles. -/
namespace CucumberCpp

open EventLog References

variable {idGenerator : IdGenerator}

namespace Message

def envelope? : Message → Option Envelope
  | .run envelope => some envelope
  | _ => none

def pickle? : Message → Option ListedPickle
  | .pickle message => some message
  | _ => none

def gherkinDocument? : Message → Option GherkinDocument
  | .gherkinDocument message => some message
  | _ => none

end Message

def Envelope.testCase? : Envelope → Option TestCase
  | .testCase message => some message
  | _ => none

/-- The messages of a run among those of a call. -/
def runEnvelopes (messages : List Message) : List Envelope :=
  messages.filterMap Message.envelope?

@[simp] theorem runEnvelopes_append (messages messages' : List Message) :
    runEnvelopes (messages ++ messages') = runEnvelopes messages ++ runEnvelopes messages' :=
  List.filterMap_append

@[simp] theorem runEnvelopes_map_run (envelopes : List Envelope) :
    runEnvelopes (envelopes.map .run) = envelopes := by
  rw [runEnvelopes, List.filterMap_map]
  exact List.filterMap_some

theorem mem_runEnvelopes {messages : List Message} {envelope : Envelope} :
    envelope ∈ runEnvelopes messages ↔ .run envelope ∈ messages := by
  rw [runEnvelopes, List.mem_filterMap]
  constructor
  · rintro ⟨message,hmem,henvelope⟩
    cases message with
    | run envelope' =>
      obtain rfl := Option.some.inj henvelope
      exact hmem
    | _ => cases henvelope
  · intro hmem
    exact ⟨_, hmem, rfl⟩

/-- What an attempt leads back to is among the messages: its test case, the pickle of it and the
document that the pickle was compiled from. The steps that it finished belong to the test case,
whose steps belong to the pickle. -/
structure Traces (gherkin : Gherkin) (messages : List Message) (started : TestCaseStarted)
    (testCase : TestCase) (pickle : ListedPickle) (document : GherkinDocument) : Prop where
  id : testCase.id = started.testCaseId
  broadcast : .run (.testCase testCase) ∈ messages
  finished : ∀ finished, .run (.testStepFinished finished) ∈ messages →
    finished.testCaseStartedId = started.id →
      ∃ s ∈ testCase.testSteps, s.id = finished.testStepId
  pickleId : pickle.id = testCase.pickleId
  pickleBroadcast : .pickle pickle ∈ messages
  step : ∀ s ∈ testCase.testSteps, ∀ pickleStepId, s.pickleStepId = some pickleStepId →
    ∃ pickleStep ∈ pickle.steps, pickleStep.id = pickleStepId
  documentBroadcast : .gherkinDocument document ∈ messages
  compiled : ∃ uri names, pickle ∈ (gherkin.compile document uri names).2

def Traced (gherkin : Gherkin) (messages : List Message) (started : TestCaseStarted) : Prop :=
  ∃ testCase pickle document, Traces gherkin messages started testCase pickle document

/-- A name is declared by one message only. -/
theorem eq_of_declared {messages : List Message} (h : (messageNames.declared messages).Nodup)
    {m m' : Message} (hm : m ∈ messages) (hm' : m' ∈ messages) {n : MessageName}
    (hn : n ∈ m.declares) (hn' : n ∈ m'.declares) : m = m' := by
  by_contra hne
  have hdisjoint := (List.nodup_flatMap.mp h).2
  have : Std.Symm (Function.onFun List.Disjoint messageNames.declares) :=
    ⟨fun _ _ hd => hd.symm⟩
  exact hdisjoint.forall hm hm' hne hn hn'

theorem testCase_eq_of_id {messages : List Message}
    (h : (messageNames.declared messages).Nodup) {t t' : TestCase}
    (ht : .run (.testCase t) ∈ messages) (ht' : .run (.testCase t') ∈ messages)
    (hid : t.id = t'.id) : t = t' := by
  have hdeclares (t : TestCase) : (NameKind.testCase,t.id) ∈
      Message.declares (.run (.testCase t)) := List.mem_cons_self
  have heq := eq_of_declared h ht ht' (hdeclares t) (hid ▸ hdeclares t')
  exact Envelope.testCase.inj (Message.run.inj heq)

theorem pickle_eq_of_id {messages : List Message} (h : (messageNames.declared messages).Nodup)
    {p p' : ListedPickle} (hp : .pickle p ∈ messages) (hp' : .pickle p' ∈ messages)
    (hid : p.id = p'.id) : p = p' := by
  have hdeclares (p : ListedPickle) : (NameKind.pickle,p.id) ∈ Message.declares (.pickle p) :=
    List.mem_cons_self
  exact Message.pickle.inj (eq_of_declared h hp hp' (hdeclares p) (hid ▸ hdeclares p'))

/-- A step belongs to one pickle only. -/
theorem pickle_eq_of_step {messages : List Message} (h : (messageNames.declared messages).Nodup)
    {p p' : ListedPickle} (hp : .pickle p ∈ messages) (hp' : .pickle p' ∈ messages)
    {s s' : PickleStep} (hs : s ∈ p.steps) (hs' : s' ∈ p'.steps) (hid : s.id = s'.id) : p = p' := by
  have hdeclares {p : ListedPickle} {s : PickleStep} (hs : s ∈ p.steps) :
      (NameKind.pickleStep,s.id) ∈ Message.declares (.pickle p) :=
    List.mem_cons_of_mem _ (List.mem_map_of_mem hs)
  exact Message.pickle.inj (eq_of_declared h hp hp' (hdeclares hs) (hid ▸ hdeclares hs'))

/-- The steps of a test case that are no hooks stand for steps of its pickle. -/
theorem AnnouncementRule.pickleStep {supportCodeLibrary : SupportCodeLibrary}
    {testRunStartedId : String} {a : Announcement}
    (h : AnnouncementRule supportCodeLibrary testRunStartedId a) :
    ∀ s ∈ a.testCase.testSteps, ∀ pickleStepId, s.pickleStepId = some pickleStepId →
      ∃ pickleStep ∈ a.source.pickle.steps, pickleStep.id = pickleStepId := by
  obtain ⟨beforeSteps,steps,afterSteps,htestSteps,hrule⟩ := h.testSteps
  intro s hs pickleStepId hid
  rw [htestSteps, List.mem_append, List.mem_append] at hs
  rcases hs with (hs | hs) | hs
  · obtain ⟨_,_,hhook⟩ := exists_left_of_forall₂ hrule.before hs
    rw [hhook] at hid
    cases hid
  · obtain ⟨pickleStep,hmem,hstep⟩ := exists_left_of_forall₂ hrule.step hs
    rw [hstep, pickleTestStep_pickleStepId] at hid
    exact ⟨pickleStep, hmem, Option.some.inj hid⟩
  · obtain ⟨_,_,hhook⟩ := exists_left_of_forall₂ hrule.after hs
    rw [hhook] at hid
    cases hid

/-- What was executed was announced before. -/
theorem Worker.RunRule.announced_of_mem_cases {w : Worker} {sourcedPickles : List PickleSource}
    {report : RunReport} (h : w.RunRule sourcedPickles report) {cr : CaseRun}
    (hcr : cr ∈ report.cases) :
    ∃ a, Envelope.testCase a.testCase ∈ CucumberCpp.broadcasts report.log ∧
      a.assembled = cr.assembled ∧ a.source ∈ sourcedPickles ∧
      AnnouncementRule w.supportCodeLibrary w.testRunStartedId a := by
  obtain ⟨s,hs,hmem⟩ := List.mem_flatMap.mp hcr
  cases h with
  | aborted hbefore => cases hs
  | failedBefore hbefore hfailing hafter => cases hs
  | @executed beforeAll results announced suites afterAll r hbefore hfailing hsuites hafter =>
    obtain ⟨a,ha,hassembled,hrule⟩ := hsuites.announcement_of_mem hs hmem
    refine ⟨a, ?_, hassembled, hsuites.sources ▸ List.mem_map_of_mem ha, hrule⟩
    have hannounced : Envelope.testCase a.testCase ∈
        CucumberCpp.broadcasts (announced.flatMap Announcement.log) := by
      rw [broadcasts_flatMap_log]
      refine List.mem_flatMap.mpr ⟨a, ha, ?_⟩
      rw [broadcasts_announcement]
      exact List.mem_singleton_self _
    simp only [RunReport.log, broadcasts_append, List.mem_append]
    exact .inl (.inl (.inr hannounced))

/-- An attempt finishes the steps of its test case. -/
theorem Worker.RunRule.testStep_mem {w : Worker} {sourcedPickles : List PickleSource}
    {report : RunReport} (h : w.RunRule sourcedPickles report) {cr : CaseRun}
    (hcr : cr ∈ report.cases) {attempt : AttemptRun} (hattempt : attempt ∈ cr.attempts)
    {s : StepRun} (hs : s ∈ attempt.steps) : s.testStep ∈ cr.assembled.testCase.testSteps := by
  obtain ⟨_,hrule⟩ := h.caseRule cr hcr
  have hcomplete := (hrule.attempts.stepsRule attempt hattempt).complete
  have hmem : s.testStep ∈ attempt.steps.map StepRun.testStep := List.mem_map_of_mem hs
  rw [hcomplete] at hmem
  exact hmem

namespace Api

variable {d : Dependencies} {registered : Registered} {options : RunOptions}

/-- A message that does not say that a run is finished. -/
def Unfinished (message : Message) : Prop := ∀ finished, message ≠ .run (.testRunFinished finished)

theorem files_aside (files : List FileRun) : ∀ m ∈ files.flatMap FileRun.messages,
    m.envelope? = none ∧ Unfinished m := by
  intro m hm
  obtain ⟨f,_,hmf⟩ := List.mem_flatMap.mp hm
  rcases List.mem_cons.mp hmf with rfl | hmf
  · exact ⟨rfl, by simp [Unfinished]⟩
  cases houtcome : f.outcome with
  | ok loaded =>
    rw [houtcome] at hmf
    rcases List.mem_cons.mp hmf with rfl | hmf
    · exact ⟨rfl, by simp [Unfinished]⟩
    · obtain ⟨_,_,rfl⟩ := List.mem_map.mp hmf
      exact ⟨rfl, by simp [Unfinished]⟩
  | error failure =>
    rw [houtcome] at hmf
    obtain ⟨_,_,rfl⟩ := List.mem_map.mp hmf
    exact ⟨rfl, by simp [Unfinished]⟩

theorem support_aside (supportCode : List SupportCodeMessage) :
    ∀ m ∈ supportCode.map Message.supportCode, m.envelope? = none ∧ Unfinished m := by
  intro m hm
  obtain ⟨_,_,rfl⟩ := List.mem_map.mp hm
  exact ⟨rfl, by simp [Unfinished]⟩

theorem runEnvelopes_eq_nil {messages : List Message}
    (h : ∀ m ∈ messages, m.envelope? = none ∧ Unfinished m) : runEnvelopes messages = [] :=
  List.filterMap_eq_nil_iff.mpr fun m hm => (h m hm).1

theorem RunPhase.tellsOf (p : RunPhase) (hdrawn : (drawn p.report.log).Nodup) :
    TellsOf p.broadcasts p.report.attempts := by
  have hreport := p.report.tellsOf hdrawn
  have hfinished {α : Type} (f : Envelope → Option α) (hf : ∀ m, f (.testRunFinished m) = none) :
      (CucumberCpp.broadcasts (runFinishedLog p.testRunStartedId p.report.outcome)).filterMap f =
        [] := by
    cases p.report.outcome with
    | ok success => simp [runFinishedLog, hf]
    | error _ => rfl
  rw [p.broadcasts_eq]
  constructor
  · rw [List.filterMap_cons_none rfl, List.filterMap_append, hfinished _ fun _ => rfl,
      List.append_nil, hreport.started]
  · rw [List.filterMap_cons_none rfl, List.filterMap_append, hfinished _ fun _ => rfl,
      List.append_nil, hreport.stepsFinished]
  · rw [List.filterMap_cons_none rfl, List.filterMap_append, hfinished _ fun _ => rfl,
      List.append_nil, hreport.finished]
  · exact hreport.distinct

section

variable {files : List FileRun} {p : RunPhase} {r : Except Fault Bool}
  {s : List (EventLog.Entry String ApiEvent)}

theorem Completed.runEnvelopes_eq (h : Completed d registered options files p r s) :
    runEnvelopes (CucumberCpp.messages s) = p.broadcasts := by
  rw [h.messages, runEnvelopes_append, runEnvelopes_append, runEnvelopes_map_run,
    runEnvelopes_eq_nil (files_aside files), runEnvelopes_eq_nil (support_aside _)]
  rfl

/-- The messages of a call tell of the attempts of its run. -/
theorem Completed.tellsOf (h : Completed d registered options files p r s)
    (hdrawn : (drawn s).Nodup) :
    TellsOf (runEnvelopes (CucumberCpp.messages s)) p.report.attempts := by
  rw [h.runEnvelopes_eq]
  apply p.tellsOf
  obtain ⟨before,_,hs⟩ := h.userCalls
  rw [hs, drawn_append, drawn_map] at hdrawn
  have hrun := hdrawn.of_append_right
  have hrunLog : drawn (runLog p.testRunStartedId p.report) = p.testRunStartedId ::
      (drawn p.report.log ++
        drawn (runFinishedLog p.testRunStartedId p.report.outcome)) := by
    simp [runLog]
  rw [hrunLog] at hrun
  exact (List.nodup_cons.mp hrun).2.of_append_left

/-- Each attempt of a call leads back to a document that the call has read. -/
theorem Completed.traced (h : Completed d registered options files p r s)
    (hfiles : ∀ f ∈ files, d.gherkin.FileRule f) (hdrawn : (drawn s).Nodup) :
    ∀ q ∈ p.report.attempts,
      Traced d.gherkin (CucumberCpp.messages s) ⟨q.2.attempt, q.2.id, q.1⟩ := by
  obtain ⟨strategies,ordered,hselected,hrule⟩ := h.ran
  have htells := h.tellsOf hdrawn
  intro q hq
  rcases hrule.run with ⟨_,hrun⟩ | ⟨_,e,he⟩
  · obtain ⟨cr,hcr,hmem⟩ := List.mem_flatMap.mp hq
    obtain ⟨attempt,hattempt,rfl⟩ := List.mem_map.mp hmem
    obtain ⟨a,ha,hassembled,hsource,hannouncement⟩ := hrun.announced_of_mem_cases hcr
    obtain ⟨source,hordered,hpickleSource⟩ := List.mem_map.mp hsource
    have hpickle : a.source.pickle = source.pickle.toPickle := by
      rw [← hpickleSource]
      rfl
    have htestCase : a.testCase = cr.assembled.testCase := by
      rw [← hassembled]
      rfl
    have hsources := hselected.mem source hordered
    obtain ⟨hdocument,hbroadcast⟩ := mem_messages_of_pickles hsources
    have hearly {m : Message} (hm : m ∈ files.flatMap FileRun.messages) :
        m ∈ CucumberCpp.messages s := by
      rw [h.messages]
      exact List.mem_append_left _ (List.mem_append_left _ hm)
    refine ⟨a.testCase, source.pickle, source.gherkinDocument, ?_⟩
    exact
      { id := by rw [htestCase]
        broadcast := by
          rw [← mem_runEnvelopes, h.runEnvelopes_eq, RunPhase.broadcasts, runLog]
          simp [ha]
        finished := by
          intro finished hfinished hid
          obtain ⟨step,hsteps,hstep⟩ :=
            htells.step_of_finished hq (mem_runEnvelopes.mpr hfinished) hid
          rw [htestCase]
          exact ⟨step.testStep, hrun.testStep_mem hcr hattempt hsteps, hstep⟩
        pickleId := by rw [hannouncement.pickleId, hpickle]
        pickleBroadcast := hearly hbroadcast
        step := by
          rw [show source.pickle.steps = a.source.pickle.steps by rw [hpickle]]
          exact hannouncement.pickleStep
        documentBroadcast := hearly hdocument
        compiled := by
          obtain ⟨f,hf,pickles,houtcome,hmem⟩ := exists_file_of_pickles hsources
          obtain ⟨names,_,_,hcompiled⟩ := (hfiles f hf).compiled _ _ houtcome
          exact ⟨f.source.uri, names, hcompiled ▸ hmem⟩ }
  · rw [he] at hq
    cases hq

end

end Api

end CucumberCpp
