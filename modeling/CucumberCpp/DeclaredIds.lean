import CucumberCpp.CallReferences

/-! The ids that the messages of a call declare are drawn for them, so that no two are equal. -/
namespace CucumberCpp

open EventLog References DefinitionRegistration

variable {idGenerator : IdGenerator}

/-- The messages of a log declare the ids that were drawn while it was written, in order. -/
def Declares (log : List (EventLog.Entry String Event)) : Prop :=
  (runNames.declared (broadcasts log)).map Prod.snd = drawn log

theorem Declares.append {l l' : List (EventLog.Entry String Event)} (h : Declares l)
    (h' : Declares l') : Declares (l ++ l') := by
  unfold Declares at *
  rw [broadcasts_append, Vocabulary.declared_append, List.map_append, drawn_append, h, h']

theorem declares_flatMap {α : Type} {log : α → List (EventLog.Entry String Event)} {xs : List α}
    (h : ∀ x ∈ xs, Declares (log x)) : Declares (xs.flatMap log) := by
  induction xs with
  | nil => rfl
  | cons x xs ih =>
    rw [List.flatMap_cons]
    exact (h x List.mem_cons_self).append (ih fun y hy => h y (List.mem_cons_of_mem x hy))

theorem declares_bodyRuns (bs : List BodyRun) : Declares (bs.flatMap BodyRun.log) := by
  refine declares_flatMap fun b _ => ?_
  have hnone (as : List Attachment) : runNames.declared (as.map .attachment) = [] := by
    rw [Vocabulary.declared_map]
    exact List.flatMap_eq_nil_iff.mpr fun _ _ => rfl
  rw [Declares, broadcasts_bodyRun, hnone, b.drawn_log]
  rfl

theorem declares_hookRun (h : HookRun) : Declares h.log := by
  have hstarted : Declares
      [.drew h.started.id, .said (.broadcast (.testRunHookStarted h.started))] := rfl
  have hfinished : Declares h.finishedLog := by
    unfold HookRun.finishedLog
    cases h.outcome <;> rfl
  exact hstarted.append ((declares_bodyRuns h.bodies).append hfinished)

theorem declares_announcement (a : Announcement) : Declares a.log := by
  rw [Declares, broadcasts_announcement]
  simp [Announcement.log, runNames, messageNames, Vocabulary.comap, Vocabulary.declared,
    Message.declares, Envelope.declares, Function.comp_def]

theorem declares_stepRun (s : StepRun) (testCaseStartedId : String) :
    Declares (s.log testCaseStartedId) := by
  have hstarted : Declares
      [.said (.broadcast (.testStepStarted ⟨testCaseStartedId, s.testStep.id⟩))] := rfl
  have hsuggestion : Declares s.suggestionLog := by
    unfold StepRun.suggestionLog
    cases s.suggestion <;> rfl
  have hfinished : Declares
      [.said (.broadcast (.testStepFinished ⟨testCaseStartedId, s.testStep.id, s.result⟩))] := rfl
  exact hstarted.append ((hsuggestion.append (declares_bodyRuns s.bodies)).append hfinished)

theorem declares_attemptRun (a : AttemptRun) (testCaseId : String) :
    Declares (a.log testCaseId) := by
  have hstarted : Declares
      [.drew a.id, .said (.broadcast (.testCaseStarted ⟨a.attempt, a.id, testCaseId⟩))] := rfl
  have hfinished : Declares [.said (.broadcast (.testCaseFinished ⟨a.id, a.willBeRetried⟩))] := rfl
  have hsteps := declares_flatMap fun s (_ : s ∈ a.steps) => declares_stepRun s a.id
  exact hstarted.append (hsteps.append hfinished)

/-- A run declares each id that it draws, and no other. -/
theorem declares_runReport (r : RunReport) : Declares r.log := by
  have hhooks (hs : List HookRun) : Declares (hs.flatMap HookRun.log) :=
    declares_flatMap fun h _ => declares_hookRun h
  have hcase (cr : CaseRun) : Declares cr.log :=
    declares_flatMap fun a _ => declares_attemptRun a _
  have hsuite (s : SuiteRun) : Declares s.log :=
    ((hhooks s.before).append (declares_flatMap fun cr _ => hcase cr)).append (hhooks s.after)
  exact (((hhooks r.beforeAll).append (declares_flatMap fun a _ => declares_announcement a)).append
    (declares_flatMap fun s _ => hsuite s)).append (hhooks r.afterAll)

theorem declares_runLog (testRunStartedId : String) (report : RunReport) :
    Declares (runLog testRunStartedId report) := by
  have hstarted : Declares
      [.drew testRunStartedId, .said (.broadcast (.testRunStarted ⟨testRunStartedId⟩))] := rfl
  apply hstarted.append
  apply (declares_runReport report).append
  cases report.outcome <;> rfl

namespace Api

variable {d : Dependencies} {registered : Registered} {options : RunOptions}

/-- A definition is declared under its id if at all: not if its pattern does not compile. -/
theorem declared_messages_sublist (entries : List Entry) :
    (((entries.filterMap (message? d.compiler d.parseTagExpression)).flatMap
      SupportCodeMessage.declares).map Prod.snd).Sublist (entries.map Entry.id) := by
  induction entries with
  | nil => exact .slnil
  | cons e entries ih =>
    rw [List.map_cons]
    cases e with
    | hook entry => exact ih.cons_cons entry.id
    | step entry =>
      cases hcompiled : LoadedSteps.compiled d.compiler entry with
      | none =>
        rw [List.filterMap_cons_none (by rw [message?, hcompiled]; rfl)]
        exact ih.cons _
      | some loaded =>
        have hmessage : message? d.compiler d.parseTagExpression (.step entry) =
            some (.stepDefinition (stepDefinitionMessage loaded)) := by
          rw [message?, hcompiled]
          rfl
        have hid : (Entry.step entry).id = (stepDefinitionMessage loaded).id :=
          (LoadedSteps.id_of_compiled hcompiled).symm
        rw [List.filterMap_cons_some hmessage, hid]
        exact ih.cons_cons _

theorem RunPhase.Rule.declared_sublist {ordered : List LoadedPickle} {p : RunPhase}
    (h : p.Rule d registered options ordered) :
    ((messageNames.declared p.supportMessages).map Prod.snd).Sublist (drawn p.supportLog) := by
  have hdrawn : drawn p.supportLog =
      p.types.map (fun t => t.id) ++ p.loaded.registration.entries.map Entry.id := by
    rw [supportLog, drawn_append, drawn_map, drawn_append, parameterLog, idLog, drawn_map_drew,
      drawn_map_drew, drawn_map_said, List.append_nil]
  have htypes : (p.types.map SupportCodeMessage.parameterType).flatMap
      SupportCodeMessage.declares = p.types.map fun t => (.parameterType,t.id) := by
    rw [List.flatMap_map, List.map_eq_flatMap]
    rfl
  have hundefined (records : List Messages.UndefinedParameterType) :
      (records.map SupportCodeMessage.undefinedParameterType).flatMap
        SupportCodeMessage.declares = [] := by
    rw [List.flatMap_map]
    exact List.flatMap_eq_nil_iff.mpr fun _ _ => rfl
  rw [hdrawn, RunPhase.declared_supportMessages, h.agrees.emitted, List.flatMap_append,
    List.flatMap_append, htypes, hundefined, List.append_nil, List.map_append, List.map_map]
  exact (List.Sublist.refl _).append (declared_messages_sublist _)

theorem declared_file (f : FileRun) : (messageNames.declared f.messages).map Prod.snd =
    f.pickles.flatMap fun source => source.pickle.ids := by
  have hpickle (pickle : ListedPickle) :
      (Message.pickle pickle).declares.map Prod.snd = pickle.ids := by
    simp [Message.declares, ListedPickle.ids, Function.comp_def]
  have herrors (errors : List ParserError) : messageNames.declared (errors.map fun error =>
      .parseError (parseErrorMessage f.source.uri error)) = [] := by
    rw [Vocabulary.declared_map]
    exact List.flatMap_eq_nil_iff.mpr fun _ _ => rfl
  unfold FileRun.messages FileRun.pickles
  cases f.outcome with
  | ok loaded =>
    change ((loaded.2.map Message.pickle).flatMap Message.declares).map Prod.snd = _
    rw [List.flatMap_map, List.map_flatMap, List.flatMap_map]
    exact List.flatMap_congr fun pickle _ => hpickle pickle
  | error failure =>
    change (messageNames.declared (failure.errors.map _)).map Prod.snd = []
    rw [herrors, List.map_nil]

theorem declared_files (hgherkin : d.gherkin.Documented) {files : List FileRun}
    (h : ∀ f ∈ files, d.gherkin.FileRule f) :
    ((messageNames.declared (files.flatMap FileRun.messages)).map Prod.snd).Subperm
      (drawn (files.flatMap FileRun.log)) := by
  have hids : (messageNames.declared (files.flatMap FileRun.messages)).map Prod.snd =
      (files.flatMap FileRun.pickles).flatMap fun source => source.pickle.ids := by
    rw [Vocabulary.declared_flatMap, List.map_flatMap, List.flatMap_assoc]
    exact List.flatMap_congr fun f _ => declared_file f
  rw [hids]
  exact Gherkin.ids_subperm hgherkin h

theorem RunPhase.Rule.declared_subperm {ordered : List LoadedPickle} {p : RunPhase}
    (h : p.Rule d registered options ordered) :
    ((messageNames.declared (CucumberCpp.messages p.log)).map Prod.snd).Subperm
      (drawn p.log) := by
  have hrun : (messageNames.declared (p.broadcasts.map .run)).map Prod.snd =
      drawn (runLog p.testRunStartedId p.report) := by
    rw [Vocabulary.declared_map]
    exact declares_runLog p.testRunStartedId p.report
  rw [p.messages_log, Vocabulary.declared_append, List.map_append, hrun, RunPhase.log,
    drawn_append, drawn_map]
  exact (h.declared_sublist.append (List.Sublist.refl _)).subperm

theorem CallRule.declared_subperm (hgherkin : d.gherkin.Documented) {r : Except Fault Bool}
    {s : List (EventLog.Entry String ApiEvent)} (h : CallRule d registered options r s) :
    ((messageNames.declared (CucumberCpp.messages s)).map Prod.snd).Subperm (drawn s) := by
  cases h with
  | invalidPattern =>
    rw [messages_map_said]
    simp [ApiEvent.message?, Vocabulary.declared]
  | unreadable _ hfiles =>
    rw [messages_files]
    exact declared_files hgherkin hfiles
  | @unparsed files _ hfiles =>
    have hprinted : CucumberCpp.messages (printed files) = [] := by
      simp [printed, ApiEvent.message?]
    rw [messages_append, messages_files, hprinted, List.append_nil, drawn_append]
    exact (declared_files hgherkin hfiles).trans (List.sublist_append_left _ _).subperm
  | ran hfiles _ _ _ hrule =>
    rw [messages_append, messages_files, Vocabulary.declared_append, List.map_append,
      drawn_append]
    exact (declared_files hgherkin hfiles).append hrule.declared_subperm

/-- No id is declared twice in a call, whatever it is declared for. -/
theorem declared_ids_nodup (hgherkin : d.gherkin.Documented) (world : World idGenerator ApiEvent) :
    ∃ seg, (run (runCucumber d registered options) world).2.log = world.log ++ seg ∧
      ((messageNames.declared (messages seg)).map Prod.snd).Nodup := by
  obtain ⟨seg,hlog,hrule⟩ := emits_runCucumber d registered options hgherkin world
  refine ⟨seg, hlog, nodup_of_subperm (hrule.declared_subperm hgherkin) ?_⟩
  exact drawn_segment_nodup _ world seg hlog

theorem declared_ids_nodup_oneStep :
    ∃ seg, (run (runCucumber stepDependencies stepRegistered stepOptions)
        (World.start decimalIds ApiEvent)).2.log = [] ++ seg ∧
      ((messageNames.declared (messages seg)).map Prod.snd).Nodup :=
  declared_ids_nodup stepGherkin_documented _

end Api

end CucumberCpp
