import CucumberCpp.Attachments
import CucumberCpp.AttemptMessages
import CucumberCpp.References
import CucumberCpp.RunPhases

/-! The ids that messages declare and refer to: a listener has seen the declaration of every
id by the time a message refers to it. -/
namespace CucumberCpp

open EventLog References

variable {idGenerator : IdGenerator}

/-- What an id in a message stands for. -/
inductive NameKind where
  | pickle | pickleStep | parameterType | stepDefinition | hook | testRun | testRunHook | testCase
  | testStep | testCaseStarted | suggestion
  deriving DecidableEq, Repr

abbrev MessageName := NameKind × String

def TestStep.refers (s : TestStep) : List MessageName :=
  s.hookId.toList.map (.hook,·) ++ s.pickleStepId.toList.map (.pickleStep,·) ++
    (s.stepDefinitionIds.getD []).map (.stepDefinition,·)

namespace Envelope

def declares : Envelope → List MessageName
  | .testRunStarted m => [(.testRun,m.id)]
  | .testRunHookStarted m => [(.testRunHook,m.id)]
  | .testCase m => (.testCase,m.id) :: m.testSteps.map fun s => (.testStep,s.id)
  | .testCaseStarted m => [(.testCaseStarted,m.id)]
  | .suggestion m => [(.suggestion,m.id)]
  | _ => []

def refers : Envelope → List MessageName
  | .testRunStarted _ => []
  | .testRunHookStarted m => [(.testRun,m.testRunStartedId), (.hook,m.hookId)]
  | .testRunHookFinished m => [(.testRunHook,m.testRunHookStartedId)]
  | .testCase m => (.pickle,m.pickleId) ::
      (m.testRunStartedId.toList.map (.testRun,·) ++ m.testSteps.flatMap TestStep.refers)
  | .testCaseStarted m => [(.testCase,m.testCaseId)]
  | .testStepStarted m => [(.testCaseStarted,m.testCaseStartedId), (.testStep,m.testStepId)]
  | .attachment m => m.testCaseStartedId.toList.map (.testCaseStarted,·) ++
      m.testStepId.toList.map (.testStep,·) ++
      m.testRunHookStartedId.toList.map (.testRunHook,·)
  | .suggestion m => [(.pickleStep,m.pickleStepId)]
  | .testStepFinished m => [(.testCaseStarted,m.testCaseStartedId), (.testStep,m.testStepId)]
  | .testCaseFinished m => [(.testCaseStarted,m.testCaseStartedId)]
  | .testRunFinished m => [(.testRun,m.testRunStartedId)]

end Envelope

def SupportCodeMessage.declares : SupportCodeMessage → List MessageName
  | .parameterType m => [(.parameterType,m.id)]
  | .undefinedParameterType _ => []
  | .stepDefinition m => [(.stepDefinition,m.id)]
  | .hook m => [(.hook,m.id)]

namespace Message

def declares : Message → List MessageName
  | .pickle m => (.pickle,m.id) :: m.steps.map fun s => (.pickleStep,s.id)
  | .supportCode m => m.declares
  | .run envelope => envelope.declares
  | _ => []

def refers : Message → List MessageName
  | .run envelope => envelope.refers
  | _ => []

end Message

def messageNames : Vocabulary Message MessageName := ⟨Message.declares, Message.refers⟩

/-- The names in the messages of a run. -/
def runNames : Vocabulary Envelope MessageName := messageNames.comap .run

section

variable {known : MessageName → Prop}

theorem closed_attachments {as : List Attachment} {b : OpenEvent} (hbelongs : ∀ a ∈ as,
      a.BelongsTo b) (hknown : match b with
      | .testStep testCaseStartedId testStepId =>
        known (.testCaseStarted,testCaseStartedId) ∧ known (.testStep,testStepId)
      | .testRunHook testRunHookStartedId => known (.testRunHook,testRunHookStartedId)) :
    runNames.Closed known (as.map .attachment) := by
  apply Vocabulary.closed_of_known
  intro e he n hn
  obtain ⟨a,ha,rfl⟩ := List.mem_map.mp he
  have hab := hbelongs a ha
  change n ∈ a.testCaseStartedId.toList.map _ ++ a.testStepId.toList.map _ ++
    a.testRunHookStartedId.toList.map _ at hn
  cases b with
  | testStep testCaseStartedId testStepId =>
    obtain ⟨hcase,hstep,hhook⟩ := hab
    rw [hcase, hstep, hhook] at hn
    rcases List.mem_cons.mp hn with rfl | hn
    · exact hknown.1
    · rw [List.mem_singleton.mp hn]
      exact hknown.2
  | testRunHook testRunHookStartedId =>
    obtain ⟨hhook,hcase,hstep⟩ := hab
    rw [hcase, hstep, hhook] at hn
    rw [List.mem_singleton.mp hn]
    exact hknown

/-- A hook around a run or a feature, whether it finished or not. -/
theorem closed_hookRun {h : HookRun} (hrun : known (.testRun,h.started.testRunStartedId))
    (hhook : known (.hook,h.started.hookId))
    (hbelongs : ∀ b ∈ h.bodies, ∀ a ∈ b.attachments, a.BelongsTo (.testRunHook h.started.id)) :
    runNames.Closed known (broadcasts h.log) := by
  have hlog : broadcasts h.log = .testRunHookStarted h.started ::
      ((h.bodies.flatMap BodyRun.attachments).map .attachment ++ broadcasts h.finishedLog) := by
    simp [HookRun.log, broadcasts_bodyRuns]
  have hattachments : ∀ a ∈ h.bodies.flatMap BodyRun.attachments,
      a.BelongsTo (.testRunHook h.started.id) := by
    intro a ha
    obtain ⟨b,hb,hab⟩ := List.mem_flatMap.mp ha
    exact hbelongs b hb a hab
  have hstarted : (NameKind.testRunHook,h.started.id) ∈
      runNames.declares (.testRunHookStarted h.started) := List.mem_singleton_self _
  rw [hlog]
  apply Vocabulary.Closed.cons
  · intro n hn
    rcases List.mem_cons.mp hn with rfl | hn
    · exact hrun
    · rw [List.mem_singleton.mp hn]
      exact hhook
  · apply (closed_attachments hattachments (.inr hstarted)).append
    apply Vocabulary.closed_of_known
    intro e he n hn
    have hfinished : ∀ e ∈ broadcasts h.finishedLog,
        ∃ result, e = .testRunHookFinished ⟨h.started.id, result⟩ := by
      unfold HookRun.finishedLog
      cases h.outcome <;> simp
    obtain ⟨result,rfl⟩ := hfinished e he
    rw [List.mem_singleton.mp hn]
    exact .inl (.inr hstarted)

theorem closed_stepRun {startedId : String} {s : StepRun}
    (hstarted : known (.testCaseStarted,startedId)) (hstep : known (.testStep,s.testStep.id))
    (hsuggestion : ∀ m, s.suggestion = some m → known (.pickleStep,m.pickleStepId))
    (hbelongs : ∀ b ∈ s.bodies, ∀ a ∈ b.attachments,
      a.BelongsTo (.testStep startedId s.testStep.id)) :
    runNames.Closed known (broadcasts (s.log startedId)) := by
  have hlog : broadcasts (s.log startedId) =
      .testStepStarted ⟨startedId, s.testStep.id⟩ ::
        (s.suggestion.toList.map .suggestion ++
          ((s.bodies.flatMap BodyRun.attachments).map .attachment ++
            [.testStepFinished ⟨startedId, s.testStep.id, s.result⟩])) := by
    have hsuggested : broadcasts s.suggestionLog = s.suggestion.toList.map .suggestion := by
      unfold StepRun.suggestionLog
      cases s.suggestion <;> rfl
    simp [StepRun.log, hsuggested, broadcasts_bodyRuns]
  have hattachments : ∀ a ∈ s.bodies.flatMap BodyRun.attachments,
      a.BelongsTo (.testStep startedId s.testStep.id) := by
    intro a ha
    obtain ⟨b,hb,hab⟩ := List.mem_flatMap.mp ha
    exact hbelongs b hb a hab
  have hboth : ∀ n ∈ [(NameKind.testCaseStarted,startedId), (.testStep,s.testStep.id)],
      known n := by
    intro n hn
    rcases List.mem_cons.mp hn with rfl | hn
    · exact hstarted
    · rw [List.mem_singleton.mp hn]
      exact hstep
  rw [hlog]
  apply Vocabulary.Closed.cons hboth
  apply Vocabulary.Closed.append
  · apply Vocabulary.closed_of_known
    intro e he n hn
    obtain ⟨m,hm,rfl⟩ := List.mem_map.mp he
    rw [List.mem_singleton.mp hn]
    exact .inl (hsuggestion m (Option.mem_toList.mp hm))
  · apply Vocabulary.Closed.append
    · exact closed_attachments hattachments ⟨.inl (.inl hstarted), .inl (.inl hstep)⟩
    · exact Vocabulary.closed_singleton fun n hn => .inl (.inl (.inl (hboth n hn)))

theorem closed_attemptRun {testCaseId : String} {a : AttemptRun}
    (htestCase : known (.testCase,testCaseId))
    (hsteps : ∀ s ∈ a.steps, runNames.Closed (fun n => known n ∨ n = (.testCaseStarted,a.id))
      (broadcasts (s.log a.id))) :
    runNames.Closed known (broadcasts (a.log testCaseId)) := by
  have hlog : broadcasts (a.log testCaseId) =
      .testCaseStarted ⟨a.attempt, a.id, testCaseId⟩ ::
        (broadcasts (a.steps.flatMap (StepRun.log a.id)) ++
          [.testCaseFinished ⟨a.id, a.willBeRetried⟩]) := by
    simp [AttemptRun.log]
  have hdeclares : (NameKind.testCaseStarted,a.id) ∈
      runNames.declares (.testCaseStarted ⟨a.attempt, a.id, testCaseId⟩) :=
    List.mem_singleton_self _
  rw [hlog, broadcasts_flatMap_log]
  apply Vocabulary.Closed.cons
  · intro n hn
    rw [List.mem_singleton.mp hn]
    exact htestCase
  · apply Vocabulary.Closed.append
    · apply Vocabulary.closed_flatMap
      intro s hs
      apply (hsteps s hs).mono
      rintro n (hn | rfl)
      · exact .inl hn
      · exact .inr hdeclares
    · apply Vocabulary.closed_singleton
      intro n hn
      rw [List.mem_singleton.mp hn]
      exact .inl (.inr hdeclares)

end

end CucumberCpp
