import CucumberCpp.AfterHooks
import CucumberCpp.Diagnostics
import CucumberCpp.Skipping

/-! The flag `hasError` that After hooks are constructed with. -/
namespace CucumberCpp

open EventLog

variable {idGenerator : IdGenerator}

/-- A result that tells of an error by a message or an exception, and otherwise has a message
only if it is a skip or pending. -/
structure TestStepResult.Diagnosed (r : TestStepResult) : Prop where
  error : r.status = .failed ∨ r.status = .ambiguous → r.message.isSome ∨ r.exception.isSome
  silent : r.status = .passed ∨ r.status = .undefined → r.message = none
  exception : r.exception.isSome → r.status = .failed

/-- The outcome is what a body comes to. -/
def Outcome.OfBody (o : Outcome) : Prop :=
  ∃ (body : Body) (attachments : List Attachment) (t : BodyState) (h : body.run 1 = some t),
    o = body.outcome attachments t h

/-- All that is registered are factories of bodies. -/
structure SupportCodeLibrary.RunsBodies (l : SupportCodeLibrary) : Prop where
  hooks : ∀ id d, l.hookRegistry.getDefinitionById id = .ok d → ∀ args, (d.factory args).OfBody
  steps : ∀ id d, l.stepRegistry.getDefinitionById id = .ok d → ∀ args, (d.factory args).OfBody

theorem failureMessages_isSome (actions : List Action) :
    (failureMessages actions).isSome = actions.any Action.fails := by
  have hfold (old : Option String) : (actions.foldl Action.addFailure old).isSome =
      (old.isSome || actions.any Action.fails) := by
    induction actions generalizing old with
    | nil => simp
    | cons a actions ih =>
      rw [List.foldl_cons, ih, List.any_cons, ← Bool.or_assoc]
      congr 1
      cases a with
      | expectation r =>
        simp only [Action.addFailure, Action.fails]
        split_ifs with hfailed <;> simp [hfailed]
      | _ => simp [Action.addFailure, Action.fails]
  exact hfold none

namespace TestStepResult.Diagnosed

variable {r : TestStepResult}

theorem of_passed (hstatus : r.status = .passed) (hmessage : r.message = none)
    (hexception : r.exception = none) : r.Diagnosed := by
  constructor <;> simp [hstatus, hmessage, hexception]

theorem of_interrupted (hstatus : r.status = .skipped ∨ r.status = .pending)
    (hexception : r.exception = none) : r.Diagnosed := by
  rcases hstatus with h | h <;> constructor <;> simp [h, hexception]

theorem of_failed (hstatus : r.status = .failed)
    (htold : r.message.isSome ∨ r.exception.isSome) : r.Diagnosed := by
  refine ⟨fun _ => htold, ?_, fun _ => hstatus⟩
  simp [hstatus]

theorem of_ambiguous (hstatus : r.status = .ambiguous) (hmessage : r.message.isSome)
    (hexception : r.exception = none) : r.Diagnosed := by
  refine ⟨fun _ => .inl hmessage, ?_, ?_⟩
  · simp [hstatus]
  · simp [hexception]

theorem of_undefined (hstatus : r.status = .undefined) (hmessage : r.message = none)
    (hexception : r.exception = none) : r.Diagnosed := by
  constructor <;> simp [hstatus, hmessage, hexception]

/-- What a result tells of: an error, or a skip or pending step with a text. -/
theorem told_iff (h : r.Diagnosed) (hknown : r.status ≠ .unknown) :
    r.message.isSome ∨ r.exception.isSome ↔
      (r.status = .failed ∨ r.status = .ambiguous) ∨
        (r.status = .skipped ∨ r.status = .pending) ∧ r.message.isSome := by
  constructor
  · intro htold
    rcases htold with hmessage | hexception
    · have hsilent := mt h.silent (Option.isSome_iff_ne_none.mp hmessage)
      rw [not_or] at hsilent
      cases hstatus : r.status with
      | unknown => exact absurd hstatus hknown
      | passed => exact absurd hstatus hsilent.1
      | undefined => exact absurd hstatus hsilent.2
      | skipped => exact .inr ⟨.inl rfl, hmessage⟩
      | pending => exact .inr ⟨.inr rfl, hmessage⟩
      | ambiguous => exact .inl (.inr rfl)
      | failed => exact .inl (.inl rfl)
    · exact .inl (.inl (h.exception hexception))
  · intro htold
    rcases htold with herror | ⟨_,hmessage⟩
    · exact h.error herror
    · exact .inl hmessage

end TestStepResult.Diagnosed

/-- A body that is left by an exception tells of an error exactly when that is one; a
fatal expectation has left its message before. -/
theorem Action.Throws.diagnosed {nesting : ℕ} {a : Action} {e : Thrown} (he : a.Throws nesting e)
    {s : BodyState} (hexception : s.testStepResult.exception = none)
    (hmessage : a.fails = true → s.testStepResult.message.isSome) (nanoseconds : UInt64) :
    (transformTestStepResult (conclude nanoseconds (.error e) s).testStepResult).Diagnosed := by
  cases he.ends with
  | expectation r =>
    -- only a fatal failure stops its body
    have hfatal : r.fatallyFailed = true := by
      by_contra hnot
      have hthrow := he {}
      rw [Action.run, exec_reportTestPartResult, if_neg hnot] at hthrow
      cases hthrow
    have hfails : r.failed = true := by
      simp only [TestPartResult.fatallyFailed, beq_iff_eq] at hfatal
      simp [TestPartResult.failed, hfatal]
    exact .of_failed rfl (.inl (hmessage hfails))
  | skipped _ =>
    refine .of_interrupted (.inl rfl) ?_
    simp [conclude, handleErrors, transformTestStepResult, hexception]
  | pending _ =>
    refine .of_interrupted (.inr rfl) ?_
    simp [conclude, handleErrors, transformTestStepResult, hexception]
  | throwStd _ _ => exact .of_failed rfl (.inr rfl)
  | throwOther => exact .of_failed rfl (.inr rfl)
  | undefined _ => exact .of_failed rfl (.inl rfl)
  | ambiguous _ _ _ _ => exact .of_failed rfl (.inl rfl)
  | @nested _ _ t _ hpassed =>
    have hpassed' : (transformTestStepResult t.testStepResult).status ≠ .passed :=
      fun h => hpassed (transformTestStepResultStatus_injective h)
    refine .of_failed rfl (.inl ?_)
    change (if (transformTestStepResult t.testStepResult).status ≠ .passed then some _
      else _ : Option String).isSome = true
    rw [if_pos hpassed']
    rfl

/-- Whatever a body does, its result tells of an error exactly as it should. -/
theorem Body.run_diagnosed {body : Body} {nesting : ℕ} {t : BodyState}
    (h : body.run nesting = some t) : (transformTestStepResult t.testStepResult).Diagnosed := by
  have hexecuted {a : Action} := Body.stop_mem_executed (a := a) h
  obtain ⟨left,hleaves,rfl⟩ := Body.run_eq_some h
  have hexception : (effects body.trace.executed {}).testStepResult.exception = none :=
    exception_effects body.trace.executed {}
  have hmessage : (effects body.trace.executed {}).testStepResult.message.isSome =
      body.trace.executed.any Action.fails := by
    rw [message_effects]
    exact failureMessages_isSome _
  obtain ⟨hstatus,hfailure⟩ := consistent_executed body.trace.executed
  unfold BodyState.Consistent at hstatus
  rw [hfailure] at hstatus
  generalize hstop : body.trace.stop = stop at hleaves
  cases hleaves with
  | completes =>
    cases hfails : body.trace.executed.any Action.fails with
    | true =>
      rw [hfails] at hstatus hmessage
      refine .of_failed ?_ (.inl hmessage)
      simp [conclude, transformTestStepResult, hstatus, transformTestStepResultStatus]
    | false =>
      rw [hfails] at hstatus hmessage
      have hnone := Option.isNone_iff_eq_none.mp (Option.isSome_eq_false_iff.mp hmessage)
      refine .of_passed ?_ hnone ?_
      · simp [conclude, transformTestStepResult, hstatus, transformTestStepResultStatus]
      · simp [conclude, transformTestStepResult, hexception]
  | @stops a e he =>
    refine he.diagnosed hexception (fun hfails => ?_) _
    exact hmessage.trans (List.any_eq_true.mpr ⟨_, hexecuted hstop, hfails⟩)

theorem Outcome.OfBody.diagnosed {b : BodyRun} (h : b.outcome.OfBody) : b.result.Diagnosed := by
  obtain ⟨body,attachments,t,hrun,houtcome⟩ := h
  have hresult : b.result = transformTestStepResult t.testStepResult := by
    rw [BodyRun.result, houtcome]
    rfl
  exact hresult ▸ Body.run_diagnosed hrun

/-- The flag that the body of a hook is constructed with. -/
def Invocation.hasError? : Invocation → Option Bool
  | .hook _ args => some args.hasError
  | .step _ _ => none

/-- What the bodies of a step report together. -/
def StepRun.reported (s : StepRun) : TestStepResult :=
  getWorstTestStepResult (s.bodies.map BodyRun.result)

/-- The step fails, or several definitions match it. -/
def StepRun.Erroneous (s : StepRun) : Prop :=
  s.result.status = .failed ∨ s.result.status = .ambiguous

theorem stateAfter_error_iff (runs : List StepRun) : (stateAfter runs).error = true ↔
    ∃ s ∈ runs, s.isPickleStep = true ∧
      (s.result.message.isSome ∨ s.result.exception.isSome) := by
  induction runs using List.reverseRecOn with
  | nil => simp [stateAfter]
  | append_singleton runs s ih =>
    have hlast : (stateAfter (runs ++ [s])).error = true ↔ (stateAfter runs).error = true ∨
        s.isPickleStep = true ∧ (s.result.message.isSome ∨ s.result.exception.isSome) := by
      rw [stateAfter_concat]
      simp [AttemptState.after]
    simp only [hlast, ih, List.mem_append, List.mem_singleton, or_and_right, exists_or,
      exists_eq_left]

namespace TestCaseRunner

variable {c : TestCaseRunner} {attempt : UInt64} {startedId : String}

theorem IsStepHookRun.ofBody (hlibrary : c.supportCodeLibrary.RunsBodies) {site : CallSite}
    {started : TestStepStarted} {id : String} {b : BodyRun}
    (h : c.IsStepHookRun site started id b) : b.outcome.OfBody := by
  obtain ⟨d,hd,rfl⟩ := h
  exact hlibrary.hooks id d hd _

theorem StepHooksRule.ofBody (hlibrary : c.supportCodeLibrary.RunsBodies) {hookType : HookType}
    {site : CallSite} {started : TestStepStarted} {bs : List BodyRun}
    (h : c.StepHooksRule hookType site started bs) : ∀ b ∈ bs, b.outcome.OfBody := by
  intro b hb
  obtain ⟨_,_,hrun⟩ := exists_left_of_forall₂ h hb
  exact hrun.ofBody hlibrary

theorem StepBodies.ofBody (hlibrary : c.supportCodeLibrary.RunsBodies) {pickleStep : PickleStep}
    {testStep : TestStep} {site : CallSite} {started : TestStepStarted} {bodies : List BodyRun}
    (h : c.StepBodies pickleStep testStep site started bodies) :
    ∀ b ∈ bodies, b.outcome.OfBody := by
  cases h with
  | hooksOnly hbefore hafter hfailed =>
    rw [List.forall_mem_append]
    exact ⟨hbefore.ofBody hlibrary, hafter.ofBody hlibrary⟩
  | withDefinition hbefore hafter hfailed hids hlists hd =>
    rw [List.forall_mem_append, List.forall_mem_cons]
    exact ⟨hbefore.ofBody hlibrary, hlibrary.steps _ _ hd _, hafter.ofBody hlibrary⟩

/-- A pickle step tells of an error as a body does, also when it is not executed. -/
theorem StepRule.diagnosed (hlibrary : c.supportCodeLibrary.RunsBodies) {state : AttemptState}
    {s : StepRun} (h : c.StepRule attempt startedId state s) : s.result.Diagnosed := by
  cases h with
  | hookSkipped hhook hskip => exact .of_interrupted (.inl rfl) rfl
  | hookExecuted hhook hskip hd hb =>
    exact Outcome.OfBody.diagnosed (hb ▸ hlibrary.hooks _ _ hd _)
  | undefined hhook hstep hids hfollows id => exact .of_undefined rfl rfl rfl
  | ambiguous hhook hstep hids hmany hfollows => exact .of_ambiguous rfl rfl rfl
  | stepSkipped hhook hstep hids hcount hskipping => exact .of_interrupted (.inl rfl) rfl
  | @stepExecuted testStep pickleStep id bodies hhook hstep hids hskipping hbodies =>
    rcases eq_or_ne bodies [] with rfl | hne
    · exact .of_passed rfl rfl rfl
    · have hne' : bodies.map BodyRun.result ≠ [] := by simpa using hne
      obtain ⟨b,hb,hworst⟩ := List.mem_map.mp (getWorstTestStepResult_mem hne')
      have hdiagnosed : (getWorstTestStepResult (bodies.map BodyRun.result)).Diagnosed :=
        hworst ▸ Outcome.OfBody.diagnosed (hbodies.ofBody hlibrary b hb)
      exact ⟨hdiagnosed.error, hdiagnosed.silent, hdiagnosed.exception⟩

/-- A pickle step that is executed has the status and the message that its bodies report. -/
theorem StepRule.reported_eq {state : AttemptState} {s : StepRun}
    (h : c.StepRule attempt startedId state s) (hpickle : s.isPickleStep = true)
    (hbodies : s.bodies ≠ []) :
    s.reported.status = s.result.status ∧ s.reported.message = s.result.message := by
  cases h with
  | hookSkipped => exact absurd rfl hbodies
  | hookExecuted hhook => simp [StepRun.isPickleStep, hhook] at hpickle
  | undefined => exact absurd rfl hbodies
  | ambiguous => exact absurd rfl hbodies
  | stepSkipped => exact absurd rfl hbodies
  | stepExecuted => exact ⟨rfl, rfl⟩

/-- A step that is not executed has no text, unless it is ambiguous. -/
theorem StepRule.bodies_of_message {state : AttemptState} {s : StepRun}
    (h : c.StepRule attempt startedId state s)
    (hstatus : s.result.status = .skipped ∨ s.result.status = .pending)
    (hmessage : s.result.message.isSome) : s.bodies ≠ [] := by
  cases h with
  | hookSkipped => cases hmessage
  | hookExecuted => exact List.cons_ne_nil _ _
  | undefined => cases hmessage
  | ambiguous => rcases hstatus with h | h <;> cases h
  | stepSkipped => cases hmessage
  | stepExecuted =>
    rintro rfl
    cases hmessage

variable {before steps after : List StepRun}

/-- A step whose bodies report a skip or pending with a text is no error. It does not look like
one if there is an error as well: a later step that several definitions match, which
is reported as such when the step is pending. -/
def TextsHarmless (c : TestCaseRunner) (steps : List StepRun) : Prop :=
  ∀ (i : ℕ) (s : StepRun), steps[i]? = some s → s.bodies ≠ [] →
    s.reported.status = .skipped ∨ s.reported.status = .pending → s.reported.message.isSome →
    s.reported.status = .pending ∧ ∃ (j : ℕ) (p : PickleStep), i < j ∧
      c.pickle.steps[j]? = some p ∧ 1 < (c.supportCodeLibrary.matching p.text).length

theorem unexecutedStatus_ambiguous_iff (count : ℕ) :
    unexecutedStatus count = .ambiguous ↔ 1 < count := by
  unfold unexecutedStatus
  split_ifs <;> simp <;> omega

theorem unexecutedStatus_ne_failed (count : ℕ) : unexecutedStatus count ≠ .failed := by
  unfold unexecutedStatus
  split_ifs <;> simp

section

variable (h : AssembledSteps c before steps after) (hskip : c.skip = false)
  (hthreaded : Threaded (fun pre s => c.StepRule attempt startedId (stateAfter pre) s)
    (before ++ steps ++ after))

include h hskip hthreaded

theorem AssembledSteps.shape_getElem? {i : ℕ} {s : StepRun} (hs : steps[i]? = some s) :
    ∃ p, c.pickle.steps[i]? = some p ∧
      c.PickleStepShape attempt startedId (c.supportCodeLibrary.matching p.text).length
        (before ++ steps.take i) s := by
  obtain ⟨hlength,hall⟩ := List.forall₂_iff_get.mp h.step
  obtain ⟨hi,rfl⟩ := List.getElem?_eq_some_iff.mp hs
  have hi' : i < c.pickle.steps.length := hlength ▸ hi
  exact ⟨_, List.getElem?_eq_getElem hi', h.pickleStepShape hskip hthreaded (hall i hi' hi) hs⟩

/-- A step that is executed stands behind nothing but passes. -/
theorem AssembledSteps.firstNotPassed_of_executed {i : ℕ} {s : StepRun} (hs : steps[i]? = some s)
    (hbodies : s.bodies ≠ []) : firstNotPassed (before ++ steps.take i) = none := by
  obtain ⟨p,_,hshape⟩ := h.shape_getElem? hskip hthreaded hs
  cases hfirst : firstNotPassed (before ++ steps.take i) with
  | none => rfl
  | some r =>
    exfalso
    by_cases hr : r.result.status = .skipped
    · exact hbodies (hshape.afterSkipped r hfirst hr).1
    · exact hbodies (hshape.afterOther r hfirst hr).1

/-- Behind a step that is executed and does not pass, that step is the first of this kind. -/
theorem AssembledSteps.firstNotPassed_of_lt {i : ℕ} {s : StepRun} (hs : steps[i]? = some s)
    (hbodies : s.bodies ≠ []) (hnotPassed : s.result.status ≠ .passed) {j : ℕ} (hij : i < j) :
    firstNotPassed (before ++ steps.take j) = some s := by
  have hnone := h.firstNotPassed_of_executed hskip hthreaded hs hbodies
  have htake : steps.take j = steps.take i ++ s :: (steps.take j).drop (i+1) := by
    have hmid : (steps.take j)[i]? = some s := by rw [List.getElem?_take, if_pos hij, hs]
    obtain ⟨hi',hget'⟩ := List.getElem?_eq_some_iff.mp hmid
    have hsplit := List.take_append_drop i (steps.take j)
    rw [List.take_take, min_eq_left hij.le, List.drop_eq_getElem_cons hi', hget'] at hsplit
    exact hsplit.symm
  unfold firstNotPassed at hnone ⊢
  rw [htake, ← List.append_assoc, List.find?_append, hnone, Option.none_or,
    List.find?_cons_of_pos (by simpa using hnotPassed)]

theorem AssembledSteps.erroneous_later_iff {i j : ℕ} {s t : StepRun} {p : PickleStep}
    (hs : steps[i]? = some s) (hbodies : s.bodies ≠ [])
    (hstatus : s.result.status = .skipped ∨ s.result.status = .pending) (hij : i < j)
    (ht : steps[j]? = some t) (hp : c.pickle.steps[j]? = some p) :
    t.Erroneous ↔ s.result.status = .pending ∧
      1 < (c.supportCodeLibrary.matching p.text).length := by
  have hnotPassed : s.result.status ≠ .passed := by
    rcases hstatus with h | h <;> simp [h]
  have hfirst := h.firstNotPassed_of_lt hskip hthreaded hs hbodies hnotPassed hij
  obtain ⟨p',hp',hshape⟩ := h.shape_getElem? hskip hthreaded ht
  obtain rfl := Option.some_inj.mp (hp.symm.trans hp')
  rcases hstatus with hskipped | hpending
  · have hst := (hshape.afterSkipped s hfirst hskipped).2
    simp [StepRun.Erroneous, hst, hskipped]
  · have hst := (hshape.afterOther s hfirst (by simp [hpending])).2
    have hfailed := unexecutedStatus_ne_failed (c.supportCodeLibrary.matching p.text).length
    rw [StepRun.Erroneous, hst, unexecutedStatus_ambiguous_iff]
    simp [hfailed, hpending]

/-- After a step that is executed and does not pass, no step is executed: several matching
definitions show unless that step is a skip. -/
theorem AssembledSteps.erroneous_iff {i : ℕ} {s : StepRun} (hs : steps[i]? = some s)
    (hbodies : s.bodies ≠ [])
    (hstatus : s.result.status = .skipped ∨ s.result.status = .pending) :
    (∃ t ∈ steps, t.Erroneous) ↔ s.result.status = .pending ∧
      ∃ (j : ℕ) (p : PickleStep), i < j ∧ c.pickle.steps[j]? = some p ∧
        1 < (c.supportCodeLibrary.matching p.text).length := by
  have hlater {j : ℕ} {t : StepRun} {p : PickleStep} (hij : i < j) (ht : steps[j]? = some t)
      (hp : c.pickle.steps[j]? = some p) :=
    h.erroneous_later_iff hskip hthreaded hs hbodies hstatus hij ht hp
  constructor
  · intro hex
    obtain ⟨t,ht,herroneous⟩ := hex
    obtain ⟨j,hj⟩ := List.mem_iff_getElem?.mp ht
    obtain ⟨p,hp,_⟩ := h.shape_getElem? hskip hthreaded hj
    rcases Nat.lt_trichotomy j i with hlt | rfl | hgt
    · -- an earlier step passes
      have hmem : t ∈ before ++ steps.take i :=
        List.mem_append_right _ (List.mem_iff_getElem?.mpr ⟨j, by
          rw [List.getElem?_take, if_pos hlt, hj]⟩)
      have hnone := h.firstNotPassed_of_executed hskip hthreaded hs hbodies
      have hpassed := (firstNotPassed_eq_none_iff _).mp hnone t hmem
      rcases herroneous with h | h <;> cases hpassed.symm.trans h
    · obtain rfl := Option.some_inj.mp (hs.symm.trans hj)
      rcases herroneous with h | h <;> simp [h] at hstatus
    · obtain ⟨hpending,hmany⟩ := (hlater hgt hj hp).mp herroneous
      exact ⟨hpending, j, p, hgt, hp, hmany⟩
  · intro hmany
    obtain ⟨hpending,j,p,hij,hp,hcount⟩ := hmany
    have hj : j < steps.length := by
      rw [← h.step.length_eq]
      exact (List.getElem?_eq_some_iff.mp hp).1
    exact ⟨steps[j], List.getElem_mem hj,
      (hlater hij (List.getElem?_eq_getElem hj) hp).mpr ⟨hpending, hcount⟩⟩

/-- The steps of an attempt tell of an error exactly when there is one, but for a text
that is not harmless. -/
theorem AssembledSteps.told_iff_erroneous_iff (hlibrary : c.supportCodeLibrary.RunsBodies) :
    ((∃ s ∈ steps, s.result.message.isSome ∨ s.result.exception.isSome) ↔
      ∃ s ∈ steps, s.Erroneous) ↔ c.TextsHarmless steps := by
  have hrule {s : StepRun} (hs : s ∈ steps) :
      ∃ state, c.StepRule attempt startedId state s := by
    obtain ⟨_,_,_,hrule⟩ := hthreaded.mem
      (List.mem_append_left after (List.mem_append_right before hs))
    exact ⟨_, hrule⟩
  have htold {s : StepRun} (hs : s ∈ steps) :
      s.result.message.isSome ∨ s.result.exception.isSome ↔ s.Erroneous ∨
        (s.result.status = .skipped ∨ s.result.status = .pending) ∧ s.result.message.isSome := by
    obtain ⟨_,hrule⟩ := hrule hs
    exact (hrule.diagnosed hlibrary).told_iff hrule.known
  constructor
  · intro hiff i s hs hbodies hstatus hmessage
    have hmem := List.mem_of_getElem? hs
    obtain ⟨_,hrule⟩ := hrule hmem
    obtain ⟨hsame,hsame'⟩ := hrule.reported_eq (h.isPickleStep_of_step hmem) hbodies
    rw [hsame] at hstatus ⊢
    rw [hsame'] at hmessage
    exact (h.erroneous_iff hskip hthreaded hs hbodies hstatus).mp
      (hiff.mp ⟨s, hmem, .inl hmessage⟩)
  · intro hharmless
    constructor
    · intro hex
      obtain ⟨s,hs,hs'⟩ := hex
      rcases (htold hs).mp hs' with herroneous | ⟨hstatus,hmessage⟩
      · exact ⟨s, hs, herroneous⟩
      · obtain ⟨_,hrule⟩ := hrule hs
        have hbodies := hrule.bodies_of_message hstatus hmessage
        obtain ⟨hsame,hsame'⟩ := hrule.reported_eq (h.isPickleStep_of_step hs) hbodies
        obtain ⟨i,hi⟩ := List.mem_iff_getElem?.mp hs
        rw [h.erroneous_iff hskip hthreaded hi hbodies hstatus, ← hsame]
        exact hharmless i s hi hbodies (hsame ▸ hstatus) (hsame' ▸ hmessage)
    · intro hex
      obtain ⟨s,hs,herroneous⟩ := hex
      exact ⟨s, hs, (htold hs).mpr (.inl herroneous)⟩

/-- Behind a pickle step every After hook runs, so that there is one that is told. -/
theorem AssembledSteps.exists_told (hsteps : steps ≠ []) (hafter : after ≠ []) :
    ∃ s ∈ after, ∃ b ∈ s.bodies, ∃ flag, b.call.hasError? = some flag := by
  obtain ⟨s,hs⟩ := List.exists_mem_of_ne_nil after hafter
  obtain ⟨t,ht⟩ := List.exists_mem_of_ne_nil steps hsteps
  obtain ⟨pre,post,hpre⟩ := List.append_of_mem hs
  have hrule := hthreaded (before ++ steps ++ pre) s post (by simp [hpre])
  have hseen : (before ++ steps ++ pre).any StepRun.isPickleStep = true :=
    List.any_eq_true.mpr ⟨t, by simp [ht], h.isPickleStep_of_step ht⟩
  have hexecuted := hrule.executed_of_seen hskip hseen (h.isPickleStep_of_after hs)
  obtain ⟨_,_,hid⟩ := exists_left_of_forall₂ h.after hs
  rcases hrule.hook_bodies hid with hbodies | ⟨d,args,_,hbodies⟩
  · simp [StepRun.executed, hbodies] at hexecuted
  · exact ⟨s, hs, .ofHook d args, by simp [hbodies], _, rfl⟩

omit hskip in
/-- An After hook is told of the texts and exceptions of all pickle steps. -/
theorem AssembledSteps.hasError_eq {s : StepRun} (hs : s ∈ after) {b : BodyRun}
    (hb : b ∈ s.bodies) {flag : Bool} (hflag : b.call.hasError? = some flag) :
    flag = true ↔ ∃ t ∈ steps, t.result.message.isSome ∨ t.result.exception.isSome := by
  obtain ⟨pre,post,hpre⟩ := List.append_of_mem hs
  have hrule := hthreaded (before ++ steps ++ pre) s post (by simp [hpre])
  have herror : (stateAfter (before ++ steps ++ pre)).error = true ↔
      ∃ t ∈ steps, t.result.message.isSome ∨ t.result.exception.isSome := by
    rw [stateAfter_error_iff]
    constructor
    · intro hex
      obtain ⟨t,ht,hpickle,htold⟩ := hex
      rw [List.mem_append, List.mem_append] at ht
      rcases ht with (ht | ht) | ht
      · rw [h.isPickleStep_of_before ht] at hpickle
        cases hpickle
      · exact ⟨t, ht, htold⟩
      · rw [h.isPickleStep_of_after (by simp [hpre, ht])] at hpickle
        cases hpickle
    · intro hex
      obtain ⟨t,ht,htold⟩ := hex
      exact ⟨t, by simp [ht], h.isPickleStep_of_step ht, htold⟩
  rw [← herror]
  have hhook := h.isPickleStep_of_after hs
  cases hrule with
  | hookSkipped => cases hb
  | hookExecuted _ _ _ hb' =>
    rw [List.mem_singleton.mp hb, hb'] at hflag
    rw [← Option.some_inj.mp hflag]
    rfl
  | undefined => cases hb
  | ambiguous => cases hb
  | stepSkipped => cases hb
  | stepExecuted hnone => simp [StepRun.isPickleStep, hnone] at hhook

end

end TestCaseRunner

open TestCaseRunner in
/-- The After hooks of an attempt are told the truth exactly when there is none or every text
of a skip or pending step is harmless. -/
theorem hasError_iff {c : TestCaseRunner}
    (hassembled : IsAssembled idGenerator c.supportCodeLibrary ⟨c.pickle, c.testCase⟩)
    (hlibrary : c.supportCodeLibrary.RunsBodies) (hskip : c.skip = false) (attempt : UInt64)
    (moreAttemptsAvailable : Bool) (world : World idGenerator Event) :
    ∃ (a : AttemptRun) (before steps after : List StepRun),
      (run (c.runAttempt attempt moreAttemptsAvailable) world).2.log =
        world.log ++ a.log c.testCase.id ∧
      a.steps = before ++ steps ++ after ∧ AssembledSteps c before steps after ∧
      ((∀ s ∈ after, ∀ b ∈ s.bodies, ∀ flag, b.call.hasError? = some flag →
          (flag = true ↔ ∃ t ∈ steps, t.Erroneous)) ↔
        c.supportCodeLibrary.hookRegistry.findIds .after (transformPickleTags c.pickle.tags) = [] ∨
          c.TextsHarmless steps) := by
  obtain ⟨seg,hlog,a,_,hrule,_,rfl⟩ := c.emits_runAttempt attempt moreAttemptsAvailable
    (resolves_of_isAssembled hassembled) world
  obtain ⟨before,steps,after,hsteps,hparts⟩ :=
    exists_assembledSteps hassembled hrule.steps.complete
  have hthreaded := hrule.steps.threaded
  rw [hsteps] at hthreaded
  have htold := hparts.told_iff_erroneous_iff hskip hthreaded hlibrary
  have hids : c.supportCodeLibrary.hookRegistry.findIds .after
      (transformPickleTags c.pickle.tags) = [] ↔ after = [] := by
    rw [← List.reverse_eq_nil_iff, ← TestCaseRunner.hookIds_of_forall₂ hparts.after,
      List.map_eq_nil_iff]
  refine ⟨a, before, steps, after, hlog, hsteps, hparts, ?_⟩
  rw [hids, ← htold]
  constructor
  · intro htruth
    by_cases hnil : after = [] ∨ steps = []
    · rcases hnil with hnil | hnil
      · exact .inl hnil
      · right
        simp [hnil]
    · rw [not_or] at hnil
      obtain ⟨s,hs,b,hb,flag,hflag⟩ := hparts.exists_told hskip hthreaded hnil.2 hnil.1
      right
      rw [← hparts.hasError_eq hthreaded hs hb hflag]
      exact htruth s hs b hb flag hflag
  · intro hholds s hs b hb flag hflag
    rcases hholds with hnil | hiff
    · rw [hnil] at hs
      cases hs
    · rw [← hiff]
      exact hparts.hasError_eq hthreaded hs hb hflag

theorem SupportCodeLibrary.runsBodies_ofDefinitions {hooks : List HookDefinition}
    {steps : List StepDefinition} (hhooks : ∀ d ∈ hooks, ∀ args, (d.factory args).OfBody)
    (hsteps : ∀ d ∈ steps, ∀ args, (d.factory args).OfBody) :
    (SupportCodeLibrary.ofDefinitions hooks steps).RunsBodies := by
  constructor
  · intro id d hd
    exact hhooks d (SupportCodeLibrary.mem_hooks_of_getDefinitionById hd)
  · intro id d hd
    exact hsteps d (SupportCodeLibrary.mem_steps_of_getDefinitionById hd)

/-- What a body comes to that does nothing, and one that is pending with a text. -/
def idleOutcome : Outcome := Body.outcome {} [] { testStepResult := { status := .passed } } rfl

def todoOutcome : Outcome :=
  Body.outcome { executeImpl := [.pending "to do"] } []
    { testStepResult := { status := .pending, message := some "to do" } } rfl

theorem ofBody_idleOutcome : idleOutcome.OfBody := ⟨{}, [], _, rfl, rfl⟩

theorem ofBody_todoOutcome : todoOutcome.OfBody :=
  ⟨{ executeImpl := [.pending "to do"] }, [], _, rfl, rfl⟩

/-- A scenario of one step with an After hook. -/
def todoCase : AssembledTestCase where
  pickle := { id := "p", name := "to do", steps := [{ id := "s", text := "a step" }] }
  testCase :=
    { id := "0"
      pickleId := "p"
      testRunStartedId := some "run"
      testSteps :=
        [{ id := "1"
           pickleStepId := some "s"
           stepDefinitionIds := some ["d"]
           stepMatchArgumentsLists := some [{}] },
          { id := "2", hookId := some "h" }] }

def todoRunner (step : Outcome) : TestCaseRunner where
  pickle := todoCase.pickle
  testCase := todoCase.testCase
  maximumAttempts := 1
  repeats := false
  skip := false
  supportCodeLibrary := .ofDefinitions [.constant "h" .after idleOutcome] [.constant "d" step]

theorem isAssembled_todoCase (step : Outcome) : IsAssembled decimalIds
    (todoRunner step).supportCodeLibrary ⟨(todoRunner step).pickle, (todoRunner step).testCase⟩ :=
  ⟨"run", [⟨todoCase.pickle, { uri := "a.feature" }⟩], World.start _ _, _, rfl, _,
    List.mem_singleton_self _, List.mem_singleton_self _⟩

theorem runsBodies_todoRunner {step : Outcome} (hstep : step.OfBody) :
    (todoRunner step).supportCodeLibrary.RunsBodies := by
  apply SupportCodeLibrary.runsBodies_ofDefinitions
  · intro d hd args
    rw [List.mem_singleton.mp hd]
    exact ofBody_idleOutcome
  · intro d hd args
    rw [List.mem_singleton.mp hd]
    exact hstep

theorem hasError_iff_idle :
    ∃ (a : AttemptRun) (before steps after : List StepRun),
      (run ((todoRunner idleOutcome).runAttempt 0 false) (World.start decimalIds Event)).2.log =
        a.log "0" ∧
      a.steps = before ++ steps ++ after ∧
      TestCaseRunner.AssembledSteps (todoRunner idleOutcome) before steps after ∧
      ((∀ s ∈ after, ∀ b ∈ s.bodies, ∀ flag, b.call.hasError? = some flag →
          (flag = true ↔ ∃ t ∈ steps, t.Erroneous)) ↔
        ["h"] = [] ∨ (todoRunner idleOutcome).TextsHarmless steps) :=
  hasError_iff (isAssembled_todoCase idleOutcome) (runsBodies_todoRunner ofBody_idleOutcome) rfl 0
    false (World.start decimalIds Event)

/-- The After hook is told of an error although the only step is pending. -/
theorem pending_step_has_error :
    IsAssembled decimalIds (todoRunner todoOutcome).supportCodeLibrary
      ⟨(todoRunner todoOutcome).pickle, (todoRunner todoOutcome).testCase⟩ ∧
    (todoRunner todoOutcome).supportCodeLibrary.RunsBodies ∧
    (todoRunner todoOutcome).skip = false ∧
    (invocations (run ((todoRunner todoOutcome).runAttempt 0 false)
      (World.start decimalIds Event)).2.log).filterMap Invocation.hasError? = [true] ∧
    (events (run ((todoRunner todoOutcome).runAttempt 0 false)
      (World.start decimalIds Event)).2.log).filterMap Event.stepStatus? = [.pending, .passed] :=
  ⟨isAssembled_todoCase todoOutcome, runsBodies_todoRunner ofBody_todoOutcome, rfl, by decide,
    by decide⟩

end CucumberCpp
