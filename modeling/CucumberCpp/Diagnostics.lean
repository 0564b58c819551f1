import CucumberCpp.Endings

/-! Which texts of failures the result of a body still shows. -/
namespace CucumberCpp

open Unwinding

/-- `d` is a substring of `text`. -/
def Occurs (d text : String) : Prop := d.toList <:+: text.toList

instance (d text : String) : Decidable (Occurs d text) :=
  inferInstanceAs (Decidable (d.toList <:+: text.toList))

def OccursIn (d : String) (text : Option String) : Prop := ∃ m, text = some m ∧ Occurs d m

/-- The text is in the message or in the exception message of the result. -/
def Util.TestStepResult.Shows (r : Util.TestStepResult) (d : String) : Prop :=
  OccursIn d r.message ∨ OccursIn d (r.exception.bind (·.message))

/-- A text that tells why the body, or a step nested in it at any depth, failed:
that of a failed expectation, or that of the exception that ended it. -/
inductive Body.Diagnostic : Body → String → Prop
  | expectation {body : Body} {r : TestPartResult} :
      .expectation r ∈ body.trace.executed → r.failed = true → Diagnostic body r.message
  | exception {body : Body} {type what : String} :
      body.trace.stop = some (.throwStd type what) → Diagnostic body what
  | nested {body inner : Body} {text d : String} :
      .step text [inner] ∈ body.trace.executed → Diagnostic inner d → Diagnostic body d

/-- The handler puts a text of its own in the place of the message when the action
ends the body. -/
def Action.replaces : Action → Bool
  | .skipped message => !message.isEmpty
  | .pending message => !message.isEmpty
  | .step _ _ => true
  | _ => false

/-- A text that the handler of the body, or of a body around it, does not pass on:
that of a failed expectation, when the message is replaced, and that of the exception
that ended a nested step, of which only the message is read. -/
inductive Body.Dropped : Body → String → Prop
  | expectation {body : Body} {r : TestPartResult} {a : Action} :
      .expectation r ∈ body.trace.executed → r.failed = true → body.trace.stop = some a →
      a.replaces = true → Dropped body r.message
  | exception {body inner : Body} {text type what : String} :
      body.trace.stop = some (.step text [inner]) →
      inner.trace.stop = some (.throwStd type what) → Dropped body what
  | nested {body inner : Body} {text d : String} :
      body.trace.stop = some (.step text [inner]) → Dropped inner d → Dropped body d

def Action.addFailure (old : Option String) : Action → Option String
  | .expectation r => if r.failed then some (failureMessage r old) else old
  | _ => old

/-- The message that failed expectations leave, one after the other. -/
def failureMessages (actions : List Action) : Option String :=
  actions.foldl Action.addFailure none

/-- The status of a body that the action has ended. -/
def Action.endStatus : Action → Util.TestStepResultStatus
  | .skipped _ => .skipped
  | .pending _ => .pending
  | _ => .failed

def Body.status (body : Body) : Util.TestStepResultStatus :=
  match body.trace.stop with
  | some a => a.endStatus
  | none => if body.trace.executed.any Action.fails then .failed else .passed

/-- The message of the exception that is in the result of a body. -/
def Body.exceptionMessage (body : Body) : Option String :=
  match body.trace.stop with
  | some (.throwStd _ what) => some what
  | some .throwOther => some "unknown exception"
  | _ => none

mutual

/-- The message of a body that the action has ended, by the message it had before. -/
def Action.reword (nesting : ℕ) : Action → Option String → Option String
  | .skipped message, old => overwriteMessage message old
  | .pending message, old => overwriteMessage message old
  | .step text [], _ => some (nestedStepMessage nesting { status := .undefined } text)
  | .step text [body], _ =>
    some (nestedStepMessage nesting
      { message := body.message (nesting+1)
        status := transformTestStepResultStatus body.status } text)
  | .step text (_ :: _ :: _), _ =>
    some (nestedStepMessage nesting
      { message := some "Ambiguous step definitions", status := .ambiguous } text)
  | _, old => old

/-- How the first action that stops a phase changes the message. -/
def phaseReword (nesting : ℕ) : List Action → Option (Option String → Option String)
  | [] => none
  | a :: rest => if a.proceeds then phaseReword nesting rest else some (a.reword nesting)

/-- The message in the result of a body, read off its actions. -/
def Body.message (nesting : ℕ) : Body → Option String
  | ⟨constructor,setUp,executeImpl,tearDown,destructor,nanoseconds⟩ =>
    let body : Body := ⟨constructor, setUp, executeImpl, tearDown, destructor, nanoseconds⟩
    let reword := phaseReword nesting constructor <|> phaseReword nesting setUp <|>
      phaseReword nesting executeImpl
    reword.getD id (failureMessages body.trace.executed)

end

/-- The text is in what remains of the messages of the body. -/
def Body.Remains (nesting : ℕ) (body : Body) (d : String) : Prop :=
  OccursIn d (body.message nesting) ∨ OccursIn d body.exceptionMessage

theorem Occurs.append_left {d text : String} (h : Occurs d text) (front : String) :
    Occurs d (front ++ text) := by
  rw [Occurs, String.toList_append]
  exact h.trans (List.suffix_append _ _).isInfix

theorem Occurs.append_right {d text : String} (h : Occurs d text) (back : String) :
    Occurs d (text ++ back) := by
  rw [Occurs, String.toList_append]
  exact h.trans (List.prefix_append _ _).isInfix

theorem occurs_self (d : String) : Occurs d d := List.infix_refl _

theorem occurs_failureMessage (r : TestPartResult) (old : Option String) :
    Occurs r.message (failureMessage r old) := by
  have hfailure := (occurs_self r.message).append_left
    (r.fileName ++ ":" ++ toString r.lineNumber ++ ": Failure\n")
  cases old with
  | none => exact hfailure
  | some message => exact hfailure.append_left _

/-- A later failure is put behind those before it. -/
theorem OccursIn.addFailure {d : String} {old : Option String} (h : OccursIn d old) (a : Action) :
    OccursIn d (a.addFailure old) := by
  obtain ⟨m,rfl,hm⟩ := h
  cases a with
  | expectation r =>
    rw [Action.addFailure]
    split_ifs
    · exact ⟨_, rfl, (hm.append_right "\n").append_right _⟩
    · exact ⟨m, rfl, hm⟩
  | _ => exact ⟨m, rfl, hm⟩

theorem OccursIn.foldl_addFailure {d : String} {old : Option String} (h : OccursIn d old)
    (actions : List Action) : OccursIn d (actions.foldl Action.addFailure old) := by
  induction actions generalizing old with
  | nil => exact h
  | cons a rest ih => exact ih (h.addFailure a)

theorem occursIn_failureMessages {actions : List Action} {r : TestPartResult}
    (hr : .expectation r ∈ actions) (hfailed : r.failed = true) :
    OccursIn r.message (failureMessages actions) := by
  obtain ⟨pre,post,rfl⟩ := List.append_of_mem hr
  rw [failureMessages, List.foldl_append, List.foldl_cons]
  refine OccursIn.foldl_addFailure ?_ post
  rw [Action.addFailure, if_pos hfailed]
  exact ⟨_, rfl, occurs_failureMessage r _⟩

theorem Action.message_effect (a : Action) (s : BodyState) :
    (a.effect s).testStepResult.message = a.addFailure s.testStepResult.message := by
  cases a with
  | expectation r =>
    simp only [Action.effect, BodyState.report, Action.addFailure]
    split_ifs <;> rfl
  | _ => rfl

theorem message_effects (actions : List Action) (s : BodyState) :
    (effects actions s).testStepResult.message =
      actions.foldl Action.addFailure s.testStepResult.message := by
  induction actions generalizing s with
  | nil => rfl
  | cons a rest ih => rw [effects_cons, ih, a.message_effect, List.foldl_cons]

theorem exception_effects (actions : List Action) (s : BodyState) :
    (effects actions s).testStepResult.exception = s.testStepResult.exception := by
  induction actions generalizing s with
  | nil => rfl
  | cons a rest ih =>
    rw [effects_cons, ih]
    cases a with
    | expectation r =>
      simp only [Action.effect, BodyState.report]
      split_ifs <;> rfl
    | _ => rfl

/-- What an action throws that ends its body. -/
inductive Action.Ends (nesting : ℕ) : Action → Thrown → Prop
  | expectation (r : TestPartResult) : Ends nesting (.expectation r) (.fatalError r.message)
  | skipped (message : String) : Ends nesting (.skipped message) (.stepSkipped message)
  | pending (message : String) : Ends nesting (.pending message) (.stepPending message)
  | throwStd (type what : String) : Ends nesting (.throwStd type what) (.stdException type what)
  | throwOther : Ends nesting .throwOther .other
  | undefined (text : String) : Ends nesting (.step text [])
      (.nestedTestCaseRunnerError nesting { status := .undefined } text)
  | nested {text : String} {inner : Body} {t : BodyState} :
      inner.run (nesting+1) = some t → t.testStepResult.status ≠ .passed →
      Ends nesting (.step text [inner])
        (.nestedTestCaseRunnerError nesting (transformTestStepResult t.testStepResult) text)
  | ambiguous (text : String) (a b : Body) (rest : List Body) :
      Ends nesting (.step text (a :: b :: rest))
        (.nestedTestCaseRunnerError nesting
          { message := some "Ambiguous step definitions", status := .ambiguous } text)

theorem eq_of_exec_throw {e e' : Thrown} {s s' : BodyState}
    (h : exec (throw e' : BodyCode) s = some (.error e, s')) : e = e' := by
  rw [exec_throw, Option.some.injEq, Prod.mk.injEq, Except.error.injEq] at h
  exact h.1.symm

theorem Action.Throws.ends {nesting : ℕ} {a : Action} {e : Thrown} (h : a.Throws nesting e) :
    a.Ends nesting e := by
  have hthrow := h {}
  match a with
  | .expectation r =>
    rw [Action.run, exec_reportTestPartResult] at hthrow
    split_ifs at hthrow
    · rw [Option.some.injEq, Prod.mk.injEq, Except.error.injEq] at hthrow
      rw [← hthrow.1]
      exact .expectation r
    · cases hthrow
  | .skipped _ => rw [eq_of_exec_throw hthrow]; exact .skipped _
  | .pending _ => rw [eq_of_exec_throw hthrow]; exact .pending _
  | .throwStd _ _ => rw [eq_of_exec_throw hthrow]; exact .throwStd _ _
  | .throwOther => rw [eq_of_exec_throw hthrow]; exact .throwOther
  | .step _ [] => rw [eq_of_exec_throw hthrow]; exact .undefined _
  | .step text [inner] =>
    rw [Action.run] at hthrow
    cases hrun : inner.run (nesting+1) with
    | none =>
      rw [hrun] at hthrow
      cases hthrow
    | some t =>
      rw [hrun, exec_invokeNested] at hthrow
      split_ifs at hthrow with hpassed
      · cases hthrow
      · rw [Option.some.injEq, Prod.mk.injEq, Except.error.injEq] at hthrow
        rw [← hthrow.1]
        exact .nested hrun hpassed
  | .step _ (_ :: _ :: _) => rw [eq_of_exec_throw hthrow]; exact .ambiguous _ _ _ _

theorem phaseReword_eq (nesting : ℕ) (actions : List Action) :
    phaseReword nesting actions = (Trace.phase actions).stop.map (Action.reword nesting) := by
  induction actions with
  | nil => rfl
  | cons a rest ih =>
    rw [phaseReword, ih]
    cases ha : a.proceeds <;> simp [Trace.phase, Trace.seq, Trace.action, ha]

theorem Trace.seq_stop (c d : Trace) : (c.seq d).stop = (c.stop <|> d.stop) := by
  rcases c with ⟨executed,_ | a⟩ <;> simp [Trace.seq]

theorem Body.stop_eq (body : Body) :
    body.trace.stop = ((Trace.phase body.constructor).stop <|>
      (Trace.phase body.setUp).stop <|> (Trace.phase body.executeImpl).stop) := by
  simp [Body.trace, Trace.seq_stop, Trace.held]

theorem Trace.mem_of_stop {actions : List Action} {a : Action}
    (h : (Trace.phase actions).stop = some a) : a ∈ actions := by
  induction actions with
  | nil => cases h
  | cons b rest ih =>
    cases hb : b.proceeds with
    | true =>
      rw [Trace.phase, Trace.seq_stop] at h
      exact List.mem_cons_of_mem b (ih (by simpa [Trace.action, hb] using h))
    | false =>
      obtain rfl : b = a := by simpa [Trace.phase, Trace.seq, Trace.action, hb] using h
      exact List.mem_cons_self

theorem Body.mem_of_stop {body : Body} {a : Action} (h : body.trace.stop = some a) :
    a ∈ body.constructor ∨ a ∈ body.setUp ∨ a ∈ body.executeImpl := by
  rw [body.stop_eq, Option.orElse_eq_some, Option.orElse_eq_some] at h
  rcases h with h | ⟨_,h | ⟨_,h⟩⟩
  · exact .inl (Trace.mem_of_stop h)
  · exact .inr (.inl (Trace.mem_of_stop h))
  · exact .inr (.inr (Trace.mem_of_stop h))

/-- The action that stops a body changes the message that failed expectations left. -/
theorem Body.message_eq (body : Body) (nesting : ℕ) :
    body.message nesting =
      ((body.trace.stop.map (Action.reword nesting)).getD id)
        (failureMessages body.trace.executed) := by
  rw [body.stop_eq]
  rcases body with ⟨constructor,setUp,executeImpl,tearDown,destructor,_⟩
  simp only [Body.message, phaseReword_eq]
  rcases (Trace.phase constructor).stop with _ | _ <;>
    rcases (Trace.phase setUp).stop with _ | _ <;> rfl

/-- A result tells how its body was left. -/
theorem Body.run_eq_some {body : Body} {nesting : ℕ} {t : BodyState}
    (h : body.run nesting = some t) :
    ∃ left, Leaves nesting body.trace.stop left ∧
      t = conclude body.nanoseconds left (effects body.trace.executed {}) := by
  have hcontained : body.contained = true := by rw [← body.run_isSome nesting, h]; rfl
  obtain ⟨left,hrun,hleaves⟩ := (body.traced nesting).run hcontained
  exact ⟨left, hleaves, Option.some.inj (h.symm.trans hrun)⟩

theorem Body.status_eq {body : Body} {nesting : ℕ} {t : BodyState}
    (h : body.run nesting = some t) : t.testStepResult.status = body.status := by
  obtain ⟨left,hleaves,rfl⟩ := Body.run_eq_some h
  rw [Body.status]
  generalize body.trace.stop = stop at hleaves
  cases hleaves with
  | completes =>
    obtain ⟨hstatus,hfailure⟩ := consistent_executed body.trace.executed
    rw [BodyState.Consistent, hfailure] at hstatus
    exact hstatus
  | stops he => cases he.ends <;> rfl

theorem Body.exceptionMessage_eq {body : Body} {nesting : ℕ} {t : BodyState}
    (h : body.run nesting = some t) :
    t.testStepResult.exception.bind (·.message) = body.exceptionMessage := by
  obtain ⟨left,hleaves,rfl⟩ := Body.run_eq_some h
  have hexception := exception_effects body.trace.executed {}
  rw [Body.exceptionMessage]
  generalize body.trace.stop = stop at hleaves
  cases hleaves with
  | completes => simp [conclude, hexception]
  | stops he => cases he.ends <;> simp [conclude, handleErrors, hexception]

theorem nestedStepMessage_congr {nesting : ℕ} {r r' : TestStepResult}
    (hstatus : r.status = r'.status) (hmessage : r.message = r'.message) (text : String) :
    nestedStepMessage nesting r text = nestedStepMessage nesting r' text := by
  rw [nestedStepMessage, nestedStepMessage, hstatus, hmessage]

mutual

theorem Action.reword_eq (a : Action) {nesting : ℕ} {e : Thrown} (h : a.Throws nesting e)
    (r : Util.TestStepResult) : (handleErrors e r).message = a.reword nesting r.message := by
  have hends := h.ends
  match a with
  | .expectation _ => cases hends; rfl
  | .skipped _ => cases hends; rfl
  | .pending _ => cases hends; rfl
  | .throwStd _ _ => cases hends; rfl
  | .throwOther => cases hends; rfl
  | .step _ [] => cases hends; rfl
  | .step text [inner] =>
    cases hends with
    | @nested _ _ t hrun hpassed =>
      have hpassed' : (transformTestStepResult t.testStepResult).status ≠ .passed :=
        fun h => hpassed (transformTestStepResultStatus_injective h)
      have hstatus : (transformTestStepResult t.testStepResult).status =
          transformTestStepResultStatus inner.status := by
        rw [← Body.status_eq hrun]
        rfl
      have hmessage : (transformTestStepResult t.testStepResult).message =
          inner.message (nesting+1) := inner.message_run hrun
      rw [handleErrors, if_pos hpassed', Action.reword, Option.some.injEq]
      exact nestedStepMessage_congr hstatus hmessage text
  | .step _ (_ :: _ :: _) => cases hends; rfl

theorem actions_reword_eq (actions : List Action) : ∀ a ∈ actions,
    ∀ (nesting : ℕ) (e : Thrown), a.Throws nesting e → ∀ r : Util.TestStepResult,
      (handleErrors e r).message = a.reword nesting r.message := by
  match actions with
  | [] => simp
  | a :: rest =>
    rw [List.forall_mem_cons]
    exact ⟨fun _ _ h r => a.reword_eq h r, actions_reword_eq rest⟩

/-- The message in the result of a body is the one read off its actions. -/
theorem Body.message_run (body : Body) {nesting : ℕ} {t : BodyState}
    (h : body.run nesting = some t) : t.testStepResult.message = body.message nesting := by
  match body with
  | ⟨constructor,setUp,executeImpl,tearDown,destructor,nanoseconds⟩ =>
    obtain ⟨left,hleaves,rfl⟩ := Body.run_eq_some h
    rw [Body.message_eq]
    have hmessage := message_effects
      (Body.trace ⟨constructor, setUp, executeImpl, tearDown, destructor, nanoseconds⟩).executed {}
    generalize hstop : Body.trace _ = trace at hleaves hmessage ⊢
    obtain ⟨executed,stop⟩ := trace
    cases hleaves with
    | completes => exact hmessage
    | @stops a e he =>
      have hsame : (handleErrors e (effects executed {}).testStepResult).message =
          a.reword nesting (effects executed {}).testStepResult.message := by
        rcases Body.mem_of_stop (congrArg Trace.stop hstop) with ha | ha | ha
        · exact actions_reword_eq constructor a ha nesting e he _
        · exact actions_reword_eq setUp a ha nesting e he _
        · exact actions_reword_eq executeImpl a ha nesting e he _
      exact hsame.trans (congrArg _ hmessage)

end

theorem Util.TestStepResult.shows_iff {body : Body} {nesting : ℕ} {t : BodyState}
    (h : body.run nesting = some t) (d : String) :
    t.testStepResult.Shows d ↔ body.Remains nesting d := by
  rw [Util.TestStepResult.Shows, body.message_run h, Body.exceptionMessage_eq h, Body.Remains]

/-- What is executed either lets its body go on or is what stops it. -/
structure Trace.Proper (c : Trace) : Prop where
  proceeds : ∀ a ∈ c.executed, a.proceeds = true ∨ c.stop = some a
  stops : ∀ a, c.stop = some a → a ∈ c.executed

namespace Trace.Proper

variable {c d : Trace}

theorem seq (hc : c.Proper) (hd : c.stop = none → d.Proper) : (c.seq d).Proper := by
  rcases c with ⟨executed,_ | stop⟩
  · obtain ⟨hproceeds,hstops⟩ := hd rfl
    constructor
    · intro a ha
      rcases List.mem_append.mp ha with ha | ha
      · exact .inl ((hc.proceeds a ha).resolve_right (by simp))
      · exact hproceeds a ha
    · intro a ha
      exact List.mem_append_right executed (hstops a ha)
  · exact hc

theorem held (hc : c.Proper) {destroy : List Action} (hd : destroy.all Action.proceeds = true) :
    (c.held destroy).Proper where
  proceeds a ha := by
    rcases List.mem_append.mp ha with ha | ha
    · exact hc.proceeds a ha
    · exact .inl (List.all_eq_true.mp hd a ha)
  stops a ha := List.mem_append_left destroy (hc.stops a ha)

theorem phase (actions : List Action) : (Trace.phase actions).Proper := by
  induction actions with
  | nil => exact ⟨by simp [Trace.phase], by simp [Trace.phase]⟩
  | cons a rest ih =>
    refine .seq ⟨?_, ?_⟩ fun _ => ih <;> cases ha : a.proceeds <;> simp [Trace.action, ha]

end Trace.Proper

theorem Body.proper {body : Body} (h : body.contained = true) : body.trace.Proper := by
  rcases body with ⟨constructor,setUp,executeImpl,tearDown,destructor,_⟩
  simp only [Body.contained, Bool.and_eq_true, Bool.or_eq_true, Bool.not_eq_true'] at h
  obtain ⟨_,h⟩ := h
  refine .seq (.phase _) fun hconstructor => ?_
  rw [Trace.phase_stop_eq_none_iff] at hconstructor
  obtain ⟨⟨_,hsetUp⟩,hdestructor⟩ := h.resolve_left (by simp [hconstructor])
  refine .held (.seq (.phase _) fun hset => .held (.phase _) ?_) hdestructor
  rw [Trace.phase_stop_eq_none_iff] at hset
  exact (hsetUp.resolve_left (by simp [hset])).2

theorem Trace.mem_of_executed {actions : List Action} {a : Action}
    (h : a ∈ (Trace.phase actions).executed) : a ∈ actions := by
  induction actions with
  | nil => cases h
  | cons b rest ih =>
    cases hb : b.proceeds with
    | true =>
      simp only [Trace.phase, Trace.seq, Trace.action, hb, if_true, List.mem_append,
        List.mem_singleton] at h
      rcases h with rfl | h
      · exact List.mem_cons_self
      · exact List.mem_cons_of_mem b (ih h)
    | false =>
      obtain rfl : a = b := by simpa [Trace.phase, Trace.seq, Trace.action, hb] using h
      exact List.mem_cons_self

theorem Trace.mem_seq {c d : Trace} {a : Action} (h : a ∈ (c.seq d).executed) :
    a ∈ c.executed ∨ a ∈ d.executed := by
  rcases c with ⟨executed,_ | stop⟩
  · exact List.mem_append.mp h
  · exact .inl h

theorem Body.mem_phases_of_executed {body : Body} {a : Action} (h : a ∈ body.trace.executed) :
    ∃ actions ∈ body.phases, a ∈ actions := by
  simp only [Body.phases, List.mem_cons, List.not_mem_nil, or_false, exists_eq_or_imp,
    exists_eq_left]
  rcases Trace.mem_seq h with h | h
  · exact .inl (Trace.mem_of_executed h)
  · rcases List.mem_append.mp h with h | h
    · rcases Trace.mem_seq h with h | h
      · exact .inr (.inl (Trace.mem_of_executed h))
      · rcases List.mem_append.mp h with h | h
        · exact .inr (.inr (.inl (Trace.mem_of_executed h)))
        · exact .inr (.inr (.inr (.inl h)))
    · exact .inr (.inr (.inr (.inr h)))

/-- A body that passes has nothing to tell. -/
theorem Body.Diagnostic.not_passes {body : Body} {d : String} (h : body.Diagnostic d) :
    body.passes = false := by
  induction h with
  | @expectation body r hr hfailed =>
    by_contra hpasses
    rw [Bool.not_eq_false] at hpasses
    obtain ⟨actions,hactions,ha⟩ := Body.mem_phases_of_executed hr
    have hpasses' := Body.passes_of_mem hpasses hactions ha
    simp [Action.passes, hfailed] at hpasses'
  | @exception body type what hstop =>
    by_contra hpasses
    rw [Bool.not_eq_false] at hpasses
    have hpasses' : (Action.throwStd type what).passes = true := by
      rcases Body.mem_of_stop hstop with ha | ha | ha
      · exact Body.passes_of_mem hpasses (by simp [Body.phases]) ha
      · exact Body.passes_of_mem hpasses (by simp [Body.phases]) ha
      · exact Body.passes_of_mem hpasses (by simp [Body.phases]) ha
    cases hpasses'
  | @nested body inner text d hcalls _ ih =>
    by_contra hpasses
    rw [Bool.not_eq_false] at hpasses
    obtain ⟨actions,hactions,ha⟩ := Body.mem_phases_of_executed hcalls
    have hpasses' : inner.passes = true := Body.passes_of_mem hpasses hactions ha
    rw [ih] at hpasses'
    cases hpasses'

theorem Action.reword_of_not_replaces {a : Action} (h : a.replaces = false) (nesting : ℕ)
    (old : Option String) : a.reword nesting old = old := by
  match a with
  | .expectation _ => rfl
  | .skipped message =>
    have hempty : message.isEmpty = true := by
      simpa only [Action.replaces, Bool.not_eq_false'] using h
    simp only [Action.reword, overwriteMessage, hempty, if_true]
  | .pending message =>
    have hempty : message.isEmpty = true := by
      simpa only [Action.replaces, Bool.not_eq_false'] using h
    simp only [Action.reword, overwriteMessage, hempty, if_true]
  | .throwStd _ _ => rfl
  | .throwOther => rfl

theorem occurs_nestedStepMessage {d m : String} {r : TestStepResult} (hm : r.message = some m)
    (h : Occurs d m) (nesting : ℕ) (text : String) :
    Occurs d (nestedStepMessage nesting r text) := by
  rw [nestedStepMessage, hm]
  exact h.append_left _

/-- A nested step that ends a body has returned. -/
theorem Body.run_of_nested {body inner : Body} {nesting : ℕ} {t : BodyState} {text : String}
    (h : body.run nesting = some t) (hstop : body.trace.stop = some (.step text [inner])) :
    ∃ t', inner.run (nesting+1) = some t' := by
  obtain ⟨left,hleaves,_⟩ := Body.run_eq_some h
  rw [hstop] at hleaves
  cases hleaves with
  | stops he =>
    cases he.ends with
    | nested hinner _ => exact ⟨_, hinner⟩

/-- A diagnostic is in the message of its body, or is the text of the exception that
ended the body, or has been dropped. -/
theorem Body.Diagnostic.shown_or_dropped {body : Body} {d : String} (h : body.Diagnostic d)
    {nesting : ℕ} {t : BodyState} (hrun : body.run nesting = some t) :
    OccursIn d (body.message nesting) ∨
      (∃ type, body.trace.stop = some (.throwStd type d)) ∨ body.Dropped d := by
  induction h generalizing nesting t with
  | @expectation body r hr hfailed =>
    have hfailure := occursIn_failureMessages hr hfailed
    rw [body.message_eq]
    cases hstop : body.trace.stop with
    | none => exact .inl hfailure
    | some a =>
      cases hreplaces : a.replaces with
      | true => exact .inr (.inr (.expectation hr hfailed hstop hreplaces))
      | false =>
        left
        rw [Option.map_some, Option.getD_some, a.reword_of_not_replaces hreplaces]
        exact hfailure
  | @exception body type what hstop => exact .inr (.inl ⟨type, hstop⟩)
  | @nested body inner text d hcalls hdiagnostic ih =>
    have hcontained : body.contained = true := by rw [← body.run_isSome nesting, hrun]; rfl
    -- a nested step with something to tell has not passed, so that it ends the body
    have hstop : body.trace.stop = some (.step text [inner]) := by
      refine ((Body.proper hcontained).proceeds _ hcalls).resolve_left fun hproceeds => ?_
      cases hdiagnostic.not_passes.symm.trans hproceeds
    obtain ⟨_,hinner⟩ := Body.run_of_nested hrun hstop
    -- the message of the nested step becomes part of this one's, the text of its exception does not
    rcases ih hinner with ⟨m,hm,hd⟩ | ⟨type,hthrown⟩ | hdropped
    · left
      rw [body.message_eq, hstop]
      exact ⟨_, rfl, occurs_nestedStepMessage hm hd nesting text⟩
    · exact .inr (.inr (.exception hstop hthrown))
    · exact .inr (.inr (.nested hstop hdropped))

theorem Body.stop_mem_executed {body : Body} {nesting : ℕ} {t : BodyState} {a : Action}
    (h : body.run nesting = some t) (hstop : body.trace.stop = some a) :
    a ∈ body.trace.executed := by
  have hcontained : body.contained = true := by rw [← body.run_isSome nesting, h]; rfl
  exact (Body.proper hcontained).stops a hstop

theorem Body.Dropped.diagnostic {body : Body} {d : String} (h : body.Dropped d) {nesting : ℕ}
    {t : BodyState} (hrun : body.run nesting = some t) : body.Diagnostic d := by
  induction h generalizing nesting t with
  | expectation hr hfailed _ _ => exact .expectation hr hfailed
  | @exception body inner text type what hstop hthrown =>
    exact .nested (Body.stop_mem_executed hrun hstop) (.exception hthrown)
  | @nested body inner text d hstop _ ih =>
    obtain ⟨_,hinner⟩ := Body.run_of_nested hrun hstop
    exact .nested (Body.stop_mem_executed hrun hstop) (ih hinner)

/-- No diagnostic of a body is lost exactly when those that are dropped happen to be
in the texts that remain. -/
theorem diagnostics_shown_iff (body : Body) (nesting : ℕ) :
    (∀ t, body.run nesting = some t → ∀ d, body.Diagnostic d → t.testStepResult.Shows d) ↔
      (body.contained = true → ∀ d, body.Dropped d → body.Remains nesting d) := by
  constructor
  · intro hshown hcontained d hdropped
    obtain ⟨_,hrun,_⟩ := (body.traced nesting).run hcontained
    rw [← Util.TestStepResult.shows_iff hrun]
    exact hshown _ hrun d (hdropped.diagnostic hrun)
  · intro hremains t hrun d hd
    have hcontained : body.contained = true := by rw [← body.run_isSome nesting, hrun]; rfl
    rw [Util.TestStepResult.shows_iff hrun]
    rcases hd.shown_or_dropped hrun with hmessage | ⟨type,hstop⟩ | hdropped
    · exact .inl hmessage
    · exact .inr ⟨d, by rw [Body.exceptionMessage, hstop], occurs_self d⟩
    · exact hremains hcontained d hdropped

/-- A failed `EXPECT_` before a step that no definition matches. -/
def failsThenUndefined : Body where
  executeImpl := [.expectation { type := .nonFatalFailure, message := "Expected: is true" },
    .step "a step" []]

theorem diagnostics_lost :
    ¬∀ (body : Body) (nesting : ℕ) (t : BodyState), body.run nesting = some t →
      ∀ d, body.Diagnostic d → t.testStepResult.Shows d := by
  intro h
  have hd : failsThenUndefined.Diagnostic "Expected: is true" :=
    .expectation (r := { type := .nonFatalFailure, message := "Expected: is true" })
      (by simp [failsThenUndefined, Body.trace, Trace.phase, Trace.seq, Trace.held, Trace.action,
        Action.proceeds, TestPartResult.fatallyFailed]) rfl
  rcases h failsThenUndefined 1 _ rfl _ hd with ⟨m,hm,hoccurs⟩ | ⟨m,hm,_⟩
  · obtain rfl := Option.some.inj hm
    revert hoccurs
    decide
  · cases hm

end CucumberCpp
