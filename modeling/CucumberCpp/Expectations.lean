import CucumberCpp.Body
import CucumberCpp.AttemptReport

/-! Which failed expectations of a body show in its result. -/
namespace CucumberCpp

open Unwinding

mutual

/-- No expectation fails in the action, and the body goes on after it. -/
def Action.passes : Action → Bool
  | .expectation testPartResult => !testPartResult.failed
  | .step _ [body] => body.passes
  | _ => false

def phasePasses : List Action → Bool
  | [] => true
  | a :: rest => a.passes && phasePasses rest

def Body.passes : Body → Bool
  | ⟨constructor,setUp,executeImpl,tearDown,destructor,_⟩ =>
    phasePasses constructor && phasePasses setUp && phasePasses executeImpl &&
      phasePasses tearDown && phasePasses destructor

end

/-- The body goes on after the action, as it does after a failed `EXPECT_`. -/
def Action.proceeds : Action → Bool
  | .expectation testPartResult => !testPartResult.fatallyFailed
  | a => a.passes

/-- The action is a failed expectation of the body itself. -/
def Action.fails : Action → Bool
  | .expectation testPartResult => testPartResult.failed
  | _ => false

/-- The action is `Skipped` or `Pending`. -/
def Action.interrupts : Action → Bool
  | .skipped _ => true
  | .pending _ => true
  | _ => false

/-- How a part of a body goes, read off its actions: whether it completes, what
it has executed when it does, and what it has executed when it is ended by a
`Skipped` or `Pending`, if it is. -/
structure Course where
  completes : Bool
  executed : List Action
  interruption : Option (List Action)

def Course.action (a : Action) : Course where
  completes := a.proceeds
  executed := [a]
  interruption := if a.interrupts then some [] else none

/-- The second part is only reached when the first completes. -/
def Course.seq (c d : Course) : Course where
  completes := c.completes && d.completes
  executed := c.executed ++ d.executed
  interruption := c.interruption <|>
    if c.completes then d.interruption.map (c.executed ++ ·) else none

/-- A destructor also runs when the use is interrupted, and then has to complete. -/
def Course.held (use destroy : Course) : Course where
  completes := use.completes && destroy.completes
  executed := use.executed ++ destroy.executed
  interruption := if destroy.completes then use.interruption.map (· ++ destroy.executed) else none

def Course.phase : List Action → Course
  | [] => ⟨true, [], none⟩
  | a :: rest => (action a).seq (phase rest)

def Body.course (body : Body) : Course :=
  let executed := (Course.phase body.executeImpl).held (.phase body.tearDown)
  (Course.phase body.constructor).seq
    (((Course.phase body.setUp).seq executed).held (.phase body.destructor))

/-- A `Skipped` or `Pending` of the body ends it, and one of its expectations
fails before that or while the body is torn down and destroyed. -/
def Body.masksFailure (body : Body) : Bool :=
  body.course.interruption.any fun executed => executed.any Action.fails

def Thrown.interrupts : Thrown → Bool
  | .stepSkipped _ => true
  | .stepPending _ => true
  | _ => false

/-- The trace that the action leaves in the result of its body. -/
def Action.effect : Action → BodyState → BodyState
  | .expectation testPartResult, s => s.report testPartResult
  | _, s => s

def effects (actions : List Action) (s : BodyState) : BodyState :=
  actions.foldl (fun s a => a.effect s) s

@[simp] theorem effects_cons (a : Action) (actions : List Action) (s : BodyState) :
    effects (a :: actions) s = effects actions (a.effect s) := rfl

@[simp] theorem effects_append (actions rest : List Action) (s : BodyState) :
    effects (actions ++ rest) s = effects rest (effects actions s) :=
  List.foldl_append

def BodyState.hasFailure (s : BodyState) : Bool := s.reported.any TestPartResult.failed

theorem Action.hasFailure_effect (a : Action) (s : BodyState) :
    (a.effect s).hasFailure = (s.hasFailure || a.fails) := by
  cases a <;> simp [Action.effect, Action.fails, BodyState.hasFailure, BodyState.report]

theorem hasFailure_effects (actions : List Action) (s : BodyState) :
    (effects actions s).hasFailure = (s.hasFailure || actions.any Action.fails) := by
  induction actions generalizing s with
  | nil => simp [effects]
  | cons a actions ih => simp [ih, a.hasFailure_effect, Bool.or_assoc]

/-- Until the handler runs, the status says whether an expectation has failed. -/
def BodyState.Consistent (s : BodyState) : Prop :=
  s.testStepResult.status = if s.hasFailure then .failed else .passed

theorem Action.consistent_effect (a : Action) {s : BodyState} (h : s.Consistent) :
    (a.effect s).Consistent := by
  unfold BodyState.Consistent at h ⊢
  rw [a.hasFailure_effect]
  cases a with
  | expectation testPartResult =>
    by_cases hfailed : testPartResult.failed <;>
      simp [Action.effect, BodyState.report, Action.fails, hfailed, h]
  | _ => simp [Action.effect, Action.fails, h]

theorem consistent_effects (actions : List Action) {s : BodyState} (h : s.Consistent) :
    (effects actions s).Consistent := by
  induction actions generalizing s with
  | nil => exact h
  | cons a actions ih => exact ih (a.consistent_effect h)

theorem exec_reportTestPartResult (r : TestPartResult) (s : BodyState) :
    exec (reportTestPartResult r) s =
      some (if r.fatallyFailed then .error (.fatalError r.message) else .ok (), s.report r) := by
  rw [reportTestPartResult, exec_bind]
  cases r.fatallyFailed <;> rfl

theorem exec_invokeNested (nesting : ℕ) (text : String) (t s : BodyState) :
    exec (invokeNested nesting text (some t)) s =
      some (if t.testStepResult.status = .passed then .ok () else
        .error (.nestedTestCaseRunnerError nesting (transformTestStepResult t.testStepResult)
          text), s) := by
  rw [invokeNested]
  split_ifs with hpassed <;> first | rfl | contradiction

theorem throw_interrupted_iff (e : Thrown) (s s' : BodyState) :
    (∃ e' : Thrown, e'.interrupts = true ∧ exec (throw e : BodyCode) s = some (.error e', s')) ↔
      e.interrupts = true ∧ s' = s := by
  constructor
  · intro h
    obtain ⟨e',he',h⟩ := h
    obtain ⟨rfl,rfl⟩ : e = e' ∧ s = s' := by simpa using h
    exact ⟨he', rfl⟩
  · intro h
    obtain ⟨he,rfl⟩ := h
    exact ⟨e, he, rfl⟩

/-- Only `Skipped` and `Pending` throw an exception that is no failure; what a
nested step throws always is one. -/
theorem Action.interrupted_iff (a : Action) (nesting : ℕ) (s s' : BodyState) :
    (∃ e : Thrown, e.interrupts = true ∧ exec (a.run nesting) s = some (.error e, s')) ↔
      a.interrupts = true ∧ s' = s := by
  match a with
  | .expectation r =>
    rw [Action.run, exec_reportTestPartResult]
    cases r.fatallyFailed <;> simp [Action.interrupts, Thrown.interrupts]
  | .skipped _ => exact throw_interrupted_iff _ s s'
  | .pending _ => exact throw_interrupted_iff _ s s'
  | .throwStd _ _ => exact throw_interrupted_iff _ s s'
  | .throwOther => exact throw_interrupted_iff _ s s'
  | .step _ [] => exact throw_interrupted_iff _ s s'
  | .step text [body] =>
    rw [Action.run]
    cases body.run (nesting+1) with
    | none => simp [invokeNested, Action.interrupts]
    | some t =>
      rw [exec_invokeNested]
      split_ifs <;> simp [Action.interrupts, Thrown.interrupts]
  | .step _ (_ :: _ :: _) => exact throw_interrupted_iff _ s s'

/-- The code goes the given course, whatever state it starts from. -/
structure Course.Of (c : Course) (code : BodyCode) : Prop where
  completes : ∀ s s', exec code s = some (.ok (), s') ↔
    c.completes = true ∧ s' = effects c.executed s
  interrupted : ∀ s s',
    (∃ e : Thrown, e.interrupts = true ∧ exec code s = some (.error e, s')) ↔
      ∃ executed, c.interruption = some executed ∧ s' = effects executed s

namespace Course.Of

variable {c d : Course} {code next : BodyCode}

theorem nil : Course.Of ⟨true, [], none⟩ (pure () : BodyCode) := by
  constructor <;> intro s s'
  · simp [effects, eq_comm]
  · simp

theorem interruption_eq_none (h : c.Of code) (hcompletes : c.completes = true) :
    c.interruption = none := by
  by_contra hsome
  obtain ⟨executed,hexecuted⟩ := Option.ne_none_iff_exists'.mp hsome
  obtain ⟨e,_,hthrown⟩ := (h.interrupted {} _).mpr ⟨executed, hexecuted, rfl⟩
  have hdone := (h.completes {} _).mpr ⟨hcompletes, rfl⟩
  rw [hthrown] at hdone
  cases hdone

theorem seq_interruption_iff (h : c.Of code) {executed : List Action} :
    (c.seq d).interruption = some executed ↔ c.interruption = some executed ∨
      c.completes = true ∧ ∃ rest, d.interruption = some rest ∧ executed = c.executed ++ rest := by
  by_cases hcompletes : c.completes = true
  · simp [Course.seq, h.interruption_eq_none hcompletes, hcompletes, eq_comm]
  · simp [Course.seq, hcompletes]

theorem seq (hc : c.Of code) (hd : d.Of next) : (c.seq d).Of (do code; next) where
  completes s s' := by
    rw [exec_bind_eq_some_iff]
    constructor
    · intro h
      rcases h with ⟨_,hno,_⟩ | ⟨_,s₁,hcode,hnext⟩
      · cases hno
      · obtain ⟨hc',rfl⟩ := (hc.completes s s₁).mp hcode
        obtain ⟨hd',rfl⟩ := (hd.completes _ s').mp hnext
        exact ⟨by simp [Course.seq, hc', hd'], (effects_append ..).symm⟩
    · intro h
      obtain ⟨hboth,rfl⟩ := h
      obtain ⟨hc',hd'⟩ := Bool.and_eq_true_iff.mp hboth
      have hnext := (hd.completes (effects c.executed s) _).mpr ⟨hd', rfl⟩
      rw [← effects_append] at hnext
      exact .inr ⟨(), _, (hc.completes s _).mpr ⟨hc', rfl⟩, hnext⟩
  interrupted s s' := by
    simp only [exec_bind_eq_some_iff, hc.seq_interruption_iff]
    constructor
    · intro h
      obtain ⟨e,he,hleft⟩ := h
      rcases hleft with ⟨_,heq,hthrown⟩ | ⟨_,s₁,hcode,hthrown⟩
      · cases heq
        obtain ⟨executed,hexecuted,hs'⟩ := (hc.interrupted s s').mp ⟨_, he, hthrown⟩
        exact ⟨executed, .inl hexecuted, hs'⟩
      · obtain ⟨hc',rfl⟩ := (hc.completes s s₁).mp hcode
        obtain ⟨rest,hrest,rfl⟩ := (hd.interrupted _ s').mp ⟨e, he, hthrown⟩
        exact ⟨_, .inr ⟨hc', rest, hrest, rfl⟩, (effects_append ..).symm⟩
    · intro h
      obtain ⟨executed,hc' | ⟨hc',rest,hrest,rfl⟩,rfl⟩ := h
      · obtain ⟨e,he,hthrown⟩ := (hc.interrupted s _).mpr ⟨executed, hc', rfl⟩
        exact ⟨e, he, .inl ⟨e, rfl, hthrown⟩⟩
      · obtain ⟨e,he,hthrown⟩ :=
          (hd.interrupted (effects c.executed s) _).mpr ⟨rest, hrest, rfl⟩
        rw [← effects_append] at hthrown
        exact ⟨e, he, .inr ⟨(), _, (hc.completes s _).mpr ⟨hc', rfl⟩, hthrown⟩⟩

theorem held (hc : c.Of code) (hd : d.Of next) : (c.held d).Of (Unwinding.held code next) where
  completes s s' := by
    rw [exec_held_eq_some_iff]
    simp only [hc.completes, hd.completes, Course.held, Bool.and_eq_true, effects_append]
    constructor
    · intro h
      obtain ⟨_,⟨hc',rfl⟩,hd',rfl⟩ := h
      exact ⟨⟨hc', hd'⟩, rfl⟩
    · intro h
      obtain ⟨⟨hc',hd'⟩,rfl⟩ := h
      exact ⟨_, ⟨hc', rfl⟩, hd', rfl⟩
  interrupted s s' := by
    simp only [exec_held_eq_some_iff, hd.completes]
    constructor
    · intro h
      obtain ⟨e,he,s₁,hthrown,hd',rfl⟩ := h
      obtain ⟨executed,hexecuted,rfl⟩ := (hc.interrupted s s₁).mp ⟨e, he, hthrown⟩
      exact ⟨_, by simp [Course.held, hd', hexecuted], (effects_append ..).symm⟩
    · intro h
      obtain ⟨executed,hexecuted,rfl⟩ := h
      simp only [Course.held, Option.ite_none_right_eq_some, Option.map_eq_some_iff] at hexecuted
      obtain ⟨hd',used,hused,rfl⟩ := hexecuted
      obtain ⟨e,he,hthrown⟩ := (hc.interrupted s _).mpr ⟨used, hused, rfl⟩
      exact ⟨e, he, _, hthrown, hd', effects_append ..⟩

end Course.Of

/-- The action completes exactly when it proceeds, and leaves its effect. -/
def Action.Follows (a : Action) : Prop := ∀ nesting, (Course.action a).Of (a.run nesting)

theorem Action.follows_of_completes {a : Action}
    (h : ∀ nesting s s', exec (a.run nesting) s = some (.ok (), s') ↔
      a.proceeds = true ∧ s' = a.effect s) : a.Follows := by
  intro nesting
  refine ⟨h nesting, fun s s' => ?_⟩
  rw [a.interrupted_iff nesting s s']
  simp [Course.action, effects]

theorem Action.Follows.of_throw {a : Action} (hproceeds : a.proceeds = false)
    (hthrow : ∀ nesting, ∃ e, a.run nesting = throw e) : a.Follows := by
  apply Action.follows_of_completes
  intro nesting s s'
  obtain ⟨e,he⟩ := hthrow nesting
  simp [he, hproceeds]

theorem Course.Of.phase {actions : List Action} (h : ∀ a ∈ actions, a.Follows) (nesting : ℕ) :
    (Course.phase actions).Of (runPhase nesting actions) := by
  induction actions with
  | nil => exact .nil
  | cons a rest ih =>
    exact (h a List.mem_cons_self nesting).seq (ih fun b hb => h b (List.mem_cons_of_mem _ hb))

/-- A body follows its course if its actions do. -/
theorem Course.Of.body {body : Body} (hconstructor : ∀ a ∈ body.constructor, a.Follows)
    (hsetUp : ∀ a ∈ body.setUp, a.Follows) (hexecute : ∀ a ∈ body.executeImpl, a.Follows)
    (htearDown : ∀ a ∈ body.tearDown, a.Follows)
    (hdestructor : ∀ a ∈ body.destructor, a.Follows) (nesting : ℕ) :
    body.course.Of (body.code nesting) := by
  have hexecuted := (phase hexecute nesting).held (phase htearDown nesting)
  have hconstructed := (phase hsetUp nesting).seq hexecuted
  exact (phase hconstructor nesting).seq (hconstructed.held (phase hdestructor nesting))

/-- The handler reports a failure for every exception but `Skipped` and `Pending`. -/
theorem handleErrors_failed_iff (e : Thrown) (r : Util.TestStepResult) :
    (handleErrors e r).status = .failed ↔ e.interrupts = false := by
  cases e <;> simp [handleErrors, Thrown.interrupts]

theorem handleErrors_not_passed (e : Thrown) (r : Util.TestStepResult) :
    (handleErrors e r).status ≠ .passed := by
  cases e <;> simp [handleErrors]

theorem consistent_executed (actions : List Action) :
    (effects actions {}).Consistent ∧
      (effects actions {}).hasFailure = actions.any Action.fails := by
  refine ⟨consistent_effects actions rfl, ?_⟩
  rw [hasFailure_effects]
  rfl

theorem constructAndExecute_eq_some_iff {code : BodyCode} {nanoseconds : UInt64} {t : BodyState} :
    constructAndExecute code nanoseconds = some t ↔
      ∃ left s, exec code {} = some (left, s) ∧ t = conclude nanoseconds left s := by
  simp [constructAndExecute, eq_comm]

/-- A body passes when it completes without a failed expectation. -/
theorem Course.Of.passed_iff {c : Course} {code : BodyCode} (h : c.Of code)
    (nanoseconds : UInt64) :
    (∃ t, constructAndExecute code nanoseconds = some t ∧ t.testStepResult.status = .passed) ↔
      c.completes = true ∧ c.executed.any Action.fails = false := by
  obtain ⟨hstatus,hfailure⟩ := consistent_executed c.executed
  unfold BodyState.Consistent at hstatus
  rw [hfailure] at hstatus
  simp only [constructAndExecute_eq_some_iff]
  constructor
  · intro hpassed
    obtain ⟨_,⟨left,s,hexec,rfl⟩,hpassed⟩ := hpassed
    cases left with
    | error e => exact absurd hpassed (handleErrors_not_passed e _)
    | ok _ =>
      obtain ⟨hcompletes,rfl⟩ := (h.completes _ s).mp hexec
      change (effects c.executed {}).testStepResult.status = .passed at hpassed
      rw [hstatus] at hpassed
      refine ⟨hcompletes, ?_⟩
      by_contra hfails
      rw [Bool.not_eq_false] at hfails
      simp [hfails] at hpassed
  · intro hpasses
    obtain ⟨hcompletes,hfails⟩ := hpasses
    refine ⟨_, ⟨.ok (), _, (h.completes {} _).mpr ⟨hcompletes, rfl⟩, rfl⟩, ?_⟩
    change (effects c.executed {}).testStepResult.status = .passed
    simp [hstatus, hfails]

/-- A failure is lost exactly when the body is interrupted after or before it. -/
theorem Course.Of.loses_iff {c : Course} {code : BodyCode} (h : c.Of code)
    (nanoseconds : UInt64) :
    (∃ t, constructAndExecute code nanoseconds = some t ∧ t.hasFailure = true ∧
        t.testStepResult.status ≠ .failed) ↔
      ∃ executed, c.interruption = some executed ∧ executed.any Action.fails = true := by
  simp only [constructAndExecute_eq_some_iff]
  constructor
  · intro hlost
    obtain ⟨_,⟨left,s,hexec,rfl⟩,hfailure,hstatus⟩ := hlost
    change s.hasFailure = true at hfailure
    cases left with
    | ok _ =>
      -- without an exception the status is still the one the reporter wrote
      obtain ⟨_,rfl⟩ := (h.completes _ s).mp hexec
      have hconsistent := (consistent_executed c.executed).1
      rw [BodyState.Consistent, if_pos hfailure] at hconsistent
      exact absurd hconsistent hstatus
    | error e =>
      have hinterrupts : e.interrupts = true := by
        rw [← Bool.not_eq_false]
        exact (handleErrors_failed_iff e s.testStepResult).not.mp hstatus
      obtain ⟨executed,hexecuted,rfl⟩ := (h.interrupted _ s).mp ⟨e, hinterrupts, hexec⟩
      exact ⟨executed, hexecuted, (consistent_executed executed).2.symm.trans hfailure⟩
  · intro hmasked
    obtain ⟨executed,hexecuted,hfails⟩ := hmasked
    obtain ⟨e,hinterrupts,hexec⟩ := (h.interrupted {} _).mpr ⟨executed, hexecuted, rfl⟩
    refine ⟨_, ⟨.error e, _, hexec, rfl⟩, (consistent_executed executed).2.trans hfails, ?_⟩
    apply (handleErrors_failed_iff e _).not.mpr
    simp [hinterrupts]

theorem Action.passes_eq (a : Action) : a.passes = (a.proceeds && !a.fails) := by
  cases a with
  | expectation r =>
    rcases r with ⟨type,_,_,_⟩
    cases type <;> rfl
  | _ => simp [Action.proceeds, Action.fails]

theorem phasePasses_eq (actions : List Action) :
    phasePasses actions =
      ((Course.phase actions).completes && !(Course.phase actions).executed.any Action.fails) := by
  induction actions with
  | nil => rfl
  | cons a rest ih =>
    rw [phasePasses, ih, a.passes_eq]
    simp only [Course.phase, Course.seq, Course.action, List.singleton_append, List.any_cons,
      Bool.not_or]
    ac_rfl

theorem Body.passes_eq (body : Body) :
    body.passes = (body.course.completes && !body.course.executed.any Action.fails) := by
  cases body
  simp only [Body.passes, Body.course, Course.seq, Course.held, phasePasses_eq, List.any_append,
    Bool.not_or]
  ac_rfl

mutual

theorem Action.follows (a : Action) : a.Follows := by
  match a with
  | .expectation r =>
    apply Action.follows_of_completes
    intro nesting s s'
    rw [Action.run, exec_reportTestPartResult]
    cases hfatal : r.fatallyFailed <;> simp [Action.proceeds, Action.effect, hfatal, eq_comm]
  | .skipped _ => exact .of_throw rfl fun _ => ⟨_, rfl⟩
  | .pending _ => exact .of_throw rfl fun _ => ⟨_, rfl⟩
  | .throwStd _ _ => exact .of_throw rfl fun _ => ⟨_, rfl⟩
  | .throwOther => exact .of_throw rfl fun _ => ⟨_, rfl⟩
  | .step _ [] => exact .of_throw rfl fun _ => ⟨_, rfl⟩
  | .step text [body] =>
    apply Action.follows_of_completes
    intro nesting s s'
    change exec (invokeNested nesting text (body.run (nesting+1))) s = _ ↔
      body.passes = true ∧ s' = s
    rw [← body.passed_iff (nesting+1)]
    cases body.run (nesting+1) with
    | none => simp [invokeNested]
    | some t =>
      rw [exec_invokeNested]
      split_ifs with hpassed
      · simp [hpassed, eq_comm]
      · simp [hpassed]
  | .step _ (_ :: _ :: _) => exact .of_throw rfl fun _ => ⟨_, rfl⟩

theorem actions_follow (actions : List Action) : ∀ a ∈ actions, a.Follows := by
  match actions with
  | [] => simp
  | a :: rest =>
    rw [List.forall_mem_cons]
    exact ⟨a.follows, actions_follow rest⟩

/-- A nested step lets the step that calls it go on exactly when nothing fails
in its body. -/
theorem Body.passed_iff (body : Body) (nesting : ℕ) :
    (∃ t, body.run nesting = some t ∧ t.testStepResult.status = .passed) ↔
      body.passes = true := by
  match body with
  | ⟨constructor,setUp,executeImpl,tearDown,destructor,nanoseconds⟩ =>
    let body : Body := ⟨constructor, setUp, executeImpl, tearDown, destructor, nanoseconds⟩
    have hcourse : body.course.Of (body.code nesting) :=
      .body (actions_follow constructor) (actions_follow setUp) (actions_follow executeImpl)
        (actions_follow tearDown) (actions_follow destructor) nesting
    rw [Body.passes_eq, Bool.and_eq_true, Bool.not_eq_true']
    exact hcourse.passed_iff nanoseconds

end

theorem Body.follows (body : Body) (nesting : ℕ) : body.course.Of (body.code nesting) :=
  .body (actions_follow _) (actions_follow _) (actions_follow _) (actions_follow _)
    (actions_follow _) nesting

/-- The status that a body ends with. -/
theorem Body.run_status {body : Body} {nesting : ℕ} {t : BodyState}
    (h : body.run nesting = some t) :
    t.testStepResult.status = .passed ∨ t.testStepResult.status = .skipped ∨
      t.testStepResult.status = .pending ∨ t.testStepResult.status = .failed := by
  rw [Body.run_eq, constructAndExecute_eq_some_iff] at h
  obtain ⟨left,s,hexec,rfl⟩ := h
  cases left with
  | ok _ =>
    obtain ⟨_,rfl⟩ := ((body.follows nesting).completes _ s).mp hexec
    have hconsistent :
        (conclude body.nanoseconds (.ok ()) (effects body.course.executed {})).Consistent :=
      (consistent_executed body.course.executed).1
    rw [hconsistent]
    split_ifs <;> simp
  | error e => cases e <;> simp [conclude, handleErrors]

/-- A failed expectation is lost in the result of the bodies that mask one, and
of no others. -/
theorem Body.loses_iff (body : Body) (nesting : ℕ) :
    (∃ t, body.run nesting = some t ∧ t.hasFailure = true ∧
        t.testStepResult.status ≠ .failed) ↔
      body.masksFailure = true := by
  have hloses := (body.follows nesting).loses_iff body.nanoseconds
  rw [← Body.run_eq] at hloses
  exact hloses.trans (Option.any_eq_true ..).symm

/-- A body, nested or not, shows its failed expectations in its result exactly
when it masks none by a `Skipped` or `Pending` of its own. -/
theorem failed_expectation_iff (body : Body) (nesting : ℕ) :
    (∀ t, body.run nesting = some t → (∃ r ∈ t.reported, r.failed = true) →
        t.testStepResult.status = .failed) ↔
      body.masksFailure = false := by
  rw [← Bool.not_eq_true, ← body.loses_iff nesting]
  simp only [BodyState.hasFailure, List.any_eq_true, not_exists, not_and, not_not, ne_eq]

/-- A failed `EXPECT_` and then a `Skipped`. -/
def maskedBySkipped : Body where
  executeImpl := [.expectation { type := .nonFatalFailure }, .skipped ""]

def maskedByPending : Body where
  executeImpl := [.expectation { type := .nonFatalFailure }, .pending ""]

theorem failed_expectation_masked :
    (∃ t, maskedBySkipped.run 1 = some t ∧ (∃ r ∈ t.reported, r.failed = true) ∧
      t.testStepResult.status = .skipped) ∧
    ∃ t, maskedByPending.run 1 = some t ∧ (∃ r ∈ t.reported, r.failed = true) ∧
      t.testStepResult.status = .pending :=
  ⟨⟨_, rfl, ⟨_, List.mem_singleton_self _, rfl⟩, rfl⟩,
    ⟨_, rfl, ⟨_, List.mem_singleton_self _, rfl⟩, rfl⟩⟩

/-- What the runner sees of a body that comes to its end. -/
def Body.outcome (body : Body) (attachments : List Attachment) (t : BodyState)
    (h : body.run 1 = some t) : Outcome where
  attachments := attachments
  result := t.testStepResult
  known := by rcases Body.run_status h with h | h | h | h <;> simp [h]

end CucumberCpp
