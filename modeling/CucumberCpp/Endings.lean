import CucumberCpp.Expectations

/-! How a body comes to its end: which bodies return a result at all, what they
have executed by then, and which action has ended them. -/
namespace CucumberCpp

open Unwinding

mutual

/-- No destructor that is reached in the action ends the program. -/
def Action.contained : Action → Bool
  | .step _ [body] => body.contained
  | _ => true

def phaseContained : List Action → Bool
  | [] => true
  | a :: rest => a.contained && (!a.proceeds || phaseContained rest)

/-- `TearDown` completes when `SetUp` has, and the destructor when the constructor
has, in the body and in every nested step that it reaches. -/
def Body.contained : Body → Bool
  | ⟨constructor,setUp,executeImpl,tearDown,destructor,_⟩ =>
    phaseContained constructor && (!constructor.all Action.proceeds ||
      (phaseContained setUp && (!setUp.all Action.proceeds ||
        (phaseContained executeImpl && tearDown.all Action.proceeds)) &&
      destructor.all Action.proceeds))

end

/-- What a part of a body executes when nothing ends the program, and the action
that ends the part early, if one does. -/
structure Trace where
  executed : List Action
  stop : Option Action

namespace Trace

def action (a : Action) : Trace where
  executed := [a]
  stop := if a.proceeds then none else some a

def seq (c d : Trace) : Trace :=
  match c.stop with
  | none => ⟨c.executed ++ d.executed, d.stop⟩
  | some _ => c

/-- A destructor completes, so that all its actions are executed. -/
def held (use : Trace) (destroy : List Action) : Trace := ⟨use.executed ++ destroy, use.stop⟩

def phase : List Action → Trace
  | [] => ⟨[], none⟩
  | a :: rest => (action a).seq (phase rest)

end Trace

def Body.trace (body : Body) : Trace :=
  (Trace.phase body.constructor).seq
    (((Trace.phase body.setUp).seq
      ((Trace.phase body.executeImpl).held body.tearDown)).held body.destructor)

/-- The action ends its body by the exception. -/
def Action.Throws (nesting : ℕ) (a : Action) (e : Thrown) : Prop :=
  ∀ s, exec (a.run nesting) s = some (.error e, a.effect s)

/-- How a part of a body leaves, by the action that stops it. -/
inductive Leaves (nesting : ℕ) : Option Action → Except Thrown Unit → Prop
  | completes : Leaves nesting none (.ok ())
  | stops {a : Action} {e : Thrown} : a.Throws nesting e → Leaves nesting (some a) (.error e)

/-- The code goes as traced when it is contained, and ends the program when it is not. -/
structure Trace.Of (contained : Bool) (nesting : ℕ) (c : Trace) (code : BodyCode) : Prop where
  returns : contained = true → ∀ s, ∃ left,
    exec code s = some (left, effects c.executed s) ∧ Leaves nesting c.stop left
  terminates : contained = false → ∀ s, exec code s = none

namespace Trace

theorem phase_of_proceeds {actions : List Action} (h : actions.all Action.proceeds = true) :
    phase actions = ⟨actions, none⟩ := by
  induction actions with
  | nil => rfl
  | cons a rest ih =>
    obtain ⟨ha,hrest⟩ := Bool.and_eq_true_iff.mp h
    simp [phase, seq, action, ha, ih hrest]

theorem phase_stop_isNone (actions : List Action) :
    (phase actions).stop.isNone = actions.all Action.proceeds := by
  induction actions with
  | nil => rfl
  | cons a rest ih =>
    rw [List.all_cons, ← ih]
    cases ha : a.proceeds <;> simp [phase, seq, action, ha]

theorem phase_stop_eq_none_iff (actions : List Action) :
    (phase actions).stop = none ↔ actions.all Action.proceeds = true := by
  rw [← phase_stop_isNone, Option.isNone_iff_eq_none]

theorem seq_stop_eq_none_iff (c d : Trace) :
    (c.seq d).stop = none ↔ c.stop = none ∧ d.stop = none := by
  rcases c with ⟨executed,_ | a⟩ <;> simp [seq]

end Trace

theorem Course.phase_executed (actions : List Action) :
    (Course.phase actions).executed = actions := by
  induction actions with
  | nil => rfl
  | cons a rest ih => simp [Course.phase, Course.seq, Course.action, ih]

theorem Course.phase_completes (actions : List Action) :
    (Course.phase actions).completes = actions.all Action.proceeds := by
  induction actions with
  | nil => rfl
  | cons a rest ih => simp [Course.phase, Course.seq, Course.action, ih]

/-- A phase completes exactly when each of its actions lets it go on. -/
theorem runPhase_completes_iff (nesting : ℕ) (actions : List Action) (s s' : BodyState) :
    exec (runPhase nesting actions) s = some (.ok (), s') ↔
      actions.all Action.proceeds = true ∧ s' = effects actions s := by
  have hcourse := Course.Of.phase (actions_follow actions) nesting
  simpa only [Course.phase_executed, Course.phase_completes] using hcourse.completes s s'

namespace Trace.Of

variable {b b' : Bool} {nesting : ℕ} {c d : Trace} {code next : BodyCode}

theorem nil : Trace.Of true nesting ⟨[], none⟩ (pure () : BodyCode) where
  returns _ s := ⟨.ok (), rfl, .completes⟩
  terminates h := by cases h

/-- The second part only matters when the first lets it be reached. -/
theorem seq (hc : c.Of b nesting code) (hd : d.Of b' nesting next) :
    (c.seq d).Of (b && (!c.stop.isNone || b')) nesting (do code; next) where
  returns h s := by
    obtain ⟨hb,hreached⟩ := Bool.and_eq_true_iff.mp h
    obtain ⟨left,hexec,hleaves⟩ := hc.returns hb s
    rw [exec_bind, hexec]
    rcases c with ⟨executed,stop⟩
    cases hleaves with
    | completes =>
      obtain ⟨left,hexec,hleaves⟩ := hd.returns (by simpa using hreached) (effects executed s)
      exact ⟨left, by simpa [Trace.seq] using hexec, hleaves⟩
    | stops he => exact ⟨_, rfl, .stops he⟩
  terminates h s := by
    rw [exec_bind]
    cases hb : b with
    | false => rw [hc.terminates hb s]; rfl
    | true =>
      obtain ⟨left,hexec,hleaves⟩ := hc.returns hb s
      rw [hexec]
      rcases c with ⟨executed,stop⟩
      cases hleaves with
      | completes => exact hd.terminates (by simpa [hb] using h) _
      | stops _ => simp [hb] at h

/-- What is held ends the program when its destructor throws. -/
theorem held (hc : c.Of b nesting code) (destroy : List Action) :
    (c.held destroy).Of (b && destroy.all Action.proceeds) nesting
      (Unwinding.held code (runPhase nesting destroy)) where
  returns h s := by
    obtain ⟨hb,hdestroy⟩ := Bool.and_eq_true_iff.mp h
    obtain ⟨left,hexec,hleaves⟩ := hc.returns hb s
    refine ⟨left, ?_, hleaves⟩
    rw [exec_held_eq_some_iff]
    exact ⟨_, hexec, (runPhase_completes_iff ..).mpr ⟨hdestroy, effects_append ..⟩⟩
  terminates h s := by
    rw [Option.eq_none_iff_forall_ne_some]
    rintro ⟨left,s'⟩ hexec
    obtain ⟨s₁,huse,hdone⟩ := exec_held_eq_some_iff.mp hexec
    obtain ⟨hdestroy,_⟩ := (runPhase_completes_iff ..).mp hdone
    rw [hdestroy, Bool.and_true] at h
    rw [hc.terminates h s] at huse
    cases huse

end Trace.Of

/-- Outside nested steps an action either goes on or throws. -/
theorem Trace.Of.action {a : Action} {nesting : ℕ} (hcontained : a.contained = true)
    (hproceeds : a.proceeds = false → ∃ e, a.Throws nesting e) :
    (Trace.action a).Of a.contained nesting (a.run nesting) where
  returns _ s := by
    cases ha : a.proceeds with
    | true =>
      refine ⟨.ok (), ((a.follows nesting).completes s _).mpr ⟨ha, rfl⟩, ?_⟩
      simpa [Trace.action, ha] using Leaves.completes
    | false =>
      obtain ⟨e,he⟩ := hproceeds ha
      refine ⟨.error e, he s, ?_⟩
      simpa [Trace.action, ha] using Leaves.stops he
  terminates h := by rw [hcontained] at h; cases h

theorem Trace.Of.run {body : Body} {b : Bool} {nesting : ℕ} {c : Trace}
    (h : c.Of b nesting (body.code nesting)) (hb : b = true) :
    ∃ left, body.run nesting =
        some (conclude body.nanoseconds left (effects c.executed {})) ∧
      Leaves nesting c.stop left := by
  obtain ⟨left,hexec,hleaves⟩ := h.returns hb {}
  refine ⟨left, ?_, hleaves⟩
  rw [Body.run_eq, constructAndExecute, hexec]
  rfl

theorem Trace.Of.run_eq_none {body : Body} {b : Bool} {nesting : ℕ} {c : Trace}
    (h : c.Of b nesting (body.code nesting)) (hb : b = false) : body.run nesting = none := by
  rw [Body.run_eq, constructAndExecute, h.terminates hb]
  rfl

mutual

theorem Action.traced (a : Action) (nesting : ℕ) :
    (Trace.action a).Of a.contained nesting (a.run nesting) := by
  match a with
  | .expectation r =>
    refine .action rfl fun hfatal => ⟨.fatalError r.message, fun s => ?_⟩
    have hfatal : r.fatallyFailed = true := by simpa [Action.proceeds] using hfatal
    rw [Action.run, exec_reportTestPartResult, hfatal]
    rfl
  | .skipped _ => exact .action rfl fun _ => ⟨_, fun _ => rfl⟩
  | .pending _ => exact .action rfl fun _ => ⟨_, fun _ => rfl⟩
  | .throwStd _ _ => exact .action rfl fun _ => ⟨_, fun _ => rfl⟩
  | .throwOther => exact .action rfl fun _ => ⟨_, fun _ => rfl⟩
  | .step _ [] => exact .action rfl fun _ => ⟨_, fun _ => rfl⟩
  | .step text [body] =>
    have hbody := body.traced (nesting+1)
    cases hcontained : body.contained with
    | true =>
      refine .action hcontained fun hproceeds => ?_
      obtain ⟨left,hrun,_⟩ := hbody.run hcontained
      have hpassed := (body.passed_iff (nesting+1)).not.mpr (Bool.not_eq_true _ ▸ hproceeds)
      let r := (conclude body.nanoseconds left (effects body.trace.executed {})).testStepResult
      refine ⟨.nestedTestCaseRunnerError nesting (transformTestStepResult r) text, fun s => ?_⟩
      rw [Action.run, hrun, exec_invokeNested, if_neg fun h => hpassed ⟨_, hrun, h⟩]
      rfl
    | false =>
      have hnone := hbody.run_eq_none hcontained
      refine ⟨fun h => ?_, fun _ s => ?_⟩
      · cases hcontained.symm.trans h
      · rw [Action.run, hnone]
        rfl
  | .step _ (_ :: _ :: _) => exact .action rfl fun _ => ⟨_, fun _ => rfl⟩

theorem phase_traced (actions : List Action) (nesting : ℕ) :
    (Trace.phase actions).Of (phaseContained actions) nesting (runPhase nesting actions) := by
  match actions with
  | [] => exact .nil
  | a :: rest =>
    have hstop : (Trace.action a).stop.isNone = a.proceeds := by
      cases ha : a.proceeds <;> simp [Trace.action, ha]
    have hseq := (a.traced nesting).seq (phase_traced rest nesting)
    rw [hstop] at hseq
    exact hseq

theorem Body.traced (body : Body) (nesting : ℕ) :
    body.trace.Of body.contained nesting (body.code nesting) := by
  match body with
  | ⟨constructor,setUp,executeImpl,tearDown,destructor,nanoseconds⟩ =>
    have hexecuted := (phase_traced executeImpl nesting).held tearDown
    have hheld := ((phase_traced setUp nesting).seq hexecuted).held destructor
    have hbody := (phase_traced constructor nesting).seq hheld
    simp only [Trace.phase_stop_isNone] at hbody
    exact hbody

end

theorem Body.run_isSome (body : Body) (nesting : ℕ) :
    (body.run nesting).isSome = body.contained := by
  cases hcontained : body.contained with
  | true =>
    obtain ⟨_,hrun,_⟩ := (body.traced nesting).run hcontained
    rw [hrun]
    rfl
  | false =>
    rw [(body.traced nesting).run_eq_none hcontained]
    rfl

/-- The phases of a body, in the order in which they are reached. -/
def Body.phases (body : Body) : List (List Action) :=
  [body.constructor, body.setUp, body.executeImpl, body.tearDown, body.destructor]

theorem phasePasses_eq_all (actions : List Action) :
    phasePasses actions = actions.all Action.passes := by
  induction actions with
  | nil => rfl
  | cons a rest ih => rw [phasePasses, ih, List.all_cons]

theorem Body.passes_of_mem {body : Body} (h : body.passes = true) {actions : List Action}
    (hactions : actions ∈ body.phases) {a : Action} (ha : a ∈ actions) : a.passes = true := by
  rcases body with ⟨constructor,setUp,executeImpl,tearDown,destructor,_⟩
  simp only [Body.passes, Bool.and_eq_true, phasePasses_eq_all, List.all_eq_true] at h
  obtain ⟨⟨⟨⟨hconstructor,hsetUp⟩,hexecute⟩,htearDown⟩,hdestructor⟩ := h
  simp only [Body.phases, List.mem_cons, List.not_mem_nil, or_false] at hactions
  rcases hactions with rfl | rfl | rfl | rfl | rfl
  · exact hconstructor a ha
  · exact hsetUp a ha
  · exact hexecute a ha
  · exact htearDown a ha
  · exact hdestructor a ha

/-- An exception leaves one of the phases. One that is not reached is not, because
an exception has left a phase before it. -/
def Body.Raises (nesting : ℕ) (body : Body) : Prop :=
  ∃ actions ∈ body.phases, ∃ s e s', exec (runPhase nesting actions) s = some (.error e, s')

/-- When nothing stops a body, its phases all complete. -/
theorem Body.phases_proceed {body : Body} (h : body.trace.stop = none)
    (hcontained : body.contained = true) :
    ∀ actions ∈ body.phases, actions.all Action.proceeds = true := by
  rcases body with ⟨constructor,setUp,executeImpl,tearDown,destructor,_⟩
  simp only [Body.trace, Trace.held, Trace.seq_stop_eq_none_iff,
    Trace.phase_stop_eq_none_iff] at h
  obtain ⟨hconstructor,hsetUp,hexecute⟩ := h
  simp only [Body.contained, hconstructor, hsetUp, Bool.not_true, Bool.false_or,
    Bool.and_eq_true] at hcontained
  obtain ⟨_,⟨_,_,htearDown⟩,hdestructor⟩ := hcontained
  intro actions hactions
  simp only [Body.phases, List.mem_cons, List.not_mem_nil, or_false] at hactions
  rcases hactions with rfl | rfl | rfl | rfl | rfl <;> assumption

theorem Body.not_raises {body : Body} {nesting : ℕ} (h : body.trace.stop = none)
    (hcontained : body.contained = true) : ¬body.Raises nesting := by
  intro hraises
  obtain ⟨actions,hactions,s,e,s',hthrown⟩ := hraises
  have hproceeds := body.phases_proceed h hcontained actions hactions
  have hdone := (runPhase_completes_iff nesting actions s _).mpr ⟨hproceeds, rfl⟩
  rw [hthrown] at hdone
  cases hdone

/-- A body hands its result back, with another status than PASSED when one of its
phases raised, exactly when no destructor that it reaches lets an exception out. -/
theorem faults_contained_iff (body : Body) (nesting : ℕ) :
    (∃ t, body.run nesting = some t ∧
        (body.Raises nesting → t.testStepResult.status ≠ .passed)) ↔
      body.contained = true := by
  constructor
  · intro h
    obtain ⟨t,hrun,_⟩ := h
    rw [← body.run_isSome nesting, hrun]
    rfl
  · intro hcontained
    obtain ⟨left,hrun,hleaves⟩ := (body.traced nesting).run hcontained
    refine ⟨_, hrun, fun hraises => ?_⟩
    generalize hstop : body.trace.stop = stop at hleaves
    cases hleaves with
    | completes => exact absurd hraises (body.not_raises hstop hcontained)
    | stops _ => exact handleErrors_not_passed _ _

/-- A body whose `TearDown` throws. -/
def throwingTearDown : Body where
  tearDown := [.throwStd "std::runtime_error" "torn down"]

theorem faults_not_contained :
    ¬∀ (body : Body) (nesting : ℕ), ∃ t, body.run nesting = some t ∧
      (body.Raises nesting → t.testStepResult.status ≠ .passed) := by
  intro h
  obtain ⟨t,hrun,_⟩ := h throwingTearDown 1
  cases hrun

end CucumberCpp
