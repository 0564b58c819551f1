import CucumberCpp.Endings
import CucumberCpp.Grouping

/-! How the result of a nested step reaches the steps around it, at any depth. The
bodies here have nothing to do in their constructors, fixtures and destructors. -/
namespace CucumberCpp

open Unwinding

mutual

/-- The body of the action, if it calls one, consists of `ExecuteImpl` only, and so
do those that it calls. -/
def Action.plain : Action → Bool
  | .step _ [body] => body.plain
  | _ => true

def phasePlain : List Action → Bool
  | [] => true
  | a :: rest => a.plain && phasePlain rest

def Body.plain : Body → Bool
  | ⟨constructor,setUp,executeImpl,tearDown,destructor,_⟩ =>
    constructor.isEmpty && setUp.isEmpty && tearDown.isEmpty && destructor.isEmpty &&
      phasePlain executeImpl

end

/-- The action ends the body that executes it. -/
def Action.Stops (nesting : ℕ) : Action → Prop
  | .expectation testPartResult => testPartResult.fatallyFailed = true
  | .step _ [body] =>
    ∃ t, body.run (nesting+1) = some t ∧ t.testStepResult.status ≠ .passed
  | _ => True

/-- The action goes wrong by itself, and not by what it calls. -/
def Action.faulty : Action → Bool
  | .expectation testPartResult => testPartResult.failed
  | .step _ [_] => false
  | _ => true

def Action.report? : Action → Option TestPartResult
  | .expectation testPartResult => some testPartResult
  | _ => none

/-- The body executes the action, because nothing stops it before. -/
def Body.Reaches (nesting : ℕ) (body : Body) (a : Action) : Prop :=
  ∃ pre rest, body.executeImpl = pre ++ a :: rest ∧ ∀ b ∈ pre, ¬b.Stops nesting

/-- The second body is executed as part of the first, at any depth of nested steps. -/
inductive Within (nesting : ℕ) (body : Body) : ℕ → Body → Prop
  | refl : Within nesting body nesting body
  | call {m : ℕ} {caller inner : Body} {text : String} : Within nesting body m caller →
      caller.Reaches m (.step text [inner]) → Within nesting body (m+1) inner

theorem phasePlain_eq (actions : List Action) : phasePlain actions = actions.all Action.plain := by
  induction actions with
  | nil => rfl
  | cons a rest ih => rw [phasePlain, ih, List.all_cons]

mutual

theorem Action.contained_of_plain (a : Action) (h : a.plain = true) : a.contained = true := by
  match a with
  | .expectation _ => rfl
  | .skipped _ => rfl
  | .pending _ => rfl
  | .throwStd _ _ => rfl
  | .throwOther => rfl
  | .step _ [] => rfl
  | .step _ [body] => exact body.contained_of_plain h
  | .step _ (_ :: _ :: _) => rfl

theorem phaseContained_of_plain (actions : List Action) (h : phasePlain actions = true) :
    phaseContained actions = true := by
  match actions with
  | [] => rfl
  | a :: rest =>
    obtain ⟨ha,hrest⟩ := Bool.and_eq_true_iff.mp h
    simp [phaseContained, a.contained_of_plain ha, phaseContained_of_plain rest hrest]

theorem Body.contained_of_plain (body : Body) (h : body.plain = true) : body.contained = true := by
  match body with
  | ⟨constructor,setUp,executeImpl,tearDown,destructor,_⟩ =>
    simp only [Body.plain, Bool.and_eq_true, List.isEmpty_iff] at h
    obtain ⟨⟨⟨⟨rfl,rfl⟩,rfl⟩,rfl⟩,hexecute⟩ := h
    simp [Body.contained, phaseContained, phaseContained_of_plain executeImpl hexecute]

end

/-- A body that returns stops its caller exactly when something fails in it. -/
theorem Action.stops_iff {a : Action} (h : a.contained = true) (nesting : ℕ) :
    a.Stops nesting ↔ a.proceeds = false := by
  match a with
  | .expectation r => simp [Action.Stops, Action.proceeds]
  | .skipped _ => exact iff_of_true trivial rfl
  | .pending _ => exact iff_of_true trivial rfl
  | .throwStd _ _ => exact iff_of_true trivial rfl
  | .throwOther => exact iff_of_true trivial rfl
  | .step _ [] => exact iff_of_true trivial rfl
  | .step _ [body] =>
    obtain ⟨_,hrun,_⟩ := (body.traced (nesting+1)).run h
    have hpassed := body.passed_iff (nesting+1)
    rw [hrun] at hpassed
    simp only [Option.some.injEq, exists_eq_left'] at hpassed
    change (∃ t, body.run (nesting+1) = some t ∧ _) ↔ body.passes = false
    rw [← Bool.not_eq_true, ← hpassed, hrun]
    simp
  | .step _ (_ :: _ :: _) => exact iff_of_true trivial rfl

/-- An action ends its body in one way. -/
theorem Leaves.unique {nesting : ℕ} {stop : Option Action} {left left' : Except Thrown Unit}
    (h : Leaves nesting stop left) (h' : Leaves nesting stop left') : left = left' := by
  cases h with
  | completes => cases h'; rfl
  | stops he =>
    cases h' with
    | stops he' =>
      have hsame := (he {}).symm.trans (he' {})
      simpa using hsame

theorem Trace.phase_of_stop {pre : List Action} {a : Action} (rest : List Action)
    (hpre : ∀ b ∈ pre, b.proceeds = true) (ha : a.proceeds = false) :
    Trace.phase (pre ++ a :: rest) = ⟨pre ++ [a], some a⟩ := by
  induction pre with
  | nil => simp [Trace.phase, Trace.seq, Trace.action, ha]
  | cons b pre ih =>
    rw [List.forall_mem_cons] at hpre
    simp [Trace.phase, Trace.seq, Trace.action, hpre.1, ih hpre.2]

theorem phaseContained_of_stop {pre rest : List Action} {a : Action}
    (hpre : ∀ b ∈ pre, b.contained = true ∧ b.proceeds = true) (ha : a.contained = true)
    (hstop : a.proceeds = false) : phaseContained (pre ++ a :: rest) = true := by
  induction pre with
  | nil => simp [phaseContained, ha, hstop]
  | cons b pre ih =>
    rw [List.forall_mem_cons] at hpre
    simp [phaseContained, hpre.1.1, ih hpre.2]

theorem reported_effects (actions : List Action) (s : BodyState) :
    (effects actions s).reported = s.reported ++ actions.filterMap Action.report? := by
  induction actions generalizing s with
  | nil => simp [effects]
  | cons a actions ih =>
    rw [effects_cons, ih]
    cases a <;> simp [Action.effect, Action.report?, BodyState.report, List.filterMap_cons]

/-- A nested step that stops its body makes it fail. -/
theorem Action.Throws.failed {text : String} {definitions : List Body} {nesting : ℕ} {e : Thrown}
    (h : (Action.step text definitions).Throws nesting e) (r : Util.TestStepResult) :
    (handleErrors e r).status = .failed := by
  rw [handleErrors_failed_iff, ← Bool.not_eq_true]
  intro hinterrupts
  obtain ⟨hinterrupts,_⟩ :=
    (Action.interrupted_iff (.step text definitions) nesting {} _).mp ⟨e, hinterrupts, h {}⟩
  cases hinterrupts

theorem Action.exists_throws {a : Action} (h : a.contained = true) (hstop : a.proceeds = false)
    (nesting : ℕ) : ∃ e, a.Throws nesting e := by
  obtain ⟨left,_,hleaves⟩ := (a.traced nesting).returns h {}
  simp only [Trace.action, hstop] at hleaves
  cases hleaves with
  | stops he => exact ⟨_, he⟩

/-- What stands behind the action that stops a body does not matter. -/
theorem Body.run_of_stop {pre : List Action} {a : Action} {nesting : ℕ} {e : Thrown}
    (rest : List Action) (nanoseconds : UInt64)
    (hpre : ∀ b ∈ pre, b.contained = true ∧ b.proceeds = true)
    (ha : a.contained = true) (hstop : a.proceeds = false) (he : a.Throws nesting e) :
    Body.run nesting { executeImpl := pre ++ a :: rest, nanoseconds := nanoseconds } =
      some (conclude nanoseconds (.error e) (effects (pre ++ [a]) {})) := by
  let body : Body := { executeImpl := pre ++ a :: rest, nanoseconds := nanoseconds }
  have hcontained : body.contained = true := by
    simp [body, Body.contained, phaseContained, phaseContained_of_stop hpre ha hstop]
  have htrace : body.trace = ⟨pre ++ [a], some a⟩ := by
    rw [← Trace.phase_of_stop rest (fun b hb => (hpre b hb).2) hstop]
    simp [body, Body.trace, Trace.phase, Trace.seq, Trace.held]
  obtain ⟨left,hrun,hleaves⟩ := (body.traced nesting).run hcontained
  rw [htrace] at hrun hleaves
  rw [hleaves.unique (.stops he)] at hrun
  exact hrun

namespace Body

variable {body : Body} {nesting : ℕ}

theorem with_executeImpl {actions : List Action} (h : body.executeImpl = actions) :
    { body with executeImpl := actions } = body := by
  rw [← h]
  cases body
  rfl

theorem eq_of_plain (h : body.plain = true) :
    body = { executeImpl := body.executeImpl, nanoseconds := body.nanoseconds } ∧
      ∀ a ∈ body.executeImpl, a.plain = true := by
  rcases body with ⟨constructor,setUp,executeImpl,tearDown,destructor,_⟩
  simp only [Body.plain, Bool.and_eq_true, List.isEmpty_iff, phasePlain_eq, List.all_eq_true] at h
  obtain ⟨⟨⟨⟨rfl,rfl⟩,rfl⟩,rfl⟩,hexecute⟩ := h
  exact ⟨rfl, hexecute⟩

/-- The first action that stops a plain body decides how it ends. -/
theorem run_of_first_stop (h : body.plain = true) {pre rest : List Action} {a : Action}
    (hbody : body.executeImpl = pre ++ a :: rest) (hpre : ∀ b ∈ pre, ¬b.Stops nesting)
    (ha : a.Stops nesting) :
    ∃ e, a.Throws nesting e ∧ ∀ rest',
      Body.run nesting { body with executeImpl := pre ++ a :: rest' } =
        some (conclude body.nanoseconds (.error e) (effects (pre ++ [a]) {})) := by
  obtain ⟨heq,hplain⟩ := eq_of_plain h
  rw [hbody] at hplain
  have hpre' : ∀ b ∈ pre, b.contained = true ∧ b.proceeds = true := by
    intro b hb
    have hcontained := b.contained_of_plain (hplain b (by simp [hb]))
    have hproceeds := (Action.stops_iff hcontained nesting).not.mp (hpre b hb)
    exact ⟨hcontained, by simpa using hproceeds⟩
  have hcontained := a.contained_of_plain (hplain a (by simp))
  have hstop := (Action.stops_iff hcontained nesting).mp ha
  obtain ⟨e,he⟩ := a.exists_throws hcontained hstop nesting
  refine ⟨e, he, fun rest' => ?_⟩
  have hrun := run_of_stop rest' body.nanoseconds hpre' hcontained hstop he
  rw [heq]
  exact hrun

/-- A plain body that nothing stops executes all that it consists of. -/
theorem run_of_no_stop (h : body.plain = true) (hgo : ∀ a ∈ body.executeImpl, ¬a.Stops nesting) :
    body.run nesting =
      some (conclude body.nanoseconds (.ok ()) (effects body.executeImpl {})) := by
  obtain ⟨heq,hplain⟩ := eq_of_plain h
  have hproceeds : body.executeImpl.all Action.proceeds = true := by
    rw [List.all_eq_true]
    intro a ha
    have hcontained := a.contained_of_plain (hplain a ha)
    simpa using (Action.stops_iff hcontained nesting).not.mp (hgo a ha)
  have htrace : body.trace = ⟨body.executeImpl, none⟩ := by
    rw [← Trace.phase_of_proceeds hproceeds, heq]
    simp [Body.trace, Trace.phase, Trace.seq, Trace.held]
  obtain ⟨left,hrun,hleaves⟩ := (body.traced nesting).run (body.contained_of_plain h)
  rw [htrace] at hrun hleaves
  rw [hleaves.unique .completes] at hrun
  exact hrun

/-- A nested step that does not pass makes the body that calls it fail. -/
theorem failed_of_nested (h : body.plain = true) {text : String} {definitions : List Body}
    (hreaches : body.Reaches nesting (.step text definitions))
    (hstops : (Action.step text definitions).Stops nesting) :
    ∃ t, body.run nesting = some t ∧ t.testStepResult.status = .failed := by
  obtain ⟨pre,rest,hbody,hpre⟩ := hreaches
  obtain ⟨e,he,hrun⟩ := run_of_first_stop h hbody hpre hstops
  have hbody' := hrun rest
  rw [with_executeImpl hbody] at hbody'
  let s := effects (pre ++ [.step text definitions]) {}
  have hfailed : (handleErrors e s.testStepResult).status = .failed := he.failed _
  exact ⟨conclude body.nanoseconds (.error e) s, hbody', hfailed⟩

end Body

theorem Body.executeImpl_mem_phases (body : Body) : body.executeImpl ∈ body.phases := by
  simp [Body.phases]

theorem Body.Reaches.mem {body : Body} {nesting : ℕ} {a : Action} (h : body.Reaches nesting a) :
    a ∈ body.executeImpl := by
  obtain ⟨pre,rest,hbody,_⟩ := h
  rw [hbody]
  simp

theorem Action.not_stops {a : Action} (hplain : a.plain = true) (h : a.passes = true)
    (nesting : ℕ) : ¬a.Stops nesting := by
  rw [Action.stops_iff (a.contained_of_plain hplain)]
  rw [a.passes_eq, Bool.and_eq_true] at h
  simp [h.1]

theorem Action.not_faulty {a : Action} (h : a.passes = true) : a.faulty = false := by
  match a with
  | .expectation _ => simpa [Action.passes, Action.faulty] using h
  | .step _ [_] => rfl

namespace Within

variable {nesting m k : ℕ} {body caller inner : Body}

theorem trans (h : Within nesting body m caller) (h' : Within m caller k inner) :
    Within nesting body k inner := by
  induction h' with
  | refl => exact h
  | call _ hreaches ih => exact .call ih hreaches

theorem plain (h : Within nesting body m inner) (hplain : body.plain = true) :
    inner.plain = true := by
  induction h with
  | refl => exact hplain
  | call _ hreaches ih => exact (Body.eq_of_plain ih).2 _ hreaches.mem

theorem passes (h : Within nesting body m inner) (hpasses : body.passes = true) :
    inner.passes = true := by
  induction h with
  | refl => exact hpasses
  | call _ hreaches ih =>
    exact Body.passes_of_mem ih (Body.executeImpl_mem_phases _) hreaches.mem

/-- The failure of a body reaches every body around it. -/
theorem failed (h : Within nesting body m inner) (hplain : body.plain = true)
    (hfailed : ∃ t, inner.run m = some t ∧ t.testStepResult.status = .failed) :
    ∃ t, body.run nesting = some t ∧ t.testStepResult.status = .failed := by
  induction h with
  | refl => exact hfailed
  | @call m caller inner text hcaller hreaches ih =>
    obtain ⟨t,hrun,hstatus⟩ := hfailed
    have hstops : (Action.step text [inner]).Stops m := ⟨t, hrun, by simp [hstatus]⟩
    exact ih (Body.failed_of_nested (hcaller.plain hplain) hreaches hstops)

end Within

/-- Something goes wrong in an action that the body executes, at some depth. -/
def Body.Faulty (nesting : ℕ) (body : Body) : Prop :=
  ∃ m inner a, Within nesting body m inner ∧ inner.Reaches m a ∧ a.faulty = true

mutual

/-- When an action does not pass, something goes wrong in it or below it. -/
theorem Action.faulty_or_nested (a : Action) (nesting : ℕ) (hplain : a.plain = true)
    (h : a.passes = false) :
    a.faulty = true ∨ ∃ text inner, a = .step text [inner] ∧ inner.Faulty (nesting+1) := by
  match a with
  | .expectation _ => exact .inl (by simpa [Action.passes, Action.faulty] using h)
  | .skipped _ => exact .inl rfl
  | .pending _ => exact .inl rfl
  | .throwStd _ _ => exact .inl rfl
  | .throwOther => exact .inl rfl
  | .step _ [] => exact .inl rfl
  | .step text [inner] => exact .inr ⟨text, inner, rfl, inner.faulty_of_not_passes _ hplain h⟩
  | .step _ (_ :: _ :: _) => exact .inl rfl

theorem actions_faulty_or_nested (actions : List Action) (nesting : ℕ)
    (hplain : phasePlain actions = true) :
    ∀ a ∈ actions, a.passes = false → a.faulty = true ∨
      ∃ text inner, a = .step text [inner] ∧ inner.Faulty (nesting+1) := by
  match actions with
  | [] => simp
  | a :: rest =>
    obtain ⟨ha,hrest⟩ := Bool.and_eq_true_iff.mp hplain
    rw [List.forall_mem_cons]
    exact ⟨a.faulty_or_nested nesting ha, actions_faulty_or_nested rest nesting hrest⟩

theorem Body.faulty_of_not_passes (body : Body) (nesting : ℕ) (hplain : body.plain = true)
    (h : body.passes = false) : body.Faulty nesting := by
  match body with
  | ⟨constructor,setUp,executeImpl,tearDown,destructor,nanoseconds⟩ =>
    simp only [Body.plain, Bool.and_eq_true, List.isEmpty_iff] at hplain
    obtain ⟨⟨⟨⟨rfl,rfl⟩,rfl⟩,rfl⟩,hexecute⟩ := hplain
    have hany : executeImpl.any (fun a => !a.passes) = true := by
      simpa [Body.passes, phasePasses, phasePasses_eq_all] using h
    obtain ⟨pre,a,rest,hactions,ha,hpre⟩ := Grouping.exists_first_of_any hany
    simp only [Bool.not_eq_true', List.any_eq_false, Bool.not_eq_false] at ha hpre
    let body : Body := { executeImpl := executeImpl, nanoseconds := nanoseconds }
    have hreaches : body.Reaches nesting a := by
      refine ⟨pre, rest, hactions, fun b hb => ?_⟩
      have hplain : b.plain = true := by
        rw [phasePlain_eq, List.all_eq_true] at hexecute
        exact hexecute b (by simp [hactions, hb])
      exact Action.not_stops hplain (hpre b hb) nesting
    have hmem : a ∈ executeImpl := hreaches.mem
    rcases actions_faulty_or_nested executeImpl nesting hexecute a hmem ha with hfaulty | hnested
    · exact ⟨nesting, body, a, .refl, hreaches, hfaulty⟩
    · obtain ⟨text,inner,rfl,m,b,x,hwithin,hx,hfaulty⟩ := hnested
      exact ⟨m, b, x, (Within.call .refl hreaches).trans hwithin, hx, hfaulty⟩

end

/-- A plain body passes exactly when nothing goes wrong in what it executes. -/
theorem Body.passes_iff_not_faulty {body : Body} (hplain : body.plain = true) (nesting : ℕ) :
    body.passes = true ↔ ¬body.Faulty nesting := by
  constructor
  · intro hpasses hfaulty
    obtain ⟨m,inner,a,hwithin,hreaches,ha⟩ := hfaulty
    have hpasses' :=
      Body.passes_of_mem (hwithin.passes hpasses) inner.executeImpl_mem_phases hreaches.mem
    rw [Action.not_faulty hpasses'] at ha
    cases ha
  · intro hfaulty
    by_contra hpasses
    rw [Bool.not_eq_true] at hpasses
    exact hfaulty (body.faulty_of_not_passes nesting hplain hpasses)

/-- Results of nested steps propagate. A body ends with its first action that stops
it, passes when nothing goes wrong in an action executed at any depth, and fails when
a nested step at any depth does not pass. -/
theorem nested_results_propagate {body : Body} (hplain : body.plain = true) (nesting : ℕ) :
    ∃ t, body.run nesting = some t ∧
      (∀ pre a rest, body.executeImpl = pre ++ a :: rest → (∀ b ∈ pre, ¬b.Stops nesting) →
        a.Stops nesting →
          t.reported = (pre ++ [a]).filterMap Action.report? ∧
          ∀ rest', Body.run nesting { body with executeImpl := pre ++ a :: rest' } = some t) ∧
      ((∀ a ∈ body.executeImpl, ¬a.Stops nesting) →
        t.reported = body.executeImpl.filterMap Action.report?) ∧
      (t.testStepResult.status = .passed ↔ ∀ m inner, Within nesting body m inner →
        ∀ a, inner.Reaches m a → a.faulty = false) ∧
      ∀ k outer m inner, Within nesting body k outer → Within k outer m inner →
        ∀ text definitions, inner.Reaches m (.step text definitions) →
          (Action.step text definitions).Stops m →
            ∃ t', outer.run k = some t' ∧ t'.testStepResult.status = .failed := by
  obtain ⟨left,hrun,_⟩ := (body.traced nesting).run (body.contained_of_plain hplain)
  refine ⟨_, hrun, ?_, ?_, ?_, ?_⟩
  · intro pre a rest hbody hpre ha
    obtain ⟨e,_,hstop⟩ := Body.run_of_first_stop hplain hbody hpre ha
    have hrest := hstop rest
    rw [Body.with_executeImpl hbody, hrun, Option.some.injEq] at hrest
    rw [hrest]
    exact ⟨reported_effects _ {}, hstop⟩
  · intro hgo
    have hall := Body.run_of_no_stop hplain hgo
    rw [hrun, Option.some.injEq] at hall
    rw [hall]
    exact reported_effects _ {}
  · have hpassed := body.passed_iff nesting
    rw [hrun] at hpassed
    simp only [Option.some.injEq, exists_eq_left'] at hpassed
    rw [hpassed, Body.passes_iff_not_faulty hplain nesting]
    simp only [Body.Faulty, not_exists, not_and, Bool.not_eq_true]
    exact ⟨fun h m inner hwithin a => h m inner a hwithin, fun h m inner a hwithin =>
      h m inner hwithin a⟩
  · intro k outer m inner houter hinner text definitions hreaches hstops
    have hplain' := houter.plain hplain
    exact hinner.failed hplain' (Body.failed_of_nested (hinner.plain hplain') hreaches hstops)

/-- A step that calls another step whose assertion fails. -/
def callsFailingStep : Body where
  executeImpl := [.step "a nested step that fails"
    [{ executeImpl := [.expectation { type := .fatalFailure }] }], .throwOther]

theorem nested_results_propagate_failing :
    ∃ t, callsFailingStep.run 1 = some t ∧ t.testStepResult.status = .failed := by
  have hplain : callsFailingStep.plain = true := rfl
  obtain ⟨_,_,_,_,_,hfailed⟩ := nested_results_propagate hplain 1
  refine hfailed 1 callsFailingStep 1 callsFailingStep .refl .refl _ _ ⟨[], _, rfl, by simp⟩ ?_
  exact ⟨_, rfl, by simp [conclude, handleErrors]⟩

end CucumberCpp
