import CucumberCpp.Attempts
import CucumberCpp.EventStream

/-! What the messages of a run say about its attempts: the questions that reports ask of them,
answered from the records. -/
namespace CucumberCpp

open EventLog

namespace Envelope

/-- Whether a message is about something else than the run, its attempts and their steps. -/
def aside : Envelope → Bool
  | .testRunHookStarted _ | .testRunHookFinished _ | .testCase _ | .attachment _
  | .suggestion _ => true
  | _ => false

def testCaseStarted? : Envelope → Option TestCaseStarted
  | .testCaseStarted message => some message
  | _ => none

def testStepFinished? : Envelope → Option TestStepFinished
  | .testStepFinished message => some message
  | _ => none

def testCaseFinished? : Envelope → Option TestCaseFinished
  | .testCaseFinished message => some message
  | _ => none

def testRunFinished? : Envelope → Option TestRunFinished
  | .testRunFinished message => some message
  | _ => none

end Envelope

/-- The attempts that were started and will not be retried. -/
def unretried (envelopes : List Envelope) : List TestCaseStarted :=
  (envelopes.filterMap Envelope.testCaseStarted?).filter fun started =>
    !(envelopes.filterMap Envelope.testCaseFinished?).any fun finished =>
      decide (finished.testCaseStartedId = started.id) && finished.willBeRetried

/-- The results of the steps that were finished in an attempt. -/
def resultsOf (envelopes : List Envelope) (started : TestCaseStarted) : List TestStepResult :=
  ((envelopes.filterMap Envelope.testStepFinished?).filter fun finished =>
    finished.testCaseStartedId = started.id).map TestStepFinished.testStepResult

/-- The attempts, each with the id of its test case, are those that the messages tell of. -/
structure TellsOf (envelopes : List Envelope) (attempts : List (String × AttemptRun)) : Prop where
  started : envelopes.filterMap Envelope.testCaseStarted? =
    attempts.map fun p => ⟨p.2.attempt, p.2.id, p.1⟩
  stepsFinished : envelopes.filterMap Envelope.testStepFinished? =
    attempts.flatMap fun p => p.2.steps.map fun s => ⟨p.2.id, s.testStep.id, s.result⟩
  finished : envelopes.filterMap Envelope.testCaseFinished? =
    attempts.map fun p => ⟨p.2.id, p.2.willBeRetried⟩
  distinct : (attempts.map fun p => p.2.id).Nodup

/-- The attempts of a run, each with the id of its test case. -/
def RunReport.attempts (r : RunReport) : List (String × AttemptRun) :=
  r.cases.flatMap fun cr => cr.attempts.map fun a => (cr.assembled.testCase.id,a)

/-- Of parts with distinct keys, only the one with the given key passes a filter by that key. -/
theorem filter_flatMap_of_nodup {α β K : Type} [DecidableEq K] {key : α → K} {f : α → List β}
    {key' : β → K} (hkey : ∀ a, ∀ b ∈ f a, key' b = key a) {xs : List α}
    (hxs : (xs.map key).Nodup) {x : α} (hx : x ∈ xs) :
    (xs.flatMap f).filter (fun b => key' b = key x) = f x := by
  obtain ⟨pre,post,rfl⟩ := List.append_of_mem hx
  have hother : ∀ ys : List α, (∀ y ∈ ys, key y ≠ key x) →
      (ys.flatMap f).filter (fun b => key' b = key x) = [] := by
    intro ys hys
    apply List.filter_eq_nil_iff.mpr
    intro b hb
    obtain ⟨y,hy,hby⟩ := List.mem_flatMap.mp hb
    rw [hkey y b hby, decide_eq_true_eq]
    exact hys y hy
  have hself : (f x).filter (fun b => key' b = key x) = f x := by
    apply List.filter_eq_self.mpr
    intro b hb
    rw [hkey x b hb, decide_eq_true_eq]
  rw [List.map_append, List.map_cons, List.nodup_middle, List.nodup_cons] at hxs
  have hne (ys : List α) (hys : ∀ y ∈ ys, y ∈ pre ++ post) : ∀ y ∈ ys, key y ≠ key x := by
    intro y hy heq
    apply hxs.1
    rw [← List.map_append, ← heq]
    exact List.mem_map_of_mem (hys y hy)
  rw [List.flatMap_append, List.flatMap_cons, List.filter_append, List.filter_append, hself,
    hother pre (hne pre fun y hy => List.mem_append_left post hy),
    hother post (hne post fun y hy => List.mem_append_right pre hy)]
  simp

namespace TellsOf

variable {envelopes : List Envelope} {attempts : List (String × AttemptRun)}

theorem unretried_eq (h : TellsOf envelopes attempts) : unretried envelopes =
    (attempts.filter fun p => !p.2.willBeRetried).map fun p => ⟨p.2.attempt, p.2.id, p.1⟩ := by
  rw [unretried, h.started, h.finished, List.filter_map]
  apply congrArg
  apply List.filter_congr
  intro p hp
  -- the only message that an attempt is finished with this id is its own
  have hown : ∀ q ∈ attempts, q.2.id = p.2.id → q = p := fun q hq heq =>
    List.inj_on_of_nodup_map h.distinct hq hp heq
  simp only [Function.comp_apply, List.any_map]
  congr 1
  rw [Bool.eq_iff_iff, List.any_eq_true]
  constructor
  · rintro ⟨q,hq,hretried⟩
    rw [Function.comp_apply, Bool.and_eq_true, decide_eq_true_eq] at hretried
    rw [← hown q hq hretried.1]
    exact hretried.2
  · intro hretried
    exact ⟨p, hp, by simp [hretried]⟩

theorem resultsOf_eq (h : TellsOf envelopes attempts) {p : String × AttemptRun}
    (hp : p ∈ attempts) : resultsOf envelopes ⟨p.2.attempt, p.2.id, p.1⟩ = p.2.results := by
  rw [resultsOf, h.stepsFinished, filter_flatMap_of_nodup ?_ h.distinct hp, List.map_map]
  · rfl
  · intro q finished hfinished
    obtain ⟨s,_,rfl⟩ := List.mem_map.mp hfinished
    rfl

/-- No other attempt finishes a step under the id of this one. -/
theorem step_of_finished (h : TellsOf envelopes attempts) {p : String × AttemptRun}
    (hp : p ∈ attempts) {finished : TestStepFinished}
    (hfinished : .testStepFinished finished ∈ envelopes)
    (hid : finished.testCaseStartedId = p.2.id) :
    ∃ s ∈ p.2.steps, s.testStep.id = finished.testStepId := by
  have htold : finished ∈ envelopes.filterMap Envelope.testStepFinished? :=
    List.mem_filterMap.mpr ⟨_, hfinished, rfl⟩
  rw [h.stepsFinished] at htold
  obtain ⟨q,hq,hstep⟩ := List.mem_flatMap.mp htold
  obtain ⟨s,hs,rfl⟩ := List.mem_map.mp hstep
  obtain rfl := List.inj_on_of_nodup_map h.distinct hq hp hid
  exact ⟨s, hs, rfl⟩

end TellsOf

theorem broadcasts_flatMap_log {α : Type} (log : α → List (Entry String Event)) (xs : List α) :
    broadcasts (xs.flatMap log) = xs.flatMap fun x => broadcasts (log x) := by
  rw [broadcasts, events_flatMap, List.filterMap_flatMap]
  rfl

/-- What a listener gathers from the messages of a log. -/
def gathered {α : Type} (f : Envelope → Option α) (log : List (Entry String Event)) : List α :=
  (broadcasts log).filterMap f

section

variable {α : Type} {f : Envelope → Option α}

@[simp] theorem gathered_append (l l' : List (Entry String Event)) :
    gathered f (l ++ l') = gathered f l ++ gathered f l' := by
  simp [gathered]

@[simp] theorem gathered_drew (id : String) (l : List (Entry String Event)) :
    gathered f (.drew id :: l) = gathered f l := rfl

@[simp] theorem gathered_broadcast (e : Envelope) :
    gathered f [.said (.broadcast e)] = (f e).toList := by
  cases hfe : f e <;> simp [gathered, hfe]

theorem gathered_flatMap {β : Type} (log : β → List (Entry String Event)) (xs : List β) :
    gathered f (xs.flatMap log) = xs.flatMap fun x => gathered f (log x) := by
  rw [gathered, broadcasts_flatMap_log, List.filterMap_flatMap]
  rfl

theorem gathered_flatMap_eq_nil {β : Type} {log : β → List (Entry String Event)} {xs : List β}
    (h : ∀ x ∈ xs, gathered f (log x) = []) : gathered f (xs.flatMap log) = [] := by
  rw [gathered_flatMap]
  exact List.flatMap_eq_nil_iff.mpr h

variable (hf : ∀ e, e.aside = true → f e = none)

include hf

theorem gathered_bodyRuns (bs : List BodyRun) : gathered f (bs.flatMap BodyRun.log) = [] := by
  rw [gathered, broadcasts_bodyRuns, List.filterMap_map]
  apply List.filterMap_eq_nil_iff.mpr
  intro a _
  exact hf (.attachment a) rfl

theorem gathered_hookRuns (hs : List HookRun) : gathered f (hs.flatMap HookRun.log) = [] := by
  apply gathered_flatMap_eq_nil
  intro h _
  have hstarted : gathered f
      [.drew h.started.id, .said (.broadcast (.testRunHookStarted h.started))] = [] := by
    simp [hf (.testRunHookStarted h.started) rfl]
  have hfinished : gathered f h.finishedLog = [] := by
    unfold HookRun.finishedLog
    cases h.outcome with
    | ok result => simp [hf (.testRunHookFinished ⟨h.started.id, result⟩) rfl]
    | error _ => rfl
  have hparts : gathered f h.log = gathered f
      [.drew h.started.id, .said (.broadcast (.testRunHookStarted h.started))] ++
        (gathered f (h.bodies.flatMap BodyRun.log) ++ gathered f h.finishedLog) := by
    rw [← gathered_append, ← gathered_append]
    rfl
  rw [hparts, hstarted, hfinished, gathered_bodyRuns hf]
  rfl

theorem gathered_stepRun (s : StepRun) (testCaseStartedId : String) :
    gathered f (s.log testCaseStartedId) =
      (f (.testStepStarted ⟨testCaseStartedId, s.testStep.id⟩)).toList ++
        (f (.testStepFinished ⟨testCaseStartedId, s.testStep.id, s.result⟩)).toList := by
  have hsuggestion : gathered f s.suggestionLog = [] := by
    unfold StepRun.suggestionLog
    cases s.suggestion with
    | none => rfl
    | some suggestion => simp [hf (.suggestion suggestion) rfl]
  have hparts : gathered f (s.log testCaseStartedId) =
      gathered f [.said (.broadcast (.testStepStarted ⟨testCaseStartedId, s.testStep.id⟩))] ++
        (gathered f s.suggestionLog ++ gathered f (s.bodies.flatMap BodyRun.log) ++
          gathered f [.said (.broadcast
            (.testStepFinished ⟨testCaseStartedId, s.testStep.id, s.result⟩))]) := by
    rw [← gathered_append, ← gathered_append, ← gathered_append]
    rfl
  rw [hparts, hsuggestion, gathered_bodyRuns hf, gathered_broadcast, gathered_broadcast]
  rfl

theorem gathered_attemptRun (a : AttemptRun) (testCaseId : String) :
    gathered f (a.log testCaseId) = (f (.testCaseStarted ⟨a.attempt, a.id, testCaseId⟩)).toList ++
      (a.steps.flatMap (fun s => (f (.testStepStarted ⟨a.id, s.testStep.id⟩)).toList ++
        (f (.testStepFinished ⟨a.id, s.testStep.id, s.result⟩)).toList) ++
        (f (.testCaseFinished ⟨a.id, a.willBeRetried⟩)).toList) := by
  have hsteps : gathered f (a.steps.flatMap (StepRun.log a.id)) = a.steps.flatMap fun s =>
      (f (.testStepStarted ⟨a.id, s.testStep.id⟩)).toList ++
        (f (.testStepFinished ⟨a.id, s.testStep.id, s.result⟩)).toList := by
    rw [gathered_flatMap]
    exact List.flatMap_congr fun s _ => gathered_stepRun hf s a.id
  have hparts : gathered f (a.log testCaseId) =
      gathered f [.drew a.id,
          .said (.broadcast (.testCaseStarted ⟨a.attempt, a.id, testCaseId⟩))] ++
        (gathered f (a.steps.flatMap (StepRun.log a.id)) ++
          gathered f [.said (.broadcast (.testCaseFinished ⟨a.id, a.willBeRetried⟩))]) := by
    rw [← gathered_append, ← gathered_append]
    rfl
  rw [hparts, gathered_drew, gathered_broadcast, gathered_broadcast, hsteps]

/-- Outside of its test cases a run has nothing to say about them. -/
theorem gathered_runReport (r : RunReport) : gathered f r.log =
    r.attempts.flatMap fun p => gathered f (p.2.log p.1) := by
  have hcases : gathered f (r.suites.flatMap SuiteRun.log) =
      r.cases.flatMap fun cr => gathered f cr.log := by
    rw [gathered_flatMap, RunReport.cases, List.flatMap_assoc]
    apply List.flatMap_congr
    intro s _
    rw [SuiteRun.log, gathered_append, gathered_append, gathered_hookRuns hf,
      gathered_hookRuns hf, List.nil_append, List.append_nil, gathered_flatMap]
  have hannounced : gathered f (r.announced.flatMap Announcement.log) = [] := by
    apply gathered_flatMap_eq_nil
    intro a _
    rw [gathered, broadcasts_announcement]
    simp [hf (.testCase a.testCase) rfl]
  rw [RunReport.log, gathered_append, gathered_append, gathered_append, gathered_hookRuns hf,
    gathered_hookRuns hf, hannounced, hcases, List.append_nil, List.append_nil, List.nil_append,
    RunReport.attempts, List.flatMap_assoc]
  apply List.flatMap_congr
  intro cr _
  rw [CaseRun.log, gathered_flatMap, List.flatMap_map]

end

/-- The messages of a run tell of its attempts, whose ids were drawn for them. -/
theorem RunReport.tellsOf (r : RunReport) (hdrawn : (drawn r.log).Nodup) :
    TellsOf (broadcasts r.log) r.attempts where
  started := by
    have hf : ∀ e : Envelope, e.aside = true → e.testCaseStarted? = none := by
      intro e he
      cases e <;> first | rfl | cases he
    rw [List.map_eq_flatMap]
    apply (gathered_runReport hf r).trans
    apply List.flatMap_congr
    intro p _
    rw [gathered_attemptRun hf]
    simp [Envelope.testCaseStarted?]
  stepsFinished := by
    have hf : ∀ e : Envelope, e.aside = true → e.testStepFinished? = none := by
      intro e he
      cases e <;> first | rfl | cases he
    apply (gathered_runReport hf r).trans
    apply List.flatMap_congr
    intro p _
    rw [gathered_attemptRun hf]
    simp [Envelope.testStepFinished?, List.map_eq_flatMap]
  finished := by
    have hf : ∀ e : Envelope, e.aside = true → e.testCaseFinished? = none := by
      intro e he
      cases e <;> first | rfl | cases he
    rw [List.map_eq_flatMap]
    apply (gathered_runReport hf r).trans
    apply List.flatMap_congr
    intro p _
    rw [gathered_attemptRun hf]
    simp [Envelope.testCaseFinished?]
  distinct := by
    have hsuites : (r.attempts.map fun p => p.2.id).Sublist
        (drawn (r.suites.flatMap SuiteRun.log)) := by
      rw [RunReport.attempts, RunReport.cases, List.flatMap_assoc, List.map_flatMap]
      apply sublist_drawn_flatMap
      intro s
      rw [List.map_flatMap, SuiteRun.log, drawn_append, drawn_append]
      have hcases : (s.cases.flatMap fun cr => (cr.attempts.map fun a =>
          (cr.assembled.testCase.id,a)).map fun p => p.2.id).Sublist
            (drawn (s.cases.flatMap CaseRun.log)) := by
        apply sublist_drawn_flatMap
        intro cr
        rw [List.map_map]
        exact attempt_ids_sublist _ cr.attempts
      exact (hcases.trans (List.sublist_append_right _ _)).trans (List.sublist_append_left _ _)
    apply List.Nodup.sublist _ hdrawn
    rw [RunReport.log, drawn_append, drawn_append]
    exact (hsuites.trans (List.sublist_append_right _ _)).trans (List.sublist_append_left _ _)

/-- The messages from within a run do not say that it is finished. -/
theorem gathered_testRunFinished (r : RunReport) :
    gathered Envelope.testRunFinished? r.log = [] := by
  have hf : ∀ e : Envelope, e.aside = true → e.testRunFinished? = none := by
    intro e he
    cases e <;> first | rfl | cases he
  rw [gathered_runReport hf]
  apply List.flatMap_eq_nil_iff.mpr
  intro p _
  rw [gathered_attemptRun hf]
  simp [Envelope.testRunFinished?]

end CucumberCpp
