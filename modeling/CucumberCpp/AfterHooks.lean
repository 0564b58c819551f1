import CucumberCpp.AttemptOrder

/-! Which hook bodies a scope executes, and whether its after hooks all run and
in the reverse of the order in which they are found. -/
namespace CucumberCpp

open EventLog

variable {idGenerator : IdGenerator}

/-- The id of the hook an event invokes, if it is of this type. -/
def Event.hook? (hookType : HookType) : Event → Option String
  | .invoked (.hook data _) _ => if data.type = hookType then some data.id else none
  | .invoked (.step _ _) _ => none
  | .broadcast _ => none

/-- The hooks of one type whose bodies were executed, in order. -/
def invokedHooks (hookType : HookType) (log : List (Entry String Event)) : List String :=
  (events log).filterMap (Event.hook? hookType)

section

variable (hookType : HookType)

@[simp] theorem invokedHooks_nil : invokedHooks hookType [] = [] := rfl

@[simp] theorem invokedHooks_append (l l' : List (Entry String Event)) :
    invokedHooks hookType (l ++ l') = invokedHooks hookType l ++ invokedHooks hookType l' := by
  simp [invokedHooks]

@[simp] theorem invokedHooks_drew (id : String) (l : List (Entry String Event)) :
    invokedHooks hookType (.drew id :: l) = invokedHooks hookType l := rfl

@[simp] theorem invokedHooks_broadcast (e : Envelope) (l : List (Entry String Event)) :
    invokedHooks hookType (.said (.broadcast e) :: l) = invokedHooks hookType l := rfl

theorem invokedHooks_flatMap {α : Type} (f : α → List (Entry String Event)) (xs : List α) :
    invokedHooks hookType (xs.flatMap f) = xs.flatMap fun x => invokedHooks hookType (f x) := by
  rw [invokedHooks, events_flatMap]
  exact List.filterMap_flatMap

theorem invokedHooks_bodyRun (b : BodyRun) : invokedHooks hookType b.log =
    (Event.hook? hookType (.invoked b.call b.outcome.result)).toList := by
  rw [invokedHooks, b.events_log, List.filterMap_cons, List.filterMap_map]
  have hattachments : b.outcome.attachments.filterMap
      (Event.hook? hookType ∘ fun a => .broadcast (.attachment a)) = [] :=
    List.filterMap_eq_nil_iff.mpr fun _ _ => rfl
  rw [hattachments]
  cases Event.hook? hookType (.invoked b.call b.outcome.result) <;> rfl

theorem invokedHooks_ofHook (d : HookDefinition) (args : HookArgs) :
    invokedHooks hookType (BodyRun.ofHook d args).log =
      if d.data.type = hookType then [d.data.id] else [] := by
  rw [invokedHooks_bodyRun]
  change (if d.data.type = hookType then some d.data.id else none).toList = _
  split_ifs <;> rfl

theorem invokedHooks_ofStep (d : StepDefinition) (args : StepArgs) :
    invokedHooks hookType (BodyRun.ofStep d args).log = [] :=
  invokedHooks_bodyRun hookType _

theorem invokedHooks_stepRun (startedId : String) (s : StepRun) :
    invokedHooks hookType (s.log startedId) =
      s.bodies.flatMap fun b => invokedHooks hookType b.log := by
  have hsuggestion : invokedHooks hookType s.suggestionLog = [] := by
    unfold StepRun.suggestionLog
    cases s.suggestion <;> rfl
  simp [StepRun.log, hsuggestion, invokedHooks_flatMap]

theorem invokedHooks_attemptRun (testCaseId : String) (a : AttemptRun) :
    invokedHooks hookType (a.log testCaseId) =
      a.steps.flatMap fun s => s.bodies.flatMap fun b => invokedHooks hookType b.log := by
  simp [AttemptRun.log, invokedHooks_flatMap, invokedHooks_stepRun]

theorem invokedHooks_hookRun (h : HookRun) :
    invokedHooks hookType h.log = h.bodies.flatMap fun b => invokedHooks hookType b.log := by
  have hfinished : invokedHooks hookType h.finishedLog = [] := by
    unfold HookRun.finishedLog
    cases h.outcome <;> rfl
  simp [HookRun.log, hfinished, invokedHooks_flatMap]

end

/-- A list without duplicates is its own reverse only when there is nothing to reverse. -/
theorem eq_reverse_iff_length_le_one {α : Type} {l : List α} (hl : l.Nodup) :
    l = l.reverse ↔ l.length ≤ 1 := by
  constructor
  · intro h
    cases List.Palindrome.iff_reverse_eq.mpr h.symm with
    | nil => simp
    | singleton x => simp
    | @cons_concat x l hp => simp at hl
  · intro h
    rcases l with _ | ⟨x,_ | ⟨y,l⟩⟩
    · rfl
    · rfl
    · simp at h

/-- Keeping some elements of a duplicate-free list: nothing is missing, in any
of these senses, exactly when all elements are kept. -/
theorem count_filter_eq_one_iff {α : Type} {f : α → String} {p : α → Bool} {xs : List α}
    (h : (xs.map f).Nodup) :
    (∀ id ∈ xs.map f, ((xs.filter p).map f).count id = 1) ↔ ∀ x ∈ xs, p x = true := by
  constructor
  · intro hcount x hx
    have hone := hcount (f x) (List.mem_map_of_mem hx)
    have hmem : f x ∈ (xs.filter p).map f := List.count_pos_iff.mp (by rw [hone]; exact Nat.one_pos)
    obtain ⟨y,hy,hfy⟩ := List.mem_map.mp hmem
    obtain ⟨hmem,hp⟩ := List.mem_filter.mp hy
    rwa [← List.inj_on_of_nodup_map h hmem hx hfy]
  · intro hall id hid
    rw [List.filter_eq_self.mpr hall]
    exact List.count_eq_one_of_mem h hid

theorem map_filter_eq_map_iff {α : Type} {f : α → String} {p : α → Bool} {xs : List α} :
    (xs.filter p).map f = xs.map f ↔ ∀ x ∈ xs, p x = true := by
  constructor
  · intro h
    have hlength := congrArg List.length h
    rw [List.length_map, List.length_map] at hlength
    exact List.filter_eq_self.mp (List.filter_sublist.eq_of_length hlength)
  · intro hall
    rw [List.filter_eq_self.mpr hall]

def StepRun.executed (s : StepRun) : Bool := !s.bodies.isEmpty

theorem StepRun.hookId_isSome_of_not_pickleStep (s : StepRun) (h : s.isPickleStep = false) :
    s.testStep.hookId.isSome = true := by
  simpa [StepRun.isPickleStep] using h

/-- The bodies of some test steps, read as the hooks of one type among them. -/
def hooksOf (hookType : HookType) (bs : List BodyRun) : List String :=
  bs.flatMap fun b => invokedHooks hookType b.log

@[simp] theorem hooksOf_append (hookType : HookType) (bs bs' : List BodyRun) :
    hooksOf hookType (bs ++ bs') = hooksOf hookType bs ++ hooksOf hookType bs' :=
  List.flatMap_append

namespace TestCaseRunner

variable {c : TestCaseRunner} {attempt : UInt64} {startedId : String}

theorem StepHooksRule.hooksOf {hookType : HookType} {site : CallSite} {started : TestStepStarted}
    {bs : List BodyRun} (h : c.StepHooksRule hookType site started bs) (t : HookType) :
    hooksOf t bs = if hookType = t then
      c.supportCodeLibrary.hookRegistry.findIds hookType (transformPickleTags c.pickle.tags)
      else [] := by
  have hround (ids : List String) (bs : List BodyRun) (hids : ∀ id ∈ ids, id ∈
      c.supportCodeLibrary.hookRegistry.findIds hookType (transformPickleTags c.pickle.tags))
      (hbs : List.Forall₂ (c.IsStepHookRun site started) ids bs) :
      CucumberCpp.hooksOf t bs = if hookType = t then ids else [] := by
    induction hbs with
    | nil => split_ifs <;> rfl
    | @cons id b ids bs hb _ ih =>
      obtain ⟨d,hd,rfl⟩ := hb
      obtain ⟨d',hd',hid,htype,_⟩ :=
        HookRegistry.getDefinitionById_of_mem (hids id List.mem_cons_self)
      obtain rfl : d = d' := Except.ok.inj (hd.symm.trans hd')
      have hrest := ih fun id' h' => hids id' (List.mem_cons_of_mem id h')
      unfold CucumberCpp.hooksOf at hrest ⊢
      rw [List.flatMap_cons, hrest, invokedHooks_ofHook, hid, htype]
      split_ifs <;> rfl
  exact hround _ bs (fun _ h => h) h

/-- Of the hooks of one type, an executed step runs those that it runs before and
those that it runs after the step definition. -/
theorem StepBodies.hooksOf {pickleStep : PickleStep} {testStep : TestStep} {site : CallSite}
    {started : TestStepStarted} {bs : List BodyRun}
    (h : c.StepBodies pickleStep testStep site started bs) (t : HookType) :
    hooksOf t bs =
      (if HookType.beforeStep = t then c.supportCodeLibrary.hookRegistry.findIds .beforeStep
        (transformPickleTags c.pickle.tags) else []) ++
      if HookType.afterStep = t then c.supportCodeLibrary.hookRegistry.findIds .afterStep
        (transformPickleTags c.pickle.tags) else [] := by
  cases h with
  | hooksOnly hbefore hafter hfailed => rw [hooksOf_append, hbefore.hooksOf, hafter.hooksOf]
  | @withDefinition before after id ids d args lists hbefore hafter hfailed hids hlists hd =>
    -- the step definition between them is not a hook of any type
    have hstep (stepArgs : StepArgs) :
        CucumberCpp.hooksOf t (BodyRun.ofStep d stepArgs :: after) =
          CucumberCpp.hooksOf t after := by
      change invokedHooks t (BodyRun.ofStep d stepArgs).log ++ CucumberCpp.hooksOf t after = _
      rw [invokedHooks_ofStep, List.nil_append]
    rw [hooksOf_append, hstep, hbefore.hooksOf, hafter.hooksOf]

/-- The after-step hooks of an executed step run in the order in which they are found. -/
theorem StepBodies.hooksOf_afterStep {pickleStep : PickleStep} {testStep : TestStep}
    {site : CallSite} {started : TestStepStarted} {bs : List BodyRun}
    (h : c.StepBodies pickleStep testStep site started bs) :
    CucumberCpp.hooksOf .afterStep bs = c.supportCodeLibrary.hookRegistry.findIds .afterStep
      (transformPickleTags c.pickle.tags) :=
  h.hooksOf .afterStep

theorem StepRule.hook_bodies {state : AttemptState} {s : StepRun}
    (h : c.StepRule attempt startedId state s) {id : String} (hid : s.testStep.hookId = some id) :
    s.bodies = [] ∨ ∃ d args,
      c.supportCodeLibrary.hookRegistry.getDefinitionById id = .ok d ∧
      s.bodies = [.ofHook d args] := by
  cases h with
  | hookSkipped hhook hskip => exact .inl rfl
  | hookExecuted hhook hskip hd hb =>
    obtain rfl := Option.some_inj.mp (hhook.symm.trans hid)
    exact .inr ⟨_, _, hd, by rw [hb]⟩
  | undefined hhook => cases hhook.symm.trans hid
  | ambiguous hhook => cases hhook.symm.trans hid
  | stepSkipped hhook => cases hhook.symm.trans hid
  | stepExecuted hhook => cases hhook.symm.trans hid

theorem StepRule.hooksOf_hook {state : AttemptState} {s : StepRun}
    (h : c.StepRule attempt startedId state s) {id : String} (hid : s.testStep.hookId = some id)
    {hookType : HookType} {tags : Finset String}
    (hmem : id ∈ c.supportCodeLibrary.hookRegistry.findIds hookType tags) (t : HookType) :
    hooksOf t s.bodies = if hookType = t ∧ s.bodies ≠ [] then [id] else [] := by
  obtain ⟨d',hd',hid',htype,_⟩ := HookRegistry.getDefinitionById_of_mem hmem
  rcases h.hook_bodies hid with hnone | ⟨d,args,hd,hbody⟩
  · simp [hnone, hooksOf]
  · obtain rfl : d = d' := Except.ok.inj (hd.symm.trans hd')
    rw [hbody, hooksOf, List.flatMap_singleton, invokedHooks_ofHook, hid', htype]
    simp

/-- A pickle step runs no hooks but those around it. -/
theorem StepRule.hooksOf_pickleStep {state : AttemptState} {s : StepRun}
    (h : c.StepRule attempt startedId state s) (hpickle : s.isPickleStep = true) {t : HookType}
    (hbefore : HookType.beforeStep ≠ t) (hafter : HookType.afterStep ≠ t) :
    hooksOf t s.bodies = [] := by
  cases h with
  | hookSkipped hhook hskip => rfl
  | hookExecuted hhook => simp [StepRun.isPickleStep, hhook] at hpickle
  | undefined => rfl
  | ambiguous => rfl
  | stepSkipped => rfl
  | stepExecuted hhook hstep hids hskipping hbodies =>
    rw [hbodies.hooksOf, if_neg hbefore, if_neg hafter]
    rfl

/-- The test steps of some hooks of one type run those that are executed. -/
theorem hooksOf_hookSteps {hookType : HookType} {tags : Finset String} {ids : List String}
    {xs : List StepRun} (h : List.Forall₂ (fun id s => s.testStep.hookId = some id) ids xs)
    (hids : ∀ id ∈ ids, id ∈ c.supportCodeLibrary.hookRegistry.findIds hookType tags)
    (hrule : ∀ s ∈ xs, ∃ state, c.StepRule attempt startedId state s) (t : HookType) :
    (xs.flatMap fun s => hooksOf t s.bodies) = if hookType = t then
      (xs.filter StepRun.executed).map fun s => s.testStep.hookId.getD "" else [] := by
  induction h with
  | nil => split_ifs <;> rfl
  | @cons id s ids xs hid _ ih =>
    obtain ⟨state,hs⟩ := hrule s List.mem_cons_self
    rw [List.flatMap_cons, ih (fun id' h' => hids id' (List.mem_cons_of_mem id h'))
      fun s' h' => hrule s' (List.mem_cons_of_mem s h'),
      hs.hooksOf_hook hid (hids id List.mem_cons_self)]
    by_cases htype : hookType = t
    · cases hb : s.bodies <;> simp [htype, StepRun.executed, hb, hid]
    · simp [htype]

/-- Which Before or After hooks an attempt runs: those whose test steps are executed. -/
theorem AssembledSteps.invoked {before steps after : List StepRun}
    (h : AssembledSteps c before steps after)
    (hthreaded : Threaded (fun pre s => c.StepRule attempt startedId (stateAfter pre) s)
      (before ++ steps ++ after))
    {t : HookType} (hbeforeStep : HookType.beforeStep ≠ t) (hafterStep : HookType.afterStep ≠ t) :
    ((before ++ steps ++ after).flatMap fun s => hooksOf t s.bodies) =
      (if HookType.before = t then
        (before.filter StepRun.executed).map fun s => s.testStep.hookId.getD "" else []) ++
      if HookType.after = t then
        (after.filter StepRun.executed).map fun s => s.testStep.hookId.getD "" else [] := by
  have hrule : ∀ s ∈ before ++ steps ++ after, ∃ state, c.StepRule attempt startedId state s := by
    intro s hs
    obtain ⟨_,_,_,hs'⟩ := hthreaded.mem hs
    exact ⟨_, hs'⟩
  have hbefore := hooksOf_hookSteps h.before (fun _ h => h)
    (fun s hs => hrule s (by simp [hs])) t
  have hafter := hooksOf_hookSteps h.after (fun _ h => List.mem_reverse.mp h)
    (fun s hs => hrule s (by simp [hs])) t
  have hsteps : (steps.flatMap fun s => hooksOf t s.bodies) = [] := by
    rw [List.flatMap_eq_nil_iff]
    intro s hs
    obtain ⟨state,hs'⟩ := hrule s (by simp [hs])
    exact hs'.hooksOf_pickleStep (h.isPickleStep_of_step hs) hbeforeStep hafterStep
  rw [List.flatMap_append, List.flatMap_append, hbefore, hsteps, hafter, List.append_nil]

theorem hookIds_of_forall₂ {ids : List String} {xs : List StepRun}
    (h : List.Forall₂ (fun id s => s.testStep.hookId = some id) ids xs) :
    (xs.map fun s => s.testStep.hookId.getD "") = ids := by
  induction h with
  | nil => rfl
  | cons hid _ ih => simp [hid, ih]

variable (c attempt startedId)

/-- The hook at place `i` of the test case passes if it is called there before any step. -/
def HookPasses (i : ℕ) (testStep : TestStep) : Prop :=
  ∀ id d, testStep.hookId = some id →
    c.supportCodeLibrary.hookRegistry.getDefinitionById id = .ok d →
    (BodyRun.ofHook d (c.hookArgs (.testStep c.pickle.id attempt i) ⟨startedId, testStep.id⟩
      false)).result.status = .passed

/-- Without a pickle step, the After hooks are reached only past hooks that pass. -/
def AfterHooksReached : Prop :=
  c.pickle.steps = [] →
    c.supportCodeLibrary.hookRegistry.findIds .after (transformPickleTags c.pickle.tags) ≠ [] →
    ∀ i testStep, c.testCase.testSteps[i]? = some testStep →
      i+1 < c.testCase.testSteps.length → c.HookPasses attempt startedId i testStep

variable {c attempt startedId}

theorem stateAfter_error {steps : List StepRun} (h : ∀ s ∈ steps, s.isPickleStep = false) :
    (stateAfter steps).error = false := by
  induction steps using List.reverseRecOn with
  | nil => rfl
  | append_singleton steps s ih =>
    have hs := h s (by simp)
    rw [stateAfter_concat]
    simp [AttemptState.after, hs, ih fun t ht => h t (by simp [ht])]

theorem HookExecuted.executed {hookId : String} {pre : List StepRun} {s : StepRun}
    (h : c.HookExecuted attempt startedId hookId pre s) : StepRun.executed s = true := by
  obtain ⟨d,b,_,_,hb,_⟩ := h
  simp [StepRun.executed, hb]

/-- A hook that is not executed is skipped, for the results before it and its place. -/
theorem StepRule.hook_not_executed {state : AttemptState} {s : StepRun}
    (h : c.StepRule attempt startedId state s) (hhook : s.isPickleStep = false)
    (hnone : s.bodies = []) : s.result.status = .skipped ∧
      c.shouldSkipHook state.testStepResults (!state.seenSteps) = true := by
  cases h with
  | hookSkipped _ hskip => exact ⟨rfl, hskip⟩
  | hookExecuted => cases hnone
  | undefined h => simp [StepRun.isPickleStep, h] at hhook
  | ambiguous h => simp [StepRun.isPickleStep, h] at hhook
  | stepSkipped h => simp [StepRun.isPickleStep, h] at hhook
  | stepExecuted h => simp [StepRun.isPickleStep, h] at hhook

/-- Once a pickle step has been seen, a hook runs whatever the results. -/
theorem StepRule.executed_of_seen (hskip : c.skip = false) {pre : List StepRun} {s : StepRun}
    (h : c.StepRule attempt startedId (stateAfter pre) s)
    (hseen : pre.any StepRun.isPickleStep = true) (hhook : s.isPickleStep = false) :
    StepRun.executed s = true := by
  by_contra hnot
  obtain ⟨_,hskip'⟩ := h.hook_not_executed hhook (by simpa [StepRun.executed] using hnot)
  rw [stateAfter_seenSteps, hseen] at hskip'
  simp [shouldSkipHook, hskip] at hskip'

section

variable {runs : List StepRun}

/-- Among hooks alone, each runs exactly when all before it passed. -/
theorem executed_iff_of_hooks (hskip : c.skip = false)
    (h : Threaded (fun pre s => c.StepRule attempt startedId (stateAfter pre) s) runs)
    (hhooks : ∀ s ∈ runs, s.isPickleStep = false) {i : ℕ} {s : StepRun} (hs : runs[i]? = some s) :
    StepRun.executed s = true ↔ ∀ t ∈ runs.take i, t.result.status = .passed := by
  have hrule := h.getElem? hs
  have hpre : ∀ t ∈ runs.take i, t.isPickleStep = false := fun t ht =>
    hhooks t (List.mem_of_mem_take ht)
  have hknown : ∀ t ∈ runs.take i, t.result.status ≠ .unknown := fun t ht =>
    known_of_stepRules h t (List.mem_of_mem_take ht)
  have hhook := hhooks s (List.mem_of_getElem? hs)
  rw [← firstNotPassed_eq_none_iff]
  constructor
  · intro hexecuted
    by_contra hnot
    have hearly : IsEarly (runs.take i) s := .inr (List.any_eq_false.mpr fun t ht => by
      simp [hpre t ht])
    have hbodies := (hrule.of_notPassed hskip hknown hearly hnot).1
    simp [StepRun.executed, hbodies] at hexecuted
  · intro hnone
    obtain ⟨id,hid⟩ := Option.isSome_iff_exists.mp (s.hookId_isSome_of_not_pickleStep hhook)
    exact (hrule.hook_of_passed hskip hknown hnone hid).executed

/-- Among hooks alone, what passes when it is called does pass. -/
theorem passed_iff_of_hooks (hskip : c.skip = false)
    (h : Threaded (fun pre s => c.StepRule attempt startedId (stateAfter pre) s) runs)
    (hhooks : ∀ s ∈ runs, s.isPickleStep = false) {i : ℕ} {s : StepRun} (hs : runs[i]? = some s)
    (hbefore : ∀ t ∈ runs.take i, t.result.status = .passed) :
    s.result.status = .passed ↔ c.HookPasses attempt startedId i s.testStep := by
  have hrule := h.getElem? hs
  have hpre : ∀ t ∈ runs.take i, t.isPickleStep = false := fun t ht =>
    hhooks t (List.mem_of_mem_take ht)
  have hknown : ∀ t ∈ runs.take i, t.result.status ≠ .unknown := by
    intro t ht
    rw [hbefore t ht]
    exact fun h => by cases h
  obtain ⟨id,hid⟩ := Option.isSome_iff_exists.mp
    (s.hookId_isSome_of_not_pickleStep (hhooks s (List.mem_of_getElem? hs)))
  obtain ⟨d,b,hd,hb,_,hresult⟩ := hrule.hook_of_passed hskip hknown
    ((firstNotPassed_eq_none_iff _).mpr hbefore) hid
  have hlength : (runs.take i).length = i := by
    have hi := (List.getElem?_eq_some_iff.mp hs).1
    rw [List.length_take]
    omega
  -- no pickle step came before: the flag is unset and the call site is the place of the hook
  rw [stateAfter_error hpre, nextSite, stateAfter_testStepResults, List.length_map, hlength] at hb
  rw [hresult, hb]
  constructor
  · intro hpassed id' d' hid' hd'
    obtain rfl := Option.some_inj.mp (hid.symm.trans hid')
    obtain rfl := Except.ok.inj (hd.symm.trans hd')
    exact hpassed
  · intro hpasses
    exact hpasses id d hid hd

theorem take_passed_iff_of_hooks (hskip : c.skip = false)
    (h : Threaded (fun pre s => c.StepRule attempt startedId (stateAfter pre) s) runs)
    (hhooks : ∀ s ∈ runs, s.isPickleStep = false) (n : ℕ) :
    (∀ s ∈ runs.take n, s.result.status = .passed) ↔
      ∀ i testStep, (runs.map StepRun.testStep)[i]? = some testStep → i < n →
        c.HookPasses attempt startedId i testStep := by
  induction n with
  | zero => simp
  | succ n ih =>
    cases hs : runs[n]? with
    | none =>
      have hlength : runs.length ≤ n := List.getElem?_eq_none_iff.mp hs
      have htake : runs.take (n+1) = runs.take n := by
        rw [List.take_of_length_le (by omega), List.take_of_length_le hlength]
      rw [htake, ih]
      constructor
      · intro hall i testStep hi _
        have hlt := (List.getElem?_eq_some_iff.mp hi).1
        rw [List.length_map] at hlt
        exact hall i testStep hi (by omega)
      · intro hall i testStep hi hlt
        exact hall i testStep hi (by omega)
    | some s =>
      have htake : runs.take (n+1) = runs.take n ++ [s] := by
        rw [List.take_add_one, hs]
        rfl
      have hstep : (runs.map StepRun.testStep)[n]? = some s.testStep := by simp [hs]
      rw [htake, List.forall_mem_append, List.forall_mem_singleton]
      constructor
      · intro hboth i testStep hi hlt
        rcases Nat.lt_succ_iff_lt_or_eq.mp hlt with hlt | rfl
        · exact ih.mp hboth.1 i testStep hi hlt
        · obtain rfl := Option.some_inj.mp (hstep.symm.trans hi)
          exact (passed_iff_of_hooks hskip h hhooks hs hboth.1).mp hboth.2
      · intro hall
        have hbefore := ih.mpr fun i testStep hi hlt => hall i testStep hi (by omega)
        exact ⟨hbefore, (passed_iff_of_hooks hskip h hhooks hs hbefore).mpr
          (hall n _ hstep (by omega))⟩

end

section

variable {runs : List StepRun} {last : StepRun}

/-- The last of some hooks is reached when all those before it pass. -/
theorem last_executed_iff_of_hooks (hskip : c.skip = false)
    (h : Threaded (fun pre s => c.StepRule attempt startedId (stateAfter pre) s) (runs ++ [last]))
    (hhooks : ∀ s ∈ runs ++ [last], s.isPickleStep = false) :
    StepRun.executed last = true ↔
      ∀ i testStep, ((runs ++ [last]).map StepRun.testStep)[i]? = some testStep →
        i+1 < ((runs ++ [last]).map StepRun.testStep).length →
        c.HookPasses attempt startedId i testStep := by
  have hlast : (runs ++ [last])[runs.length]? = some last := List.getElem?_concat_length
  have hbound (i : ℕ) : i+1 < ((runs ++ [last]).map StepRun.testStep).length ↔
      i < runs.length := by
    simp only [List.length_map, List.length_append, List.length_singleton]
    omega
  simp only [executed_iff_of_hooks hskip h hhooks hlast, hbound]
  exact take_passed_iff_of_hooks hskip h hhooks runs.length

theorem executed_of_last_executed (hskip : c.skip = false)
    (h : Threaded (fun pre s => c.StepRule attempt startedId (stateAfter pre) s) (runs ++ [last]))
    (hhooks : ∀ s ∈ runs ++ [last], s.isPickleStep = false)
    (hlast : StepRun.executed last = true) : ∀ s ∈ runs ++ [last], StepRun.executed s = true := by
  have hall := (executed_iff_of_hooks hskip h hhooks List.getElem?_concat_length).mp hlast
  rw [List.take_left] at hall
  intro s hs
  obtain ⟨i,hi⟩ := List.mem_iff_getElem?.mp hs
  apply (executed_iff_of_hooks hskip h hhooks hi).mpr
  intro t ht
  have hle : i ≤ runs.length := by
    have hlt := (List.getElem?_eq_some_iff.mp hi).1
    rw [List.length_append, List.length_singleton] at hlt
    omega
  rw [List.take_append_of_le_length hle] at ht
  exact hall t (List.mem_of_mem_take ht)

end

/-- Without a pickle step, the After hooks all run exactly when the last of them is reached. -/
theorem AssembledSteps.after_executed_iff_of_noSteps {before after : List StepRun}
    (h : AssembledSteps c before [] after) (hskip : c.skip = false)
    (hcomplete : (before ++ after).map StepRun.testStep = c.testCase.testSteps)
    (hthreaded : Threaded (fun pre s => c.StepRule attempt startedId (stateAfter pre) s)
      (before ++ after)) :
    (∀ s ∈ after, StepRun.executed s = true) ↔ c.AfterHooksReached attempt startedId := by
  have hpickle : c.pickle.steps = [] := List.length_eq_zero_iff.mp h.step.length_eq
  have hids := h.after.length_eq
  rw [List.length_reverse] at hids
  have hhooks : ∀ s ∈ before ++ after, s.isPickleStep = false := by
    intro s hs
    rcases List.mem_append.mp hs with hs | hs
    · exact h.isPickleStep_of_before hs
    · exact h.isPickleStep_of_after hs
  unfold AfterHooksReached
  rw [← hcomplete]
  rcases List.eq_nil_or_concat after with rfl | ⟨init,last,rfl⟩
  · rw [List.length_nil, List.length_eq_zero_iff] at hids
    simp [hids]
  · rw [List.concat_eq_append, ← List.append_assoc] at *
    have hne : c.supportCodeLibrary.hookRegistry.findIds .after
        (transformPickleTags c.pickle.tags) ≠ [] := by
      intro hnil
      simp [hnil] at hids
    -- among hooks alone the last one is executed exactly when all are
    rw [← last_executed_iff_of_hooks hskip hthreaded hhooks]
    constructor
    · intro hall _ _
      exact hall last (by simp)
    · intro hlast s hs
      have hmem : s ∈ before ++ init ++ [last] := by
        rw [List.append_assoc]
        exact List.mem_append_right before hs
      exact executed_of_last_executed hskip hthreaded hhooks (hlast hpickle hne) s hmem

theorem AssembledSteps.after_executed_iff {before steps after : List StepRun}
    (h : AssembledSteps c before steps after) (hskip : c.skip = false)
    (hcomplete : (before ++ steps ++ after).map StepRun.testStep = c.testCase.testSteps)
    (hthreaded : Threaded (fun pre s => c.StepRule attempt startedId (stateAfter pre) s)
      (before ++ steps ++ after)) :
    (∀ s ∈ after, StepRun.executed s = true) ↔ c.AfterHooksReached attempt startedId := by
  by_cases hsteps : steps = []
  · subst hsteps
    rw [List.append_nil] at hthreaded hcomplete
    exact h.after_executed_iff_of_noSteps hskip hcomplete hthreaded
  · have hpickle : c.pickle.steps ≠ [] := by
      intro hnil
      have hlength := h.step.length_eq
      rw [hnil, List.length_nil] at hlength
      exact hsteps (List.length_eq_zero_iff.mp hlength.symm)
    refine iff_of_true ?_ fun hnil => absurd hnil hpickle
    intro s hs
    obtain ⟨pre,post,hpre⟩ := List.append_of_mem hs
    have hrule := hthreaded (before ++ steps ++ pre) s post (by simp [hpre])
    apply hrule.executed_of_seen hskip ?_ (h.isPickleStep_of_after hs)
    obtain ⟨t,ht⟩ := List.exists_mem_of_ne_nil steps hsteps
    exact List.any_eq_true.mpr ⟨t, by simp [ht], h.isPickleStep_of_step ht⟩

/-- What an attempt does about its After hooks: their test steps come last, in the reverse of
the order in which the hooks are found, and those that are executed run their hooks. -/
theorem AssembledSteps.after_hooks {runs before steps after : List StepRun}
    (h : AssembledSteps c before steps after) (hsteps : c.StepsRule attempt startedId runs)
    (hparts : runs = before ++ steps ++ after) :
    (after.map fun s => s.testStep.hookId.getD "") =
        (c.supportCodeLibrary.hookRegistry.findIds .after
          (transformPickleTags c.pickle.tags)).reverse ∧
      (runs.flatMap fun s => hooksOf .after s.bodies) =
        (after.filter StepRun.executed).map (fun s => s.testStep.hookId.getD "") ∧
      (c.skip = false → ((∀ s ∈ after, StepRun.executed s = true) ↔
        c.AfterHooksReached attempt startedId)) ∧
      (c.skip = true → ∀ s ∈ after, StepRun.executed s = false) := by
  subst hparts
  have hthreaded := hsteps.threaded
  refine ⟨hookIds_of_forall₂ h.after, h.invoked hthreaded (by decide) (by decide),
    fun hskip => h.after_executed_iff hskip hsteps.complete hthreaded, fun hskip s hs => ?_⟩
  obtain ⟨pre,post,hpre,hs'⟩ := hthreaded.mem (List.mem_append_right (before ++ steps) hs)
  rw [hpre] at hthreaded
  have hbodies := (hs'.of_skip hskip (not_passed_of_skip hskip hthreaded.take)).1
  simp [StepRun.executed, hbodies]

end TestCaseRunner

/-- The id of an attempt is the next name of the generator. -/
theorem attempt_id_eq {α : Type} {m : Run idGenerator α} {world : World idGenerator Event}
    {a : AttemptRun} {testCaseId : String}
    (hlog : (run m world).2.log = world.log ++ a.log testCaseId) :
    a.id = idGenerator.name world.next := by
  have hdrawn := drawn_segment m world _ hlog
  simp only [AttemptRun.log, drawn_cons_drew, List.length_cons, List.range'_succ,
    List.map_cons] at hdrawn
  exact (List.cons.inj hdrawn).1

open TestCaseRunner in
/-- What an attempt does about its After hooks. -/
theorem runAttempt_after {c : TestCaseRunner}
    (hassembled : IsAssembled idGenerator c.supportCodeLibrary ⟨c.pickle, c.testCase⟩)
    (attempt : UInt64) (moreAttemptsAvailable : Bool) (world : World idGenerator Event) :
    ∃ (seg : List (Entry String Event)) (after : List StepRun),
      (run (c.runAttempt attempt moreAttemptsAvailable) world).2.log = world.log ++ seg ∧
      (after.map fun s => s.testStep.hookId.getD "") =
        (c.supportCodeLibrary.hookRegistry.findIds .after
          (transformPickleTags c.pickle.tags)).reverse ∧
      invokedHooks .after seg =
        (after.filter StepRun.executed).map (fun s => s.testStep.hookId.getD "") ∧
      (c.skip = false → ((∀ s ∈ after, StepRun.executed s = true) ↔
        c.AfterHooksReached attempt (idGenerator.name world.next))) ∧
      (c.skip = true → ∀ s ∈ after, StepRun.executed s = false) := by
  obtain ⟨seg,hlog,a,rfl,hrule,_,rfl⟩ := c.emits_runAttempt attempt moreAttemptsAvailable
    (resolves_of_isAssembled hassembled) world
  obtain ⟨before,steps,after,hsteps,hparts⟩ :=
    exists_assembledSteps hassembled hrule.steps.complete
  obtain ⟨hids,hinvoked,hreached,hskipped⟩ := hparts.after_hooks hrule.steps hsteps
  refine ⟨_, after, hlog, hids, ?_, ?_, hskipped⟩
  · rw [invokedHooks_attemptRun]
    exact hinvoked
  · rw [← attempt_id_eq hlog]
    exact hreached

/-- The After hooks of an attempt all run, each once, exactly when they are reached. -/
theorem after_hooks_invoked_iff {c : TestCaseRunner}
    (hassembled : IsAssembled idGenerator c.supportCodeLibrary ⟨c.pickle, c.testCase⟩)
    (hskip : c.skip = false) (attempt : UInt64) (moreAttemptsAvailable : Bool)
    (world : World idGenerator Event) :
    ∃ seg, (run (c.runAttempt attempt moreAttemptsAvailable) world).2.log = world.log ++ seg ∧
      ((∀ id ∈ c.supportCodeLibrary.hookRegistry.findIds .after
          (transformPickleTags c.pickle.tags), (invokedHooks .after seg).count id = 1) ↔
        c.AfterHooksReached attempt (idGenerator.name world.next)) := by
  obtain ⟨seg,after,hlog,hids,hinvoked,hreached,_⟩ :=
    runAttempt_after hassembled attempt moreAttemptsAvailable world
  refine ⟨seg, hlog, ?_⟩
  have hnodup : (after.map fun s : StepRun => s.testStep.hookId.getD "").Nodup := by
    rw [hids, List.nodup_reverse]
    exact HookRegistry.findIds_nodup _ _ _
  rw [← hreached hskip, ← count_filter_eq_one_iff hnodup, hinvoked, hids]
  simp only [List.mem_reverse]

/-- A scenario without steps, with a Before hook that fails and an After hook. -/
def cleanupCase : AssembledTestCase where
  pickle := { id := "p", name := "no steps" }
  testCase :=
    { id := "0"
      pickleId := "p"
      testRunStartedId := some "run"
      testSteps := [{ id := "1", hookId := some "a" }, { id := "2", hookId := some "b" }] }

def cleanupRunner : TestCaseRunner :=
  Worker.testCaseRunner ⟨"run", {}, .ofDefinitions
    [.constant "a" .before .failed, .constant "b" .after .passed] []⟩
    cleanupCase false

theorem isAssembled_cleanupCase : IsAssembled decimalIds cleanupRunner.supportCodeLibrary
    ⟨cleanupRunner.pickle, cleanupRunner.testCase⟩ :=
  ⟨"run", [⟨cleanupCase.pickle, { uri := "a.feature" }⟩], World.start _ _, _, rfl, _,
    List.mem_singleton_self _, List.mem_singleton_self _⟩

theorem after_hooks_invoked_iff_cleanup :
    ∃ seg, (run (cleanupRunner.runAttempt 0 false) (World.start decimalIds Event)).2.log = seg ∧
      ((∀ id ∈ ["b"], (invokedHooks .after seg).count id = 1) ↔
        cleanupRunner.AfterHooksReached 0 "0") :=
  after_hooks_invoked_iff isAssembled_cleanupCase rfl 0 false (World.start decimalIds Event)

/-- The After hook of that scenario is found and yet never runs. -/
theorem cleanup_hook_not_invoked :
    IsAssembled decimalIds cleanupRunner.supportCodeLibrary
      ⟨cleanupRunner.pickle, cleanupRunner.testCase⟩ ∧ cleanupRunner.skip = false ∧
    "b" ∈ cleanupRunner.supportCodeLibrary.hookRegistry.findIds .after
      (transformPickleTags cleanupRunner.pickle.tags) ∧
    (invokedHooks .after (run (cleanupRunner.runAttempt 0 false)
      (World.start decimalIds Event)).2.log).count "b" = 0 :=
  ⟨isAssembled_cleanupCase, rfl, by decide, by decide⟩

end CucumberCpp
