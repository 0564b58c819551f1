import CucumberCpp.HookOrder

/-! What a pickle step that is executed comes to together with the hooks around it. -/
namespace CucumberCpp

open EventLog

variable {idGenerator : IdGenerator}

namespace Duration

/-- The length of time that a duration stands for. -/
def nanoseconds (d : Duration) : ℕ := d.seconds.toNat*10^9+d.nanos.toNat

def Normalised (d : Duration) : Prop := d.nanos.toNat < 10^9

/-- Adding carries a full second over, and is exact as long as the seconds fit. -/
theorem add_exact {lhs rhs : Duration} (hlhs : lhs.Normalised) (hrhs : rhs.Normalised)
    (hfits : (lhs.nanoseconds+rhs.nanoseconds)/10^9 < 2^64) :
    (lhs.add rhs).Normalised ∧ (lhs.add rhs).nanoseconds = lhs.nanoseconds+rhs.nanoseconds := by
  unfold Normalised at *
  unfold nanoseconds at *
  have hone : nanosecondsPerSecond.toNat = 10^9 := rfl
  have htotal : (lhs.nanos+rhs.nanos).toNat = lhs.nanos.toNat+rhs.nanos.toNat := by
    rw [UInt64.toNat_add]
    exact Nat.mod_eq_of_lt (by omega)
  have hseconds : (lhs.add rhs).seconds.toNat =
      lhs.seconds.toNat+rhs.seconds.toNat+(lhs.nanos.toNat+rhs.nanos.toNat)/10^9 := by
    simp only [add, UInt64.toNat_add, UInt64.toNat_div, hone]
    omega
  have hnanos : (lhs.add rhs).nanos.toNat = (lhs.nanos.toNat+rhs.nanos.toNat)%10^9 := by
    simp only [add, UInt64.toNat_mod, hone, htotal]
  rw [hseconds, hnanos]
  omega

theorem foldl_add_exact {ds : List Duration} {d : Duration} (hds : ∀ e ∈ ds, e.Normalised)
    (hd : d.Normalised) (hfits : (d.nanoseconds+(ds.map nanoseconds).sum)/10^9 < 2^64) :
    (ds.foldl add d).Normalised ∧
      (ds.foldl add d).nanoseconds = d.nanoseconds+(ds.map nanoseconds).sum := by
  induction ds generalizing d with
  | nil => exact ⟨hd, by simp⟩
  | cons e ds ih =>
    rw [List.map_cons, List.sum_cons, ← Nat.add_assoc] at hfits
    have hpart : (d.nanoseconds+e.nanoseconds)/10^9 < 2^64 := by omega
    obtain ⟨hnormalised,hexact⟩ := add_exact hd (hds e List.mem_cons_self) hpart
    rw [← hexact] at hfits
    obtain ⟨hrest,hsum⟩ := ih (fun f hf => hds f (List.mem_cons_of_mem e hf)) hnormalised hfits
    rw [List.foldl_cons, List.map_cons, List.sum_cons, hsum, hexact]
    exact ⟨hrest, Nat.add_assoc _ _ _⟩

end Duration

/-- `w` is the first of the most severe results. -/
def FirstWorst (rs : List TestStepResult) (w : TestStepResult) : Prop :=
  ∃ pre post, rs = pre ++ w :: post ∧
    (∀ r ∈ pre, toUnderlying r.status < toUnderlying w.status) ∧
    ∀ r ∈ post, toUnderlying r.status ≤ toUnderlying w.status

theorem getWorstTestStepResult_firstWorst {rs : List TestStepResult} (h : rs ≠ []) :
    FirstWorst rs (getWorstTestStepResult rs) := by
  have hall : ∀ {rs : List TestStepResult} {w : TestStepResult},
      rs.argmax (fun r => toUnderlying r.status) = some w → FirstWorst rs w := by
    intro rs
    induction rs with
    | nil =>
      intro w hw
      cases hw
    | cons r rs ih =>
      intro w hw
      rw [List.argmax_cons] at hw
      cases hrest : rs.argmax fun r => toUnderlying r.status with
      | none =>
        rw [hrest] at hw
        obtain rfl := Option.some_inj.mp hw
        exact ⟨[], rs, rfl, by simp, by simp [List.argmax_eq_none.mp hrest]⟩
      | some m =>
        rw [hrest] at hw
        obtain ⟨pre,post,hrs,hpre,hpost⟩ := ih hrest
        -- only a worse result takes the place of one before it
        by_cases hlt : toUnderlying r.status < toUnderlying m.status
        · simp only [hlt, ↓reduceIte, Option.some.injEq] at hw
          subst hw
          exact ⟨r :: pre, post, by rw [hrs]; rfl, List.forall_mem_cons.mpr ⟨hlt, hpre⟩, hpost⟩
        · simp only [hlt, ↓reduceIte, Option.some.injEq] at hw
          subst hw
          refine ⟨[], rs, rfl, by simp, fun s hs => ?_⟩
          exact (List.le_of_mem_argmax (f := fun r : TestStepResult => toUnderlying r.status) hs
            hrest).trans (not_lt.mp hlt)
  have hsome : rs.argmax (fun r => toUnderlying r.status) ≠ none := mt List.argmax_eq_none.mp h
  obtain ⟨w,hw⟩ := Option.ne_none_iff_exists'.mp hsome
  have hworst : getWorstTestStepResult rs = w := by
    unfold getWorstTestStepResult
    rw [hw]
    rfl
  exact hworst ▸ hall hw

/-- A result that several results are merged into. -/
structure Merged (parts : List TestStepResult) (r : TestStepResult) : Prop where
  worst : ∃ w, FirstWorst parts w ∧ r.status = w.status ∧ r.message = w.message ∧
    r.exception = w.exception
  duration : (∀ p ∈ parts, p.duration.Normalised) →
    (parts.map fun p => p.duration.nanoseconds).sum/10^9 < 2^64 →
    r.duration.Normalised ∧
      r.duration.nanoseconds = (parts.map fun p => p.duration.nanoseconds).sum

namespace TestCaseRunner

theorem merged_combineStepResults {parts : List TestStepResult} (h : parts ≠ []) :
    Merged parts (combineStepResults parts) := by
  refine ⟨⟨_, getWorstTestStepResult_firstWorst h, rfl, rfl, rfl⟩, fun hparts hfits => ?_⟩
  have hfold : (combineStepResults parts).duration =
      (parts.map TestStepResult.duration).foldl Duration.add {} := by
    rw [List.foldl_map]
    rfl
  have hzero : Duration.nanoseconds {} = 0 := rfl
  have hnormalised : Duration.Normalised {} := Nat.pow_pos (Nat.succ_pos 9)
  have hmap : (parts.map TestStepResult.duration).map Duration.nanoseconds =
      parts.map fun p => p.duration.nanoseconds := List.map_map
  have hdurations : ∀ e ∈ parts.map TestStepResult.duration, e.Normalised := by simpa using hparts
  have hexact := Duration.foldl_add_exact hdurations hnormalised
    (by rwa [hzero, Nat.zero_add, hmap])
  rwa [← hfold, hzero, Nat.zero_add, hmap] at hexact

variable {c : TestCaseRunner}

/-- The bodies of an executed step, told apart by their place. -/
theorem StepBodies.split {pickleStep : PickleStep} {testStep : TestStep} {site : CallSite}
    {started : TestStepStarted} {bodies : List BodyRun} {id : String} {ids : List String}
    {args : StepMatchArgumentsList} {lists : List StepMatchArgumentsList} {d : StepDefinition}
    (h : c.StepBodies pickleStep testStep site started bodies)
    (hids : testStep.stepDefinitionIds = some (id :: ids))
    (hlists : testStep.stepMatchArgumentsLists = some (args :: lists))
    (hd : c.supportCodeLibrary.stepRegistry.getDefinitionById id = .ok d) :
    ∃ before definition after, bodies = before ++ definition ++ after ∧
      c.StepHooksRule .beforeStep site started before ∧
      c.StepHooksRule .afterStep site started after ∧
      ((∀ b ∈ before, b.result.status ≠ .failed) →
        definition = [.ofStep d (stepArgs pickleStep site started args)]) ∧
      ((∃ b ∈ before, b.result.status = .failed) → definition = []) ∧ bodies ≠ [] := by
  cases h with
  | @hooksOnly before after hbefore hafter hfailed =>
    obtain ⟨b,hb,hstatus⟩ := (BodyRun.worst_failed_iff before).mp hfailed
    refine ⟨before, [], after, by simp, hbefore, hafter, fun hgo => ?_, fun _ => rfl, ?_⟩
    · exact absurd hstatus (hgo b hb)
    · exact List.append_ne_nil_of_left_ne_nil (List.ne_nil_of_mem hb) after
  | @withDefinition before after id' ids' d' args' lists' hbefore hafter hfailed hids' hlists'
      hd' =>
    obtain ⟨rfl,_⟩ := List.cons.inj (Option.some_inj.mp (hids.symm.trans hids'))
    obtain ⟨rfl,_⟩ := List.cons.inj (Option.some_inj.mp (hlists.symm.trans hlists'))
    obtain rfl := Except.ok.inj (hd.symm.trans hd')
    refine ⟨before, [_], after, by simp, hbefore, hafter, fun _ => rfl, fun hex => ?_, by simp⟩
    exact absurd ((BodyRun.worst_failed_iff before).mpr hex) hfailed

end TestCaseRunner

/-- A pickle step that is executed: all its step hooks are invoked once, the definition between
them unless a before-step hook fails, and the result is merged from the results of all. -/
theorem executed_step_merged {c : TestCaseRunner} {testStepResults : List TestStepResult}
    {pickleStep : PickleStep} {testStep : TestStep} {id : String} {args : StepMatchArgumentsList}
    {lists : List StepMatchArgumentsList} {d : StepDefinition}
    (hskipping : c.isSkippingSteps testStepResults = false)
    (hids : testStep.stepDefinitionIds = some [id])
    (hlists : testStep.stepMatchArgumentsLists = some (args :: lists))
    (hd : c.supportCodeLibrary.stepRegistry.getDefinitionById id = .ok d) (site : CallSite)
    (started : TestStepStarted) (world : World idGenerator Event) :
    ∃ before definition after result,
      (run (c.runStep testStepResults pickleStep testStep site started) world).1 = .ok result ∧
      (run (c.runStep testStepResults pickleStep testStep site started) world).2.log =
        world.log ++ (before ++ definition ++ after).flatMap BodyRun.log ∧
      c.StepHooksRule .beforeStep site started before ∧
      c.StepHooksRule .afterStep site started after ∧
      ((∀ b ∈ before, b.result.status ≠ .failed) →
        definition = [.ofStep d (TestCaseRunner.stepArgs pickleStep site started args)]) ∧
      ((∃ b ∈ before, b.result.status = .failed) → definition = []) ∧
      Merged ((before ++ definition ++ after).map BodyRun.result) result := by
  have hrun : (c.runStep testStepResults pickleStep testStep site started :
      Run idGenerator TestStepResult) = c.executeStep pickleStep testStep site started := by
    unfold TestCaseRunner.runStep
    simp [hids, hskipping]
  rw [hrun]
  have hemits : Emits (c.executeStep pickleStep testStep site started :
      Run idGenerator TestStepResult) _ :=
    c.emits_executeStep hids hlists hd
  obtain ⟨seg,hlog,bodies,hbodies,hr,rfl⟩ := hemits world
  obtain ⟨before,definition,after,rfl,hbefore,hafter,hgo,hstop,hne⟩ := hbodies.split hids hlists hd
  have hparts : (before ++ definition ++ after).map BodyRun.result ≠ [] :=
    mt List.map_eq_nil_iff.mp hne
  exact ⟨before, definition, after, _, hr, hlog, hbefore, hafter, hgo, hstop,
    TestCaseRunner.merged_combineStepResults hparts⟩

/-- The one before-step hook passes, so the definition runs between it and the two
after-step hooks. -/
theorem executed_step_merged_paired :
    ∃ (before definition after : List BodyRun) (result : TestStepResult),
      (run ((pairedWorker.testCaseRunner pairedCase false).runStep []
        { id := "s", text := "a step" } pairedStep .testRun ⟨"0", "1"⟩)
          (World.start decimalIds Event)).1 = .ok result ∧
      (run ((pairedWorker.testCaseRunner pairedCase false).runStep []
        { id := "s", text := "a step" } pairedStep .testRun ⟨"0", "1"⟩)
          (World.start decimalIds Event)).2.log =
        (before ++ definition ++ after).flatMap BodyRun.log ∧
      hooksOf .beforeStep before = ["9"] ∧ definition.length = 1 ∧
      hooksOf .afterStep after = ["3", "4"] ∧
      Merged ((before ++ definition ++ after).map BodyRun.result) result := by
  have hskipping : (pairedWorker.testCaseRunner pairedCase false).isSkippingSteps [] = false := rfl
  have hids : pairedStep.stepDefinitionIds = some ["d"] := rfl
  obtain ⟨before,definition,after,result,hr,hlog,hbefore,hafter,hgo,_,hmerged⟩ :=
    executed_step_merged hskipping hids rfl rfl .testRun ⟨"0", "1"⟩ (World.start decimalIds Event)
  have hfoundBefore : pairedHooks.hookRegistry.findIds .beforeStep ∅ = ["9"] := by decide
  have hfoundAfter : pairedHooks.hookRegistry.findIds .afterStep ∅ = ["3", "4"] := by decide
  have hpassed : ∀ b ∈ before, b.result.status ≠ .failed := by
    intro b hb
    obtain ⟨id,hid,d,hd,rfl⟩ := exists_left_of_forall₂ hbefore hb
    have hnine : id = "9" := by
      change id ∈ pairedHooks.hookRegistry.findIds .beforeStep ∅ at hid
      rwa [hfoundBefore, List.mem_singleton] at hid
    subst hnine
    cases hd
    exact fun h => by cases h
  refine ⟨before, definition, after, result, hr, hlog, ?_, by simp [hgo hpassed], ?_, hmerged⟩
  · exact (hbefore.hooksOf .beforeStep).trans hfoundBefore
  · exact (hafter.hooksOf .afterStep).trans hfoundAfter

end CucumberCpp
