import CucumberCpp.Attempts
import CucumberCpp.Skipping

/-! The number of attempts at the limits of `std::size_t`: whether a scenario is
attempted at all. -/
namespace CucumberCpp

open EventLog

variable {idGenerator : IdGenerator}

namespace TestCaseRunner

variable {c : TestCaseRunner}

theorem AttemptRule.known {moreAttemptsAvailable : Bool} {a : AttemptRun}
    (h : c.AttemptRule moreAttemptsAvailable a) :
    (c.getWorstStepResult a.results).status ≠ .unknown := by
  unfold getWorstStepResult
  split_ifs with hempty hskip
  · exact fun h => by cases h
  · exact fun h => by cases h
  · have hne : a.results ≠ [] := by simpa using hempty
    obtain ⟨s,hs,hresult⟩ := List.mem_map.mp (getWorstTestStepResult_mem hne)
    obtain ⟨_,_,_,hrule⟩ := h.steps.threaded.mem hs
    have hworst : (getWorstTestStepResult a.results).status = s.result.status :=
      congrArg TestStepResult.status hresult.symm
    rw [hworst]
    exact hrule.known

theorem getWorst_pair_known {r r' : TestStepResult} (hr : r.status ≠ .unknown)
    (hr' : r'.status ≠ .unknown) : (getWorstTestStepResult [r, r']).status ≠ .unknown := by
  have hmem := getWorstTestStepResult_mem (List.cons_ne_nil r [r'])
  rcases List.mem_cons.mp hmem with h | h
  · rw [h]
    exact hr
  · rw [List.mem_singleton.mp h]
    exact hr'

/-- The loop comes to the `return` behind it only if it is never entered. -/
theorem AttemptsRule.known {overallResult : TestStepResult} {attempt : UInt64} {remaining : ℕ}
    {attempts : List AttemptRun} {status : TestStepResultStatus}
    (h : c.AttemptsRule overallResult attempt remaining attempts status) (hpos : 0 < remaining)
    (hsum : attempt.toNat+remaining = c.maximumAttempts.toNat)
    (hoverall : overallResult.status ≠ .unknown) : attempts ≠ [] ∧ status ≠ .unknown := by
  induction h with
  | exhausted => exact absurd hpos (Nat.lt_irrefl 0)
  | @last overallResult attempt remaining a hnumber hrule hretry =>
    refine ⟨List.cons_ne_nil _ _, ?_⟩
    split_ifs with hrepeats
    · exact getWorst_pair_known hoverall hrule.known
    · exact hrule.known
  | @again overallResult attempt remaining a attempts status hnumber hrule hretry hrest ih =>
    have hsucc := toNat_succ_attempt hsum
    have hwill := (willRetry_eq_true_iff _ _).mp (hrule.retried.symm.trans hretry)
    have hmore : attempt.toNat+1 < c.maximumAttempts.toNat := by
      simpa only [decide_more_attempts hsum, decide_eq_true_eq] using hwill.1
    have hknown := ih (by omega) (by omega) (getWorst_pair_known hoverall hrule.known)
    exact ⟨List.cons_ne_nil _ _, hknown.2⟩

section

variable {pickle : Pickle} {testCase : TestCase} {retries : UInt64} {skip : Bool}
  {supportCodeLibrary : SupportCodeLibrary} {repeats : Option UInt64}

/-- What is known of a runner that the constructor let through. -/
theorem eq_of_make
    (hmake : make pickle testCase retries skip supportCodeLibrary repeats = .ok c) :
    repeats ≠ some 0 ∧ c =
      { pickle := pickle
        testCase := testCase
        maximumAttempts := if skip then 1 else repeats.getD (1+retries)
        repeats := repeats.isSome
        skip := skip
        supportCodeLibrary := supportCodeLibrary } := by
  unfold make at hmake
  by_cases hzero : repeats = some 0
  · rw [if_pos hzero] at hmake
    cases hmake
  · by_cases hboth : repeats.isSome ∧ retries ≠ 0
    · rw [if_neg hzero, if_pos hboth] at hmake
      cases hmake
    · rw [if_neg hzero, if_neg hboth] at hmake
      exact ⟨hzero, (Except.ok.inj hmake).symm⟩

/-- The sum of one and the retries wraps around at the largest number of retries only. -/
theorem maximumAttempts_make_pos_iff
    (hmake : make pickle testCase retries skip supportCodeLibrary repeats = .ok c) :
    0 < c.maximumAttempts.toNat ↔ skip = true ∨ repeats.isSome ∨ retries.toNat < 2^64-1 := by
  obtain ⟨hzero,rfl⟩ := eq_of_make hmake
  have hlt := retries.toNat_lt
  cases skip with
  | true => simp
  | false =>
    cases repeats with
    | some n =>
      have hn : n.toNat ≠ 0 := fun h => hzero (congrArg some (UInt64.toNat_inj.mp h))
      simpa using Nat.pos_of_ne_zero hn
    | none =>
      simp only [Bool.false_eq_true, ↓reduceIte, Option.getD_none, Option.isSome_none, false_or,
        UInt64.toNat_add, UInt64.reduceToNat]
      omega

end

end TestCaseRunner

/-- A test case is attempted, and its status says something, exactly when it is skipped,
repeated or not retried as often as `std::size_t` can count. -/
theorem scenario_attempted_iff {pickle : Pickle} {testCase : TestCase} {retries : UInt64}
    {skip : Bool} {supportCodeLibrary : SupportCodeLibrary} {repeats : Option UInt64}
    {c : TestCaseRunner}
    (hmake : TestCaseRunner.make pickle testCase retries skip supportCodeLibrary repeats = .ok c)
    (hassembled : IsAssembled idGenerator supportCodeLibrary ⟨pickle, testCase⟩)
    (world : World idGenerator Event) :
    ∃ status seg, (run c.run world).1 = .ok status ∧
      (run c.run world).2.log = world.log ++ seg ∧
      ((∃ started, .said (.broadcast (.testCaseStarted started)) ∈ seg) ∧ status ≠ .unknown ↔
        skip = true ∨ repeats.isSome ∨ retries.toNat < 2^64-1) := by
  have hc : c.supportCodeLibrary = supportCodeLibrary ∧ c.pickle = pickle ∧
      c.testCase = testCase := by
    obtain ⟨_,rfl⟩ := TestCaseRunner.eq_of_make hmake
    exact ⟨rfl, rfl, rfl⟩
  obtain ⟨rfl,rfl,rfl⟩ := hc
  have hres := TestCaseRunner.resolves_of_isAssembled hassembled
  obtain ⟨seg,hlog,attempts,status,hrule,hr,rfl⟩ :=
    c.emits_runAttempts hres c.maximumAttempts.toNat { status := .passed } 0 world
  refine ⟨status, _, hr, hlog, ?_⟩
  rw [← TestCaseRunner.maximumAttempts_make_pos_iff hmake]
  constructor
  · intro h
    by_contra hzero
    -- `1+retries` wrapped around, and the loop ends before its first round
    rw [Nat.eq_zero_of_not_pos hzero] at hrule
    cases hrule
    exact h.2 rfl
  · intro hpos
    have hpassed : ({ status := .passed } : TestStepResult).status ≠ .unknown :=
      fun h => by cases h
    obtain ⟨hne,hknown⟩ := hrule.known hpos (by simp) hpassed
    refine ⟨?_, hknown⟩
    obtain ⟨a,ha⟩ := List.exists_mem_of_ne_nil attempts hne
    exact ⟨⟨a.attempt, a.id, c.testCase.id⟩,
      List.mem_flatMap.mpr ⟨a, ha, by simp [AttemptRun.log]⟩⟩

/-- A runner that skips the scenario whose step would fail. -/
def skippingRunner : TestCaseRunner where
  pickle := stumblingCase.pickle
  testCase := stumblingCase.testCase
  maximumAttempts := 1
  repeats := false
  skip := true
  supportCodeLibrary := stumblingLibrary

/-- A test case that is skipped is attempted however many retries there are. -/
theorem scenario_attempted_iff_skipped : ∃ seg,
    (run skippingRunner.run (World.start decimalIds Event)).1 = .ok .skipped ∧
    (run skippingRunner.run (World.start decimalIds Event)).2.log = seg ∧
    ∃ started, .said (.broadcast (.testCaseStarted started)) ∈ seg := by
  have hmake : TestCaseRunner.make stumblingCase.pickle stumblingCase.testCase
      18446744073709551615 true stumblingLibrary none = .ok skippingRunner := rfl
  obtain ⟨status,seg,hr,hlog,hiff⟩ := scenario_attempted_iff hmake isAssembled_stumblingCase
    (World.start decimalIds Event)
  have hskipped : (run skippingRunner.run (World.start decimalIds Event)).1 = .ok .skipped := by
    decide
  exact ⟨seg, hskipped, hlog, (hiff.mpr (.inl rfl)).1⟩

/-- With that many retries a scenario whose step fails is not attempted, its status
is unknown, and the run over it succeeds. -/
theorem scenario_not_attempted :
    (∃ c, TestCaseRunner.make stumblingCase.pickle stumblingCase.testCase 18446744073709551615
        false stumblingLibrary none = .ok c ∧
      (run c.run (World.start decimalIds Event)).1 = .ok .unknown ∧
      (run c.run (World.start decimalIds Event)).2.log = []) ∧
    (run (SerialRuntimeAdapter.run "run" failingFeatures { retry := 18446744073709551615 }
      failingFeatureLibrary) (World.start decimalIds Event)).1 = .ok true ∧
    (events (run (SerialRuntimeAdapter.run "run" failingFeatures
      { retry := 18446744073709551615 } failingFeatureLibrary)
      (World.start decimalIds Event)).2.log).filterMap Event.attempted? = [] :=
  ⟨⟨_, rfl, by decide, by decide⟩, by decide, by decide⟩

end CucumberCpp
