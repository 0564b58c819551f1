import CucumberCpp.RunRefinement

/-! How often a test case is attempted, and which verdict its attempts lead to. -/
namespace CucumberCpp

open EventLog

variable {idGenerator : IdGenerator}

/-- The statuses that make a test case fail. -/
def IsFailingStatus (strict : Bool) (status : TestStepResultStatus) : Prop :=
  status = .ambiguous ∨ status = .failed ∨ status = .undefined ∨
    (strict = true ∧ status = .pending)

theorem Worker.isStatusFailed_iff {w : Worker} (hdry : w.options.dryRun = false)
    (status : TestStepResultStatus) :
    w.isStatusFailed status = true ↔ IsFailingStatus w.options.strict status := by
  unfold isStatusFailed IsFailingStatus
  rw [hdry]
  cases hs : w.options.strict <;> cases status <;> simp [failingStatuses]

/-- Nothing is milder than a failing status and more severe than a passing one. -/
theorem IsFailingStatus.of_le {strict : Bool} {s t : TestStepResultStatus}
    (h : IsFailingStatus strict s) (hle : toUnderlying s ≤ toUnderlying t) :
    IsFailingStatus strict t := by
  rcases h with rfl | rfl | rfl | ⟨rfl,rfl⟩ <;> cases t <;>
    simp_all [IsFailingStatus, toUnderlying]

theorem isFailingStatus_getWorst_iff {strict : Bool} {rs : List TestStepResult} (hrs : rs ≠ []) :
    IsFailingStatus strict (getWorstTestStepResult rs).status ↔
      ∃ r ∈ rs, IsFailingStatus strict r.status := by
  constructor
  · intro h
    exact ⟨_, getWorstTestStepResult_mem hrs, h⟩
  · intro h
    obtain ⟨r,hr,hf⟩ := h
    exact hf.of_le (le_getWorstTestStepResult hr)

namespace TestCaseRunner

variable (c : TestCaseRunner)

/-- The worst step status of an attempt. -/
def attemptStatus (a : AttemptRun) : TestStepResultStatus := (c.getWorstStepResult a.results).status

/-- What the loop of `Run` does from attempt number `start` on. -/
structure AttemptsShape (overallResult : TestStepResult) (start remaining : ℕ)
    (attempts : List AttemptRun) (status : TestStepResultStatus) : Prop where
  rule : ∀ a ∈ attempts, c.StepsRule a.attempt a.id a.steps
  bounded : attempts.length ≤ remaining
  numbers : attempts.map (fun a => a.attempt.toNat) = List.range' start attempts.length
  decided : ∀ i a, attempts[i]? = some a →
    a.willBeRetried = c.willRetry a.results (start+i+1 < c.maximumAttempts.toNat)
  retried : ∃ init last, attempts = init ++ [last] ∧ (∀ a ∈ init, a.willBeRetried = true) ∧
    last.willBeRetried = false ∧ (c.repeats = false → status = c.attemptStatus last)
  verdict : c.repeats = true → ∀ strict, IsFailingStatus strict status ↔
    IsFailingStatus strict overallResult.status ∨
      ∃ a ∈ attempts, IsFailingStatus strict (c.attemptStatus a)

variable {c}

theorem toNat_succ_attempt {attempt : UInt64} {remaining : ℕ}
    (hsum : attempt.toNat+(remaining+1) = c.maximumAttempts.toNat) :
    (attempt+1).toNat = attempt.toNat+1 := by
  have hlt := c.maximumAttempts.toNat_lt
  rw [UInt64.toNat_add]
  exact Nat.mod_eq_of_lt (by simp; omega)

theorem decide_more_attempts {attempt : UInt64} {remaining : ℕ}
    (hsum : attempt.toNat+(remaining+1) = c.maximumAttempts.toNat) :
    decide (attempt+1 < c.maximumAttempts) =
      decide (attempt.toNat+1 < c.maximumAttempts.toNat) := by
  rw [decide_eq_decide, UInt64.lt_iff_toNat_lt, toNat_succ_attempt hsum]

theorem willRetry_eq_true_iff (results : List TestStepResult) (more : Bool) :
    c.willRetry results more = true ↔ more = true ∧
      (c.repeats = true ∨ (c.getWorstStepResult results).status = .failed) := by
  simp [willRetry]

/-- The attempt that is not retried. -/
theorem AttemptsShape.last {overallResult : TestStepResult} {attempt : UInt64} {remaining : ℕ}
    {a : AttemptRun} (hsum : attempt.toNat+(remaining+1) = c.maximumAttempts.toNat)
    (hnumber : a.attempt = attempt) (hrule : c.AttemptRule (attempt+1 < c.maximumAttempts) a)
    (hretry : a.willBeRetried = false) :
    c.AttemptsShape overallResult attempt.toNat (remaining+1) [a]
      (if c.repeats then
        (getWorstTestStepResult [overallResult, c.getWorstStepResult a.results]).status
      else (c.getWorstStepResult a.results).status) := by
  refine ⟨?_, ?_, ?_, ?_, ⟨[], a, rfl, by simp, hretry, ?_⟩, ?_⟩
  · simpa using hrule.steps
  · simp
  · simp [hnumber]
  · intro i b hb
    obtain ⟨rfl,rfl⟩ : i = 0 ∧ b = a := by
      cases i with
      | zero => exact ⟨rfl, (Option.some_inj.mp hb).symm⟩
      | succ i => simp at hb
    rw [hrule.retried, decide_more_attempts hsum]
  · intro hrepeats
    simp [hrepeats, attemptStatus]
  · intro hrepeats strict
    simp only [hrepeats, ↓reduceIte]
    rw [isFailingStatus_getWorst_iff (by simp)]
    simp [attemptStatus]

/-- One more attempt before those that follow it. -/
theorem AttemptsShape.again {overallResult : TestStepResult} {attempt : UInt64} {remaining : ℕ}
    {a : AttemptRun} {attempts : List AttemptRun} {status : TestStepResultStatus}
    (hsum : attempt.toNat+(remaining+1) = c.maximumAttempts.toNat)
    (hnumber : a.attempt = attempt) (hrule : c.AttemptRule (attempt+1 < c.maximumAttempts) a)
    (hretry : a.willBeRetried = true)
    (hshape : c.AttemptsShape
      (getWorstTestStepResult [overallResult, c.getWorstStepResult a.results]) (attempt.toNat+1)
      remaining attempts status) :
    c.AttemptsShape overallResult attempt.toNat (remaining+1) (a :: attempts) status := by
  refine ⟨?_, ?_, ?_, ?_, ?_, ?_⟩
  · intro b hb
    rcases List.mem_cons.mp hb with rfl | hb
    · exact hrule.steps
    · exact hshape.rule b hb
  · have hbounded := hshape.bounded
    simp only [List.length_cons]
    omega
  · simp [hshape.numbers, hnumber, List.range'_succ]
  · intro i b hb
    cases i with
    | zero =>
      obtain rfl : a = b := Option.some_inj.mp hb
      rw [hrule.retried, decide_more_attempts hsum]
    | succ i =>
      rw [hshape.decided i b hb]
      congr 2
      exact propext (by omega)
  · obtain ⟨init,last,rfl,hinit,hlast,hstatus⟩ := hshape.retried
    refine ⟨a :: init, last, rfl, ?_, hlast, hstatus⟩
    intro b hb
    rcases List.mem_cons.mp hb with rfl | hb
    · exact hretry
    · exact hinit b hb
  · intro hrepeats strict
    rw [hshape.verdict hrepeats strict, isFailingStatus_getWorst_iff (by simp)]
    simp [attemptStatus, or_assoc]

theorem AttemptsRule.shape {overallResult : TestStepResult} {attempt : UInt64} {remaining : ℕ}
    {attempts : List AttemptRun} {status : TestStepResultStatus}
    (h : c.AttemptsRule overallResult attempt remaining attempts status) (hpos : 0 < remaining)
    (hsum : attempt.toNat+remaining = c.maximumAttempts.toNat) :
    c.AttemptsShape overallResult attempt.toNat remaining attempts status := by
  induction h with
  | exhausted => exact absurd hpos (Nat.lt_irrefl 0)
  | last hnumber hrule hretry => exact .last hsum hnumber hrule hretry
  | again hnumber hrule hretry hrest ih =>
    have hsucc := toNat_succ_attempt hsum
    -- it is retried only with an attempt left
    have hwill := (willRetry_eq_true_iff _ _).mp (hrule.retried.symm.trans hretry)
    have hmore := hwill.1
    rw [decide_more_attempts hsum, decide_eq_true_eq] at hmore
    have hshape := ih (by omega) (by omega)
    rw [hsucc] at hshape
    exact hshape.again hsum hnumber hrule hretry

theorem AttemptsShape.willBeRetried_iff {overallResult : TestStepResult} {start remaining : ℕ}
    {attempts : List AttemptRun} {status : TestStepResultStatus}
    (h : c.AttemptsShape overallResult start remaining attempts status) {i : ℕ} {a : AttemptRun}
    (ha : attempts[i]? = some a) : a.willBeRetried = true ↔ i+1 < attempts.length := by
  obtain ⟨init,last,rfl,hinit,hlast,_⟩ := h.retried
  have hi : i < (init ++ [last]).length := (List.getElem?_eq_some_iff.mp ha).1
  simp only [List.length_append, List.length_singleton] at hi ⊢
  by_cases hlt : i < init.length
  · rw [List.getElem?_append_left hlt] at ha
    have htrue := hinit a (List.mem_of_getElem? ha)
    simp [htrue, hlt]
  · have heq : i = init.length := by omega
    rw [heq, List.getElem?_concat_length] at ha
    obtain rfl : last = a := Option.some_inj.mp ha
    simp [hlast, heq]

end TestCaseRunner

/-- The ids of the attempts are among the names drawn for them. -/
theorem attempt_ids_sublist (testCaseId : String) (attempts : List AttemptRun) :
    (attempts.map AttemptRun.id).Sublist
      (drawn (attempts.flatMap (AttemptRun.log testCaseId))) := by
  rw [List.map_eq_flatMap]
  apply sublist_drawn_flatMap
  intro a
  simp [AttemptRun.log]

/-- `repeat = n` applies to a pickle. -/
def RuntimeOptions.RepeatApplies (options : RuntimeOptions) (pickle : Pickle) (n : UInt64) :
    Prop :=
  options.repeats = some n ∧ ∀ expression, options.repeatTagExpression = some expression →
    expression (transformPickleTags pickle.tags) = true

theorem Worker.repeatsForPickle_eq_some_iff (w : Worker) (pickle : Pickle) (n : UInt64) :
    w.repeatsForPickle pickle = some n ↔ w.options.RepeatApplies pickle n := by
  unfold repeatsForPickle RuntimeOptions.RepeatApplies
  cases w.options.repeatTagExpression with
  | none => simp
  | some expression => cases h : expression (transformPickleTags pickle.tags) <;> simp [h]

theorem Worker.repeatsForPickle_eq_none_iff (w : Worker) (pickle : Pickle) :
    w.repeatsForPickle pickle = none ↔ ∀ n, ¬w.options.RepeatApplies pickle n := by
  rw [Option.eq_none_iff_forall_ne_some]
  exact forall_congr' fun n => not_congr (w.repeatsForPickle_eq_some_iff pickle n)

/-- The retries that the options allow a pickle. -/
def RuntimeOptions.retriesOf (options : RuntimeOptions) (pickle : Pickle) : ℕ :=
  if options.retryTagExpression (transformPickleTags pickle.tags) then options.retry.toNat else 0

theorem toNat_retriesForPickle (options : RuntimeOptions) (pickle : Pickle) :
    (retriesForPickle pickle options).toNat = options.retriesOf pickle := by
  unfold retriesForPickle RuntimeOptions.retriesOf
  split_ifs with hzero <;> simp_all

/-- How many attempts a test case gets when `s` are the statuses of its attempts. -/
structure AttemptCount (options : RuntimeOptions) (pickle : Pickle) (skip : Bool)
    (s : ℕ → TestStepResultStatus) (k : ℕ) : Prop where
  skipped : skip = true → k = 1
  repeated : skip = false → ∀ n, options.RepeatApplies pickle n → k = n.toNat
  retried : skip = false → (∀ n, ¬options.RepeatApplies pickle n) →
    IsLeast {j | 1 ≤ j ∧ (s (j-1) ≠ .failed ∨ j = 1+options.retriesOf pickle)} k

/-- Whether a test case fails when `s` are the statuses of its `k` attempts. -/
structure AttemptVerdict (options : RuntimeOptions) (pickle : Pickle)
    (s : ℕ → TestStepResultStatus) (k : ℕ) (success : Bool) : Prop where
  retried : (∀ n, ¬options.RepeatApplies pickle n) →
    (success = false ↔ IsFailingStatus options.strict (s (k-1)))
  repeated : ∀ n, options.RepeatApplies pickle n →
    (success = false ↔ ∃ i < k, IsFailingStatus options.strict (s i))

section

variable {w : Worker} {assembled : AssembledTestCase} {skip : Bool}

theorem repeats_testCaseRunner {n : UInt64}
    (hn : w.options.RepeatApplies assembled.pickle n) :
    (w.testCaseRunner assembled skip).repeats = true := by
  have hrepeats := (w.repeatsForPickle_eq_some_iff assembled.pickle n).mpr hn
  simp [Worker.testCaseRunner, hrepeats]

theorem not_repeats_testCaseRunner (hnone : ∀ n, ¬w.options.RepeatApplies assembled.pickle n) :
    (w.testCaseRunner assembled skip).repeats = false := by
  have hrepeats := (w.repeatsForPickle_eq_none_iff assembled.pickle).mpr hnone
  simp [Worker.testCaseRunner, hrepeats]

theorem maximumAttempts_of_skip (hskip : skip = true) :
    (w.testCaseRunner assembled skip).maximumAttempts.toNat = 1 := by
  subst hskip
  rfl

theorem maximumAttempts_of_repeat (hskip : skip = false) {n : UInt64}
    (hn : w.options.RepeatApplies assembled.pickle n) :
    (w.testCaseRunner assembled skip).maximumAttempts.toNat = n.toNat := by
  have hrepeats := (w.repeatsForPickle_eq_some_iff assembled.pickle n).mpr hn
  subst hskip
  simp [Worker.testCaseRunner, hrepeats]

theorem maximumAttempts_of_retry (hskip : skip = false)
    (hnone : ∀ n, ¬w.options.RepeatApplies assembled.pickle n)
    (hretry : w.options.retry.toNat < 2^64-1) :
    (w.testCaseRunner assembled skip).maximumAttempts.toNat =
      1+w.options.retriesOf assembled.pickle := by
  have hrepeats := (w.repeatsForPickle_eq_none_iff assembled.pickle).mpr hnone
  have hle : w.options.retriesOf assembled.pickle ≤ w.options.retry.toNat := by
    unfold RuntimeOptions.retriesOf
    split_ifs
    · exact le_rfl
    · exact Nat.zero_le _
  subst hskip
  simp only [Worker.testCaseRunner, hrepeats, Bool.false_eq_true, ↓reduceIte, Option.getD_none]
  rw [UInt64.toNat_add, toNat_retriesForPickle]
  exact Nat.mod_eq_of_lt (by simp; omega)

theorem maximumAttempts_pos (hoptions : w.options.Accepted)
    (hretry : w.options.retry.toNat < 2^64-1) :
    0 < (w.testCaseRunner assembled skip).maximumAttempts.toNat := by
  by_cases hskip : skip = true
  · rw [maximumAttempts_of_skip hskip]
    exact Nat.one_pos
  · have hskip' := Bool.eq_false_of_not_eq_true hskip
    by_cases hrepeat : ∃ n, w.options.RepeatApplies assembled.pickle n
    · obtain ⟨n,hn⟩ := hrepeat
      rw [maximumAttempts_of_repeat hskip' hn]
      apply Nat.pos_of_ne_zero
      intro hzero
      have hn0 : n = 0 := UInt64.toNat_inj.mp hzero
      exact hoptions.positive (hn0 ▸ hn.1)
    · rw [maximumAttempts_of_retry hskip' (not_exists.mp hrepeat) hretry]
      omega

variable {attempts : List AttemptRun} {status : TestStepResultStatus}
  {s : ℕ → TestStepResultStatus}

/-- Another attempt follows exactly when one is left and the mode asks for it. -/
theorem TestCaseRunner.AttemptsShape.another_iff {c : TestCaseRunner}
    {overallResult : TestStepResult} {remaining : ℕ}
    (h : c.AttemptsShape overallResult 0 remaining attempts status)
    (hs : ∀ i a, attempts[i]? = some a → s i = c.attemptStatus a) {i : ℕ}
    (hi : i < attempts.length) :
    i+1 < attempts.length ↔ i+1 < c.maximumAttempts.toNat ∧
      (c.repeats = true ∨ s i = .failed) := by
  have ha : attempts[i]? = some (attempts[i]) := List.getElem?_eq_getElem hi
  rw [← h.willBeRetried_iff ha, h.decided i _ ha, willRetry_eq_true_iff, hs i _ ha]
  simp [attemptStatus]

theorem AttemptsShape.count
    (hretry : w.options.retry.toNat < 2^64-1) {overallResult : TestStepResult}
    (h : (w.testCaseRunner assembled skip).AttemptsShape overallResult 0
      (w.testCaseRunner assembled skip).maximumAttempts.toNat attempts status)
    (hs : ∀ i a, attempts[i]? = some a → s i = (w.testCaseRunner assembled skip).attemptStatus a) :
    AttemptCount w.options assembled.pickle skip s attempts.length := by
  have hbounded := h.bounded
  have hpos : 0 < attempts.length := by
    obtain ⟨init,last,hinit,_⟩ := h.retried
    simp [hinit]
  have hlast := (h.another_iff hs (Nat.sub_one_lt_of_lt hpos)).not
  refine ⟨?_, ?_, ?_⟩
  · intro hskip
    rw [maximumAttempts_of_skip hskip] at hbounded
    omega
  · intro hskip n hn
    have hmax := maximumAttempts_of_repeat hskip hn
    rw [hmax, repeats_testCaseRunner hn] at hlast
    rw [hmax] at hbounded
    simp only [true_or, and_true] at hlast
    omega
  · intro hskip hnone
    have hmax := maximumAttempts_of_retry hskip hnone hretry
    have hrepeats : (w.testCaseRunner assembled skip).repeats = false :=
      not_repeats_testCaseRunner hnone
    rw [hmax, hrepeats] at hlast
    rw [hmax] at hbounded
    constructor
    · refine ⟨hpos, ?_⟩
      by_cases hfailed : s (attempts.length-1) = .failed
      · simp only [hfailed, or_true, and_true] at hlast
        exact .inr (by omega)
      · exact .inl hfailed
    · -- an earlier attempt failed with retries left, or it would have been the last
      intro j hj
      obtain ⟨hj1,hstop⟩ := hj
      by_contra hlt
      have hlt' : j < attempts.length := by omega
      have hanother := (h.another_iff hs (show j-1 < attempts.length by omega)).mp (by omega)
      rw [hmax, hrepeats] at hanother
      rcases hstop with hstop | hstop
      · exact hstop (hanother.2.resolve_left Bool.false_ne_true)
      · omega

theorem AttemptsShape.caseVerdict (hdry : w.options.dryRun = false) {remaining : ℕ}
    (h : (w.testCaseRunner assembled skip).AttemptsShape { status := .passed } 0 remaining
      attempts status)
    (hs : ∀ i a, attempts[i]? = some a → s i = (w.testCaseRunner assembled skip).attemptStatus a) :
    AttemptVerdict w.options assembled.pickle s attempts.length (!w.isStatusFailed status) := by
  have hfailed : (!w.isStatusFailed status) = false ↔ IsFailingStatus w.options.strict status := by
    rw [Bool.not_eq_false', Worker.isStatusFailed_iff hdry]
  constructor
  · intro hnone
    have hrepeats : (w.testCaseRunner assembled skip).repeats = false :=
      not_repeats_testCaseRunner hnone
    obtain ⟨init,last,rfl,_,_,hstatus⟩ := h.retried
    have hlast : s init.length = (w.testCaseRunner assembled skip).attemptStatus last :=
      hs _ _ (List.getElem?_concat_length)
    rw [hfailed, hstatus hrepeats, ← hlast]
    simp
  · intro n hn
    rw [hfailed, h.verdict (repeats_testCaseRunner hn)]
    have hpassed : ¬IsFailingStatus w.options.strict .passed := by simp [IsFailingStatus]
    simp only [hpassed, false_or]
    constructor
    · intro hex
      obtain ⟨a,ha,hf⟩ := hex
      obtain ⟨i,hi⟩ := List.mem_iff_getElem?.mp ha
      exact ⟨i, (List.getElem?_eq_some_iff.mp hi).1, by rwa [hs i a hi]⟩
    · intro hex
      obtain ⟨i,hi,hf⟩ := hex
      have ha : attempts[i]? = some (attempts[i]) := List.getElem?_eq_getElem hi
      exact ⟨attempts[i], List.getElem_mem hi, by rwa [← hs i _ ha]⟩

end

/-- Whatever user code does, the attempts at a test case are numbered from zero,
have ids of their own, are as many as the options ask for, say of each other
whether another one follows, and decide the verdict together. -/
theorem runTestCase_attempts {testRunStartedId : String} {options : RuntimeOptions}
    {supportCodeLibrary : SupportCodeLibrary} {w : Worker}
    (hmake : Worker.make testRunStartedId options supportCodeLibrary = .ok w)
    (hretry : options.retry.toNat < 2^64-1) {assembled : AssembledTestCase}
    (hassembled : IsAssembled idGenerator supportCodeLibrary assembled) (failing : Bool)
    (world : World idGenerator Event) :
    ∃ (attempts : List AttemptRun) (success : Bool),
      (run (w.runTestCase assembled failing) world).1 = .ok success ∧
      (run (w.runTestCase assembled failing) world).2.log =
        world.log ++ attempts.flatMap (AttemptRun.log assembled.testCase.id) ∧
      attempts.map (fun a => a.attempt.toNat) = List.range attempts.length ∧
      (attempts.map AttemptRun.id).Nodup ∧
      (∀ i a, attempts[i]? = some a → (a.willBeRetried = true ↔ i+1 < attempts.length)) ∧
      ∀ s : ℕ → TestStepResultStatus, (∀ i a, attempts[i]? = some a →
          s i = (w.testCaseRunner assembled (w.skipTestCase failing)).attemptStatus a) →
        AttemptCount options assembled.pickle (options.dryRun || (options.failFast && failing))
          s attempts.length ∧
        (options.dryRun = false →
          AttemptVerdict options assembled.pickle s attempts.length success) := by
  obtain ⟨hoptions,rfl⟩ := RuntimeOptions.accepted_of_make hmake
  let w : Worker := ⟨testRunStartedId, options, supportCodeLibrary⟩
  obtain ⟨seg,hlog,cr,rfl,hrule,hr,rfl⟩ := w.emits_runTestCase hoptions assembled failing
    (w.caseResolves_of_isAssembled hassembled) world
  have hpos : 0 < (w.testCaseRunner cr.assembled cr.skip).maximumAttempts.toNat :=
    maximumAttempts_pos hoptions hretry
  have hshape := hrule.attempts.shape hpos (by simp)
  have hnodup : (drawn cr.log).Nodup := drawn_segment_nodup _ _ _ hlog
  refine ⟨cr.attempts, !w.caseFailed cr, hr, hlog, ?_, ?_,
    fun i a ha => hshape.willBeRetried_iff ha,
    fun s hs => ?_⟩
  · rw [hshape.numbers]
    exact List.range_eq_range'.symm
  · exact hnodup.sublist (attempt_ids_sublist _ _)
  · rw [← hrule.skip] at hs
    have hcount : AttemptCount options cr.assembled.pickle cr.skip s cr.attempts.length :=
      AttemptsShape.count hretry hshape hs
    rw [hrule.skip] at hcount
    exact ⟨hcount, fun hdry => AttemptsShape.caseVerdict hdry hshape hs⟩

/-- Three repetitions of a scenario whose step fails: there are three attempts, and what
makes the test case fail is one of them. -/
theorem runTestCase_attempts_three :
    ∃ attempts : List AttemptRun,
      (run (Worker.runTestCase ⟨"run", { repeats := some 3 }, stumblingLibrary⟩ stumblingCase
        false) (World.start decimalIds Event)).1 = .ok false ∧
      (run (Worker.runTestCase ⟨"run", { repeats := some 3 }, stumblingLibrary⟩ stumblingCase
        false) (World.start decimalIds Event)).2.log = attempts.flatMap (AttemptRun.log "0") ∧
      attempts.length = 3 ∧ ∃ a ∈ attempts, IsFailingStatus true
        ((Worker.testCaseRunner ⟨"run", { repeats := some 3 }, stumblingLibrary⟩ stumblingCase
          false).attemptStatus a) := by
  let w : Worker := ⟨"run", { repeats := some 3 }, stumblingLibrary⟩
  have hmake : Worker.make "run" { repeats := some 3 } stumblingLibrary = .ok w := rfl
  obtain ⟨attempts,success,hr,hlog,_,_,_,hcount⟩ := runTestCase_attempts hmake (by decide)
    isAssembled_stumblingCase false (World.start decimalIds Event)
  let s (i : ℕ) : TestStepResultStatus :=
    (attempts[i]?.map (w.testCaseRunner stumblingCase false).attemptStatus).getD .unknown
  obtain ⟨hs,hverdict⟩ := hcount s fun i a ha => by simp [s, ha, w, Worker.skipTestCase]
  have happlies : w.options.RepeatApplies stumblingCase.pickle 3 := ⟨rfl, fun _ h => by cases h⟩
  have hfails : (run (w.runTestCase stumblingCase false) (World.start decimalIds Event)).1 =
      .ok false := by decide
  obtain rfl : success = false := Except.ok.inj (hr.symm.trans hfails)
  obtain ⟨i,hi,hfailing⟩ := ((hverdict rfl).repeated 3 happlies).mp rfl
  have ha : attempts[i]? = some attempts[i] := List.getElem?_eq_getElem hi
  simp only [s, ha] at hfailing
  exact ⟨attempts, hr, hlog, hs.repeated rfl 3 happlies, attempts[i], List.getElem_mem hi,
    hfailing⟩

end CucumberCpp
