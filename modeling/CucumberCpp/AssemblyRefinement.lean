import CucumberCpp.Assemble
import CucumberCpp.Grouping

/-! Assembly announces a test case for every pickle and groups the test cases
by the file they come from. -/
namespace CucumberCpp

open EventLog OrderedMap Grouping

variable {idGenerator : IdGenerator}

theorem filterMap_eq_of_forall₂ {α β : Type} {f : α → Option β} {xs : List α} {ys : List β}
    (h : List.Forall₂ (fun x y => f x = some y) xs ys) : ys = xs.filterMap f := by
  induction h with
  | nil => rfl
  | cons hxy _ ih => rw [List.filterMap_cons_some hxy, ← ih]

theorem exists_left_of_forall₂ {α β : Type} {R : α → β → Prop} {as : List α} {bs : List β}
    (h : List.Forall₂ R as bs) {b : β} (hb : b ∈ bs) : ∃ a ∈ as, R a b := by
  induction h with
  | nil => cases hb
  | cons hR _ ih =>
    rcases List.mem_cons.mp hb with rfl | hb
    · exact ⟨_, List.mem_cons_self, hR⟩
    · obtain ⟨a,ha,hR'⟩ := ih hb
      exact ⟨a, List.mem_cons_of_mem _ ha, hR'⟩

def hookTestStep (hookId id : String) : TestStep := { id := id, hookId := some hookId }

def pickleTestStep (supportCodeLibrary : SupportCodeLibrary) (pickleStep : PickleStep)
    (id : String) : TestStep :=
  matchStepDefinitions
    { id := id
      pickleStepId := some pickleStep.id
      stepDefinitionIds := some []
      stepMatchArgumentsLists := some [] }
    supportCodeLibrary.stepRegistry.registry pickleStep.text

/-- The step definitions whose matcher accepts the text. -/
def SupportCodeLibrary.matching (supportCodeLibrary : SupportCodeLibrary) (text : String) :
    List StepDefinition :=
  supportCodeLibrary.stepRegistry.registry.filter fun d => (d.regex text).isSome

@[simp] theorem pickleTestStep_hookId (supportCodeLibrary : SupportCodeLibrary)
    (pickleStep : PickleStep) (id : String) :
    (pickleTestStep supportCodeLibrary pickleStep id).hookId = none := rfl

@[simp] theorem pickleTestStep_pickleStepId (supportCodeLibrary : SupportCodeLibrary)
    (pickleStep : PickleStep) (id : String) :
    (pickleTestStep supportCodeLibrary pickleStep id).pickleStepId = some pickleStep.id := rfl

theorem pickleTestStep_stepDefinitionIds (supportCodeLibrary : SupportCodeLibrary)
    (pickleStep : PickleStep) (id : String) :
    (pickleTestStep supportCodeLibrary pickleStep id).stepDefinitionIds =
      some ((supportCodeLibrary.matching pickleStep.text).map StepDefinition.id) := by
  have hids (ds : List StepDefinition) :
      (ds.filterMap fun d => (d.regex pickleStep.text).map fun m => (d.id,m)).map Prod.fst =
        (ds.filter fun d => (d.regex pickleStep.text).isSome).map StepDefinition.id := by
    induction ds with
    | nil => rfl
    | cons d ds ih => cases hm : d.regex pickleStep.text <;> simp [hm, ih]
  exact congrArg some (hids supportCodeLibrary.stepRegistry.registry)

theorem pickleTestStep_stepMatchArgumentsLists (supportCodeLibrary : SupportCodeLibrary)
    (pickleStep : PickleStep) (id : String) :
    ∃ lists, (pickleTestStep supportCodeLibrary pickleStep id).stepMatchArgumentsLists =
      some lists ∧ lists.length = (supportCodeLibrary.matching pickleStep.text).length := by
  refine ⟨_, rfl, ?_⟩
  have hids := Option.some_inj.mp
    (pickleTestStep_stepDefinitionIds supportCodeLibrary pickleStep id)
  have hlength := congrArg List.length hids
  simpa using hlength

/-- The test steps of a pickle, up to their ids. -/
structure TestStepsRule (supportCodeLibrary : SupportCodeLibrary) (pickle : Pickle)
    (beforeSteps steps afterSteps : List TestStep) : Prop where
  before : List.Forall₂ (fun hookId s => s = hookTestStep hookId s.id)
    (supportCodeLibrary.hookRegistry.findIds .before (transformPickleTags pickle.tags)) beforeSteps
  step : List.Forall₂ (fun pickleStep s => s = pickleTestStep supportCodeLibrary pickleStep s.id)
    pickle.steps steps
  after : List.Forall₂ (fun hookId s => s = hookTestStep hookId s.id)
    (supportCodeLibrary.hookRegistry.findIds .after (transformPickleTags pickle.tags)).reverse
    afterSteps

/-- A pickle and the test case announced for it. -/
structure Announcement where
  source : PickleSource
  testCase : TestCase

namespace Announcement

def uri (a : Announcement) : String := a.source.gherkinDocument.uri

def assembled (a : Announcement) : AssembledTestCase where
  pickle := a.source.pickle
  testCase := a.testCase

def log (a : Announcement) : List (Entry String Event) :=
  .drew a.testCase.id :: (a.testCase.testSteps.map (fun s => .drew s.id) ++
    [.said (.broadcast (.testCase a.testCase))])

@[simp] theorem events_log (a : Announcement) :
    events a.log = [.broadcast (.testCase a.testCase)] := by
  simp [log]

end Announcement

structure AnnouncementRule (supportCodeLibrary : SupportCodeLibrary) (testRunStartedId : String)
    (a : Announcement) : Prop where
  pickleId : a.testCase.pickleId = a.source.pickle.id
  testRunStartedId : a.testCase.testRunStartedId = some testRunStartedId
  testSteps : ∃ beforeSteps steps afterSteps,
    a.testCase.testSteps = beforeSteps ++ steps ++ afterSteps ∧
    TestStepsRule supportCodeLibrary a.source.pickle beforeSteps steps afterSteps

/-- The suite of the test cases announced for one file; the first of them decides its document. -/
def suiteOf (as : List Announcement) (uri : String) : Option AssembledTestSuite :=
  match group Announcement.uri as uri with
  | [] => none
  | a :: rest => some
      { gherkinDocument := a.source.gherkinDocument
        testCases := (a :: rest).map Announcement.assembled }

/-- One suite for each file, in order of first appearance. -/
def suitesOf (as : List Announcement) : List AssembledTestSuite :=
  (keysOf Announcement.uri as).filterMap (suiteOf as)

theorem suiteOf_eq_none_iff (as : List Announcement) (uri : String) :
    suiteOf as uri = none ↔ uri ∉ keysOf Announcement.uri as := by
  rw [← group_eq_nil_iff]
  unfold suiteOf
  cases group Announcement.uri as uri <;> simp

theorem suiteOf_testCases {as : List Announcement} {uri : String} {suite : AssembledTestSuite}
    (h : suiteOf as uri = some suite) :
    suite.testCases = (group Announcement.uri as uri).map Announcement.assembled := by
  unfold suiteOf at h
  cases hg : group Announcement.uri as uri with
  | nil => simp [hg] at h
  | cons a rest =>
    rw [hg] at h
    cases h
    rfl

/-- One more test case extends the suite of its file, or starts it. -/
theorem suiteOf_concat (as : List Announcement) (a : Announcement) (uri : String) :
    suiteOf (as ++ [a]) uri = if uri = a.uri then
      let suite := (suiteOf as a.uri).getD { gherkinDocument := a.source.gherkinDocument }
      some { suite with testCases := suite.testCases ++ [a.assembled] }
    else suiteOf as uri := by
  unfold suiteOf
  rw [group_concat]
  split_ifs with h h' h'
  · subst h
    cases group Announcement.uri as a.uri <;> simp
  · exact absurd h.symm h'
  · exact absurd h'.symm h
  · rfl

/-- The test cases of the suites are the announced ones, each once. -/
theorem suitesOf_perm (as : List Announcement) :
    ((suitesOf as).flatMap AssembledTestSuite.testCases).Perm (as.map Announcement.assembled) := by
  have hsuite (uris : List String) (hmem : ∀ uri ∈ uris, uri ∈ keysOf Announcement.uri as) :
      (uris.filterMap (suiteOf as)).flatMap AssembledTestSuite.testCases =
        (uris.flatMap (group Announcement.uri as)).map Announcement.assembled := by
    induction uris with
    | nil => rfl
    | cons uri uris ih =>
      have hsome : suiteOf as uri ≠ none := by
        intro h
        exact (suiteOf_eq_none_iff as uri).mp h (hmem uri List.mem_cons_self)
      obtain ⟨suite,hs⟩ := Option.ne_none_iff_exists'.mp hsome
      have hrest := ih fun u hu => hmem u (List.mem_cons_of_mem uri hu)
      rw [List.filterMap_cons_some hs, List.flatMap_cons, List.flatMap_cons, List.map_append,
        hrest, suiteOf_testCases hs]
  unfold suitesOf
  rw [hsuite _ fun uri h => h]
  exact (flatMap_group_perm Announcement.uri as).map Announcement.assembled

theorem emits_assembleHookStep (hookId : String) :
    Emits (assembleHookStep hookId : Run idGenerator TestStep) fun r s =>
      ∃ t : TestStep, t = hookTestStep hookId t.id ∧ r = .ok t ∧ s = [.drew t.id] := by
  apply emits_nextId_bind
  intro id
  exact emits_pure ⟨hookTestStep hookId id, rfl, rfl, rfl⟩

theorem emits_assembleStep (supportCodeLibrary : SupportCodeLibrary) (pickleStep : PickleStep) :
    Emits (assembleStep supportCodeLibrary pickleStep : Run idGenerator TestStep) fun r s =>
      ∃ t : TestStep, t = pickleTestStep supportCodeLibrary pickleStep t.id ∧ r = .ok t ∧
        s = [.drew t.id] := by
  apply emits_nextId_bind
  intro id
  exact emits_pure ⟨pickleTestStep supportCodeLibrary pickleStep id, rfl, rfl, rfl⟩

theorem emits_assembleTestSteps (supportCodeLibrary : SupportCodeLibrary) (pickle : Pickle) :
    Emits (assembleTestSteps supportCodeLibrary pickle : Run idGenerator (List TestStep))
      fun r s => ∃ beforeSteps steps afterSteps,
        TestStepsRule supportCodeLibrary pickle beforeSteps steps afterSteps ∧
        r = .ok (beforeSteps ++ steps ++ afterSteps) ∧
        s = (beforeSteps ++ steps ++ afterSteps).map fun t => .drew t.id := by
  have hloop {α : Type} (xs : List α) (f : α → Run idGenerator TestStep)
      (mk : α → String → TestStep)
      (hf : ∀ x, Emits (f x) fun r s => ∃ t : TestStep, t = mk x t.id ∧ r = .ok t ∧
        s = [.drew t.id]) :
      Emits (xs.mapM' f) fun r s => ∃ ts, List.Forall₂ (fun x t => t = mk x t.id) xs ts ∧
        r = .ok ts ∧ s = ts.map fun t => .drew t.id := by
    apply (emits_mapM' xs fun x _ => hf x).mono
    intro r s h
    obtain ⟨ts,hts,hs⟩ := h
    obtain ⟨hall,hr⟩ := hts.total
    exact ⟨ts, hall, by simpa using hr, by rw [hs, List.map_eq_flatMap]⟩
  unfold assembleTestSteps
  apply (hloop _ _ _ emits_assembleHookStep).bind_ok (by simp)
  intro beforeSteps s h
  obtain ⟨_,hbefore,hr,rfl⟩ := h
  cases hr
  apply (hloop _ _ _ (emits_assembleStep supportCodeLibrary)).bind_ok (by simp)
  intro steps s h
  obtain ⟨_,hsteps,hr,rfl⟩ := h
  cases hr
  apply (hloop _ _ _ emits_assembleHookStep).bind_ok (by simp)
  intro afterSteps s h
  obtain ⟨_,hafter,hr,rfl⟩ := h
  cases hr
  apply emits_pure
  exact ⟨beforeSteps, steps, afterSteps, ⟨hbefore, hsteps, hafter⟩, rfl, by simp⟩

/-- The loop state after these announcements. -/
structure AssembledSoFar.Holds (soFar : AssembledSoFar) (as : List Announcement) : Prop where
  testUris : soFar.testUris = keysOf Announcement.uri as
  find? : ∀ uri, soFar.assembledTestSuiteMap.find? uri = suiteOf as uri

theorem AssembledSoFar.ensureSuite_testUris (soFar : AssembledSoFar) (d : GherkinDocument) :
    (soFar.ensureSuite d).testUris = if soFar.assembledTestSuiteMap.contains d.uri then
      soFar.testUris else soFar.testUris ++ [d.uri] := by
  unfold AssembledSoFar.ensureSuite
  split_ifs <;> rfl

/-- Whether or not the file is new, its suite is there afterwards. -/
theorem AssembledSoFar.ensureSuite_find? (soFar : AssembledSoFar) (d : GherkinDocument)
    (uri : String) : (soFar.ensureSuite d).assembledTestSuiteMap.find? uri =
      if uri = d.uri then
        some ((soFar.assembledTestSuiteMap.find? d.uri).getD { gherkinDocument := d })
      else soFar.assembledTestSuiteMap.find? uri := by
  unfold AssembledSoFar.ensureSuite
  by_cases hc : soFar.assembledTestSuiteMap.contains d.uri = true
  · rw [if_pos hc]
    obtain ⟨suite,hs⟩ := Option.isSome_iff_exists.mp hc
    by_cases huri : uri = d.uri
    · simp [huri, hs]
    · simp [huri]
  · rw [if_neg hc, Map.find?_tryEmplace]

theorem AssembledSoFar.Holds.addTestCase {soFar : AssembledSoFar} {as : List Announcement}
    (h : soFar.Holds as) (a : Announcement) :
    ∃ soFar', (soFar.ensureSuite a.source.gherkinDocument).addTestCase a.uri a.assembled =
      .ok soFar' ∧ AssembledSoFar.Holds soFar' (as ++ [a]) := by
  have hfind (uri : String) : (soFar.ensureSuite
      a.source.gherkinDocument).assembledTestSuiteMap.find? uri = if uri = a.uri then
        some ((suiteOf as a.uri).getD { gherkinDocument := a.source.gherkinDocument })
      else suiteOf as uri := by
    rw [soFar.ensureSuite_find?, h.find?, h.find?]
    rfl
  have ha := hfind a.uri
  rw [if_pos rfl] at ha
  unfold AssembledSoFar.addTestCase
  rw [ha]
  refine ⟨_, rfl, ?_, ?_⟩
  · have hcontains : soFar.assembledTestSuiteMap.contains a.uri = true ↔
        a.uri ∈ as.map Announcement.uri := by
      rw [Map.contains, h.find?, Option.isSome_iff_ne_none, ne_eq, suiteOf_eq_none_iff, not_not,
        mem_keysOf, List.mem_map]
    rw [keysOf_concat, ← h.testUris]
    refine (soFar.ensureSuite_testUris a.source.gherkinDocument).trans ?_
    exact if_congr hcontains rfl rfl
  · intro uri
    rw [Map.find?_insertOrAssign, hfind, suiteOf_concat]
    split_ifs <;> rfl

theorem emits_assemblePickle (supportCodeLibrary : SupportCodeLibrary) (testRunStartedId : String)
    (as : List Announcement) (soFar : AssembledSoFar) (source : PickleSource)
    (hsoFar : soFar.Holds as) :
    Emits (assemblePickle supportCodeLibrary testRunStartedId soFar source :
      Run idGenerator AssembledSoFar)
      fun r s => ∃ a soFar', a.source = source ∧
        AnnouncementRule supportCodeLibrary testRunStartedId a ∧
        AssembledSoFar.Holds soFar' (as ++ [a]) ∧ r = .ok soFar' ∧ s = a.log := by
  unfold assemblePickle
  apply emits_nextId_bind
  intro id
  apply (emits_assembleTestSteps supportCodeLibrary source.pickle).bind_ok (by simp)
  intro testSteps s h
  obtain ⟨beforeSteps,steps,afterSteps,hsteps,hr,rfl⟩ := h
  cases hr
  apply emits_broadcastEvent_bind
  let a : Announcement :=
    { source := source
      testCase :=
        { id := id
          pickleId := source.pickle.id
          testRunStartedId := some testRunStartedId
          testSteps := beforeSteps ++ steps ++ afterSteps } }
  have hrule : AnnouncementRule supportCodeLibrary testRunStartedId a :=
    ⟨rfl, rfl, _, _, _, rfl, hsteps⟩
  obtain ⟨soFar',hadd,hholds⟩ := hsoFar.addTestCase a
  apply emits_fromExcept
  exact ⟨a, soFar', rfl, hrule, hholds, hadd, by simp [a, Announcement.log]⟩

/-- Assembly never fails; it announces every pickle in turn and returns the suites. -/
theorem emits_assembleTestSuites (supportCodeLibrary : SupportCodeLibrary)
    (testRunStartedId : String) (sourcedPickles : List PickleSource) :
    Emits (assembleTestSuites supportCodeLibrary testRunStartedId sourcedPickles :
      Run idGenerator (List AssembledTestSuite))
      fun r s => ∃ as : List Announcement, as.map Announcement.source = sourcedPickles ∧
        (∀ a ∈ as, AnnouncementRule supportCodeLibrary testRunStartedId a) ∧
        r = .ok (suitesOf as) ∧ s = as.flatMap Announcement.log := by
  unfold assembleTestSuites
  have hempty : AssembledSoFar.Holds {} [] := ⟨rfl, fun _ => rfl⟩
  have hround (as : List Announcement) (soFar : AssembledSoFar) (source : PickleSource)
      (_ : source ∈ sourcedPickles) (h : soFar.Holds as) :
      Emits (assemblePickle supportCodeLibrary testRunStartedId soFar source :
        Run idGenerator AssembledSoFar) _ :=
    emits_assemblePickle supportCodeLibrary testRunStartedId as soFar source h
  have hloop := emits_foldlM_of_invariant Announcement.source Announcement.log
    (R := fun _ a => AnnouncementRule supportCodeLibrary testRunStartedId a)
    (I := fun as soFar => AssembledSoFar.Holds soFar as) sourcedPickles {} hempty hround
  apply hloop.bind_ok (by simp)
  intro assembled s h
  obtain ⟨as,_,hsources,hrule,hholds,hr,rfl⟩ := h
  cases hr
  -- every uri in the list has its suite in the map, so the lookup of the source succeeds
  have hpick (uri : String) (huri : uri ∈ assembled.testUris) : ∃ suite,
      suiteOf as uri = some suite ∧ assembled.assembledTestSuiteMap.find? uri = some suite := by
    rw [hholds.testUris] at huri
    obtain ⟨suite,hs⟩ := Option.ne_none_iff_exists'.mp
      fun h => (suiteOf_eq_none_iff as uri).mp h huri
    exact ⟨suite, hs, (hholds.find? uri).trans hs⟩
  apply Emits.mono (P := fun r s => ∃ suites,
    Collected (fun uri suite => suiteOf as uri = some suite) .ok assembled.testUris suites r ∧
      s = suites.flatMap fun _ => [])
  · apply emits_mapM'
    intro uri huri
    obtain ⟨suite,hs,hfind⟩ := hpick uri huri
    rw [hfind]
    exact emits_pure ⟨suite, hs, rfl, rfl⟩
  intro r s h
  obtain ⟨suites,hsuites,hs⟩ := h
  obtain ⟨hall,hr⟩ := hsuites.total
  have hsuites : suites = suitesOf as := by
    rw [hholds.testUris] at hall
    exact filterMap_eq_of_forall₂ hall
  refine ⟨as, hsources, fun a ha => ?_, ?_, ?_⟩
  · obtain ⟨_,_,_,ha⟩ := hrule.mem ha
    exact ha
  · simpa [hsuites] using hr
  · rw [hs, List.flatMap_eq_nil_iff.mpr fun _ _ => rfl]
    simp

/-- A test case that assembly returns, for some pickles and from some world. -/
def IsAssembled (idGenerator : IdGenerator) (supportCodeLibrary : SupportCodeLibrary)
    (assembled : AssembledTestCase) : Prop :=
  ∃ (testRunStartedId : String) (sourcedPickles : List PickleSource)
    (world : World idGenerator Event) (suites : List AssembledTestSuite),
    (run (assembleTestSuites supportCodeLibrary testRunStartedId sourcedPickles) world).1 =
      .ok suites ∧
    ∃ suite ∈ suites, assembled ∈ suite.testCases

theorem IsAssembled.announcement {supportCodeLibrary : SupportCodeLibrary}
    {assembled : AssembledTestCase} (h : IsAssembled idGenerator supportCodeLibrary assembled) :
    ∃ testRunStartedId a, AnnouncementRule supportCodeLibrary testRunStartedId a ∧
      a.assembled = assembled := by
  obtain ⟨testRunStartedId,sourcedPickles,world,suites,hrun,suite,hsuite,hmem⟩ := h
  obtain ⟨_,_,as,_,hrule,hr,_⟩ :=
    emits_assembleTestSuites supportCodeLibrary testRunStartedId sourcedPickles world
  rw [hrun] at hr
  cases hr
  have hmem' : assembled ∈ (suitesOf as).flatMap AssembledTestSuite.testCases :=
    List.mem_flatMap.mpr ⟨suite, hsuite, hmem⟩
  obtain ⟨a,ha,rfl⟩ := List.mem_map.mp ((suitesOf_perm as).mem_iff.mp hmem')
  exact ⟨testRunStartedId, a, hrule a ha, rfl⟩

/-- A step definition that matches every step and fails. -/
def stumblingLibrary : SupportCodeLibrary := .ofDefinitions [] [.constant "d" .failed]

/-- The test case assembled for a pickle with one step. -/
def stumblingCase : AssembledTestCase where
  pickle := { id := "p", name := "stumbling", steps := [{ id := "s", text := "a step" }] }
  testCase :=
    { id := "0"
      pickleId := "p"
      testRunStartedId := some "run"
      testSteps := [{ id := "1"
                      pickleStepId := some "s"
                      stepDefinitionIds := some ["d"]
                      stepMatchArgumentsLists := some [{}] }] }

theorem isAssembled_stumblingCase : IsAssembled decimalIds stumblingLibrary stumblingCase :=
  ⟨"run", [⟨stumblingCase.pickle, { uri := "a.feature" }⟩], World.start _ _, _, rfl, _,
    List.mem_singleton_self _, List.mem_singleton_self _⟩

end CucumberCpp
