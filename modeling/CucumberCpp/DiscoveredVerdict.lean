import CucumberCpp.CallReferences
import CucumberCpp.DiscoveredTests
import CucumberCpp.Sharding

/-! The tests that are discovered, each in a process of its own, against one call that runs
all scenarios. -/
namespace CucumberCpp

open EventLog OrderedMap Cmake

variable {idGenerator : IdGenerator}

/-- The result of a definition's bodies does not depend on the ids they are given. -/
def DefinitionRegistration.Entry.Independent : Entry → Prop
  | .hook entry => ∀ args started,
      (entry.factory { args with stepOrHookStarted := started }).result =
        (entry.factory args).result
  | .step entry => ∀ args started,
      (entry.factory { args with stepOrHookStarted := started }).result =
        (entry.factory args).result

theorem DefinitionRegistration.Entry.Independent.of_renamed {e e' : Entry} (h : e.Independent)
    (hrenamed : Renamed e e') : e'.Independent := by
  rw [hrenamed]
  cases e <;> exact h

namespace Api

variable {d : Dependencies} {registered : Registered} {options : RunOptions}

theorem RunPhase.Rule.independent {ordered : List LoadedPickle} {p : RunPhase}
    (h : p.Rule d registered options ordered)
    (hindep : ∀ e ∈ registered.registration.entries, e.Independent) :
    p.loaded.library.Independent := by
  have hloaded : ∀ e ∈ p.loaded.registration.entries, e.Independent := by
    intro e he
    obtain ⟨e',he',hrenamed⟩ := exists_left_of_forall₂ h.renamed he
    exact (hindep e' he').of_renamed hrenamed
  constructor
  · intro id definition hd
    obtain ⟨entry,hentry,rfl⟩ := h.hook_of_getDefinitionById hd
    exact hloaded _ hentry
  · intro id definition hd
    obtain ⟨entry,hentry,hfactory⟩ := h.step_of_getDefinitionById hd
    rw [hfactory]
    exact hloaded _ hentry

/-- These options but for the arguments of `--name`. -/
def RunOptions.named (options : RunOptions) (nameRegexes : List Text) : RunOptions :=
  { options with sources := { options.sources with nameRegexes := nameRegexes } }

/-- Whatever pickles are run after them, the support code is loaded in the same way. -/
theorem exists_loaded (d : Dependencies) (registered : Registered) (options : RunOptions)
    (world : World idGenerator ApiEvent) :
    ∃ loaded : LoadedSupportCode, ∀ ordered, ∃ p : RunPhase, p.loaded = loaded ∧
      p.Rule d registered options ordered ∧
      (run (emitAndRun d registered options ordered) world).1 = p.report.outcome := by
  have hsupport : Emits (relabel ApiEvent.ofRun _
      (appends_emitSupportCodeMessages d registered) : ApiRun idGenerator _) _ :=
    (emits_emitSupportCodeMessages _ _ _ _).relabel
  obtain ⟨_,_,_,⟨types,loaded,supportCode,hr,_,hrenamed,hhooks,hagrees⟩,_⟩ := hsupport world
  refine ⟨loaded, fun ordered => ?_⟩
  unfold emitAndRun
  rw [run_bind]
  generalize run (relabel _ _ _) world = q at hr
  obtain ⟨r,world'⟩ := q
  obtain rfl : r = .ok (loaded,supportCode) := hr
  dsimp only
  obtain ⟨_,_,hsaid,_⟩ :=
    emits_sayAll (F := Fault) (supportCode.map fun m => ApiEvent.broadcast (.supportCode m)) world'
  rw [run_bind]
  generalize run (sayAll _) world' = q at hsaid
  obtain ⟨r',world''⟩ := q
  obtain rfl : r' = .ok () := hsaid
  dsimp only
  have hruntime : Emits (relabel ApiEvent.ofRun _ (appends_makeRuntimeAndRun options
      (ordered.map LoadedPickle.toPickleSource) loaded.library) : ApiRun idGenerator _) _ :=
    (emits_makeRuntimeAndRun _ _ _).relabel
  obtain ⟨_,_,_,⟨testRunStartedId,report,hrun,hreport,_⟩,_⟩ := hruntime world''
  exact ⟨⟨types, loaded, supportCode, testRunStartedId, report⟩, rfl,
    ⟨hrenamed, hhooks, hagrees, hrun⟩, hreport⟩

/-- What listing the scenarios and running them have found in the same files. -/
structure Listed (d : Dependencies) (sources : Sources) (scenarios : List Text)
    (pickleSources : List LoadedPickle) (uniqueNames : Map String Text) (sent : List Message) :
    Prop where
  ids : (pickleSources.map fun source => source.pickle.id).Nodup
  named : makeUniqueTestNames (d.findLineageBy sent) (pickleSources.map LoadedPickle.pickle) =
    some uniqueNames
  listed : listScenarios (d.findLineageBy sent) (pickleSources.map LoadedPickle.pickle) =
    some scenarios

/-- Calls that differ in their name patterns run parts of the same pickles with the same
support code. -/
theorem exists_runs (hgherkin : d.gherkin.Documented) (registered : Registered)
    (options : RunOptions) (world : World idGenerator ApiEvent) {scenarios : List Text}
    (hscenarios : (run (listSources d.gherkin d.findLineageBy options.sources) world).1 =
      .ok (some scenarios)) :
    ∃ pickleSources uniqueNames sent loaded,
      Listed d options.sources scenarios pickleSources uniqueNames sent ∧
      ∀ nameRegexes strategies,
        (createNameRegexStrategies d.createRegexStrategy nameRegexes).1 = some strategies →
        ∃ p : RunPhase, p.loaded = loaded ∧ p.Rule d registered options
            (orderSources options.sources.ordering
              (pickleSources.filter (nameSelects strategies uniqueNames))) ∧
          (run (runCucumber d registered (options.named nameRegexes)) world).1 =
            p.report.outcome := by
  obtain ⟨s,_,⟨r,⟨files,hfiles,h⟩,hr⟩,hnodup⟩ :=
    emits_drawn_nodup (emits_loadPickles hgherkin options.sources).listen world
  unfold listSources at hscenarios
  rw [run_bind] at hscenarios
  generalize hload : run (listen (loadPickles d.gherkin options.sources)) world = q
    at hr hscenarios
  obtain ⟨_,world'⟩ := q
  obtain rfl := hr
  rcases h with ⟨_,_,_,_,_,rfl,_⟩ | ⟨_,⟨_,rfl,_⟩ | ⟨_,rfl,rfl⟩⟩
  · cases hscenarios
  · cases hscenarios
  have hids := pickleIds_nodup hgherkin hfiles hnodup options.sources
  let pickleSources := (files.flatMap FileRun.pickles).filter options.sources.selects
  let sent := (events (files.flatMap FileRun.log)).filterMap ApiEvent.message?
  obtain ⟨uniqueNames,hnames,_⟩ := orderedPickles_eq d options [] hids sent
  obtain ⟨loaded,hruns⟩ := exists_loaded d registered options world'
  refine ⟨pickleSources, uniqueNames, sent, loaded, ⟨hids, hnames, ?_⟩, ?_⟩
  · dsimp only [Except.map] at hscenarios
    cases hlisted : listScenarios (d.findLineageBy sent)
        (pickleSources.map LoadedPickle.pickle) with
    | none =>
      rw [hlisted] at hscenarios
      cases hscenarios
    | some scenarios' =>
      rw [hlisted] at hscenarios
      obtain rfl := Option.some.inj (Except.ok.inj hscenarios)
      rfl
  · intro nameRegexes strategies hstrategies
    obtain ⟨p,hloaded,hrule,houtcome⟩ := hruns (orderSources options.sources.ordering
      (pickleSources.filter (nameSelects strategies uniqueNames)))
    refine ⟨p, hloaded, hrule, ?_⟩
    obtain ⟨uniqueNames',hnames',hordered⟩ := orderedPickles_eq d options strategies hids sent
    obtain rfl : uniqueNames' = uniqueNames := Option.some.inj (hnames'.symm.trans hnames)
    rw [runCucumber_eq d registered (options.named nameRegexes) hstrategies, loadAndRun, run_bind,
      show loadPickles d.gherkin (options.named nameRegexes).sources =
        (loadPickles d.gherkin options.sources : ApiRun idGenerator _) from rfl, hload]
    dsimp only [Except.map]
    rw [show orderedPickles d strategies (options.named nameRegexes).sources pickleSources sent =
      orderedPickles d strategies options.sources pickleSources sent from rfl, hordered]
    exact houtcome

/-- The line that lists a pickle. -/
def listingLine (uniqueNames : Map String Text) (source : LoadedPickle) : Text :=
  formatScenario ((uniqueNames.find? source.pickle.id).getD []) source.pickle

theorem listingLine_eq {uniqueNames : Map String Text} {source : LoadedPickle} {u : Text}
    (hu : uniqueNames.find? source.pickle.id = some u) :
    listingLine uniqueNames source = u ++ afterName source.pickle := by
  rw [listingLine, hu, Option.getD_some, formatScenario_eq]

/-- The script recovers the name from a line of the listing. -/
def LineRecoverable (scenario : Text) : Prop :=
  Recoverable (scenario.takeWhile (· ≠ '\t')) (scenario.dropWhile (· ≠ '\t'))

theorem exists_discovered {u rest : Text} (hu : SingleField u)
    (hrest : rest = [] ∨ ∃ field, rest = '\t' :: field) (h : LineRecoverable (u ++ rest)) :
    ∃ test, discoverTests (u ++ rest ++ ['\n']) = [test] ∧ test.testName = u := by
  have hfield : ∀ c ∈ u, decide (c ≠ '\t') = true := by
    intro c hc
    exact decide_eq_true fun heq => hu.tab_not_mem (heq ▸ hc)
  have htake : (u ++ rest).takeWhile (· ≠ '\t') = u := by
    rw [List.takeWhile_append_of_pos hfield]
    rcases hrest with rfl | ⟨field,rfl⟩ <;> simp
  have hdrop : (u ++ rest).dropWhile (· ≠ '\t') = rest := by
    rw [List.dropWhile_append_of_pos hfield]
    rcases hrest with rfl | ⟨field,rfl⟩ <;> simp
  unfold LineRecoverable at h
  rw [htake, hdrop] at h
  exact (discoverTests_iff hu hrest).mpr h

namespace Listed

variable {sources : Sources} {scenarios : List Text} {pickleSources : List LoadedPickle}
  {uniqueNames : Map String Text} {sent : List Message}

theorem exists_name (h : Listed d sources scenarios pickleSources uniqueNames sent)
    {source : LoadedPickle} (hsource : source ∈ pickleSources) :
    ∃ u, uniqueNames.find? source.pickle.id = some u ∧ SingleField u := by
  have hids : ((pickleSources.map LoadedPickle.pickle).map fun p => p.id).Nodup := by
    rw [List.map_map]
    exact h.ids
  obtain ⟨uniqueNames',hnames,hnamed⟩ := exists_makeUniqueTestNames (d.findLineageBy sent) hids
  obtain rfl : uniqueNames' = uniqueNames := Option.some.inj (hnames.symm.trans h.named)
  exact hnamed.named source.pickle (List.mem_map_of_mem hsource)

theorem scenarios_eq (h : Listed d sources scenarios pickleSources uniqueNames sent) :
    scenarios = pickleSources.map (listingLine uniqueNames) := by
  have hlisted := h.listed
  unfold listScenarios at hlisted
  rw [h.named, Option.bind_eq_bind, Option.bind_some] at hlisted
  have hmap : (pickleSources.map LoadedPickle.pickle).mapM (fun pickle => do
      let testName ← uniqueNames.find? pickle.id
      pure (formatScenario testName pickle)) = some ((pickleSources.map LoadedPickle.pickle).map
        fun pickle => formatScenario ((uniqueNames.find? pickle.id).getD []) pickle) := by
    apply mapM_eq_some_map
    intro pickle hpickle
    obtain ⟨source,hsource,rfl⟩ := List.mem_map.mp hpickle
    obtain ⟨u,hu,_⟩ := h.exists_name hsource
    simp [hu]
  rw [hmap, List.map_map] at hlisted
  exact (Option.some.inj hlisted).symm

/-- Each scenario is found as one test, under the name that it was listed with. -/
theorem exists_test (h : Listed d sources scenarios pickleSources uniqueNames sent)
    (hrecoverable : ∀ scenario ∈ scenarios, LineRecoverable scenario) {source : LoadedPickle}
    (hsource : source ∈ pickleSources) :
    ∃ test, discoverTests (listingLine uniqueNames source ++ ['\n']) = [test] ∧
      uniqueNames.find? source.pickle.id = some test.testName ∧ SingleField test.testName := by
  obtain ⟨u,hu,hfield⟩ := h.exists_name hsource
  have hscenario : u ++ afterName source.pickle ∈ scenarios := by
    rw [h.scenarios_eq]
    exact List.mem_map.mpr ⟨source, hsource, listingLine_eq hu⟩
  obtain ⟨test,htest,rfl⟩ := exists_discovered hfield (afterName_field source.pickle)
    (hrecoverable _ hscenario)
  refine ⟨test, ?_, hu, hfield⟩
  rw [listingLine_eq hu, htest]

theorem discovered_iff (h : Listed d sources scenarios pickleSources uniqueNames sent)
    (hrecoverable : ∀ scenario ∈ scenarios, LineRecoverable scenario) {test : DiscoveredTest} :
    test ∈ discoverTests (listing scenarios) ↔ ∃ source ∈ pickleSources,
      discoverTests (listingLine uniqueNames source ++ ['\n']) = [test] := by
  have htests : discoverTests (listing scenarios) = pickleSources.flatMap fun source =>
      discoverTests (listingLine uniqueNames source ++ ['\n']) := by
    rw [discoverTests_listing, h.scenarios_eq, List.flatMap_map]
  rw [htests, List.mem_flatMap]
  apply exists_congr
  intro source
  apply and_congr_right
  intro hsource
  obtain ⟨test',htest',_⟩ := h.exists_test hrecoverable hsource
  rw [htest', List.mem_singleton, List.singleton_inj, eq_comm]

end Listed

/-- The strategy of a discovered test matches the name of the test. -/
theorem exists_strategy {create : Text → Except Text (Text → Bool)}
    (hcreate : MatchesLiterals create) {output : Text} {test : DiscoveredTest}
    (htest : test ∈ discoverTests output) (hsingle : SingleLine test.testName) :
    ∃ strategy : Text → Bool,
      (createNameRegexStrategies create [test.nameFilter]).1 = some [strategy] ∧
        strategy test.testName = true := by
  obtain ⟨strategy,hstrategy,hmatches⟩ := hcreate test.testName hsingle
  refine ⟨strategy, ?_, (hmatches _ hsingle).mpr rfl⟩
  rw [discoverTests_nameFilter htest, createNameRegexStrategies_singleton hstrategy]

/-- Calls that load the same support code, and together run the pickles of another one. -/
theorem RunPhase.Rule.outcome_iff {ι : Type} [Nonempty ι]
    (hindep : ∀ e ∈ registered.registration.entries, e.Independent)
    (hoff : options.runtime.featureHooks = false)
    (hfast : options.runtime.failGlobalHookFast = false) {ordered : List LoadedPickle}
    {p : RunPhase} (hrule : p.Rule d registered options ordered)
    {parts : ι → RunPhase} {orderedParts : ι → List LoadedPickle}
    (hparts : ∀ i, (parts i).Rule d registered options (orderedParts i))
    (hloaded : ∀ i, (parts i).loaded = p.loaded)
    (hcover : ∀ source, source ∈ ordered ↔ ∃ i, source ∈ orderedParts i) :
    p.report.outcome = .ok true ↔ ∀ i, (parts i).report.outcome = .ok true := by
  have hsources : ∀ source, source ∈ ordered.map LoadedPickle.toPickleSource ↔
      ∃ i, source ∈ (orderedParts i).map LoadedPickle.toPickleSource := by
    intro source
    simp only [List.mem_map, hcover]
    constructor
    · rintro ⟨loaded,⟨i,hi⟩,rfl⟩
      exact ⟨i, loaded, hi, rfl⟩
    · rintro ⟨i,loaded,hi,rfl⟩
      exact ⟨loaded, ⟨i, hi⟩, rfl⟩
  by_cases haccepted : options.runtime.Accepted
  · have hrunRule {p' : RunPhase} {sources : List PickleSource}
        (h : (p'.worker options).RunsOrRefuses sources p'.report) :
        (p'.worker options).RunRule sources p'.report := by
      rcases h with ⟨_,hrun⟩ | ⟨hnot,_⟩
      · exact hrun
      · exact absurd haccepted hnot
    have hmatches : ∀ i, (p.worker options).Matches ((parts i).worker options) := fun i =>
      ⟨congrArg LoadedSupportCode.library (hloaded i), options.runtime.failFast, rfl⟩
    exact (hrunRule hrule.run).success_iff_shards (hrule.independent hindep) hoff hfast hmatches
      (fun i => hrunRule (hparts i).run) hsources
  · have hrefused {p' : RunPhase} {sources : List PickleSource}
        (h : (p'.worker options).RunsOrRefuses sources p'.report) :
        p'.report.outcome ≠ .ok true := by
      rcases h with ⟨hok,_⟩ | ⟨_,e,he⟩
      · exact absurd hok haccepted
      · simp [he, RunReport.refused]
    obtain ⟨i⟩ := ‹Nonempty ι›
    exact iff_of_false (hrefused hrule.run) fun hall => hrefused (hparts i).run (hall i)

/-- CTest runs each discovered test in a process of its own, with the name filter of the test.
If the names are recovered from the listing, feature hooks are off, a failing global hook does
not end a run at once and user code does not look at generated ids, then all tests pass exactly
when one call for all scenarios succeeds. -/
theorem discovered_tests_verdict (hgherkin : d.gherkin.Documented)
    (hcreate : MatchesLiterals d.createRegexStrategy)
    (hindep : ∀ e ∈ registered.registration.entries, e.Independent)
    (hoff : options.runtime.featureHooks = false)
    (hfast : options.runtime.failGlobalHookFast = false)
    (world : World idGenerator ApiEvent) {scenarios : List Text}
    (hscenarios : (run (listSources d.gherkin d.findLineageBy options.sources) world).1 =
      .ok (some scenarios))
    (hne : scenarios ≠ []) (hrecoverable : ∀ scenario ∈ scenarios, LineRecoverable scenario) :
    (run (runCucumber d registered (options.named [])) world).1 = .ok true ↔
      ∀ test ∈ discoverTests (listing scenarios),
        (run (runCucumber d registered (options.named [test.nameFilter])) world).1 =
          .ok true := by
  obtain ⟨pickleSources,uniqueNames,sent,loaded,hlisted,hruns⟩ :=
    exists_runs hgherkin registered options world hscenarios
  have hnames {test : DiscoveredTest} (htest : test ∈ discoverTests (listing scenarios)) :
      ∃ source ∈ pickleSources, uniqueNames.find? source.pickle.id = some test.testName ∧
        SingleField test.testName := by
    obtain ⟨source,hsource,hline⟩ := (hlisted.discovered_iff hrecoverable).mp htest
    obtain ⟨test',hline',hname⟩ := hlisted.exists_test hrecoverable hsource
    obtain rfl := List.singleton_injective (hline.symm.trans hline')
    exact ⟨source, hsource, hname⟩
  have hstrategy (i : {test // test ∈ discoverTests (listing scenarios)}) :
      ∃ strategy : Text → Bool, (createNameRegexStrategies d.createRegexStrategy
        [i.1.nameFilter]).1 = some [strategy] ∧ strategy i.1.testName = true := by
    obtain ⟨_,_,_,hfield⟩ := hnames i.2
    exact exists_strategy hcreate i.2 hfield.singleLine
  choose strategy hstrategies hselects using hstrategy
  obtain ⟨p,hloaded,hrule,houtcome⟩ := hruns [] [] rfl
  have hpart (i : {test // test ∈ discoverTests (listing scenarios)}) :=
    hruns [i.1.nameFilter] [strategy i] (hstrategies i)
  choose part hpartLoaded hpartRule hpartOutcome using hpart
  have hnonempty : Nonempty {test // test ∈ discoverTests (listing scenarios)} := by
    obtain ⟨scenario,hscenario⟩ := List.exists_mem_of_ne_nil scenarios hne
    rw [hlisted.scenarios_eq] at hscenario
    obtain ⟨source,hsource,_⟩ := List.mem_map.mp hscenario
    obtain ⟨test,hline,_⟩ := hlisted.exists_test hrecoverable hsource
    exact ⟨⟨test, (hlisted.discovered_iff hrecoverable).mpr ⟨source, hsource, hline⟩⟩⟩
  -- every pickle passes the filter of its own test, whatever else that filter lets through
  have hcover : ∀ source, source ∈ orderSources options.sources.ordering
        (pickleSources.filter (nameSelects [] uniqueNames)) ↔
      ∃ i, source ∈ orderSources options.sources.ordering
        (pickleSources.filter (nameSelects [strategy i] uniqueNames)) := by
    intro source
    simp only [mem_orderSources, List.mem_filter]
    constructor
    · rintro ⟨hsource,_⟩
      obtain ⟨test,hline,hname,_⟩ := hlisted.exists_test hrecoverable hsource
      have htest : test ∈ discoverTests (listing scenarios) :=
        (hlisted.discovered_iff hrecoverable).mpr ⟨source, hsource, hline⟩
      refine ⟨⟨test, htest⟩, hsource, ?_⟩
      simp [nameSelects, hname, hselects ⟨test, htest⟩]
    · rintro ⟨_,hsource,_⟩
      exact ⟨hsource, rfl⟩
  have hiff := hrule.outcome_iff hindep hoff hfast hpartRule
    (fun i => (hpartLoaded i).trans hloaded.symm) hcover
  rw [houtcome, hiff, Subtype.forall]
  apply forall₂_congr
  intro test htest
  rw [hpartOutcome ⟨test, htest⟩]

/-- Two files with one scenario each; the second is named like the first in full. -/
def shadowGherkin : Gherkin where
  slurp := fun _ => .ok "passes"
  parse := fun uri _ _ => (1,.ok { uri := uri })
  compile := fun _ uri names => (2,
    [{ id := names 1
       name := if uri = "a.feature" then "B" else "A.B"
       steps := [{ id := names 0, text := "passes" }]
       uri := uri
       location := none }])

def shadowDependencies : Dependencies :=
  { stepDependencies with
    gherkin := shadowGherkin
    createRegexStrategy := literalEngine
    findLineageBy := fun _ pickle =>
      some { feature := some (if pickle.uri = "a.feature" then "A" else "C") } }

def shadowOptions : RunOptions where
  sources := { paths := ["a.feature", "c.feature"] }

theorem shadowGherkin_documented : shadowGherkin.Documented where
  ids := fun _ _ names => (List.Perm.swap (names 0) (names 1) []).subperm
  errors := by simp [shadowGherkin]

def shadowScenarios : List Text := ["A.B\ta.feature".toList, "C.A.B\tc.feature".toList]

theorem lineRecoverable_shadowScenarios :
    ∀ scenario ∈ shadowScenarios, LineRecoverable scenario := by
  have hline {scenario u rest : Text} (hu : scenario.takeWhile (· ≠ '\t') = u)
      (hrest : scenario.dropWhile (· ≠ '\t') = rest) (h : Recoverable u rest) :
      LineRecoverable scenario := by
    rw [LineRecoverable, hu, hrest]
    exact h
  intro scenario hscenario
  rcases List.mem_pair.mp hscenario with rfl | rfl
  · apply hline (show _ = "A.B".toList by decide) (show _ = "\ta.feature".toList by decide)
    exact
      { nonempty := by simp
        front := by simp [isSpace]
        back := fun h => absurd (h 'a' (by simp)) (by decide)
        blank := by simp [isLineBreak] }
  · apply hline (show _ = "C.A.B".toList by decide) (show _ = "\tc.feature".toList by decide)
    exact
      { nonempty := by simp
        front := by simp [isSpace]
        back := fun h => absurd (h 'c' (by simp)) (by decide)
        blank := by simp [isLineBreak] }

/-- The filter of the first test selects both scenarios. The whole call succeeds, so both
tests pass. -/
theorem discovered_tests_verdict_shadowed :
    discoverTests (listing shadowScenarios) =
      [addTest "A.B".toList "a.feature".toList, addTest "C.A.B".toList "c.feature".toList] ∧
    ((discoverTests (listing shadowScenarios)).map fun test =>
      (userCalls (run (runCucumber shadowDependencies stepRegistered
        (shadowOptions.named [test.nameFilter])) (World.start decimalIds ApiEvent)).2.log).length) =
      [2, 1] ∧
    ∀ test ∈ discoverTests (listing shadowScenarios),
      (run (runCucumber shadowDependencies stepRegistered (shadowOptions.named [test.nameFilter]))
        (World.start decimalIds ApiEvent)).1 = .ok true := by
  have hall : (run (runCucumber shadowDependencies stepRegistered (shadowOptions.named []))
      (World.start decimalIds ApiEvent)).1 = .ok true := by decide +kernel
  have hscenarios : (run (listSources shadowGherkin shadowDependencies.findLineageBy
      shadowOptions.sources) (World.start decimalIds ApiEvent)).1 = .ok (some shadowScenarios) := by
    decide +kernel
  have hindep : ∀ e ∈ stepRegistered.registration.entries, e.Independent := by
    intro e he
    obtain rfl := List.mem_singleton.mp he
    exact fun _ _ => rfl
  have hverdict := discovered_tests_verdict (d := shadowDependencies) shadowGherkin_documented
    matchesLiterals_literalEngine hindep rfl rfl (World.start decimalIds ApiEvent) hscenarios
    (by simp [shadowScenarios]) lineRecoverable_shadowScenarios
  exact ⟨by decide +kernel, by decide +kernel, hverdict.mp hall⟩

end Api

end CucumberCpp
