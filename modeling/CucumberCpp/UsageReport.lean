import CucumberCpp.UsageFormatter

/-! What the usage report lists, and how it is sorted. -/
namespace CucumberCpp

open OrderedMap StableSort

namespace UsageFormatter

section Comparators

/-- An absent duration comes after all others, a long one before a short one. -/
def durationKey : Option Nanoseconds → (WithBot ℤ)ᵒᵈ
  | none => OrderDual.toDual ⊥
  | some duration => OrderDual.toDual (duration.toInt : WithBot ℤ)

theorem durationKey_injective : Function.Injective durationKey := by
  intro a b h
  have hbot := OrderDual.toDual.injective h
  cases a with
  | none =>
    cases b with
    | none => rfl
    | some b => exact absurd hbot WithBot.bot_ne_coe
  | some a =>
    cases b with
    | none => exact absurd hbot WithBot.coe_ne_bot
    | some b => exact congrArg some (Int64.toInt_inj.mp (WithBot.coe_injective hbot))

theorem greater_iff (lhs rhs : Option Nanoseconds) :
    greater lhs rhs = true ↔ durationKey lhs < durationKey rhs := by
  cases lhs with
  | none =>
    refine iff_of_false (by simp [greater]) fun h => ?_
    exact not_lt_bot (OrderDual.toDual_lt_toDual.mp h)
  | some lhs =>
    cases rhs with
    | none => exact iff_of_true rfl (OrderDual.toDual_lt_toDual.mpr (WithBot.bot_lt_coe _))
    | some rhs =>
      unfold durationKey greater
      rw [decide_eq_true_iff, OrderDual.toDual_lt_toDual, WithBot.coe_lt_coe]
      exact Int64.lt_iff_toInt_lt

def usageKey (usage : Usage) : Bool ×ₗ (WithBot ℤ)ᵒᵈ ×ₗ String ×ₗ ℕ :=
  toLex (usage.found.isEmpty,toLex (durationKey usage.meanDuration,toLex (usage.uri,usage.line)))

def matchKey (m : UsageMatch) : (WithBot ℤ)ᵒᵈ ×ₗ String ×ₗ ℕ ×ₗ String :=
  toLex (durationKey m.duration,toLex (m.uri,toLex (m.line,m.text)))

/-- Durations decide, and where they are equal something else does. -/
theorem duration_before_iff {κ : Type} [LinearOrder κ] (a b : Option Nanoseconds) (x y : κ) :
    (if a = b then decide (x < y) else greater a b) = true ↔
      toLex (durationKey a,x) < toLex (durationKey b,y) := by
  rw [Prod.Lex.toLex_lt_toLex]
  split_ifs with heq
  · simp [heq]
  · simp [greater_iff, durationKey_injective.ne heq]

theorem usageBefore_iff (lhs rhs : Usage) :
    usageBefore lhs rhs = true ↔ usageKey lhs < usageKey rhs := by
  have hduration := duration_before_iff lhs.meanDuration rhs.meanDuration
    (toLex (lhs.uri,lhs.line)) (toLex (rhs.uri,rhs.line))
  unfold usageKey
  rw [Prod.Lex.toLex_lt_toLex, ← hduration]
  unfold usageBefore
  cases lhs.found.isEmpty <;> cases rhs.found.isEmpty <;> simp

theorem matchBefore_iff (lhs rhs : UsageMatch) :
    matchBefore lhs rhs = true ↔ matchKey lhs < matchKey rhs :=
  duration_before_iff lhs.duration rhs.duration _ _

instance : IsStrictWeakOrder Usage fun lhs rhs => usageBefore lhs rhs = true :=
  isStrictWeakOrder_of_key usageKey usageBefore_iff

instance : IsStrictWeakOrder UsageMatch fun lhs rhs => matchBefore lhs rhs = true :=
  isStrictWeakOrder_of_key matchKey matchBefore_iff

end Comparators

section Mean

theorem le_tdiv {c s : ℤ} {n : ℕ} (hn : 0 < n) (h : c*n ≤ s) : c ≤ s.tdiv n := by
  have hn' : (0 : ℤ) < n := by exact_mod_cast hn
  have hfloor : c ≤ s/n := (Int.le_ediv_iff_mul_le hn').mpr h
  rw [Int.tdiv_eq_ediv]
  split_ifs
  · omega
  · rw [Int.sign_eq_one_of_pos hn']
    omega

theorem tdiv_le {c s : ℤ} {n : ℕ} (hn : 0 < n) (h : s ≤ c*n) : s.tdiv n ≤ c := by
  have hneg : -c ≤ (-s).tdiv n := le_tdiv hn (by linarith)
  rw [Int.neg_tdiv] at hneg
  omega

variable {durations : List Nanoseconds}

/-- The sum, where it is one that can be represented. -/
def total (durations : List Nanoseconds) : ℤ := (durations.map Int64.toInt).sum

/-- The total can be represented. -/
def Fits (durations : List Nanoseconds) : Prop :=
  -2^63 ≤ total durations ∧ total durations < 2^63

theorem toInt_foldl_add (d : Nanoseconds) :
    (durations.foldl (· + ·) d).toInt = (d.toInt+total durations).bmod (2^64) := by
  induction durations generalizing d with
  | nil => simp [total]
  | cons d' durations ih =>
    rw [List.foldl_cons, ih, Int64.toInt_add, Int.bmod_add_bmod, add_assoc]
    rfl

theorem toInt_sum (h : Fits durations) : (durations.foldl (· + ·) 0).toInt = total durations := by
  obtain ⟨hlow,hhigh⟩ := h
  rw [toInt_foldl_add, Int64.toInt_zero, zero_add]
  exact Int.bmod_eq_of_le (by omega) (by omega)

theorem exists_le_mean (hne : durations ≠ []) :
    ∃ d ∈ durations, d.toInt ≤ (total durations).tdiv durations.length := by
  by_contra hnot
  push Not at hnot
  have hsum : ((total durations).tdiv durations.length+1)*durations.length ≤ total durations := by
    have hcard := List.card_nsmul_le_sum (durations.map Int64.toInt)
      ((total durations).tdiv durations.length+1) (by
        rintro x hx
        obtain ⟨d,hd,rfl⟩ := List.mem_map.mp hx
        exact hnot d hd)
    rwa [List.length_map, nsmul_eq_mul, mul_comm] at hcard
  have hle := le_tdiv (List.length_pos_iff.mpr hne) hsum
  omega

theorem exists_mean_le (hne : durations ≠ []) :
    ∃ d ∈ durations, (total durations).tdiv durations.length ≤ d.toInt := by
  by_contra hnot
  push Not at hnot
  have hsum : total durations ≤ ((total durations).tdiv durations.length-1)*durations.length := by
    have hcard := List.sum_le_card_nsmul (durations.map Int64.toInt)
      ((total durations).tdiv durations.length-1) (by
        rintro x hx
        obtain ⟨d,hd,rfl⟩ := List.mem_map.mp hx
        have hlt := hnot d hd
        omega)
    rwa [List.length_map, nsmul_eq_mul, mul_comm] at hcard
  have hle := tdiv_le (List.length_pos_iff.mpr hne) hsum
  omega

/-- The durations of the matches that were executed. -/
def executed (found : List UsageMatch) : List Nanoseconds := found.filterMap fun m => m.duration

theorem calculateMeanDuration_eq {found : List UsageMatch} (hne : executed found ≠ [])
    (hfits : Fits (executed found)) : calculateMeanDuration found =
      some (.ofInt ((total (executed found)).tdiv (executed found).length)) := by
  have hfound : found.isEmpty = false := by
    cases found with
    | nil => exact absurd rfl hne
    | cons m found => rfl
  have hlength : (executed found).length ≠ 0 := by
    rwa [ne_eq, List.length_eq_zero_iff]
  rw [← toInt_sum hfits]
  unfold calculateMeanDuration
  rw [hfound]
  exact if_neg hlength

/-- The mean of executed matches lies between two of their durations. -/
theorem mean_between {found : List UsageMatch} (hne : executed found ≠ [])
    (hfits : Fits (executed found)) :
    ∃ mean, calculateMeanDuration found = some mean ∧ (∃ d ∈ executed found, d ≤ mean) ∧
      ∃ d ∈ executed found, mean ≤ d := by
  obtain ⟨low,hlow,hle⟩ := exists_le_mean hne
  obtain ⟨high,hhigh,hge⟩ := exists_mean_le hne
  have hmean := Int64.toInt_ofInt_of_le (low.le_toInt.trans hle) (hge.trans_lt high.toInt_lt)
  refine ⟨_, calculateMeanDuration_eq hne hfits, ⟨low, hlow, ?_⟩, high, hhigh, ?_⟩
  · rwa [Int64.le_iff_toInt_le, hmean]
  · rwa [Int64.le_iff_toInt_le, hmean]

end Mean

/-- A step that finished in some test case. -/
structure FinishedStep where
  testCaseStarted : TestCaseStarted
  testStepFinished : TestStepFinished
  testStep : TestStep

/-- The step definition of a step that has exactly one. -/
def FinishedStep.stepDefinitionId? (s : FinishedStep) : Option String :=
  match s.testStep.stepDefinitionIds with
  | some [stepDefinitionId] => some stepDefinitionId
  | _ => none

section Accounting

variable (query : UsageQuery)

/-- The finished steps of those of some test cases that have finished. -/
def finishedStepsOf (testCasesStarted : List TestCaseStarted) : List FinishedStep :=
  (testCasesStarted.filter fun t => (query.findTestCaseFinishedBy t).isSome).flatMap fun t =>
    (query.findTestStepFinishedAndTestStepBy t).map fun p => ⟨t, p.1, p.2⟩

def finishedSteps : List FinishedStep := finishedStepsOf query query.findAllTestCaseStarted

/-- The finished steps with one definition, and those of them with this one. -/
def matchedSteps : List FinishedStep :=
  (finishedSteps query).filter fun s => s.stepDefinitionId?.isSome

def stepsOf (stepDefinitionId : String) (steps : List FinishedStep) : List FinishedStep :=
  steps.filter fun s => s.stepDefinitionId? = some stepDefinitionId

/-- The match that a finished step makes. -/
def IsMatch (s : FinishedStep) (m : UsageMatch) : Prop :=
  ∃ lineage, query.findLineageBy s.testCaseStarted = some lineage ∧
    createUsageMatch query s.testStepFinished s.testStep lineage = .ok m

/-- What the query knows is complete: the definitions have distinct ids, those that steps refer
to are among them, and what the formatter asks for is there. -/
structure Complete : Prop where
  distinct : (query.findAllStepDefinitions.map fun d => d.id).Nodup
  lineage : ∀ t ∈ query.findAllTestCaseStarted, (query.findTestCaseFinishedBy t).isSome →
    (query.findLineageBy t).isSome
  defined : ∀ s ∈ finishedSteps query, ∀ id, s.stepDefinitionId? = some id →
    id ∈ query.findAllStepDefinitions.map fun d => d.id
  pickled : ∀ s ∈ finishedSteps query, ∀ id, s.stepDefinitionId? = some id →
    ∃ pickleStep, query.findPickleStepBy s.testStep = some pickleStep ∧
      (query.findStepBy pickleStep).isSome

/-- The usages of the definitions after some finished steps. -/
structure Populated (steps : List FinishedStep) (mapping : Map String Usage) : Prop where
  keys : ∀ id, (mapping.find? id).isSome ↔ id ∈ query.findAllStepDefinitions.map fun d => d.id
  usages : ∀ d ∈ query.findAllStepDefinitions, ∃ found,
    mapping.find? d.id = some { Usage.ofDefinition d with found := found } ∧
      List.Forall₂ (IsMatch query) (stepsOf d.id steps) found

variable {query}

theorem populated_buildEmptyMapping
    (hids : (query.findAllStepDefinitions.map fun d => d.id).Nodup) :
    Populated query [] (buildEmptyMapping query.findAllStepDefinitions) := by
  have hfold : buildEmptyMapping query.findAllStepDefinitions =
      (query.findAllStepDefinitions.map fun d => (d.id,Usage.ofDefinition d)).foldl
        (fun m e => m.insertOrAssign e.1 e.2) Map.empty := by
    rw [List.foldl_map]
    rfl
  have hkeys : (query.findAllStepDefinitions.map fun d => (d.id,Usage.ofDefinition d)).map
      Prod.fst = query.findAllStepDefinitions.map fun d => d.id := by
    rw [List.map_map]
    rfl
  have hnodup := hkeys ▸ hids
  have hfind (id : String) : (buildEmptyMapping query.findAllStepDefinitions).find? id =
      (query.findAllStepDefinitions.map fun d => (d.id,Usage.ofDefinition d)).lookup id := by
    rw [hfold, Map.find?_foldl_insertOrAssign hnodup, Map.find?_empty, Option.or_none]
  constructor
  · intro id
    rw [hfind, ← hkeys, List.mem_map]
    constructor
    · intro hsome
      obtain ⟨usage,husage⟩ := Option.isSome_iff_exists.mp hsome
      exact ⟨(id,usage), (Map.lookup_eq_some_iff _ hnodup id usage).mp husage, rfl⟩
    · rintro ⟨e,he,rfl⟩
      rw [(Map.lookup_eq_some_iff _ hnodup e.1 e.2).mpr he]
      rfl
  · intro d hd
    refine ⟨[], ?_, List.Forall₂.nil⟩
    have hmem : (d.id,Usage.ofDefinition d) ∈
        query.findAllStepDefinitions.map fun d => (d.id,Usage.ofDefinition d) :=
      List.mem_map_of_mem hd
    rw [hfind, (Map.lookup_eq_some_iff _ hnodup d.id _).mpr hmem]
    rfl

theorem IsMatch.exists (hcomplete : Complete query) {s : FinishedStep}
    (hs : s ∈ finishedSteps query) {id : String} (hid : s.stepDefinitionId? = some id)
    (lineage : LineageDocument) : ∃ m,
      createUsageMatch query s.testStepFinished s.testStep lineage = .ok m := by
  obtain ⟨pickleStep,hpickleStep,hsome⟩ := hcomplete.pickled s hs id hid
  obtain ⟨line,hline⟩ := Option.isSome_iff_exists.mp hsome
  unfold createUsageMatch
  rw [hpickleStep]
  simp only [hline]
  exact ⟨_, rfl⟩

theorem stepDefinitionId?_eq_some_iff {s : FinishedStep} {id : String} :
    s.stepDefinitionId? = some id ↔ s.testStep.stepDefinitionIds = some [id] := by
  unfold FinishedStep.stepDefinitionId?
  split
  case h_1 id' hsingle => simp [hsingle]
  case h_2 hnot => exact iff_of_false (by simp) (hnot id)

/-- A step without its one definition leaves the usages alone. -/
theorem addUsageMatchToMapping_of_none {s : FinishedStep} (hid : s.stepDefinitionId? = none)
    (lineage : LineageDocument) (mapping : Map String Usage) :
    addUsageMatchToMapping query lineage mapping (s.testStepFinished,s.testStep) =
      .ok mapping := by
  unfold addUsageMatchToMapping
  split
  case h_1 id hsingle =>
    rw [stepDefinitionId?_eq_some_iff.mpr hsingle] at hid
    cases hid
  case h_2 => rfl

theorem addUsageMatchToMapping_of_some {s : FinishedStep} {id : String}
    (hid : s.stepDefinitionId? = some id) {lineage : LineageDocument} {mapping : Map String Usage}
    {usage : Usage} (husage : mapping.find? id = some usage) {m : UsageMatch}
    (hm : createUsageMatch query s.testStepFinished s.testStep lineage = .ok m) :
    addUsageMatchToMapping query lineage mapping (s.testStepFinished,s.testStep) =
      .ok (mapping.insertOrAssign id { usage with found := usage.found ++ [m] }) := by
  unfold addUsageMatchToMapping
  rw [stepDefinitionId?_eq_some_iff.mp hid]
  simp only [husage, hm]
  rfl

/-- One more finished step is added to the usage of its definition. -/
theorem Populated.step (hcomplete : Complete query) {steps : List FinishedStep}
    {mapping : Map String Usage} (h : Populated query steps mapping) {s : FinishedStep}
    (hs : s ∈ finishedSteps query) {lineage : LineageDocument}
    (hlineage : query.findLineageBy s.testCaseStarted = some lineage) :
    ∃ mapping', addUsageMatchToMapping query lineage mapping (s.testStepFinished,s.testStep) =
        .ok mapping' ∧ Populated query (steps ++ [s]) mapping' := by
  cases hid : s.stepDefinitionId? with
  | none =>
    refine ⟨mapping, addUsageMatchToMapping_of_none hid lineage mapping, h.keys, fun d hd => ?_⟩
    have hsame : stepsOf d.id (steps ++ [s]) = stepsOf d.id steps := by
      simp [stepsOf, hid]
    rw [hsame]
    exact h.usages d hd
  | some id =>
    obtain ⟨d,hd,rfl⟩ := List.mem_map.mp (hcomplete.defined s hs id hid)
    obtain ⟨found,hfound,hmatches⟩ := h.usages d hd
    obtain ⟨m,hm⟩ := IsMatch.exists hcomplete hs hid lineage
    refine ⟨_, addUsageMatchToMapping_of_some hid hfound hm, fun id => ?_, fun d' hd' => ?_⟩
    · rw [Map.find?_insertOrAssign]
      split_ifs with heq
      · rw [heq]
        exact iff_of_true rfl (List.mem_map_of_mem hd)
      · exact h.keys id
    · rw [Map.find?_insertOrAssign]
      split_ifs with heq
      · obtain rfl := List.inj_on_of_nodup_map hcomplete.distinct hd' hd heq
        refine ⟨found ++ [m], rfl, ?_⟩
        have hmore : stepsOf d'.id (steps ++ [s]) = stepsOf d'.id steps ++ [s] := by
          simp [stepsOf, hid]
        rw [hmore]
        exact List.rel_append hmatches (List.forall₂_cons.mpr ⟨⟨lineage, hlineage, hm⟩, .nil⟩)
      · have hsame : stepsOf d'.id (steps ++ [s]) = stepsOf d'.id steps := by
          simp [stepsOf, hid, Ne.symm heq]
        rw [hsame]
        exact h.usages d' hd'

theorem Populated.steps (hcomplete : Complete query) {steps : List FinishedStep}
    {mapping : Map String Usage} (h : Populated query steps mapping) {t : TestCaseStarted}
    {lineage : LineageDocument} (hlineage : query.findLineageBy t = some lineage)
    {finished : List (TestStepFinished × TestStep)}
    (hfinished : ∀ p ∈ finished, (⟨t, p.1, p.2⟩ : FinishedStep) ∈ finishedSteps query) :
    ∃ mapping', finished.foldlM (addUsageMatchToMapping query lineage) mapping = .ok mapping' ∧
      Populated query (steps ++ finished.map fun p => ⟨t, p.1, p.2⟩) mapping' := by
  induction finished generalizing steps mapping with
  | nil => exact ⟨mapping, rfl, by simpa using h⟩
  | cons p finished ih =>
    obtain ⟨mapping',hstep,h'⟩ := h.step hcomplete (hfinished p List.mem_cons_self) hlineage
    obtain ⟨mapping'',hrun,h''⟩ := ih h' fun q hq => hfinished q (List.mem_cons_of_mem p hq)
    refine ⟨mapping'', ?_, by simpa using h''⟩
    rw [List.foldlM_cons]
    exact (congrArg (· >>= _) hstep).trans hrun

theorem Populated.testCase (hcomplete : Complete query) {steps : List FinishedStep}
    {mapping : Map String Usage} (h : Populated query steps mapping) {t : TestCaseStarted}
    (ht : t ∈ query.findAllTestCaseStarted) :
    ∃ mapping', addTestCase query mapping t = .ok mapping' ∧
      Populated query (steps ++ finishedStepsOf query [t]) mapping' := by
  unfold addTestCase
  cases hfinished : query.findTestCaseFinishedBy t with
  | none =>
    refine ⟨mapping, rfl, ?_⟩
    simpa [finishedStepsOf, hfinished] using h
  | some finished =>
    obtain ⟨lineage,hlineage⟩ := Option.isSome_iff_exists.mp
      (hcomplete.lineage t ht (by rw [hfinished]; rfl))
    have hmem : ∀ p ∈ query.findTestStepFinishedAndTestStepBy t,
        (⟨t, p.1, p.2⟩ : FinishedStep) ∈ finishedSteps query := by
      intro p hp
      refine List.mem_flatMap.mpr ⟨t, ?_, List.mem_map_of_mem hp⟩
      exact List.mem_filter.mpr ⟨ht, by rw [hfinished]; rfl⟩
    obtain ⟨mapping',hrun,h'⟩ := h.steps hcomplete hlineage hmem
    refine ⟨mapping', ?_, by simpa [finishedStepsOf, hfinished] using h'⟩
    simp only [hlineage]
    exact hrun

theorem Populated.testCases (hcomplete : Complete query) {steps : List FinishedStep}
    {mapping : Map String Usage} (h : Populated query steps mapping) {ts : List TestCaseStarted}
    (hts : ∀ t ∈ ts, t ∈ query.findAllTestCaseStarted) :
    ∃ mapping', ts.foldlM (addTestCase query) mapping = .ok mapping' ∧
      Populated query (steps ++ finishedStepsOf query ts) mapping' := by
  induction ts generalizing steps mapping with
  | nil => exact ⟨mapping, rfl, by simpa [finishedStepsOf] using h⟩
  | cons t ts ih =>
    rw [List.forall_mem_cons] at hts
    obtain ⟨mapping',hround,h'⟩ := h.testCase hcomplete hts.1
    obtain ⟨mapping'',hrun,h''⟩ := ih h' hts.2
    refine ⟨mapping'', ?_, ?_⟩
    · rw [List.foldlM_cons]
      exact (congrArg (· >>= _) hround).trans hrun
    · have hsplit : finishedStepsOf query (t :: ts) =
          finishedStepsOf query [t] ++ finishedStepsOf query ts := by
        simp only [finishedStepsOf, ← List.flatMap_append, ← List.filter_append,
          List.singleton_append]
      rwa [hsplit, ← List.append_assoc]

theorem exists_populateMappingWithMatches (hcomplete : Complete query) : ∃ mapping,
    populateMappingWithMatches query (buildEmptyMapping query.findAllStepDefinitions) =
      .ok mapping ∧ Populated query (finishedSteps query) mapping := by
  have h := (populated_buildEmptyMapping hcomplete.distinct).testCases hcomplete fun _ ht => ht
  rwa [List.nil_append] at h

/-- The usages in the order of the definitions. -/
theorem Populated.exists_inOrder (hids : (query.findAllStepDefinitions.map fun d => d.id).Nodup)
    {steps : List FinishedStep} {mapping : Map String Usage} (h : Populated query steps mapping) :
    ∃ inOrder : List Usage, inOrder.Perm mapping.values ∧
      List.Forall₂ (fun d u => u = { Usage.ofDefinition d with found := u.found } ∧
        List.Forall₂ (IsMatch query) (stepsOf d.id steps) u.found)
          query.findAllStepDefinitions inOrder := by
  have hkeys : (query.findAllStepDefinitions.map fun d => d.id).Perm mapping.keys := by
    refine (List.perm_ext_iff_of_nodup hids mapping.keys_nodup).mpr fun id => ?_
    rw [← h.keys, Map.find?_isSome_iff]
  have hentries : List.Forall₂ (fun id e => mapping.find? id = some e.2) mapping.keys
      mapping.entries := by
    refine List.forall₂_map_left_iff.mpr (List.forall₂_same.mpr fun e he => ?_)
    exact (mapping.find?_eq_some_iff e.1 e.2).mpr he
  obtain ⟨es,hes,hperm⟩ := List.perm_comp_forall₂ hkeys hentries
  refine ⟨es.map Prod.snd, hperm.map Prod.snd, ?_⟩
  have hboth := (List.forall₂_and_left _ _).mpr
    ⟨fun d hd => h.usages d hd, List.forall₂_map_left_iff.mp hes⟩
  refine List.forall₂_map_right_iff.mpr (hboth.imp fun d e hde => ?_)
  obtain ⟨⟨found,hfound,hmatches⟩,hfind⟩ := hde
  rw [← Option.some.inj (hfound.symm.trans hfind)]
  exact ⟨rfl, hmatches⟩

/-- `u` is the usage of a definition, with the matches of its steps in some order. -/
structure IsUsage (query : UsageQuery) (d : Messages.StepDefinition) (u : Usage) : Prop where
  definition : u =
    { Usage.ofDefinition d with found := u.found, meanDuration := u.meanDuration }
  found : ∃ found, found.Perm u.found ∧
    List.Forall₂ (IsMatch query) (stepsOf d.id (finishedSteps query)) found

/-- What the usages that are listed are: those of the definitions (of those without matches only,
when this is wanted), each once and with all of its matches; used ones before unused ones, then
by decreasing mean with absent means last, then by place. -/
structure IsReport (query : UsageQuery) (unusedOnly : Bool) (usages : List Usage) : Prop where
  listed : ∃ inOrder, inOrder.Perm usages ∧ List.Forall₂ (IsUsage query)
    (query.findAllStepDefinitions.filter fun d =>
      !unusedOnly || (stepsOf d.id (finishedSteps query)).isEmpty) inOrder
  total : unusedOnly = false →
    (usages.map fun u => u.found.length).sum = (matchedSteps query).length
  sorted : usages.Pairwise fun u v => usageKey u ≤ usageKey v
  sortedMatches : ∀ u ∈ usages, u.found.Pairwise fun m n => matchKey m ≤ matchKey n
  mean : ∀ u ∈ usages, executed u.found ≠ [] → Fits (executed u.found) →
    ∃ mean, u.meanDuration = some mean ∧ (∃ d ∈ executed u.found, d ≤ mean) ∧
      ∃ d ∈ executed u.found, mean ≤ d

def withMean (u : Usage) : Usage := { u with meanDuration := calculateMeanDuration u.found }

def withSortedMatches (u : Usage) : Usage := { u with found := stableSort matchBefore u.found }

theorem usageKey_withSortedMatches (u : Usage) : usageKey (withSortedMatches u) = usageKey u := by
  have hempty : (stableSort matchBefore u.found).isEmpty = u.found.isEmpty := by
    rw [Bool.eq_iff_iff, List.isEmpty_iff, List.isEmpty_iff]
    exact ⟨fun h => (h ▸ stableSort_perm).symm.eq_nil, fun h => by rw [h]; rfl⟩
  simp only [usageKey, withSortedMatches, hempty]

theorem isUsage_withSortedMatches {d : Messages.StepDefinition} {u : Usage}
    (h : u = { Usage.ofDefinition d with found := u.found })
    (hfound : List.Forall₂ (IsMatch query) (stepsOf d.id (finishedSteps query)) u.found) :
    IsUsage query d (withSortedMatches (withMean u)) where
  definition := by
    rw [h]
    rfl
  found := ⟨u.found, stableSort_perm.symm, hfound⟩

theorem mean_withSortedMatches {u : Usage}
    (hne : executed (withSortedMatches (withMean u)).found ≠ [])
    (hfits : Fits (executed (withSortedMatches (withMean u)).found)) :
    ∃ mean, (withSortedMatches (withMean u)).meanDuration = some mean ∧
      (∃ d ∈ executed (withSortedMatches (withMean u)).found, d ≤ mean) ∧
      ∃ d ∈ executed (withSortedMatches (withMean u)).found, mean ≤ d := by
  have hperm : (executed (withSortedMatches (withMean u)).found).Perm (executed u.found) :=
    stableSort_perm.filterMap _
  have htotal : total (executed (withSortedMatches (withMean u)).found) =
      total (executed u.found) :=
    (hperm.map Int64.toInt).sum_eq
  have hne' : executed u.found ≠ [] := fun hnil => hne (hnil ▸ hperm).eq_nil
  unfold Fits at hfits
  rw [htotal] at hfits
  obtain ⟨mean,hmean,⟨low,hlow,hle⟩,high,hhigh,hge⟩ := mean_between hne' hfits
  exact ⟨mean, hmean, ⟨low, hperm.mem_iff.mpr hlow, hle⟩, high, hperm.mem_iff.mpr hhigh, hge⟩

/-- Every step with a definition is counted for exactly one of them. -/
theorem sum_length_stepsOf {ids : List String} (hids : ids.Nodup) {steps : List FinishedStep}
    (hdefined : ∀ s ∈ steps, ∀ id, s.stepDefinitionId? = some id → id ∈ ids) :
    (ids.map fun id => (stepsOf id steps).length).sum =
      (steps.filter fun s => s.stepDefinitionId?.isSome).length := by
  induction steps with
  | nil => simp [stepsOf]
  | cons s steps ih =>
    rw [List.forall_mem_cons] at hdefined
    have hrest := ih hdefined.2
    have hsplit (id : String) : (stepsOf id (s :: steps)).length =
        (stepsOf id steps).length+(if s.stepDefinitionId? = some id then 1 else 0) := by
      unfold stepsOf
      rw [List.filter_cons]
      split_ifs <;> simp_all
    simp only [hsplit, List.sum_map_add, hrest, List.filter_cons]
    cases hid : s.stepDefinitionId? with
    | none => simp
    | some id =>
      have hone : (ids.map fun id' => if some id = some id' then 1 else 0).sum = 1 := by
        have hother : ∀ id', id' ≠ id → id' ∈ ids → (if some id = some id' then 1 else 0) = 0 :=
          fun id' hne _ => if_neg fun h => hne (Option.some.inj h).symm
        rw [List.sum_map_eq_nsmul_single id _ hother,
          List.count_eq_one_of_mem hids (hdefined.1 id hid)]
        simp
      rw [hone]
      rfl

theorem lengths_of_isUsage {ds : List Messages.StepDefinition} {us : List Usage}
    (h : List.Forall₂ (IsUsage query) ds us) : (us.map fun u => u.found.length) =
      ds.map fun d => (stepsOf d.id (finishedSteps query)).length := by
  induction h with
  | nil => rfl
  | cons hd _ ih =>
    obtain ⟨found,hperm,hmatches⟩ := hd.found
    rw [List.map_cons, List.map_cons, ih, ← hperm.length_eq, hmatches.length_eq]

theorem total_of_listed (hcomplete : Complete query) {inOrder usages : List Usage}
    (hperm : inOrder.Perm usages)
    (hlisted : List.Forall₂ (IsUsage query) query.findAllStepDefinitions inOrder) :
    (usages.map fun u => u.found.length).sum = (matchedSteps query).length := by
  have hsum := sum_length_stepsOf hcomplete.distinct hcomplete.defined
  rw [List.map_map] at hsum
  rw [← (hperm.map fun u : Usage => u.found.length).sum_eq, lengths_of_isUsage hlisted]
  exact hsum

/-- The filter asks the same of a usage as of the steps of its definition. -/
theorem listed_of_inOrder (unusedOnly : Bool) {inOrder : List Usage}
    (hinOrder : List.Forall₂ (fun d u => u = { Usage.ofDefinition d with found := u.found } ∧
      List.Forall₂ (IsMatch query) (stepsOf d.id (finishedSteps query)) u.found)
        query.findAllStepDefinitions inOrder) :
    List.Forall₂ (IsUsage query)
      (query.findAllStepDefinitions.filter fun d =>
        !unusedOnly || (stepsOf d.id (finishedSteps query)).isEmpty)
      (((inOrder.filter fun u => !unusedOnly || u.found.isEmpty).map withMean).map
        withSortedMatches) := by
  refine List.forall₂_map_right_iff.mpr (List.forall₂_map_right_iff.mpr ?_)
  refine (List.rel_filter ?_ hinOrder).imp fun d u hdu =>
    isUsage_withSortedMatches hdu.1 hdu.2
  rintro d u ⟨_,hmatches⟩
  have hempty : (stepsOf d.id (finishedSteps query)).isEmpty = u.found.isEmpty := by
    rw [Bool.eq_iff_iff, List.isEmpty_iff_length_eq_zero, List.isEmpty_iff_length_eq_zero,
      hmatches.length_eq]
  dsimp only
  rw [hempty]

/-- The usages, filtered and sorted. -/
theorem IsReport.of_inOrder (hcomplete : Complete query) (unusedOnly : Bool)
    {inOrder values : List Usage} (hperm : inOrder.Perm values)
    (hinOrder : List.Forall₂ (fun d u => u = { Usage.ofDefinition d with found := u.found } ∧
      List.Forall₂ (IsMatch query) (stepsOf d.id (finishedSteps query)) u.found)
        query.findAllStepDefinitions inOrder) :
    IsReport query unusedOnly ((stableSort usageBefore
      ((values.map withMean).filter fun u => !unusedOnly || u.found.isEmpty)).map
        withSortedMatches) := by
  have hlisted := listed_of_inOrder unusedOnly hinOrder
  have hfilter : (values.map withMean).filter (fun u => !unusedOnly || u.found.isEmpty) =
      (values.filter fun u => !unusedOnly || u.found.isEmpty).map withMean := by
    rw [List.filter_map]
    rfl
  have hperm' : ((((inOrder.filter fun u => !unusedOnly || u.found.isEmpty).map withMean).map
      withSortedMatches)).Perm ((stableSort usageBefore
        ((values.map withMean).filter fun u => !unusedOnly || u.found.isEmpty)).map
          withSortedMatches) := by
    rw [hfilter]
    exact (((hperm.filter _).map withMean).trans stableSort_perm.symm).map withSortedMatches
  have hmem {u : Usage} (hu : u ∈ (stableSort usageBefore
      ((values.map withMean).filter fun u => !unusedOnly || u.found.isEmpty)).map
        withSortedMatches) : ∃ v, u = withSortedMatches (withMean v) := by
    obtain ⟨w,hw,rfl⟩ := List.mem_map.mp hu
    obtain ⟨v,_,rfl⟩ := List.mem_map.mp (List.mem_filter.mp (stableSort_perm.mem_iff.mp hw)).1
    exact ⟨v, rfl⟩
  refine ⟨⟨_, hperm', hlisted⟩, ?_, ?_, ?_, ?_⟩
  · rintro rfl
    refine total_of_listed hcomplete hperm' ?_
    simpa using hlisted
  · refine List.pairwise_map.mpr (pairwise_stableSort.imp fun {u v} h => ?_)
    -- sorting the matches of a usage leaves its place among the usages
    rw [usageKey_withSortedMatches, usageKey_withSortedMatches, ← not_lt, ← usageBefore_iff, h]
    simp
  · intro u hu
    obtain ⟨v,rfl⟩ := hmem hu
    refine pairwise_stableSort.imp fun {m n} h => ?_
    rw [← not_lt, ← matchBefore_iff, h]
    simp
  · intro u hu hne hfits
    obtain ⟨v,rfl⟩ := hmem hu
    exact mean_withSortedMatches hne hfits

/-- The report accounts for every definition and every step with one, and both of its lists are
sorted. -/
theorem usage_report (hcomplete : Complete query) (unusedOnly : Bool) :
    (IsStrictWeakOrder Usage fun u v => usageBefore u v = true) ∧
    (IsStrictWeakOrder UsageMatch fun m n => matchBefore m n = true) ∧
    (∀ u v, usageBefore u v = true ↔ usageKey u < usageKey v) ∧
    (∀ m n, matchBefore m n = true ↔ matchKey m < matchKey n) ∧
    ∃ usages, getUsage query unusedOnly = .ok usages ∧ IsReport query unusedOnly usages := by
  refine ⟨inferInstance, inferInstance, usageBefore_iff, matchBefore_iff, ?_⟩
  obtain ⟨mapping,hrun,hpopulated⟩ := exists_populateMappingWithMatches hcomplete
  obtain ⟨inOrder,hperm,hinOrder⟩ := hpopulated.exists_inOrder hcomplete.distinct
  have hvalues : (finalizeMappingWithMeanDurations mapping).values =
      mapping.values.map withMean := Map.values_mapValues _ mapping
  have husages : getUsage query unusedOnly = .ok ((stableSort usageBefore
      ((mapping.values.map withMean).filter fun u => !unusedOnly || u.found.isEmpty)).map
        withSortedMatches) := by
    unfold getUsage buildMapping
    simp only [hrun]
    rw [← hvalues]
    rfl
  exact ⟨_, husages, .of_inOrder hcomplete unusedOnly hperm hinOrder⟩

end Accounting

/-- A test case with two steps of one definition, which take some seconds each. -/
def twoSteps (seconds : UInt64) : UsageQuery where
  findAllStepDefinitions :=
    [{ id := "1"
       pattern := { source := "a step", type := .cucumberExpression }
       sourceReference := { uri := some "steps.cpp", location := some 3 } }]
  findAllTestCaseStarted := [{ attempt := 0, id := "4", testCaseId := "3" }]
  findTestCaseFinishedBy := fun t => some { testCaseStartedId := t.id, willBeRetried := false }
  findLineageBy := fun _ => some { uri := some "a.feature" }
  findTestStepFinishedAndTestStepBy := fun t => ["5", "6"].map fun id =>
    ({ testCaseStartedId := t.id
       testStepId := id
       testStepResult := { duration := { seconds := seconds }, status := .passed } },
     { id := id, stepDefinitionIds := some ["1"] })
  findPickleStepBy := fun _ => some { id := "2", text := "a step" }
  findStepBy := fun _ => some 7

theorem complete_twoSteps (seconds : UInt64) : Complete (twoSteps seconds) where
  distinct := List.nodup_singleton _
  lineage := fun _ _ _ => rfl
  defined := by
    intro s hs id hid
    have hsteps : ∀ s ∈ finishedSteps (twoSteps seconds), s.stepDefinitionId? = some "1" := by
      simp [finishedSteps, finishedStepsOf, twoSteps, FinishedStep.stepDefinitionId?]
    obtain rfl := Option.some.inj (hid.symm.trans (hsteps s hs))
    exact List.mem_singleton.mpr rfl
  pickled := fun _ _ _ _ => ⟨{ id := "2", text := "a step" }, rfl, rfl⟩

theorem usage_report_twoSteps :
    (IsStrictWeakOrder Usage fun u v => usageBefore u v = true) ∧
    (IsStrictWeakOrder UsageMatch fun m n => matchBefore m n = true) ∧
    (∀ u v, usageBefore u v = true ↔ usageKey u < usageKey v) ∧
    (∀ m n, matchBefore m n = true ↔ matchKey m < matchKey n) ∧
    ∃ usages, getUsage (twoSteps 1) false = .ok usages ∧ IsReport (twoSteps 1) false usages :=
  usage_report (complete_twoSteps 1) false

/-- Of two steps that take 5000000000 s each the total is too large, and the mean negative. -/
theorem mean_not_between : Complete (twoSteps 5000000000) ∧
    ∃ u, getUsage (twoSteps 5000000000) false = .ok [u] ∧ u.found ≠ [] ∧
      (∀ m ∈ u.found, m.duration = some 5000000000000000000) ∧
      u.meanDuration = some (-4223372036854775808) := by
  refine ⟨complete_twoSteps _, { Usage.ofDefinition
    { id := "1"
      pattern := { source := "a step", type := .cucumberExpression }
      sourceReference := { uri := some "steps.cpp", location := some 3 } } with
    found := List.replicate 2
      { duration := some 5000000000000000000, line := 7, text := "a step", uri := "a.feature" }
    meanDuration := some (-4223372036854775808) }, ?_, ?_, ?_, ?_⟩ <;> decide

end UsageFormatter

end CucumberCpp
