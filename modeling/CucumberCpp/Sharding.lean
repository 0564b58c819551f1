import CucumberCpp.Verdict

/-! A run whose pickles are shared out to several runs: it succeeds when all of these do. -/
namespace CucumberCpp

open EventLog Grouping

namespace Worker

variable {w w' : Worker} {sourcedPickles sourcedPickles' : List PickleSource}
  {report report' : RunReport}

/-- A successful run contains no pickle whose test case fails in a matching run. -/
theorem RunRule.not_mem_of_failed (hindep : w.supportCodeLibrary.Independent)
    (hmatches : w.Matches w') (hoff : w.options.featureHooks = false)
    (hfast : w.options.failGlobalHookFast = false) (hdry : w.options.dryRun = false)
    (h' : w'.RunRule sourcedPickles' report') (houtcome' : report'.outcome = .ok true)
    {a : Announcement} (ha : AnnouncementRule w.supportCodeLibrary w.testRunStartedId a)
    {cr : CaseRun} (hassembled : a.assembled = cr.assembled) (hfailed : w.caseFailed cr = true)
    (hrule : w.CaseRule false cr) (hskip : cr.skip = false) : a.source ∉ sourcedPickles' := by
  intro hsource
  have hreturn' := hmatches.hooksReturn (.inr hfast)
  have hdry' : w'.options.dryRun = false := hmatches.dryRun.trans hdry
  have hpassed := ((h'.success_iff_of_hooksReturn hreturn' hdry' houtcome').mp rfl).2
  cases h' with
  | aborted hbefore => cases houtcome'
  | @failedBefore _ _ _ r hbefore hfailing hafter => cases r <;> cases houtcome'
  | executed _ _ hsuites' _ =>
    have hfailed' := hsuites'.any_failed_of_source hindep hmatches hoff hfast hdry ha hsource
      hassembled hfailed hrule hskip
    cases hpassed.symm.trans hfailed'

variable {ι : Type} {workers : ι → Worker} {pickles : ι → List PickleSource}
  {reports : ι → RunReport}

/-- Runs that contain every pickle of a run, and all of which succeed, leave it no test case
to fail with. -/
theorem RunRule.success_of_cover [Nonempty ι] (hindep : w.supportCodeLibrary.Independent)
    (hoff : w.options.featureHooks = false) (hfast : w.options.failGlobalHookFast = false)
    (hdry : w.options.dryRun = false) (h : w.RunRule sourcedPickles report)
    (hmatches : ∀ i, w.Matches (workers i))
    (hrules : ∀ i, (workers i).RunRule (pickles i) (reports i))
    (hcover : ∀ source ∈ sourcedPickles, ∃ i, source ∈ pickles i)
    (houtcomes : ∀ i, (reports i).outcome = .ok true) : report.outcome = .ok true := by
  have hreturn : w.options.HooksReturn := .inr hfast
  obtain ⟨success,houtcome⟩ := h.outcome_eq hreturn
  rw [houtcome, show success = true from ?_]
  apply (h.success_iff_of_hooksReturn hreturn hdry houtcome).mpr
  constructor
  · -- the hooks of any of these runs had the same results
    obtain ⟨i⟩ := ‹Nonempty ι›
    have hreturn' := (hmatches i).hooksReturn hreturn
    have hdry' : (workers i).options.dryRun = false := (hmatches i).dryRun.trans hdry
    have hpassed := (((hrules i).success_iff_of_hooksReturn hreturn' hdry' (houtcomes i)).mp rfl).1
    have hhooks := h.hooks_eq hindep (hmatches i) hfast (hrules i)
    intro hook hhook
    have hmem := List.mem_map_of_mem (f := HookRun.result) hhook
    rw [← hhooks] at hmem
    obtain ⟨hook',hhook',heq⟩ := List.mem_map.mp hmem
    rw [← heq]
    exact hpassed hook' hhook'
  · by_contra hfailed
    rw [Bool.not_eq_false] at hfailed
    cases h with
    | aborted hbefore => cases hfailed
    | failedBefore hbefore hfailing hafter => cases hfailed
    | executed _ _ hsuites _ =>
      obtain ⟨s,hs,cr,hcr,hcrFailed,hrule,hskip⟩ :=
        hsuites.exists_failed_unskipped hoff hreturn hdry hfailed
      obtain ⟨a,ha,hassembled,hannouncement⟩ := hsuites.announcement_of_mem hs hcr
      have hsource : a.source ∈ sourcedPickles := by
        rw [← hsuites.sources]
        exact List.mem_map_of_mem ha
      obtain ⟨i,hi⟩ := hcover a.source hsource
      exact (hrules i).not_mem_of_failed hindep (hmatches i) hoff hfast hdry (houtcomes i)
        hannouncement hassembled hcrFailed hrule hskip hi

/-- A run and the runs that its pickles are shared out to, some of them more than once. -/
theorem RunRule.success_iff_shards [Nonempty ι] (hindep : w.supportCodeLibrary.Independent)
    (hoff : w.options.featureHooks = false) (hfast : w.options.failGlobalHookFast = false)
    (h : w.RunRule sourcedPickles report) (hmatches : ∀ i, w.Matches (workers i))
    (hrules : ∀ i, (workers i).RunRule (pickles i) (reports i))
    (hcover : ∀ source, source ∈ sourcedPickles ↔ ∃ i, source ∈ pickles i) :
    report.outcome = .ok true ↔ ∀ i, (reports i).outcome = .ok true := by
  by_cases hdry : w.options.dryRun = true
  · have hdry' (i : ι) : (workers i).options.dryRun = true := (hmatches i).dryRun.trans hdry
    exact iff_of_true (h.of_dryRun hdry).1 fun i => ((hrules i).of_dryRun (hdry' i)).1
  have hwet := Bool.eq_false_of_not_eq_true hdry
  constructor
  · intro houtcome i
    have hsubset : pickles i ⊆ sourcedPickles := fun source hi => (hcover source).mpr ⟨i, hi⟩
    obtain ⟨success,hsuccess⟩ :=
      (hrules i).outcome_eq ((hmatches i).hooksReturn (.inr hfast))
    rw [hsuccess, h.success_of_subset hindep (hmatches i) hoff hfast hwet hsubset (hrules i)
      houtcome hsuccess]
  · exact h.success_of_cover hindep hoff hfast hwet hmatches hrules fun source hsource =>
      (hcover source).mp hsource

end Worker

/-- One of several runs, each in a process of its own. -/
structure Shard where
  idGenerator : IdGenerator
  testRunStartedId : String
  failFast : Bool
  sourcedPickles : List PickleSource
  world : World idGenerator Event

def Shard.Succeeds (options : RuntimeOptions) (supportCodeLibrary : SupportCodeLibrary)
    (s : Shard) : Prop :=
  (run (SerialRuntimeAdapter.run s.testRunStartedId s.sourcedPickles
    { options with failFast := s.failFast } supportCodeLibrary) s.world).1 = .ok true

/-- Instead of one run, several runs can be made that together contain its pickles, each with
its own generator of ids and its own setting of fail-fast: the one run succeeds exactly when
all of them do, if there are any and user code does not look at generated ids. -/
theorem run_shards {idGenerator : IdGenerator} {options : RuntimeOptions}
    (hoptions : options.Accepted) (hoff : options.featureHooks = false)
    (hfast : options.failGlobalHookFast = false) {supportCodeLibrary : SupportCodeLibrary}
    (hindep : supportCodeLibrary.Independent) {shards : List Shard} (hshards : shards ≠ [])
    {sourcedPickles : List PickleSource}
    (hcover : ∀ source, source ∈ sourcedPickles ↔ ∃ s ∈ shards, source ∈ s.sourcedPickles)
    (testRunStartedId : String) (world : World idGenerator Event) :
    (run (SerialRuntimeAdapter.run testRunStartedId sourcedPickles options supportCodeLibrary)
        world).1 = .ok true ↔
      ∀ s ∈ shards, s.Succeeds options supportCodeLibrary := by
  let w : Worker := ⟨testRunStartedId, options, supportCodeLibrary⟩
  let worker (s : Shard) : Worker :=
    ⟨s.testRunStartedId, { options with failFast := s.failFast }, supportCodeLibrary⟩
  obtain ⟨_,_,report,hrule,hr,_⟩ :=
    SerialRuntimeAdapter.emits_run hoptions testRunStartedId sourcedPickles supportCodeLibrary world
  have hshard (s : Shard) : ∃ report, (worker s).RunRule s.sourcedPickles report ∧
      (s.Succeeds options supportCodeLibrary ↔ report.outcome = .ok true) := by
    have haccepted : RuntimeOptions.Accepted { options with failFast := s.failFast } :=
      ⟨hoptions.positive, hoptions.exclusive⟩
    obtain ⟨_,_,report,hrule,hr,_⟩ := SerialRuntimeAdapter.emits_run haccepted
      s.testRunStartedId s.sourcedPickles supportCodeLibrary s.world
    refine ⟨report, hrule, ?_⟩
    rw [Shard.Succeeds, hr]
  choose reportOf hreports hsucceeds using hshard
  have hnonempty : Nonempty {s // s ∈ shards} := by
    obtain ⟨s,hs⟩ := List.exists_mem_of_ne_nil shards hshards
    exact ⟨⟨s, hs⟩⟩
  have hmatches : ∀ s : {s // s ∈ shards}, w.Matches (worker s.1) := fun s =>
    ⟨rfl, s.1.failFast, rfl⟩
  have hrules : ∀ s : {s // s ∈ shards},
      (worker s.1).RunRule s.1.sourcedPickles (reportOf s.1) := fun s => hreports s.1
  have hiff := hrule.success_iff_shards (w := w) hindep hoff hfast hmatches hrules
    (by simpa using hcover)
  rw [hr, hiff, Subtype.forall]
  apply forall₂_congr
  intro s _
  exact (hsucceeds s).symm

/-- Two scenarios, in runs of their own. -/
theorem run_shards_two :
    (run (SerialRuntimeAdapter.run "run" failingFeatures {}
        (.ofDefinitions [] [.constant "d" .failed])) (World.start decimalIds Event)).1 = .ok true ↔
      ∀ s ∈ failingFeatures.map fun source =>
          (⟨decimalIds, "shard", true, [source], World.start decimalIds Event⟩ : Shard),
        s.Succeeds {} (.ofDefinitions [] [.constant "d" .failed]) := by
  apply run_shards ⟨by simp, by simp⟩ rfl rfl
  · apply SupportCodeLibrary.independent_ofDefinitions (by simp)
    intro d hd args started
    rw [List.mem_singleton.mp hd]
    rfl
  · simp [failingFeatures]
  · simp

end CucumberCpp
