import CucumberCpp.Attempts

/-! The grammar of the messages of a run. A word of the grammar is given by its
parse tree; every run that no hook ends early broadcasts such a word. -/
namespace CucumberCpp

open EventLog Grouping

variable {idGenerator : IdGenerator}

structure HookNode where
  started : TestRunHookStarted
  attachments : List Attachment
  result : TestStepResult

def HookNode.word (h : HookNode) : List Envelope :=
  .testRunHookStarted h.started ::
    (h.attachments.map .attachment ++ [.testRunHookFinished ⟨h.started.id, h.result⟩])

structure StepNode where
  testStepId : String
  content : List (Attachment ⊕ Suggestion)
  result : TestStepResult

def StepNode.word (testCaseStartedId : String) (s : StepNode) : List Envelope :=
  .testStepStarted ⟨testCaseStartedId, s.testStepId⟩ ::
    (s.content.map (Sum.elim .attachment .suggestion) ++
      [.testStepFinished ⟨testCaseStartedId, s.testStepId, s.result⟩])

structure AttemptNode where
  started : TestCaseStarted
  steps : List StepNode
  willBeRetried : Bool

def AttemptNode.word (a : AttemptNode) : List Envelope :=
  .testCaseStarted a.started :: (a.steps.flatMap (StepNode.word a.started.id) ++
    [.testCaseFinished ⟨a.started.id, a.willBeRetried⟩])

def AttemptNode.testCaseId (a : AttemptNode) : String := a.started.testCaseId

structure SuiteNode where
  before : List HookNode
  attempts : List AttemptNode
  after : List HookNode

namespace SuiteNode

def word (s : SuiteNode) : List Envelope :=
  s.before.flatMap HookNode.word ++ s.attempts.flatMap AttemptNode.word ++
    s.after.flatMap HookNode.word

/-- The ids of the hooks and attempts of a suite. -/
def ids (s : SuiteNode) : List String :=
  s.before.map (·.started.id) ++ s.attempts.map (·.started.id) ++ s.after.map (·.started.id)

end SuiteNode

structure RunNode where
  testRunStartedId : String
  beforeAll : List HookNode
  testCases : List TestCase
  suites : List SuiteNode
  afterAll : List HookNode
  success : Bool

namespace RunNode

def word (r : RunNode) : List Envelope :=
  .testRunStarted ⟨r.testRunStartedId⟩ ::
    (r.beforeAll.flatMap HookNode.word ++ r.testCases.map .testCase ++
      r.suites.flatMap SuiteNode.word ++ r.afterAll.flatMap HookNode.word ++
      [.testRunFinished ⟨r.success, r.testRunStartedId⟩])

def ids (r : RunNode) : List String :=
  r.beforeAll.map (·.started.id) ++ r.suites.flatMap SuiteNode.ids ++
    r.afterAll.map (·.started.id)

def attempts (r : RunNode) : List AttemptNode := r.suites.flatMap SuiteNode.attempts

/-- What a parse tree of a run satisfies beyond the grammar. -/
structure WellFormed (r : RunNode) : Prop where
  distinct : r.ids.Nodup
  announcedOnce : (r.testCases.map TestCase.id).Nodup
  announced : ∀ a ∈ r.attempts, ∃ tc ∈ r.testCases, a.testCaseId = tc.id ∧
    a.steps.map StepNode.testStepId = tc.testSteps.map TestStep.id
  numbered : ∀ id, (group AttemptNode.testCaseId r.attempts id).map (·.started.attempt.toNat) =
    List.range (group AttemptNode.testCaseId r.attempts id).length
  retried : ∀ pre a post, r.attempts = pre ++ a :: post →
    (a.willBeRetried = true ↔ ∃ b ∈ post, b.testCaseId = a.testCaseId)

end RunNode

def Event.envelope? : Event → Option Envelope
  | .invoked _ _ => none
  | .broadcast envelope => some envelope

/-- The messages broadcast while the log was written, in order. -/
def broadcasts (log : List (Entry String Event)) : List Envelope :=
  (events log).filterMap Event.envelope?

@[simp] theorem broadcasts_nil : broadcasts [] = [] := rfl

@[simp] theorem broadcasts_append (l l' : List (Entry String Event)) :
    broadcasts (l ++ l') = broadcasts l ++ broadcasts l' := by
  simp [broadcasts]

@[simp] theorem broadcasts_drew (id : String) (l : List (Entry String Event)) :
    broadcasts (.drew id :: l) = broadcasts l := rfl

@[simp] theorem broadcasts_broadcast (e : Envelope) (l : List (Entry String Event)) :
    broadcasts (.said (.broadcast e) :: l) = e :: broadcasts l := rfl

@[simp] theorem broadcasts_invoked (call : Invocation) (result : Util.TestStepResult)
    (l : List (Entry String Event)) :
    broadcasts (.said (.invoked call result) :: l) = broadcasts l := rfl

/-- Records and nodes that correspond word for word do so in sequence, too. -/
theorem broadcasts_flatMap {α β : Type} {log : α → List (Entry String Event)} {node : α → β}
    {word : β → List Envelope} (xs : List α) (h : ∀ x ∈ xs, broadcasts (log x) = word (node x)) :
    broadcasts (xs.flatMap log) = (xs.map node).flatMap word := by
  rw [broadcasts, events_flatMap, List.filterMap_flatMap, List.flatMap_map]
  exact List.flatMap_congr h

def BodyRun.attachments (b : BodyRun) : List Attachment := b.outcome.attachments

theorem broadcasts_bodyRun (b : BodyRun) : broadcasts b.log = b.attachments.map .attachment := by
  rw [broadcasts, b.events_log]
  change (b.attachments.map _).filterMap Event.envelope? = _
  rw [List.filterMap_map, ← List.filterMap_eq_map]
  rfl

theorem broadcasts_bodyRuns (bs : List BodyRun) :
    broadcasts (bs.flatMap BodyRun.log) = (bs.flatMap BodyRun.attachments).map .attachment := by
  rw [broadcasts_flatMap bs fun b _ => broadcasts_bodyRun b, List.map_flatMap, List.flatMap_map]

def HookRun.node (h : HookRun) : HookNode where
  started := h.started
  attachments := h.bodies.flatMap BodyRun.attachments
  result := h.result

def StepRun.node (s : StepRun) : StepNode where
  testStepId := s.testStep.id
  content := s.suggestion.toList.map .inr ++ (s.bodies.flatMap BodyRun.attachments).map .inl
  result := s.result

def AttemptRun.node (testCaseId : String) (a : AttemptRun) : AttemptNode where
  started := ⟨a.attempt, a.id, testCaseId⟩
  steps := a.steps.map StepRun.node
  willBeRetried := a.willBeRetried

def CaseRun.nodes (cr : CaseRun) : List AttemptNode :=
  cr.attempts.map (AttemptRun.node cr.assembled.testCase.id)

def SuiteRun.node (s : SuiteRun) : SuiteNode where
  before := s.before.map HookRun.node
  attempts := s.cases.flatMap CaseRun.nodes
  after := s.after.map HookRun.node

def RunReport.node (testRunStartedId : String) (success : Bool) (r : RunReport) : RunNode where
  testRunStartedId := testRunStartedId
  beforeAll := r.beforeAll.map HookRun.node
  testCases := r.announced.map Announcement.testCase
  suites := r.suites.map SuiteRun.node
  afterAll := r.afterAll.map HookRun.node
  success := success

theorem broadcasts_hookRun {h : HookRun} (hr : h.outcome = .ok h.result) :
    broadcasts h.log = h.node.word := by
  have hfinished : h.finishedLog = [.said (.broadcast (.testRunHookFinished
      ⟨h.started.id, h.result⟩))] := by
    rw [HookRun.finishedLog, hr]
  simp [HookRun.log, hfinished, HookRun.node, HookNode.word, broadcasts_bodyRuns]

theorem broadcasts_stepRun (startedId : String) (s : StepRun) :
    broadcasts (s.log startedId) = s.node.word startedId := by
  have hsuggestion : broadcasts s.suggestionLog = s.suggestion.toList.map .suggestion := by
    unfold StepRun.suggestionLog
    cases s.suggestion <;> rfl
  have hcontent : s.node.content.map (Sum.elim .attachment .suggestion) =
      s.suggestion.toList.map .suggestion ++
        (s.bodies.flatMap BodyRun.attachments).map Envelope.attachment := by
    simp [StepRun.node, Function.comp_def]
  simp only [StepRun.log, StepNode.word, hcontent, broadcasts_broadcast, broadcasts_append,
    hsuggestion, broadcasts_bodyRuns, broadcasts_nil]
  rfl

theorem broadcasts_attemptRun (testCaseId : String) (a : AttemptRun) :
    broadcasts (a.log testCaseId) = (a.node testCaseId).word := by
  have hsteps := broadcasts_flatMap a.steps fun s _ => broadcasts_stepRun a.id s
  simp only [AttemptRun.log, broadcasts_drew, broadcasts_broadcast, broadcasts_append, hsteps,
    broadcasts_nil]
  rfl

theorem broadcasts_caseRun (cr : CaseRun) :
    broadcasts cr.log = cr.nodes.flatMap AttemptNode.word :=
  broadcasts_flatMap cr.attempts fun a _ => broadcasts_attemptRun _ a

theorem broadcasts_announcement (a : Announcement) :
    broadcasts a.log = [.testCase a.testCase] := by
  rw [broadcasts, a.events_log]
  rfl

namespace Worker

variable {w : Worker}

theorem HooksRule.broadcasts {site : CallSite} {ids : List String} {hs : List HookRun}
    {r : Except Fault (List TestStepResult)} (h : w.HooksRule site ids hs r)
    (hreturn : w.options.HooksReturn) :
    CucumberCpp.broadcasts (hs.flatMap HookRun.log) =
      (hs.map HookRun.node).flatMap HookNode.word := by
  apply broadcasts_flatMap
  intro h' hh'
  obtain ⟨id,_,hrule⟩ := exists_left_of_forall₂ (h.all hreturn).1 hh'
  exact broadcasts_hookRun (hrule.outcome_eq hreturn)

theorem SuiteRule.broadcasts {failing : Bool} {s : SuiteRun} (h : w.SuiteRule failing s)
    (hreturn : w.options.HooksReturn) :
    CucumberCpp.broadcasts s.log = s.node.word := by
  have hcases (cases : List CaseRun) : CucumberCpp.broadcasts (cases.flatMap CaseRun.log) =
      (cases.flatMap CaseRun.nodes).flatMap AttemptNode.word := by
    have heach : CucumberCpp.broadcasts (cases.flatMap CaseRun.log) =
        (cases.map CaseRun.nodes).flatMap fun nodes => nodes.flatMap AttemptNode.word :=
      broadcasts_flatMap cases fun cr _ => broadcasts_caseRun cr
    rw [heach, List.flatMap_map, List.flatMap_assoc]
  cases h with
  | withoutHooks hoff hrule => simp [SuiteRun.log, SuiteRun.node, SuiteNode.word, hcases]
  | aborted hon hbefore => cases (hbefore.all hreturn).2
  | withHooks hon hbefore hrule hafter =>
    simp [SuiteRun.log, SuiteRun.node, SuiteNode.word, hcases, hbefore.broadcasts hreturn,
      hafter.broadcasts hreturn]

end Worker

/-- What the grammar does not say about the attempts at one test case. -/
structure CaseShape (cr : CaseRun) : Prop where
  complete : ∀ a ∈ cr.attempts, a.steps.map StepRun.testStep = cr.assembled.testCase.testSteps
  numbered : cr.attempts.map (fun a => a.attempt.toNat) = List.range cr.attempts.length
  retried : ∀ i a, cr.attempts[i]? = some a →
    (a.willBeRetried = true ↔ i+1 < cr.attempts.length)

namespace Worker

variable {w : Worker}

theorem CaseRule.shape {failing : Bool} {cr : CaseRun} (h : w.CaseRule failing cr) :
    CaseShape cr := by
  rcases Nat.eq_zero_or_pos (w.testCaseRunner cr.assembled cr.skip).maximumAttempts.toNat with
    hzero | hpos
  · -- the count of attempts has wrapped around, so there are none
    have hattempts := h.attempts
    rw [hzero] at hattempts
    have hnil : cr.attempts = [] := by
      generalize cr.attempts = attempts, cr.status = status at hattempts
      cases hattempts
      rfl
    constructor <;> simp [hnil]
  · have hshape := h.attempts.shape hpos (by simp)
    refine ⟨fun a ha => (hshape.rule a ha).complete, ?_,
      fun i a ha => hshape.willBeRetried_iff ha⟩
    rw [hshape.numbers]
    exact List.range_eq_range'.symm

end Worker

section Ids

theorem caseRun_ids_sublist (cases : List CaseRun) :
    ((cases.flatMap CaseRun.nodes).map (·.started.id)).Sublist
      (drawn (cases.flatMap CaseRun.log)) := by
  rw [List.map_flatMap]
  apply sublist_drawn_flatMap
  intro cr
  have hids : (cr.nodes.map (·.started.id)) = cr.attempts.map AttemptRun.id := by
    simp [CaseRun.nodes, AttemptRun.node, Function.comp_def]
  rw [hids]
  exact attempt_ids_sublist _ _

theorem hookRun_ids (hs : List HookRun) :
    (hs.map HookRun.node).map (·.started.id) = drawn (hs.flatMap HookRun.log) := by
  rw [drawn_hookRuns, List.map_map]
  rfl

theorem suiteRun_ids_sublist (suites : List SuiteRun) :
    ((suites.map SuiteRun.node).flatMap SuiteNode.ids).Sublist
      (drawn (suites.flatMap SuiteRun.log)) := by
  rw [List.flatMap_map]
  apply sublist_drawn_flatMap
  intro s
  simp only [SuiteNode.ids, SuiteRun.node, SuiteRun.log, drawn_append, hookRun_ids]
  exact ((List.Sublist.refl _).append (caseRun_ids_sublist s.cases)).append (.refl _)

theorem announcement_ids_sublist (as : List Announcement) :
    ((as.map Announcement.testCase).map TestCase.id).Sublist
      (drawn (as.flatMap Announcement.log)) := by
  rw [List.map_map, List.map_eq_flatMap]
  apply sublist_drawn_flatMap
  intro a
  simp [Announcement.log]

theorem runReport_ids_sublist (testRunStartedId : String) (success : Bool) (r : RunReport) :
    ((r.node testRunStartedId success).ids).Sublist (drawn r.log) := by
  simp only [RunNode.ids, RunReport.node, RunReport.log, drawn_append, hookRun_ids]
  have hannounced := List.sublist_append_left
    (drawn (r.beforeAll.flatMap HookRun.log)) (drawn (r.announced.flatMap Announcement.log))
  exact (hannounced.append (suiteRun_ids_sublist r.suites)).append (.refl _)

theorem runReport_testCases_sublist (r : RunReport) :
    ((r.announced.map Announcement.testCase).map TestCase.id).Sublist (drawn r.log) := by
  simp only [RunReport.log, drawn_append]
  exact (announcement_ids_sublist r.announced).trans
    (((List.sublist_append_right _ _).trans (List.sublist_append_left _ _)).trans
      (List.sublist_append_left _ _))

end Ids

theorem attempts_node (r : RunReport) (testRunStartedId : String) (success : Bool) :
    (r.node testRunStartedId success).attempts = r.cases.flatMap CaseRun.nodes := by
  simp only [RunNode.attempts, RunReport.node, RunReport.cases, List.flatMap_map,
    List.flatMap_assoc]
  rfl

theorem CaseRun.testCaseId_of_mem {cr : CaseRun} {a : AttemptNode} (ha : a ∈ cr.nodes) :
    a.testCaseId = cr.assembled.testCase.id := by
  obtain ⟨_,_,rfl⟩ := List.mem_map.mp ha
  rfl

/-- An attempt says it will be retried exactly when its test case has one more. -/
theorem CaseShape.retried_iff {cr : CaseRun} (h : CaseShape cr) {pre post : List AttemptNode}
    {a : AttemptNode} (hnodes : cr.nodes = pre ++ a :: post) :
    a.willBeRetried = true ↔ post ≠ [] := by
  have hlength : cr.attempts.length = pre.length+1+post.length := by
    have hlength' := congrArg List.length hnodes
    simp only [CaseRun.nodes, List.length_map, List.length_append, List.length_cons] at hlength'
    omega
  have ha : cr.nodes[pre.length]? = some a := by simp [hnodes]
  obtain ⟨a',ha',rfl⟩ := Option.map_eq_some_iff.mp ((List.getElem?_map).symm.trans ha)
  rw [← List.length_pos_iff]
  refine (h.retried _ a' ha').trans ?_
  omega

namespace Worker

variable {w : Worker} {sourcedPickles : List PickleSource} {report : RunReport}

theorem SuitesRule.broadcasts {announced : List Announcement} {suites : List SuiteRun}
    (h : w.SuitesRule sourcedPickles announced suites)
    (hreturn : w.options.HooksReturn) :
    CucumberCpp.broadcasts (suites.flatMap SuiteRun.log) =
      (suites.map SuiteRun.node).flatMap SuiteNode.word := by
  apply broadcasts_flatMap
  intro s hs
  obtain ⟨_,_,_,hrule⟩ := h.threaded.mem hs
  exact hrule.broadcasts hreturn

theorem broadcasts_announcements (as : List Announcement) :
    CucumberCpp.broadcasts (as.flatMap Announcement.log) =
      (as.map Announcement.testCase).map .testCase := by
  rw [List.map_eq_flatMap]
  exact broadcasts_flatMap as fun a _ => broadcasts_announcement a

/-- What a run broadcasts is the word of its report's parse tree. -/
theorem RunRule.broadcasts (h : w.RunRule sourcedPickles report)
    (hreturn : w.options.HooksReturn) (success : Bool) :
    .testRunStarted ⟨w.testRunStartedId⟩ :: (CucumberCpp.broadcasts report.log ++
      [.testRunFinished ⟨success, w.testRunStartedId⟩]) =
        (report.node w.testRunStartedId success).word := by
  cases h with
  | aborted hbefore => cases (hbefore.all hreturn).2
  | failedBefore hbefore hfailing hafter =>
    simp [RunReport.log, RunReport.node, RunNode.word, hbefore.broadcasts hreturn,
      hafter.broadcasts hreturn]
  | executed hbefore hfailing hsuites hafter =>
    simp [RunReport.log, RunReport.node, RunNode.word, hbefore.broadcasts hreturn,
      hafter.broadcasts hreturn, hsuites.broadcasts hreturn, broadcasts_announcements]

theorem RunRule.caseShape (h : w.RunRule sourcedPickles report) {cr : CaseRun}
    (hcr : cr ∈ report.cases) : CaseShape cr := by
  obtain ⟨_,hrule⟩ := h.caseRule cr hcr
  exact hrule.shape

/-- The test cases of a run are among those announced in it. -/
theorem RunRule.testCase_mem (h : w.RunRule sourcedPickles report)
    (hreturn : w.options.HooksReturn) {cr : CaseRun} (hcr : cr ∈ report.cases) :
    cr.assembled.testCase ∈ report.announced.map Announcement.testCase := by
  have hmem := (h.cases_perm hreturn).mem_iff.mp (List.mem_map_of_mem hcr)
  obtain ⟨a,ha,hassembled⟩ := List.mem_map.mp hmem
  rw [← hassembled]
  exact List.mem_map_of_mem ha

theorem RunRule.testCaseIds_nodup (h : w.RunRule sourcedPickles report)
    (hreturn : w.options.HooksReturn)
    (hannounced : ((report.announced.map Announcement.testCase).map TestCase.id).Nodup) :
    (report.cases.map fun cr => cr.assembled.testCase.id).Nodup := by
  have hids := ((h.cases_perm hreturn).map fun a => a.testCase.id).nodup_iff
  simp only [List.map_map] at hids hannounced
  exact hids.mpr hannounced

/-- The attempts with the id of one test case are numbered from zero. -/
theorem RunRule.numbered (h : w.RunRule sourcedPickles report)
    (hnodup : (report.cases.map fun cr => cr.assembled.testCase.id).Nodup) (id : String) :
    (group AttemptNode.testCaseId (report.cases.flatMap CaseRun.nodes) id).map
        (·.started.attempt.toNat) =
      List.range (group AttemptNode.testCaseId (report.cases.flatMap CaseRun.nodes) id).length := by
  have hkey : ∀ cr ∈ report.cases, ∀ a ∈ cr.nodes,
      a.testCaseId = cr.assembled.testCase.id := fun cr _ a ha => cr.testCaseId_of_mem ha
  by_cases hid : ∃ cr ∈ report.cases, cr.assembled.testCase.id = id
  · obtain ⟨cr,hcr,rfl⟩ := hid
    rw [group_flatMap AttemptNode.testCaseId hkey hnodup hcr]
    have hnumbered := (h.caseShape hcr).numbered
    simpa [CaseRun.nodes, AttemptRun.node, Function.comp_def] using hnumbered
  · have hnone : group AttemptNode.testCaseId (report.cases.flatMap CaseRun.nodes) id = [] := by
      apply List.filter_eq_nil_iff.mpr
      intro a ha
      obtain ⟨cr,hcr,hnode⟩ := List.mem_flatMap.mp ha
      simpa using fun heq => hid ⟨cr, hcr, (hkey cr hcr a hnode).symm.trans heq⟩
    rw [hnone]
    rfl

/-- The parse tree of a run is well formed once no id is drawn twice. -/
theorem RunRule.wellFormed (h : w.RunRule sourcedPickles report)
    (hreturn : w.options.HooksReturn) (hdrawn : (drawn report.log).Nodup)
    (success : Bool) : (report.node w.testRunStartedId success).WellFormed := by
  have hannounced : ((report.announced.map Announcement.testCase).map TestCase.id).Nodup :=
    hdrawn.sublist (runReport_testCases_sublist report)
  have hnodup := h.testCaseIds_nodup hreturn hannounced
  constructor
  · exact hdrawn.sublist (runReport_ids_sublist _ _ report)
  · exact hannounced
  · intro a ha
    rw [attempts_node] at ha
    obtain ⟨cr,hcr,hnode⟩ := List.mem_flatMap.mp ha
    refine ⟨cr.assembled.testCase, h.testCase_mem hreturn hcr, cr.testCaseId_of_mem hnode, ?_⟩
    obtain ⟨a',ha',rfl⟩ := List.mem_map.mp hnode
    rw [← (h.caseShape hcr).complete a' ha']
    simp [AttemptRun.node, StepRun.node, Function.comp_def]
  · intro id
    rw [attempts_node]
    exact h.numbered hnodup id
  · -- only the attempts at the same test case can follow under its id
    intro pre a post hattempts
    rw [attempts_node] at hattempts
    obtain ⟨cr,hcr,xpre,xpost,hnodes,hlater⟩ :=
      exists_later_iff (fun cr _ a ha => cr.testCaseId_of_mem ha) hnodup hattempts
    rw [(h.caseShape hcr).retried_iff hnodes, hlater]

end Worker

/-- A run that threw never reports that it is finished. -/
def runFinishedLog (testRunStartedId : String) (outcome : Except Fault Bool) :
    List (Entry String Event) :=
  match outcome with
  | .ok success => [.said (.broadcast (.testRunFinished ⟨success, testRunStartedId⟩))]
  | .error _ => []

@[simp] theorem runFinishedLog_ok (testRunStartedId : String) (success : Bool) :
    runFinishedLog testRunStartedId (.ok success) =
      [.said (.broadcast (.testRunFinished ⟨success, testRunStartedId⟩))] := rfl

@[simp] theorem runFinishedLog_error (testRunStartedId : String) (e : Fault) :
    runFinishedLog testRunStartedId (.error e) = [] := rfl

/-- Everything a run of the coordinator broadcasts under accepted options, apart
from the messages that open and close it, is in the report of the adapter. -/
theorem Coordinator.emits_run {options : RuntimeOptions} (hoptions : options.Accepted)
    (testRunStartedId : String) (sourcedPickles : List PickleSource)
    (supportCodeLibrary : SupportCodeLibrary) :
    Emits (Coordinator.run testRunStartedId (SerialRuntimeAdapter.run testRunStartedId
      sourcedPickles options supportCodeLibrary) : Run idGenerator Bool)
      fun r s => ∃ report : RunReport,
        Worker.RunRule ⟨testRunStartedId, options, supportCodeLibrary⟩ sourcedPickles report ∧
        r = report.outcome ∧
        s = .said (.broadcast (.testRunStarted ⟨testRunStartedId⟩)) ::
          (report.log ++ runFinishedLog testRunStartedId report.outcome) := by
  unfold Coordinator.run
  apply emits_broadcastEvent_bind
  apply (SerialRuntimeAdapter.emits_run hoptions _ _ _).bind
  · intro success s h
    obtain ⟨report,hrule,hr,rfl⟩ := h
    apply emits_broadcastEvent_bind
    apply emits_pure
    exact ⟨report, hrule, hr, by rw [← hr, runFinishedLog_ok]⟩
  · intro e s h
    obtain ⟨report,hrule,hr,rfl⟩ := h
    exact ⟨report, hrule, hr, by rw [← hr]; simp⟩

/-- Unless a failing hook may end it early, a run broadcasts a word of the grammar. -/
theorem run_broadcasts_wellFormed {options : RuntimeOptions} (hoptions : options.Accepted)
    (hfast : options.failGlobalHookFast = false) (testRunStartedId : String)
    (sourcedPickles : List PickleSource) (supportCodeLibrary : SupportCodeLibrary)
    (world : World idGenerator Event) :
    ∃ stream : RunNode, stream.WellFormed ∧ stream.testRunStartedId = testRunStartedId ∧
      (run (Coordinator.run testRunStartedId (SerialRuntimeAdapter.run testRunStartedId
        sourcedPickles options supportCodeLibrary)) world).1 = .ok stream.success ∧
      broadcasts (run (Coordinator.run testRunStartedId (SerialRuntimeAdapter.run testRunStartedId
        sourcedPickles options supportCodeLibrary)) world).2.log =
          broadcasts world.log ++ stream.word := by
  obtain ⟨seg,hlog,report,hrule,hr,hseg⟩ :=
    Coordinator.emits_run hoptions testRunStartedId sourcedPickles supportCodeLibrary world
  have hreturn : options.HooksReturn := .inr hfast
  obtain ⟨success,hsuccess⟩ := hrule.outcome_eq hreturn
  have hdrawn := drawn_segment_nodup _ _ _ hlog
  rw [hsuccess] at hr hseg
  subst hseg
  have hnodup : (drawn report.log).Nodup := by simpa using hdrawn
  refine ⟨report.node testRunStartedId success, hrule.wellFormed hreturn hnodup success, rfl,
    hr, ?_⟩
  rw [hlog, broadcasts_append, ← hrule.broadcasts hreturn success]
  simp

/-- Two attempts at a scenario with one step that fails, between two hooks. -/
theorem run_broadcasts_wellFormed_retry : ∃ stream : RunNode, stream.WellFormed ∧
    broadcasts (run (Coordinator.run "run" (SerialRuntimeAdapter.run "run"
      [⟨{ id := "p", name := "retried", steps := [{ id := "s", text := "a step" }] },
        { uri := "a.feature" }⟩] { retry := 1 }
      (.ofDefinitions
        [.constant "1" .beforeAll .passed, .constant "2" .before .passed]
        [.constant "d" .failed]))) (World.start decimalIds Event)).2.log =
      stream.word := by
  have hoptions : RuntimeOptions.Accepted { retry := 1 } := ⟨by simp, by simp⟩
  obtain ⟨stream,hwell,_,_,hword⟩ := run_broadcasts_wellFormed hoptions rfl "run" _ _
    (World.start decimalIds Event)
  exact ⟨stream, hwell, hword⟩

end CucumberCpp
