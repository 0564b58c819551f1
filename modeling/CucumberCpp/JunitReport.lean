import CucumberCpp.AttemptLimits
import CucumberCpp.JunitXmlFormatter
import CucumberCpp.TracedAttempts
import CucumberCpp.Verdict

/-! The document of the JUnit formatter against the run that it is about. -/
namespace CucumberCpp

open EventLog

variable {idGenerator : IdGenerator}

theorem exists_mapM_ok {α β F : Type} {f : α → Except F β} {R : α → β → Prop} {xs : List α}
    (h : ∀ x ∈ xs, ∃ y, f x = .ok y ∧ R x y) : ∃ ys, xs.mapM f = .ok ys ∧ List.Forall₂ R xs ys := by
  induction xs with
  | nil => exact ⟨[], rfl, .nil⟩
  | cons x xs ih =>
    obtain ⟨y,hy,hR⟩ := h x List.mem_cons_self
    obtain ⟨ys,hys,hall⟩ := ih fun x' hx' => h x' (List.mem_cons_of_mem x hx')
    refine ⟨y :: ys, ?_, .cons hR hall⟩
    rw [List.mapM_cons, hy, hys]
    rfl

/-- A name is declared by one message, and an attempt is finished by one. -/
structure Unambiguous (messages : List Message) : Prop where
  declared : (messageNames.declared messages).Nodup
  finished : (((runEnvelopes messages).filterMap Envelope.testCaseFinished?).map
    TestCaseFinished.testCaseStartedId).Nodup

/-- A most severe of these results, if there are any. -/
def MostSevere (results : List TestStepResult) : Option TestStepResult → Prop
  | none => results = []
  | some result => result ∈ results ∧
      ∀ result' ∈ results, toUnderlying result'.status ≤ toUnderlying result.status

namespace JunitQuery

/-- The sources of a started test case are known. -/
structure Resolves (query : JunitQuery) (started : TestCaseStarted) : Prop where
  pickle : (query.findPickleBy started).isSome
  lineage : (query.findLineageBy started).isSome
  step : ∀ p ∈ query.findTestStepFinishedAndTestStepBy started, p.2.pickleStepId.isSome →
    ((query.findPickleStepBy p.2).bind query.findStepBy).isSome

/-- What the documentation of the query says of a query that was updated with these messages.
Of an attempt it knows the results and the sources if the messages lead back to the document. -/
structure Documented (query : JunitQuery) (gherkin : Gherkin) (messages : List Message) :
    Prop where
  started : query.findAllTestCaseStarted = unretried (runEnvelopes messages)
  counted : query.countTestCasesStarted = query.findAllTestCaseStarted.length
  statuses : ∀ status, (query.countMostSevereTestStepResultStatus status).getD 0 =
    query.findAllTestCaseStarted.countP fun started =>
      (query.findMostSevereTestStepResultBy started).map TestStepResult.status = some status
  mostSevere : ∀ started ∈ query.findAllTestCaseStarted, Traced gherkin messages started →
    MostSevere (resultsOf (runEnvelopes messages) started)
      (query.findMostSevereTestStepResultBy started)
  resolves : ∀ started ∈ query.findAllTestCaseStarted, Traced gherkin messages started →
    query.Resolves started

end JunitQuery

namespace XmlNode

def name? : XmlNode → Option String
  | element name _ _ => some name
  | cdata _ => none

def children : XmlNode → List XmlNode
  | element _ _ children => children
  | cdata _ => []

def attribute? (name : String) : XmlNode → Option XmlValue
  | element _ attributes _ => (attributes.find? fun a => a.1 = name).map Prod.snd
  | cdata _ => none

def hasChild (name : String) (node : XmlNode) : Bool :=
  node.children.any fun child => child.name? = some name

/-- The counts of a test suite are those of its children. -/
structure Summarised (suite : XmlNode) : Prop where
  testCases : ∀ child ∈ suite.children, child.name? = some "testcase"
  tests : suite.attribute? "tests" = some (.unsigned (.ofNat suite.children.length))
  failures : suite.attribute? "failures" =
    some (.unsigned (.ofNat (suite.children.countP (hasChild "failure"))))
  skipped : suite.attribute? "skipped" =
    some (.unsigned (.ofNat (suite.children.countP (hasChild "skipped"))))
  errors : suite.attribute? "errors" = some (.unsigned 0)
  exclusive : ∀ child ∈ suite.children, ¬(child.hasChild "failure" ∧ child.hasChild "skipped")

end XmlNode

namespace JunitXmlFormatter

variable {query : JunitQuery} {messages : List Message} {f : JunitXmlFormatter}

theorem exists_makeOutput_ok {started : TestCaseStarted} (h : query.Resolves started) :
    ∃ output, makeOutput query f started = .ok output := by
  have hlines : ∀ p ∈ (query.findTestStepFinishedAndTestStepBy started).filter
      (fun p => p.2.pickleStepId.isSome), ∃ line, outputLine query f p = .ok line ∧ True := by
    intro p hp
    obtain ⟨hmem,hstep⟩ := List.mem_filter.mp hp
    obtain ⟨gherkinStep,hbind⟩ := Option.isSome_iff_exists.mp (h.step p hmem hstep)
    obtain ⟨pickleStep,hpickleStep,hgherkinStep⟩ := Option.bind_eq_some_iff.mp hbind
    unfold outputLine
    rw [hpickleStep]
    dsimp only
    rw [hgherkinStep]
    exact ⟨_, rfl, trivial⟩
  obtain ⟨lines,hlines,_⟩ := exists_mapM_ok hlines
  unfold makeOutput
  rw [hlines]
  exact ⟨_, rfl⟩

theorem exists_makeReport_ok
    (h : ∀ started ∈ query.findAllTestCaseStarted, query.Resolves started) :
    ∃ report, makeReport query f = .ok report ∧
      report.tests = query.countTestCasesStarted ∧
      report.skipped = (query.countMostSevereTestStepResultStatus .skipped).getD 0 ∧
      report.failures = (query.countMostSevereTestStepResultStatus .unknown).getD 0+
        (query.countMostSevereTestStepResultStatus .pending).getD 0+
        (query.countMostSevereTestStepResultStatus .undefined).getD 0+
        (query.countMostSevereTestStepResultStatus .ambiguous).getD 0+
        (query.countMostSevereTestStepResultStatus .failed).getD 0 ∧
      report.errors = 0 ∧
      List.Forall₂ (fun started testCase => testCase.failure = makeFailure query started)
        query.findAllTestCaseStarted report.testCases := by
  have htestCases : ∀ started ∈ query.findAllTestCaseStarted,
      ∃ testCase, makeTestCase query f started = .ok testCase ∧
        testCase.failure = makeFailure query started := by
    intro started hmem
    obtain ⟨pickle,hpickle⟩ := Option.isSome_iff_exists.mp (h started hmem).pickle
    obtain ⟨lineage,hlineage⟩ := Option.isSome_iff_exists.mp (h started hmem).lineage
    obtain ⟨output,houtput⟩ := exists_makeOutput_ok (h started hmem)
    unfold makeTestCase
    rw [hlineage]
    dsimp only
    rw [hpickle]
    dsimp only
    rw [houtput]
    exact ⟨_, rfl, rfl⟩
  obtain ⟨testCases,hmapM,hall⟩ := exists_mapM_ok htestCases
  unfold makeReport
  rw [hmapM]
  exact ⟨_, rfl, rfl, rfl, rfl, rfl, hall⟩

/-- What the formatter takes a status for. -/
def failureKind? : TestStepResultStatus → Option FailureKind
  | .passed => none
  | .skipped => some .skipped
  | .unknown | .pending | .undefined | .ambiguous | .failed => some .failure

theorem hasChild_testCaseNode (kind : FailureKind) (testCase : ReportTestCase) :
    (testCaseNode testCase).hasChild kind.nodeName =
      testCase.failure.any fun failure => failure.kind = kind := by
  have hsystemOut : (systemOut testCase).any (fun child => child.name? = some kind.nodeName) =
      false := by
    unfold systemOut
    split_ifs
    · rfl
    · cases kind <;> rfl
  rw [XmlNode.hasChild, testCaseNode, XmlNode.children, List.any_append, hsystemOut,
    Bool.or_false]
  cases testCase.failure with
  | none => rfl
  | some failure =>
    obtain ⟨kind',_,_,_⟩ := failure
    cases kind <;> cases kind' <;> rfl

theorem makeFailure_any (kind : FailureKind) (started : TestCaseStarted) :
    ((makeFailure query started).any fun failure => failure.kind = kind) =
      (query.findMostSevereTestStepResultBy started).any fun result =>
        failureKind? result.status = some kind := by
  unfold makeFailure
  cases query.findMostSevereTestStepResultBy started with
  | none => rfl
  | some result =>
    cases hstatus : result.status <;> cases kind <;> simp [hstatus, failureKind?]

/-- The element of a suite. -/
def testSuiteNode (f : JunitXmlFormatter) (report : ReportSuite) : XmlNode :=
  .element "testsuite" (f.suiteAttributes report) (report.testCases.map testCaseNode)

theorem countP_of_forall₂ {α β : Type} {p : α → Bool} {q : β → Bool} {xs : List α} {ys : List β}
    (h : List.Forall₂ (fun x y => p x = q y) xs ys) : xs.countP p = ys.countP q := by
  induction h with
  | nil => rfl
  | cons hxy _ ih => rw [List.countP_cons, List.countP_cons, ih, hxy]

/-- The five statuses that are added up are those of the test cases that failed. -/
theorem countP_failure {α : Type} (status? : α → Option TestStepResultStatus) (xs : List α) :
    xs.countP (fun x => (status? x).any fun s => failureKind? s = some .failure) =
      xs.countP (fun x => status? x = some .unknown)+
        xs.countP (fun x => status? x = some .pending)+
        xs.countP (fun x => status? x = some .undefined)+
        xs.countP (fun x => status? x = some .ambiguous)+
        xs.countP (fun x => status? x = some .failed) := by
  induction xs with
  | nil => rfl
  | cons x xs ih =>
    simp only [List.countP_cons, ih]
    cases status? x with
    | none => simp
    | some s => cases s <;> simp [failureKind?] <;> omega

/-- Whether the report of a test case has a failure of this kind. -/
def ReportTestCase.has (kind : FailureKind) (testCase : ReportTestCase) : Bool :=
  testCase.failure.any fun failure => failure.kind = kind

/-- The counts of a report are those of its test cases. -/
structure ReportSuite.Counted (report : ReportSuite) : Prop where
  tests : report.tests = report.testCases.length
  failures : report.failures = report.testCases.countP (ReportTestCase.has .failure)
  skipped : report.skipped = report.testCases.countP (ReportTestCase.has .skipped)
  errors : report.errors = 0

theorem exists_counted_report {gherkin : Gherkin} (hdocumented : query.Documented gherkin messages)
    (htraced : ∀ started ∈ unretried (runEnvelopes messages), Traced gherkin messages started) :
    ∃ report, makeReport query f = .ok report ∧ report.Counted ∧
      List.Forall₂ (fun started testCase => ∀ kind, ReportTestCase.has kind testCase =
        (query.findMostSevereTestStepResultBy started).any fun result =>
          failureKind? result.status = some kind)
        (unretried (runEnvelopes messages)) report.testCases := by
  have hresolves : ∀ started ∈ query.findAllTestCaseStarted, query.Resolves started :=
    fun started hmem => hdocumented.resolves started hmem (htraced _ (hdocumented.started ▸ hmem))
  obtain ⟨report,hreport,htests,hskipped,hfailures,herrors,hall⟩ :=
    exists_makeReport_ok (f := f) hresolves
  have hkinds : List.Forall₂ (fun started testCase => ∀ kind, ReportTestCase.has kind testCase =
      (query.findMostSevereTestStepResultBy started).any fun result =>
        failureKind? result.status = some kind) query.findAllTestCaseStarted report.testCases := by
    apply hall.imp
    intro started testCase hfailure kind
    rw [ReportTestCase.has, hfailure, makeFailure_any]
  have hcount (kind : FailureKind) : query.findAllTestCaseStarted.countP (fun started =>
      (query.findMostSevereTestStepResultBy started).any fun result =>
        failureKind? result.status = some kind) =
      report.testCases.countP (ReportTestCase.has kind) :=
    countP_of_forall₂ (hkinds.imp fun _ _ h => (h kind).symm)
  refine ⟨report, hreport, ⟨?_, ?_, ?_, herrors⟩, hdocumented.started ▸ hkinds⟩
  · rw [htests, hdocumented.counted]
    exact hkinds.length_eq
  · -- the formatter adds up the counts of five statuses
    rw [hfailures, hdocumented.statuses, hdocumented.statuses, hdocumented.statuses,
      hdocumented.statuses, hdocumented.statuses, ← countP_failure]
    simp only [Option.any_map]
    exact hcount .failure
  · rw [hskipped, hdocumented.statuses, ← hcount .skipped]
    apply List.countP_congr
    intro started _
    cases query.findMostSevereTestStepResultBy started with
    | none => simp
    | some result => cases hstatus : result.status <;> simp [hstatus, failureKind?]

theorem countP_testCaseNode (kind : FailureKind) (testCases : List ReportTestCase) :
    (testCases.map testCaseNode).countP (XmlNode.hasChild kind.nodeName) =
      testCases.countP (ReportTestCase.has kind) := by
  rw [List.countP_map]
  exact List.countP_congr fun testCase _ => by
    rw [Function.comp_apply, hasChild_testCaseNode, ReportTestCase.has]

/-- The element of a report repeats the counts of the report in its attributes. -/
theorem ReportSuite.Counted.summarised {report : ReportSuite} (h : report.Counted) :
    (testSuiteNode f report).Summarised where
  testCases := by simp [testSuiteNode, XmlNode.children, testCaseNode, XmlNode.name?]
  tests := by
    rw [testSuiteNode, XmlNode.children, List.length_map, ← h.tests]
    simp [XmlNode.attribute?, suiteAttributes]
  failures := by
    have hcount := countP_testCaseNode .failure report.testCases
    rw [← h.failures, FailureKind.nodeName] at hcount
    rw [testSuiteNode, XmlNode.children, hcount]
    simp [XmlNode.attribute?, suiteAttributes]
  skipped := by
    have hcount := countP_testCaseNode .skipped report.testCases
    rw [← h.skipped, FailureKind.nodeName] at hcount
    rw [testSuiteNode, XmlNode.children, hcount]
    simp [XmlNode.attribute?, suiteAttributes]
  errors := by
    rw [testSuiteNode]
    simp [XmlNode.attribute?, suiteAttributes, h.errors]
  exclusive := by
    rintro child hchild ⟨hfailure,hskip⟩
    obtain ⟨testCase,_,rfl⟩ := List.mem_map.mp hchild
    rw [← show FailureKind.failure.nodeName = "failure" from rfl,
      hasChild_testCaseNode] at hfailure
    rw [← show FailureKind.skipped.nodeName = "skipped" from rfl,
      hasChild_testCaseNode] at hskip
    -- a test case has one failure at most, of one kind
    cases hkind : testCase.failure with
    | none => simp [hkind] at hfailure
    | some failure =>
      rw [hkind, Option.any_some, decide_eq_true_eq] at hfailure hskip
      cases hfailure.symm.trans hskip

/-- The test case elements in order, and what they say of the attempts they stand for. -/
theorem exists_suite {gherkin : Gherkin} (hdocumented : query.Documented gherkin messages)
    (htraced : ∀ started ∈ unretried (runEnvelopes messages), Traced gherkin messages started) :
    ∃ report, makeReport query f = .ok report ∧ (testSuiteNode f report).Summarised ∧
      List.Forall₂ (fun started node => ∀ kind : FailureKind, node.hasChild kind.nodeName =
        (query.findMostSevereTestStepResultBy started).any fun result =>
          failureKind? result.status = some kind)
        (unretried (runEnvelopes messages)) (testSuiteNode f report).children := by
  obtain ⟨report,hreport,hcounted,hkinds⟩ := exists_counted_report (f := f) hdocumented htraced
  refine ⟨report, hreport, hcounted.summarised, ?_⟩
  rw [testSuiteNode, XmlNode.children, List.forall₂_map_right_iff]
  apply hkinds.imp
  intro started testCase hkind kind
  rw [hasChild_testCaseNode, ← hkind kind, ReportTestCase.has]

/-- Messages that do not say that a run is finished only update the query. -/
theorem foldlM_invoke (state : State) {messages : List Message}
    (h : ∀ m ∈ messages, ∀ finished, m ≠ .run (.testRunFinished finished)) :
    messages.foldlM f.invoke state = .ok { state with seen := state.seen ++ messages } := by
  induction messages generalizing state with
  | nil => simp [pure, Except.pure]
  | cons m messages ih =>
    rw [List.forall_mem_cons] at h
    have hround : f.invoke state m = .ok { state with seen := state.seen ++ [m] } := by
      unfold invoke
      split
      · rename_i finished
        exact absurd rfl (h.1 finished)
      · rfl
    rw [List.foldlM_cons, hround]
    apply (ih { state with seen := state.seen ++ [m] } h.2).trans
    simp

theorem documents_of_unfinished {messages : List Message}
    (h : ∀ m ∈ messages, ∀ finished, m ≠ .run (.testRunFinished finished)) :
    f.documents messages = .ok [] := by
  unfold documents
  rw [foldlM_invoke {} h]
  rfl

theorem documents_of_finished {before : List Message}
    (h : ∀ m ∈ before, ∀ finished, m ≠ .run (.testRunFinished finished))
    (finished : TestRunFinished) {report : ReportSuite}
    (hreport : makeReport (f.query (before ++ [.run (.testRunFinished finished)])) f =
      .ok report) :
    f.documents (before ++ [.run (.testRunFinished finished)]) =
      .ok [testSuiteNode f report] := by
  have hround : f.invoke { seen := before } (.run (.testRunFinished finished)) = .ok
      { seen := before ++ [.run (.testRunFinished finished)]
        attributes := f.suiteAttributes report
        children := report.testCases.map testCaseNode
        written := [testSuiteNode f report] } := by
    change f.handleTestRunFinished _ = _
    unfold handleTestRunFinished
    rw [hreport]
    rfl
  have hlast : List.foldlM f.invoke { seen := before } [.run (.testRunFinished finished)] =
      f.invoke { seen := before } (.run (.testRunFinished finished)) := by
    simp
  unfold documents
  rw [List.foldlM_append, foldlM_invoke {} h, List.nil_append]
  change (List.foldlM f.invoke { seen := before } [.run (.testRunFinished finished)] >>=
    fun state => pure state.written) = _
  rw [hlast, hround]
  rfl

end JunitXmlFormatter

end CucumberCpp
