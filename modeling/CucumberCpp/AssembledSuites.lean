import CucumberCpp.EventStream

/-! The suites that assembly returns, told from the pickles alone: which test
cases are in them, in what order, and what each test case consists of. -/
namespace CucumberCpp

open EventLog Grouping

variable {idGenerator : IdGenerator}

/-- The arguments with which a definition accepts a text. -/
def StepDefinition.arguments? (d : StepDefinition) (text : String) :
    Option StepMatchArgumentsList :=
  (d.regex text).map fun m => { stepMatchArguments := m.map toStepMatchArgument }

theorem suiteOf_uri {as : List Announcement} {uri : String} {suite : AssembledTestSuite}
    (h : suiteOf as uri = some suite) : suite.gherkinDocument.uri = uri := by
  unfold suiteOf at h
  cases hg : group Announcement.uri as uri with
  | nil => simp [hg] at h
  | cons a rest =>
    have ha : a ∈ group Announcement.uri as uri := by simp [hg]
    rw [hg] at h
    cases h
    exact of_decide_eq_true (List.mem_filter.mp ha).2

/-- One suite for each file, in the order in which the files appear. -/
theorem suitesOf_uris (as : List Announcement) :
    (suitesOf as).map (·.gherkinDocument.uri) = keysOf Announcement.uri as := by
  have hsuites (uris : List String) (hmem : ∀ uri ∈ uris, uri ∈ keysOf Announcement.uri as) :
      (uris.filterMap (suiteOf as)).map (·.gherkinDocument.uri) = uris := by
    induction uris with
    | nil => rfl
    | cons uri uris ih =>
      have hsome : suiteOf as uri ≠ none := fun h =>
        (suiteOf_eq_none_iff as uri).mp h (hmem uri List.mem_cons_self)
      obtain ⟨suite,hs⟩ := Option.ne_none_iff_exists'.mp hsome
      rw [List.filterMap_cons_some hs, List.map_cons, suiteOf_uri hs,
        ih fun u hu => hmem u (List.mem_cons_of_mem uri hu)]
  exact hsuites _ fun _ h => h

end CucumberCpp
