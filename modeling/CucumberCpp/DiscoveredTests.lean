import CucumberCpp.UniqueNames

/-! The test that is discovered for a scenario, and what its name filter selects. -/
namespace CucumberCpp

open OrderedMap TextLines

namespace Cmake

theorem isSpace_of_isLineBreak {c : Char} (h : isLineBreak c = true) : isSpace c = true := by
  simp only [isLineBreak, decide_eq_true_eq, List.mem_cons, List.not_mem_nil, or_false] at h
  rcases h with rfl | rfl <;> rfl

theorem replaceCrLf_cons_of_ne {c : Char} (hc : c ≠ '\r') (text : Text) :
    replaceCrLf (c :: text) = c :: replaceCrLf text := by
  cases text with
  | nil => rfl
  | cons d text => exact if_neg fun h => hc h.1

/-- The characters that `_cucumber_escape_regex` marks. -/
def isSpecial (c : Char) : Bool := decide (c = '\\') || decide (c ∈ metacharacters)

theorem escapeRegex_eq (value : Text) : escapeRegex value = escape isSpecial '\\' value := by
  have hfirst : replaceChar '\\' ['\\','\\'] value =
      escape (fun c => decide (c = '\\')) '\\' value := by
    apply List.flatMap_congr
    intro c _
    by_cases hc : c = '\\' <;> simp [hc]
  have hmark : '\\' ∉ metacharacters := by decide
  have hspecial : ∀ c ∈ metacharacters, decide (c = '\\') = false := by
    intro c hc
    rw [decide_eq_false_iff_not]
    intro heq
    exact hmark (heq ▸ hc)
  unfold escapeRegex
  rw [hfirst]
  exact foldl_replaceChar_escape hmark (by decide) hspecial value

theorem escapeRegex_injective : Function.Injective escapeRegex := by
  intro value value' h
  rw [escapeRegex_eq, escapeRegex_eq] at h
  exact escape_injective rfl h

/-- The output with line feeds for all line breaks. -/
def normalized (output : Text) : Text := replaceChar '\r' ['\n'] (replaceCrLf output)

theorem normalized_append {text : Text} (h : SingleLine text) (output : Text) :
    normalized (text ++ output) = text ++ normalized output := by
  induction text with
  | nil => rfl
  | cons c text ih =>
    have hc : c ≠ '\r' := by
      intro heq
      have hbreak := h c List.mem_cons_self
      rw [heq] at hbreak
      cases hbreak
    have hrest := ih fun d hd => h d (List.mem_cons_of_mem _ hd)
    unfold normalized replaceChar at *
    rw [List.cons_append, replaceCrLf_cons_of_ne hc, List.flatMap_cons, if_neg hc, hrest]
    rfl

/-- A line break stays one, and what follows stays blank or not. -/
theorem normalized_lineBreak {c : Char} (hc : isLineBreak c = true) (output : Text) :
    ∃ rest, normalized (c :: output) = '\n' :: rest ∧
      (rest = normalized output ∨ ∃ output', output = '\n' :: output' ∧
        rest = normalized output') := by
  simp only [isLineBreak, decide_eq_true_eq, List.mem_cons, List.not_mem_nil, or_false] at hc
  rcases hc with rfl | rfl
  · refine ⟨normalized output, ?_, .inl rfl⟩
    unfold normalized
    rw [replaceCrLf_cons_of_ne (by decide)]
    rfl
  · cases output with
    | nil => exact ⟨[], rfl, .inl rfl⟩
    | cons d output =>
      by_cases hd : d = '\n'
      · subst hd
        exact ⟨normalized output, rfl, .inr ⟨output, rfl, rfl⟩⟩
      · refine ⟨normalized (d :: output), ?_, .inl rfl⟩
        unfold normalized
        rw [replaceCrLf, if_neg fun h => hd h.2]
        rfl

theorem forall_isSpace_normalized_iff (output : Text) :
    (∀ c ∈ normalized output, isSpace c = true) ↔ ∀ c ∈ output, isSpace c = true := by
  induction hlength : output.length using Nat.strong_induction_on generalizing output with
  | _ n ih =>
    cases output with
    | nil => simp [normalized, replaceCrLf, replaceChar]
    | cons c output =>
      rw [List.length_cons] at hlength
      have htail := ih output.length (by omega) output rfl
      by_cases hc : isLineBreak c = true
      · have hspace := isSpace_of_isLineBreak hc
        have hlf : isSpace '\n' = true := rfl
        obtain ⟨rest,hrest,hcases⟩ := normalized_lineBreak hc output
        rw [hrest, List.forall_mem_cons, List.forall_mem_cons]
        rcases hcases with rfl | ⟨output',rfl,rfl⟩
        · simp only [htail, hspace, hlf, true_and]
        · rw [List.length_cons] at hlength
          have htail' := ih output'.length (by omega) output' rfl
          simp only [htail', List.forall_mem_cons, hspace, hlf, true_and]
      · have hsingle : SingleLine [c] := by
          intro d hd
          rw [List.mem_singleton.mp hd]
          simpa using hc
        have happend := normalized_append hsingle output
        rw [List.singleton_append] at happend
        rw [happend, List.singleton_append, List.forall_mem_cons, List.forall_mem_cons, htail]

/-- What the pattern of the script captures: the first field and all that follows it. -/
theorem matchLine_eq_some_iff {line testName sourceLocation : Text} :
    matchLine line = some (testName,sourceLocation) ↔
      testName ≠ [] ∧ '\t' ∉ testName ∧ line = testName ++ '\t' :: sourceLocation := by
  have hsplit := List.takeWhile_append_dropWhile (p := fun c => decide (c ≠ '\t')) (l := line)
  constructor
  · intro h
    unfold matchLine at h
    split at h
    · cases h
    · cases h
    · rename_i tab _ hdrop hnil
      obtain ⟨rfl,rfl⟩ := Prod.mk.inj (Option.some.inj h)
      have htab : tab = '\t' := by simpa using not_of_dropWhile_eq_cons hdrop
      refine ⟨hnil, ?_, ?_⟩
      · intro hmem
        simpa using List.mem_takeWhile_imp hmem
      · subst htab
        rw [← hdrop]
        exact hsplit.symm
  · intro h
    obtain ⟨hne,htab,rfl⟩ := h
    have hall : ∀ c ∈ testName, decide (c ≠ '\t') = true := by
      intro c hc
      rw [decide_eq_true_eq]
      exact fun heq => htab (heq ▸ hc)
    unfold matchLine
    rw [List.takeWhile_append_of_pos hall, List.dropWhile_append_of_pos hall]
    cases testName with
    | nil => exact absurd rfl hne
    | cons c testName => simp

theorem matchLine_of_not_mem {line : Text} (h : '\t' ∉ line) : matchLine line = none := by
  rw [Option.eq_none_iff_forall_ne_some]
  intro fields hfields
  obtain ⟨_,_,rfl⟩ := matchLine_eq_some_iff.mp hfields
  simp at h

theorem discoverLine_eq_none_iff {line : Text} :
    discoverLine line = none ↔ ∀ c ∈ line, isSpace c = true := by
  rw [← strip_eq_nil_iff]
  unfold discoverLine
  dsimp only
  split_ifs with h
  · simp [h]
  · simp only [h, iff_false]
    split <;> simp

/-- The name of a test does not begin with white space. -/
theorem discoverLine_testName {line : Text} {test : DiscoveredTest}
    (h : discoverLine line = some test) :
    ∃ c name, test.testName = c :: name ∧ isSpace c = false := by
  unfold discoverLine at h
  dsimp only at h
  split_ifs at h with hnil
  cases hline : strip isSpace line with
  | nil => exact absurd hline hnil
  | cons c rest =>
    have hc := not_of_strip_eq_cons hline
    rw [hline] at h
    split at h
    · rename_i testName sourceLocation hmatch
      obtain ⟨hne,_,hfields⟩ := matchLine_eq_some_iff.mp hmatch
      rw [← Option.some.inj h]
      cases testName with
      | nil => exact absurd rfl hne
      | cons d testName =>
        obtain ⟨rfl,_⟩ := List.cons.inj hfields
        exact ⟨c, testName, rfl, hc⟩
    · rw [← Option.some.inj h]
      exact ⟨c, rest, rfl, hc⟩

/-- A name stands whole in a line: it is not empty, it does not begin with white space, and
it does not end with white space unless something else follows it in its line. -/
structure Whole (u rest : Text) : Prop where
  nonempty : u ≠ []
  front : ∀ c ∈ u.head?, isSpace c = false
  back : (∀ c ∈ rest, isSpace c = true) → ∀ c ∈ u.getLast?, isSpace c = false

/-- Of a name that only white space follows, the end is stripped as well. -/
theorem discoverLine_append_of_blank {u rest : Text} (hu : SingleField u) {c : Char} {u' : Text}
    (hcu : u = c :: u') (hc : isSpace c = false) (hall : ∀ d ∈ rest, isSpace d = true) :
    discoverLine (u ++ rest) = some (addTest (u.rdropWhile isSpace) []) := by
  have hstrip : strip isSpace (u ++ rest) = u.rdropWhile isSpace := by
    rw [hcu, List.cons_append, strip_cons hc, ← List.cons_append, ← hcu,
      rdropWhile_append_of_forall hall]
  have hne : u.rdropWhile isSpace ≠ [] := by
    intro hnil
    have hspace := List.rdropWhile_eq_nil_iff.mp hnil c (by simp [hcu])
    rw [hc] at hspace
    cases hspace
  have hnone : matchLine (u.rdropWhile isSpace) = none :=
    matchLine_of_not_mem fun hmem => hu.tab_not_mem ((List.rdropWhile_prefix _ _).sublist.mem hmem)
  unfold discoverLine
  simp only [hstrip, hne, ↓reduceIte, hnone]

/-- A field after the tab that is not blank leaves the name as it is. -/
theorem discoverLine_append_of_field {u field : Text} (hu : SingleField u) {c : Char} {u' : Text}
    (hcu : u = c :: u') (hc : isSpace c = false) {d : Char} (hd : d ∈ field)
    (hspace : isSpace d = false) :
    discoverLine (u ++ '\t' :: field) = some (addTest u (field.rdropWhile isSpace)) := by
  have hstrip : strip isSpace (u ++ '\t' :: field) = u ++ '\t' :: field.rdropWhile isSpace := by
    have hsplit : u ++ '\t' :: field = (u ++ ['\t']) ++ field := by simp
    rw [hcu, List.cons_append, strip_cons hc, ← List.cons_append, ← hcu, hsplit,
      rdropWhile_append_of_exists hd hspace]
    simp
  have hne : u ≠ [] := by simp [hcu]
  have hmatch : matchLine (u ++ '\t' :: field.rdropWhile isSpace) =
      some (u,field.rdropWhile isSpace) := matchLine_eq_some_iff.mpr ⟨hne, hu.tab_not_mem, rfl⟩
  unfold discoverLine
  simp [hstrip, hmatch]

theorem discoverLine_append_iff {u rest : Text} (hu : SingleField u)
    (hrest : rest = [] ∨ ∃ field, rest = '\t' :: field) :
    (∃ test, discoverLine (u ++ rest) = some test ∧ test.testName = u) ↔ Whole u rest := by
  constructor
  · intro h
    obtain ⟨test,htest,rfl⟩ := h
    obtain ⟨c,name,hname,hc⟩ := discoverLine_testName htest
    refine ⟨by simp [hname], by simpa [hname] using hc, fun hall => ?_⟩
    have hself := discoverLine_append_of_blank hu hname hc hall
    rw [htest, Option.some.injEq] at hself
    have hlast := List.rdropWhile_eq_self_iff.mp (congrArg DiscoveredTest.testName hself).symm
    intro d hd
    obtain ⟨hne,rfl⟩ := List.mem_getLast?_eq_getLast hd
    simpa using hlast hne
  · intro h
    obtain ⟨hne,hfront,hback⟩ := h
    cases hcu : u with
    | nil => exact absurd hcu hne
    | cons c u' =>
      have hc : isSpace c = false := hfront c (by simp [hcu])
      rw [← hcu]
      by_cases hall : ∀ d ∈ rest, isSpace d = true
      · refine ⟨_, discoverLine_append_of_blank hu hcu hc hall, ?_⟩
        apply List.rdropWhile_eq_self_iff.mpr
        intro hne'
        have hmem : u.getLast hne' ∈ u.getLast? := by
          simp [List.getLast?_eq_getLast_of_ne_nil hne']
        have hlast := hback hall _ hmem
        simp [hlast]
      · simp only [not_forall] at hall
        obtain ⟨d,hd,hspace⟩ := hall
        have hspace' : isSpace d = false := by simpa using hspace
        rcases hrest with rfl | ⟨field,rfl⟩
        · cases hd
        · -- what is not blank stands after the tab
          rcases List.mem_cons.mp hd with rfl | hdfield
          · cases hspace'
          · exact ⟨_, discoverLine_append_of_field hu hcu hc hdfield hspace', rfl⟩

theorem filterMap_discoverLine_eq_nil_iff {text : Text} :
    (lines '\n' text).filterMap discoverLine = [] ↔ ∀ c ∈ text, isSpace c = true := by
  have hlines : (∀ l ∈ lines '\n' text, ∀ c ∈ l, isSpace c = true) ↔
      ∀ c ∈ text, isSpace c = true := forall_mem_lines_iff rfl
  rw [List.filterMap_eq_nil_iff, ← hlines]
  simp only [discoverLine_eq_none_iff]

theorem discoverTests_eq (output : Text) :
    discoverTests output = (lines '\n' (normalized output ++ ['\n'])).filterMap discoverLine :=
  rfl

/-- A first line and what follows its line break. -/
theorem discoverTests_lineBreak {line rest : Text} (h : SingleLine line)
    (hrest : rest = [] ∨ ∃ c output, rest = c :: output ∧ isLineBreak c = true) :
    ∃ tail, ((∀ c ∈ tail, isSpace c = true) ↔ ∀ c ∈ rest, isSpace c = true) ∧
      discoverTests (line ++ rest ++ ['\n']) =
        (discoverLine line).toList ++ (lines '\n' tail).filterMap discoverLine := by
  have hlf : '\n' ∉ line := by
    intro hmem
    have hbreak := h '\n' hmem
    cases hbreak
  have hcut (tail : Text) (hnormalized : normalized (rest ++ ['\n']) ++ ['\n'] = '\n' :: tail) :
      discoverTests (line ++ rest ++ ['\n']) =
        (discoverLine line).toList ++ (lines '\n' tail).filterMap discoverLine := by
    rw [discoverTests_eq, List.append_assoc, normalized_append h, List.append_assoc, hnormalized,
      lines_append hlf, List.filterMap_cons]
    cases discoverLine line <;> rfl
  have hspace : isSpace '\n' = true := rfl
  rcases hrest with rfl | ⟨c,output,rfl,hc⟩
  · exact ⟨['\n'], by simp [hspace], hcut _ rfl⟩
  · obtain ⟨tail,htail,hcases⟩ := normalized_lineBreak hc (output ++ ['\n'])
    refine ⟨tail ++ ['\n'], ?_, hcut _ ?_⟩
    · have hblank (text : Text) : (∀ d ∈ text ++ ['\n'], isSpace d = true) ↔
          ∀ d ∈ text, isSpace d = true := by
        simp only [List.forall_mem_append, List.forall_mem_singleton, hspace, and_true]
      have hfirst := isSpace_of_isLineBreak hc
      rw [hblank, List.forall_mem_cons, ← hblank output]
      rcases hcases with rfl | ⟨output',houtput,rfl⟩
      · simp only [forall_isSpace_normalized_iff, hfirst, true_and]
      · rw [houtput, List.forall_mem_cons]
        simp only [forall_isSpace_normalized_iff, hfirst, hspace, true_and]
    · rw [List.cons_append, htail]
      rfl

/-- A line feed is not touched by what stands around it. -/
theorem exists_normalized_append (text : Text) :
    ∃ text', ∀ output,
      normalized (text ++ '\n' :: output) = text' ++ '\n' :: normalized output := by
  have hcrlf : ∃ text', ∀ output,
      replaceCrLf (text ++ '\n' :: output) = text' ++ '\n' :: replaceCrLf output := by
    induction text using replaceCrLf.induct with
    | case1 => exact ⟨[], fun output => replaceCrLf_cons_of_ne (by decide) output⟩
    | case2 c =>
      by_cases hc : c = '\r'
      · exact ⟨[], fun output => if_pos ⟨hc, rfl⟩⟩
      · refine ⟨[c], fun output => ?_⟩
        rw [List.singleton_append, replaceCrLf_cons_of_ne hc,
          replaceCrLf_cons_of_ne (by decide)]
        rfl
    | case3 c d text hcd ih =>
      obtain ⟨text',htext'⟩ := ih
      refine ⟨'\n' :: text', fun output => ?_⟩
      rw [List.cons_append, List.cons_append, replaceCrLf, if_pos hcd, htext']
      rfl
    | case4 c d text hcd ih =>
      obtain ⟨text',htext'⟩ := ih
      refine ⟨c :: text', fun output => ?_⟩
      rw [List.cons_append, List.cons_append, replaceCrLf, if_neg hcd, ← List.cons_append, htext']
      rfl
  obtain ⟨text',htext'⟩ := hcrlf
  refine ⟨replaceChar '\r' ['\n'] text', fun output => ?_⟩
  unfold normalized
  rw [htext']
  unfold replaceChar
  rw [List.flatMap_append, List.flatMap_cons]
  rfl

/-- The lines of the listing are read one after the other. -/
theorem discoverTests_listing (scenarios : List Text) :
    discoverTests (Api.listing scenarios) =
      scenarios.flatMap fun scenario => discoverTests (scenario ++ ['\n']) := by
  induction scenarios with
  | nil => rfl
  | cons scenario scenarios ih =>
    obtain ⟨text,htext⟩ := exists_normalized_append scenario
    have hone : discoverTests (scenario ++ ['\n']) =
        (lines '\n' (text ++ ['\n'])).filterMap discoverLine := by
      have hempty : normalized [] = [] := rfl
      rw [discoverTests_eq, htext, hempty, List.append_assoc, List.singleton_append,
        lines_append_of_complete, List.filterMap_append]
      exact List.append_nil _
    have hcons : Api.listing (scenario :: scenarios) =
        scenario ++ '\n' :: Api.listing scenarios := by
      unfold Api.listing
      rw [List.flatMap_cons, List.append_assoc]
      rfl
    rw [List.flatMap_cons, ← ih, hone, hcons, discoverTests_eq, discoverTests_eq, htext,
      List.append_assoc, List.cons_append, lines_append_of_complete, List.filterMap_append]

/-- The name of a scenario is recovered from its line of the listing: it stands whole before
the first line break, and only white space comes after that. -/
structure Recoverable (u rest : Text) : Prop extends Whole u rest where
  blank : ∀ c ∈ rest.dropWhile (fun c => !isLineBreak c), isSpace c = true

/-- Blank text behind a line makes no difference to how the name stands in it. -/
theorem Whole.append_iff {u first later : Text} (hblank : ∀ c ∈ later, isSpace c = true) :
    Whole u (first ++ later) ↔ Whole u first := by
  have hrest : (∀ c ∈ first ++ later, isSpace c = true) ↔ ∀ c ∈ first, isSpace c = true := by
    rw [List.forall_mem_append]
    exact and_iff_left hblank
  constructor
  · intro h
    exact ⟨h.nonempty, h.front, fun hall => h.back (hrest.mpr hall)⟩
  · intro h
    exact ⟨h.nonempty, h.front, fun hall => h.back (hrest.mp hall)⟩

/-- No test found in further lines has the name of a line in which there is none. -/
theorem not_discovered_of_blank {u first text : Text} {test : DiscoveredTest}
    (hline : discoverLine (u ++ first) = none)
    (htest : test ∈ (lines '\n' text).filterMap discoverLine) : test.testName ≠ u := by
  rintro rfl
  obtain ⟨line,_,hdiscover⟩ := List.mem_filterMap.mp htest
  obtain ⟨c,name,hcons,hc⟩ := discoverLine_testName hdiscover
  have hspace := discoverLine_eq_none_iff.mp hline c (by simp [hcons])
  rw [hc] at hspace
  cases hspace

theorem singleLine_takeWhile (text : Text) :
    SingleLine (text.takeWhile fun c => !isLineBreak c) := by
  intro c hc
  simpa using List.mem_takeWhile_imp hc

/-- What comes after the first line of a text begins with a line break. -/
theorem dropWhile_lineBreak (text : Text) :
    text.dropWhile (fun c => !isLineBreak c) = [] ∨
      ∃ c output, text.dropWhile (fun c => !isLineBreak c) = c :: output ∧
        isLineBreak c = true := by
  cases hcons : text.dropWhile (fun c => !isLineBreak c) with
  | nil => exact .inl rfl
  | cons c output =>
    have hc := not_of_dropWhile_eq_cons hcons
    exact .inr ⟨c, output, rfl, by simpa using hc⟩

theorem discoverTests_iff {u rest : Text} (hu : SingleField u)
    (hrest : rest = [] ∨ ∃ field, rest = '\t' :: field) :
    (∃ test, discoverTests (u ++ rest ++ ['\n']) = [test] ∧ test.testName = u) ↔
      Recoverable u rest := by
  have hsplit := List.takeWhile_append_dropWhile (p := fun c => !isLineBreak c) (l := rest)
  generalize hfirst : rest.takeWhile (fun c => !isLineBreak c) = first at hsplit
  generalize hlater : rest.dropWhile (fun c => !isLineBreak c) = later at hsplit
  have hsingle : SingleLine (u ++ first) := by
    intro c hc
    rcases List.mem_append.mp hc with hc | hc
    · exact hu.singleLine c hc
    · exact singleLine_takeWhile rest c (hfirst ▸ hc)
  have hbreak := dropWhile_lineBreak rest
  rw [hlater] at hbreak
  have hfield : first = [] ∨ ∃ field, first = '\t' :: field := by
    rcases hrest with rfl | ⟨field,rfl⟩
    · exact .inl hfirst.symm
    · rw [List.takeWhile_cons_of_pos rfl] at hfirst
      exact .inr ⟨_, hfirst.symm⟩
  have hwhole (hblank : ∀ c ∈ later, isSpace c = true) : Whole u rest ↔ Whole u first := by
    rw [← hsplit]
    exact Whole.append_iff hblank
  obtain ⟨tail,htail,hdiscovered⟩ := discoverTests_lineBreak hsingle hbreak
  rw [List.append_assoc u first later, hsplit] at hdiscovered
  rw [hdiscovered]
  constructor
  · intro h
    obtain ⟨test,htest,hname⟩ := h
    cases hline : discoverLine (u ++ first) with
    | none =>
      rw [hline] at htest
      change (lines '\n' tail).filterMap discoverLine = [test] at htest
      exact absurd hname (not_discovered_of_blank hline (htest ▸ List.mem_cons_self))
    | some test' =>
      rw [hline] at htest
      obtain ⟨rfl,hnil⟩ := List.cons.inj htest
      have hblank := htail.mp (filterMap_discoverLine_eq_nil_iff.mp hnil)
      have hrecovered := (discoverLine_append_iff hu hfield).mp ⟨test', hline, hname⟩
      exact ⟨(hwhole hblank).mpr hrecovered, hlater ▸ hblank⟩
  · intro h
    have hblank : ∀ c ∈ later, isSpace c = true := hlater ▸ h.blank
    obtain ⟨test,hline,hname⟩ :=
      (discoverLine_append_iff hu hfield).mpr ((hwhole hblank).mp h.toWhole)
    refine ⟨test, ?_, hname⟩
    rw [hline, filterMap_discoverLine_eq_nil_iff.mpr (htail.mpr hblank)]
    rfl

end Cmake

namespace Api

open Cmake

/-- What `formatScenario` puts after the name. -/
def afterName (pickle : ListedPickle) : Text :=
  if pickle.uri = "" then []
  else
    match pickle.location with
    | some line => '\t' :: (pickle.uri.toList ++ [':'] ++ decimal line)
    | none => '\t' :: pickle.uri.toList

theorem formatScenario_eq (testName : Text) (pickle : ListedPickle) :
    formatScenario testName pickle = testName ++ afterName pickle := by
  unfold formatScenario afterName
  split_ifs
  · exact (List.append_nil _).symm
  · cases pickle.location <;> simp

theorem afterName_field (pickle : ListedPickle) :
    afterName pickle = [] ∨ ∃ field, afterName pickle = '\t' :: field := by
  unfold afterName
  split_ifs
  · exact .inl rfl
  · cases pickle.location <;> exact .inr ⟨_, rfl⟩

/-- The name filter of a discovered test. -/
def nameFilter (testName : Text) : Text := ['^'] ++ escapeRegex testName ++ ['$']

theorem nameFilter_injective : Function.Injective nameFilter := by
  intro literal literal' h
  have hescaped := List.append_cancel_left (List.append_cancel_right h)
  exact escapeRegex_injective hescaped

/-- The regex engine: between `^` and `$`, an escaped literal matches of the texts without
line breaks the literal alone. -/
def MatchesLiterals (create : Text → Except Text (Text → Bool)) : Prop :=
  ∀ literal, SingleLine literal → ∃ strategy, create (nameFilter literal) = .ok strategy ∧
    ∀ text, SingleLine text → (strategy text = true ↔ text = literal)

/-- The filter for a test name lets a pickle through by its own name: this is the test
name, or it has a line break and the engine matches it all the same. -/
def Shadows (create : Text → Except Text (Text → Bool)) (testName : Text) (pickle : ListedPickle) :
    Prop :=
  pickle.name.toList = testName ∨ ¬SingleLine pickle.name.toList ∧
    ∃ strategy, create (nameFilter testName) = .ok strategy ∧ strategy pickle.name.toList = true

theorem createNameRegexStrategies_singleton {create : Text → Except Text (Text → Bool)}
    {pattern : Text} {strategy : Text → Bool} (hstrategy : create pattern = .ok strategy) :
    createNameRegexStrategies create [pattern] = (some [strategy], []) := by
  simp [createNameRegexStrategies, hstrategy]

theorem strategy_iff_shadows {create : Text → Except Text (Text → Bool)} {u : Text}
    (hu : SingleLine u) {strategy : Text → Bool} (hstrategy : create (nameFilter u) = .ok strategy)
    (hmatches : ∀ text, SingleLine text → (strategy text = true ↔ text = u)) {q : ListedPickle} :
    strategy q.name.toList = true ↔ Shadows create u q := by
  unfold Shadows
  by_cases hsingle : SingleLine q.name.toList
  · rw [hmatches _ hsingle]
    simp [hsingle]
  · constructor
    · intro hmatch
      exact .inr ⟨hsingle, strategy, hstrategy, hmatch⟩
    · intro h
      rcases h with heq | ⟨_,strategy',hstrategy',hmatch⟩
      · exact absurd (heq ▸ hu) hsingle
      · rw [hstrategy, Except.ok.injEq] at hstrategy'
        exact hstrategy' ▸ hmatch

theorem orderPickles_eq_singleton_iff {ordering : Ordering} {pickles : List ListedPickle}
    {p : ListedPickle} : orderPickles ordering pickles = [p] ↔ pickles = [p] := by
  unfold orderPickles
  split_ifs
  · rfl
  · rw [List.reverse_eq_iff]
    rfl

/-- Exactly one element of a list without duplicates passes. -/
theorem filter_eq_singleton_iff {pickles : List ListedPickle} (h : pickles.Nodup)
    {g : ListedPickle → Bool} {p : ListedPickle} (hp : p ∈ pickles) (hg : g p = true) :
    pickles.filter g = [p] ↔ ∀ q ∈ pickles, q ≠ p → g q = false := by
  constructor
  · intro hfilter q hq hne
    by_contra hpass
    have hmem : q ∈ pickles.filter g := List.mem_filter.mpr ⟨hq, by simpa using hpass⟩
    rw [hfilter] at hmem
    exact hne (List.mem_singleton.mp hmem)
  · intro hothers
    have hperm : (pickles.filter g).Perm [p] := by
      apply (List.perm_ext_iff_of_nodup (h.filter g) (List.nodup_singleton p)).mpr
      intro q
      rw [List.mem_filter, List.mem_singleton]
      constructor
      · intro hq
        by_contra hne
        have hfalse := hothers q hq.1 hne
        rw [hq.2] at hfalse
        cases hfalse
      · intro hq
        exact hq ▸ ⟨hp, hg⟩
    exact List.perm_singleton.mp hperm

section

variable {findLineageBy : ListedPickle → Option Lineage} {create : Text → Except Text (Text → Bool)}
  {pickles : List ListedPickle} {uniqueNames : Map String Text}

/-- The filter for the unique name of a pickle lets it through, and those it shadows. -/
theorem selectPickles_iff (hcreate : MatchesLiterals create)
    (hids : (pickles.map fun p => p.id).Nodup)
    (hnames : makeUniqueTestNames findLineageBy pickles = some uniqueNames)
    (hnamed : Named pickles uniqueNames) (ordering : Ordering) {p : ListedPickle}
    (hp : p ∈ pickles) {u : Text} (hu : uniqueNames.find? p.id = some u) :
    selectPickles findLineageBy create [nameFilter u] ordering pickles = some [p] ↔
      ∀ q ∈ pickles, q ≠ p → ¬Shadows create u q := by
  have hfield : SingleField u := by
    obtain ⟨u',hu',hfield⟩ := hnamed.named p hp
    rw [hu, Option.some.injEq] at hu'
    exact hu' ▸ hfield
  obtain ⟨strategy,hstrategy,hmatches⟩ := hcreate u hfield.singleLine
  -- the unique name of a pickle passes the filter exactly for `p` itself
  have hunique {q : ListedPickle} (hq : q ∈ pickles) : ∃ v, uniqueNames.find? q.id = some v ∧
      (strategy v = true ↔ q = p) := by
    obtain ⟨v,hv,hfield'⟩ := hnamed.named q hq
    refine ⟨v, hv, ?_⟩
    rw [hmatches v hfield'.singleLine]
    constructor
    · intro heq
      have hid := hnamed.distinct q hq p hp (by rw [hv, hu, heq])
      exact List.inj_on_of_nodup_map hids hq hp hid
    · intro heq
      rw [heq, hu, Option.some.injEq] at hv
      exact hv.symm
  have hshadows (q : ListedPickle) : strategy q.name.toList = true ↔ Shadows create u q :=
    strategy_iff_shadows hfield.singleLine hstrategy hmatches
  let passes (q : ListedPickle) : Bool := strategy q.name.toList || decide (q = p)
  have hfilter : ∀ q ∈ pickles,
      filterByNameRegex [strategy] uniqueNames q = some (passes q) := by
    intro q hq
    obtain ⟨v,hv,hiff⟩ := hunique hq
    have hself : strategy v = decide (q = p) := by
      rw [Bool.eq_iff_iff, hiff, decide_eq_true_eq]
    unfold filterByNameRegex
    simp [hv, hself, passes]
  have hselected : selectPickles findLineageBy create [nameFilter u] ordering pickles =
      some (orderPickles ordering (pickles.filter passes)) := by
    unfold selectPickles
    simp only [createNameRegexStrategies_singleton hstrategy, hnames, Option.bind_eq_bind,
      Option.bind_some, Option.pure_def, filterM_eq_some_filter hfilter]
  rw [hselected, Option.some.injEq, orderPickles_eq_singleton_iff,
    filter_eq_singleton_iff (List.Nodup.of_map _ hids) hp (by simp [passes])]
  apply forall_congr'
  intro q
  apply forall_congr'
  intro _
  apply forall_congr'
  intro hne
  rw [← hshadows q]
  simp [passes, hne]

/-- The line of a pickle becomes one test, under the unique name of the pickle, and the name
filter of this test selects exactly the pickle. -/
def RunsExactly (findLineageBy : ListedPickle → Option Lineage)
    (create : Text → Except Text (Text → Bool)) (ordering : Ordering) (pickles : List ListedPickle)
    (uniqueName scenario : Text) (p : ListedPickle) : Prop :=
  ∃ test, discoverTests (scenario ++ ['\n']) = [test] ∧ test.testName = uniqueName ∧
    selectPickles findLineageBy create [test.nameFilter] ordering pickles = some [p]

theorem discoverTests_nameFilter {output : Text} {test : DiscoveredTest}
    (h : test ∈ discoverTests output) : test.nameFilter = nameFilter test.testName := by
  obtain ⟨line,_,hline⟩ := List.mem_filterMap.mp h
  unfold discoverLine at hline
  dsimp only at hline
  split_ifs at hline
  split at hline <;> rw [← Option.some.inj hline] <;> rfl

/-- The tests that are discovered run exactly their scenarios where the unique name stands
whole in its line and shadows the name of no other scenario. -/
theorem discovered_tests_iff (hcreate : MatchesLiterals create)
    (hids : (pickles.map fun p => p.id).Nodup) (ordering : Ordering) :
    ∃ uniqueNames scenarios, makeUniqueTestNames findLineageBy pickles = some uniqueNames ∧
      listScenarios findLineageBy pickles = some scenarios ∧
      List.Forall₂ (fun p scenario => ∃ u, uniqueNames.find? p.id = some u ∧
        (RunsExactly findLineageBy create ordering pickles u scenario p ↔
          Recoverable u (afterName p) ∧ ∀ q ∈ pickles, q ≠ p → ¬Shadows create u q))
        pickles scenarios := by
  obtain ⟨uniqueNames,hnames,hnamed⟩ := exists_makeUniqueTestNames findLineageBy hids
  let scenario (p : ListedPickle) : Text :=
    formatScenario ((uniqueNames.find? p.id).getD []) p
  have hlisted : listScenarios findLineageBy pickles = some (pickles.map scenario) := by
    unfold listScenarios
    rw [hnames]
    apply mapM_eq_some_map
    intro p hp
    obtain ⟨u,hu,_⟩ := hnamed.named p hp
    simp [hu, scenario]
  refine ⟨uniqueNames, pickles.map scenario, hnames, hlisted, ?_⟩
  rw [List.forall₂_map_right_iff, List.forall₂_same]
  intro p hp
  obtain ⟨u,hu,hfield⟩ := hnamed.named p hp
  have hscenario : scenario p = u ++ afterName p := by
    simp only [scenario, hu, Option.getD_some, formatScenario_eq]
  have hselect := selectPickles_iff hcreate hids hnames hnamed ordering hp hu
  have hrecover := discoverTests_iff hfield (afterName_field p)
  refine ⟨u, hu, ?_⟩
  rw [← hselect, ← hrecover, hscenario]
  constructor
  · intro h
    obtain ⟨test,htest,hname,hselected⟩ := h
    have hfilter := discoverTests_nameFilter (htest ▸ List.mem_cons_self)
    rw [hfilter, hname] at hselected
    exact ⟨⟨test, htest, hname⟩, hselected⟩
  · intro h
    obtain ⟨⟨test,htest,hname⟩,hselected⟩ := h
    have hfilter := discoverTests_nameFilter (htest ▸ List.mem_cons_self)
    refine ⟨test, htest, hname, ?_⟩
    rw [hfilter, hname]
    exact hselected

end

/-- An engine that knows the filters of tests only. -/
def literalEngine (pattern : Text) : Except Text (Text → Bool) :=
  .ok fun text => decide (pattern = nameFilter text)

theorem matchesLiterals_literalEngine : MatchesLiterals literalEngine := by
  intro literal _
  refine ⟨_, rfl, fun text _ => ?_⟩
  rw [decide_eq_true_eq, eq_comm]
  exact nameFilter_injective.eq_iff

/-- Two features with one scenario each; the second is named like the first in full. -/
def shadowedPickle : ListedPickle where
  id := "1"
  name := "B"
  uri := "a.feature"
  location := some 2

def shadowingPickle : ListedPickle where
  id := "2"
  name := "A.B"
  uri := "c.feature"
  location := some 2

def twoFeatures (pickle : ListedPickle) : Option Lineage :=
  some { feature := some (if pickle.id = "1" then "A" else "C") }

theorem discovered_tests_iff_two : ∃ uniqueNames scenarios,
    makeUniqueTestNames twoFeatures [shadowedPickle, shadowingPickle] = some uniqueNames ∧
      listScenarios twoFeatures [shadowedPickle, shadowingPickle] = some scenarios ∧
      List.Forall₂ (fun p scenario => ∃ u, uniqueNames.find? p.id = some u ∧
        (RunsExactly twoFeatures literalEngine .defined [shadowedPickle, shadowingPickle] u
            scenario p ↔
          Recoverable u (afterName p) ∧ ∀ q ∈ [shadowedPickle, shadowingPickle], q ≠ p →
            ¬Shadows literalEngine u q))
        [shadowedPickle, shadowingPickle] scenarios :=
  discovered_tests_iff matchesLiterals_literalEngine (by decide) .defined

/-- The test of the first scenario runs the second one as well. -/
theorem shadowed_test_runs_both :
    MatchesLiterals literalEngine ∧
    ([shadowedPickle, shadowingPickle].map fun p => p.id).Nodup ∧
    listScenarios twoFeatures [shadowedPickle, shadowingPickle] =
      some ["A.B\ta.feature:2".toList, "C.A.B\tc.feature:2".toList] ∧
    ∀ ordering, ¬RunsExactly twoFeatures literalEngine ordering [shadowedPickle, shadowingPickle]
      "A.B".toList "A.B\ta.feature:2".toList shadowedPickle := by
  refine ⟨matchesLiterals_literalEngine, by decide, by decide, fun ordering h => ?_⟩
  obtain ⟨test,htest,_,hselected⟩ := h
  have hdiscovered : discoverTests ("A.B\ta.feature:2".toList ++ ['\n']) =
      [addTest "A.B".toList "a.feature:2".toList] := by decide
  obtain ⟨rfl,_⟩ := List.cons.inj (hdiscovered.symm.trans htest)
  cases ordering <;> revert hselected <;> decide

end Api

end CucumberCpp
