import CucumberCpp.CmakeLanguage
import CucumberCpp.DiscoveredTests

/-! The script that `cucumber_add_tests.cmake` writes for the tests it has discovered, and what
CMake reads in it. -/
namespace CucumberCpp

namespace Cmake

open CmakeLanguage DelimitedText

/-- `string(FIND)`: where the substring begins first, or -1. -/
def find (string substring : Text) : ℤ :=
  match string.dropInfix? substring with
  | some (before,_) => before.length
  | none => -1

/-- The loop of `_cucumber_bracket_argument` from a level on. -/
def bracketLevel (value : Text) : ℕ → Text → Option Text
  | 0, _ => none
  | rounds+1, level =>
    let position := find (value ++ [']'] ++ level ++ [']']) ([']'] ++ level ++ [']'])
    if position = value.length then some level else bracketLevel value rounds (level ++ ['='])

/-- A value that begins with a newline is put behind one that the reader ignores. -/
def bracketContent (value : Text) : Text :=
  if value.head? = some '\r' ∨ value.head? = some '\n' then ['\n'] ++ value else value

/-- `_cucumber_bracket_argument`, whose loop is left in that many rounds. -/
def bracketArgument (value : Text) : Option Text := do
  let level ← bracketLevel value (value.length+1) ['=', '=']
  pure (['['] ++ level ++ ['['] ++ bracketContent value ++ [']'] ++ level ++ [']'])

def appendBracketArgument (result value : Text) : Option Text := do
  let quoted ← bracketArgument value
  pure (result ++ [' '] ++ quoted)

/-- `_cucumber_bracket_arguments`. -/
def bracketArguments (values : List Text) : Option Text := values.foldlM appendBracketArgument []

/-- The arguments of `cucumber_discover_tests_impl` that the script depends on; lists are given by
the elements that `foreach(IN LISTS)` finds in them. -/
structure DiscoveryArguments where
  testExecutable : Text
  testWorkingDir : Text
  testPrefix : Text
  testSuffix : Text
  testList : Text
  testExtraArgs : List Text
  testProperties : List Text
  testExecutor : List Text
  deriving DecidableEq

/-- What is quoted before the tests are listed. -/
structure QuotedArguments where
  extraArgsScript : Text
  quotedExecutable : Text
  quotedWorkingDir : Text
  propertiesScript : Text
  launcherArgsScript : Text

def quoteArguments (arg : DiscoveryArguments) : Option QuotedArguments := do
  let extraArgsScript ← bracketArguments arg.testExtraArgs
  let quotedExecutable ← bracketArgument arg.testExecutable
  let quotedWorkingDir ← bracketArgument arg.testWorkingDir
  let propertiesScript ← bracketArguments arg.testProperties
  let launcherArgsScript ← bracketArguments arg.testExecutor
  pure
    { extraArgsScript := extraArgsScript
      quotedExecutable := quotedExecutable
      quotedWorkingDir := quotedWorkingDir
      propertiesScript := propertiesScript
      launcherArgsScript := launcherArgsScript }

/-- `list(APPEND)` to a list as the script stores it. -/
def listAppend (list element : Text) : Text :=
  if list = [] then element else list ++ [';'] ++ element

def fullTestName (arg : DiscoveryArguments) (test : DiscoveredTest) : Text :=
  arg.testPrefix ++ test.testName ++ arg.testSuffix

def setTestsProperties (quotedTestName properties : Text) : Text :=
  "set_tests_properties(".toList ++ quotedTestName ++ " PROPERTIES".toList ++ properties ++
    ")\n".toList

/-- The line of `DEF_SOURCE_LINE`, for a test of which the location is known. -/
def sourceLineScript (quotedTestName sourceLocation : Text) : Option Text :=
  if sourceLocation = [] then pure []
  else do
    let quotedSourceLocation ← bracketArgument sourceLocation
    pure (setTestsProperties quotedTestName (" DEF_SOURCE_LINE ".toList ++ quotedSourceLocation))

/-- What one round of the loop adds to the script. -/
def testScript (arg : DiscoveryArguments) (quoted : QuotedArguments) (test : DiscoveredTest) :
    Option Text := do
  let quotedNameFilter ← bracketArgument test.nameFilter
  let quotedTestName ← bracketArgument (fullTestName arg test)
  let sourceLine ← sourceLineScript quotedTestName test.sourceLocation
  pure ("add_test(".toList ++ quotedTestName ++ quoted.launcherArgsScript ++ [' '] ++
      quoted.quotedExecutable ++ quoted.extraArgsScript ++ " [==[--name]==] ".toList ++
      quotedNameFilter ++ ")\n".toList ++
    setTestsProperties quotedTestName
      (" WORKING_DIRECTORY ".toList ++ quoted.quotedWorkingDir) ++
    sourceLine ++
    (if quoted.propertiesScript = [] then []
      else setTestsProperties quotedTestName quoted.propertiesScript))

/-- A round of the loop over the output, on the script and the list of the tests. -/
def appendTest (arg : DiscoveryArguments) (quoted : QuotedArguments) (state : Text × Text)
    (test : DiscoveredTest) : Option (Text × Text) := do
  let script ← testScript arg quoted test
  pure (state.1 ++ script,listAppend state.2 (fullTestName arg test))

/-- The content of `CTEST_FILE`, from the output of the executable. -/
def ctestScript (arg : DiscoveryArguments) (output : Text) : Option Text := do
  let quoted ← quoteArguments arg
  let (script,tests) ← (discoverTests output).foldlM (appendTest arg quoted) ([],[])
  if arg.testList = [] then pure script
  else do
    let quotedTestList ← bracketArgument arg.testList
    let quotedTests ← bracketArgument tests
    pure (script ++ "set(".toList ++ quotedTestList ++ [' '] ++ quotedTests ++ ")\n".toList)

/-- The `RESULT_VARIABLE` of `execute_process`. -/
inductive ProcessResult where
  | exitCode (code : ℤ)
  | failure (message : Text)
  deriving DecidableEq

def ProcessResult.text : ProcessResult → Text
  | .exitCode code => (toString code).toList
  | .failure message => message

/-- What running the test executable with `--list-scenarios` gives. -/
structure ProcessRun where
  result : ProcessResult
  output : Text
  errorOutput : Text

/-- `cucumber_discover_tests_impl`: a fatal error, or the content of `CTEST_FILE`. -/
def discoverTestsImpl (arg : DiscoveryArguments) (executableExists : Bool) (run : ProcessRun) :
    Except Text (Option Text) :=
  if executableExists = false then
    .error ("Specified test executable does not exist.\n".toList ++ "  Path: '".toList ++
      arg.testExecutable ++ ['\''])
  else if run.result ≠ .exitCode 0 then
    .error ("Error running cucumber test executable to discover scenarios.\n".toList ++
      "  Path: '".toList ++ arg.testExecutable ++ "'\n".toList ++
      "  Working directory: '".toList ++ arg.testWorkingDir ++ "'\n".toList ++
      "  Result: ".toList ++ run.result.text ++ ['\n'] ++
      "  Output: ".toList ++ run.output ++ ['\n'] ++
      "  Error: ".toList ++ run.errorOutput ++ ['\n'])
  else .ok (ctestScript arg run.output)

section Quoting

theorem find_eq_length_iff {value needle : Text} :
    find (value ++ needle) needle = value.length ↔ Ends needle value := by
  rw [ends_iff_length, find]
  cases (value ++ needle).dropInfix? needle with
  | none => simp
  | some found => simp

theorem closing_replicate (level : ℕ) :
    [']'] ++ List.replicate level '=' ++ [']'] = delimiter ']' '=' level := rfl

/-- One round at a level: it is taken if it ends the value, and raised if not. -/
theorem bracketLevel_succ (value : Text) (rounds level : ℕ) :
    bracketLevel value (rounds+1) (List.replicate level '=') =
      if find (value ++ delimiter ']' '=' level) (delimiter ']' '=' level) = value.length then
        some (List.replicate level '=')
      else bracketLevel value rounds (List.replicate (level+1) '=') := by
  have hvalue : value ++ [']'] ++ List.replicate level '=' ++ [']'] =
      value ++ delimiter ']' '=' level := by
    rw [← closing_replicate, List.append_assoc, List.append_assoc, ← List.append_assoc [']']]
  rw [bracketLevel, hvalue, closing_replicate, ← List.replicate_succ']

/-- The rounds from a level to the first level from there on that ends the value. -/
theorem bracketLevel_of_least {value : Text} {last : ℕ}
    (hlast : Ends (delimiter ']' '=' last) value) {rounds level : ℕ} (hle : level ≤ last)
    (hleast : ∀ j, level ≤ j → j < last → ¬Ends (delimiter ']' '=' j) value)
    (hrounds : last < level+rounds) :
    bracketLevel value rounds (List.replicate level '=') =
      some (List.replicate last '=') := by
  -- on the rounds: one of them either finds the last level or raises the level
  induction rounds generalizing level with
  | zero => omega
  | succ rounds ih =>
    rw [bracketLevel_succ]
    by_cases heq : level = last
    · subst heq
      rw [if_pos (find_eq_length_iff.mpr hlast)]
    · have hlt : level < last := by omega
      have hnot := hleast level le_rfl hlt
      rw [if_neg (fun h => hnot (find_eq_length_iff.mp h))]
      exact ih (by omega) (fun j hj => hleast j (by omega)) (by omega)

/-- The loop ends after at most as many rounds as the value has characters, and one. -/
theorem exists_bracketLevel (value : Text) :
    ∃ level, Ends (delimiter ']' '=' level) value ∧ ∀ rounds, value.length < rounds →
      bracketLevel value rounds ['=', '='] = some (List.replicate level '=') := by
  have hne : ']' ≠ '=' := by decide
  obtain ⟨level,hge,hle,hends,hleast⟩ := exists_least_level hne value 2
  refine ⟨level, hends, fun rounds hrounds => ?_⟩
  exact bracketLevel_of_least hends hge hleast (by omega)

theorem dropNewline_bracketContent (value : Text) :
    dropNewline (bracketContent value ++ [']']) = value ++ [']'] := by
  unfold bracketContent
  split_ifs with h
  · rfl
  · cases value with
    | nil => rfl
    | cons c value =>
      have hc : c ≠ '\n' := by
        rintro rfl
        exact h (Or.inr rfl)
      simp [dropNewline, hc]

theorem bracketArgument_eq (value : Text) :
    ∃ level, Ends (delimiter ']' '=' level) value ∧ bracketArgument value =
      some (delimiter '[' '=' level ++ bracketContent value ++ delimiter ']' '=' level) := by
  obtain ⟨level,hends,hloop⟩ := exists_bracketLevel value
  refine ⟨level, hends, ?_⟩
  rw [bracketArgument, hloop _ (Nat.lt_succ_self _)]
  simp [delimiter]

/-- What `_cucumber_bracket_argument` returns is read as the value, whatever follows. -/
theorem exists_bracketArgument (value : Text) :
    ∃ quoted, bracketArgument value = some quoted ∧
      ∀ rest, readBracketArgument (quoted ++ rest) = some (value,rest) := by
  obtain ⟨level,hends,hquoted⟩ := bracketArgument_eq value
  exact ⟨_, hquoted, readBracketArgument_delimiter hends (dropNewline_bracketContent value)⟩

-- The level is raised where the value ends with all but the last bracket of a delimiter.
example : bracketArgument "a]==".toList = some "[===[a]==]===]".toList := by decide

theorem exists_readsArgument (value : Text) :
    ∃ quoted, bracketArgument value = some quoted ∧ ReadsArgument quoted value := by
  obtain ⟨quoted,hquoted,hread⟩ := exists_bracketArgument value
  exact ⟨quoted, hquoted, readsArgument_bracket hread⟩

theorem exists_foldlM_appendBracketArgument (values : List Text) (result : Text) :
    ∃ quoted, values.foldlM appendBracketArgument result = some (result ++ quoted) ∧
      ReadsArguments quoted values := by
  induction values generalizing result with
  | nil => exact ⟨[], by simp, readsArguments_nil⟩
  | cons value values ih =>
    obtain ⟨first,hfirst,hread⟩ := exists_readsArgument value
    obtain ⟨quoted,hquoted,hreads⟩ := ih (result ++ [' '] ++ first)
    have hround : appendBracketArgument result value = some (result ++ [' '] ++ first) := by
      rw [appendBracketArgument, hfirst]
      rfl
    refine ⟨' ' :: first ++ quoted, ?_, ?_⟩
    · rw [List.foldlM_cons, hround, Option.bind_eq_bind, Option.bind_some, hquoted]
      simp
    · exact hread.readsArguments.append hreads

theorem exists_bracketArguments (values : List Text) :
    ∃ quoted, bracketArguments values = some quoted ∧ ReadsArguments quoted values :=
  exists_foldlM_appendBracketArgument values []

end Quoting

section LineEndings

theorem replaceCrLf_append_of_notMem {text : Text} (h : '\r' ∉ text) (rest : Text) :
    replaceCrLf (text ++ rest) = text ++ replaceCrLf rest := by
  induction text with
  | nil => rfl
  | cons c text ih =>
    rw [List.mem_cons, not_or] at h
    rw [List.cons_append, replaceCrLf_cons_of_ne (Ne.symm h.1), ih h.2, List.cons_append]

/-- Texts are cut where no line feed follows. -/
theorem replaceCrLf_append_cons {c : Char} (hc : c ≠ '\n') (text rest : Text) :
    replaceCrLf (text ++ c :: rest) = replaceCrLf text ++ replaceCrLf (c :: rest) := by
  induction text using replaceCrLf.induct with
  | case1 => rfl
  | case2 d =>
    have hd : ¬(d = '\r' ∧ c = '\n') := fun h => hc h.2
    change replaceCrLf (d :: c :: rest) = d :: replaceCrLf (c :: rest)
    rw [replaceCrLf, if_neg hd]
  | case3 d e text hde ih =>
    rw [List.cons_append, List.cons_append, replaceCrLf, if_pos hde, ih, replaceCrLf, if_pos hde]
    rfl
  | case4 d e text hde ih =>
    rw [List.cons_append, List.cons_append, replaceCrLf, if_neg hde, ← List.cons_append, ih,
      replaceCrLf, if_neg hde]
    rfl

theorem prefix_of_prefix_replaceCrLf {part text : Text} (h : '\n' ∉ part)
    (hpart : part <+: replaceCrLf text) : part <+: text := by
  induction text using replaceCrLf.induct generalizing part with
  | case1 => exact hpart
  | case2 c => exact hpart
  | case3 c d text hcd ih =>
    rw [replaceCrLf, if_pos hcd] at hpart
    cases part with
    | nil => exact List.nil_prefix
    | cons e part =>
      have he := (List.cons_prefix_cons.mp hpart).1
      exact absurd (List.mem_cons.mpr (Or.inl he.symm)) h
  | case4 c d text hcd ih =>
    rw [replaceCrLf, if_neg hcd] at hpart
    cases part with
    | nil => exact List.nil_prefix
    | cons e part =>
      obtain ⟨rfl,hrest⟩ := List.cons_prefix_cons.mp hpart
      rw [List.mem_cons, not_or] at h
      exact List.cons_prefix_cons.mpr ⟨rfl, ih h.2 hrest⟩

/-- What contains no line feed does not come up where line ends are folded. -/
theorem infix_of_infix_replaceCrLf {part text : Text} (h : '\n' ∉ part)
    (hpart : part <:+: replaceCrLf text) : part <:+: text := by
  induction text using replaceCrLf.induct with
  | case1 => exact hpart
  | case2 c => exact hpart
  | case3 c d text hcd ih =>
    rw [replaceCrLf, if_pos hcd, List.infix_cons_iff] at hpart
    rcases hpart with hstart | hrest
    · have hfold : part <+: replaceCrLf (c :: d :: text) := by rwa [replaceCrLf, if_pos hcd]
      exact (prefix_of_prefix_replaceCrLf h hfold).isInfix
    · exact (ih hrest).trans ⟨[c, d], [], by simp⟩
  | case4 c d text hcd ih =>
    rw [replaceCrLf, if_neg hcd, List.infix_cons_iff] at hpart
    rcases hpart with hstart | hrest
    · have hfold : part <+: replaceCrLf (c :: d :: text) := by rwa [replaceCrLf, if_neg hcd]
      exact (prefix_of_prefix_replaceCrLf h hfold).isInfix
    · exact (ih hrest).trans (List.infix_cons (List.infix_refl _))

theorem notMem_delimiter {c mark : Char} (hmark : c ≠ mark) (hfill : c ≠ '=') (level : ℕ) :
    c ∉ delimiter mark '=' level := by
  simp [delimiter, List.mem_replicate, hmark, hfill]

theorem ends_replaceCrLf {level : ℕ} {value : Text} (h : Ends (delimiter ']' '=' level) value) :
    Ends (delimiter ']' '=' level) (replaceCrLf value) := by
  rw [ends_delimiter_iff (by decide)] at h ⊢
  have hfold : replaceCrLf value ++ [']'] = replaceCrLf (value ++ [']']) :=
    (replaceCrLf_append_cons (by decide) value []).symm
  rw [hfold]
  intro hinfix
  exact h (infix_of_infix_replaceCrLf (notMem_delimiter (by decide) (by decide) level) hinfix)

theorem dropNewline_replaceCrLf_bracketContent (value : Text) :
    dropNewline (replaceCrLf (bracketContent value) ++ [']']) = replaceCrLf value ++ [']'] := by
  unfold bracketContent
  split_ifs with h
  · rw [List.singleton_append, replaceCrLf_cons_of_ne (by decide)]
    rfl
  · cases value with
    | nil => rfl
    | cons c value =>
      rw [List.head?_cons, not_or, Option.some.injEq, Option.some.injEq] at h
      rw [replaceCrLf_cons_of_ne h.1]
      simp [dropNewline, h.2]

/-- A reader that folds line ends first finds the value with its line ends folded, and what
follows it: the argument ends at the same place. -/
theorem bracketArgument_replaceCrLf (value : Text) :
    ∃ quoted, bracketArgument value = some quoted ∧
      ∀ rest, readBracketArgument (replaceCrLf (quoted ++ rest)) =
        some (replaceCrLf value,replaceCrLf rest) := by
  obtain ⟨level,hends,hquoted⟩ := bracketArgument_eq value
  refine ⟨_, hquoted, fun rest => ?_⟩
  have hopening : '\r' ∉ delimiter '[' '=' level := notMem_delimiter (by decide) (by decide) level
  have hclosing : '\r' ∉ delimiter ']' '=' level := notMem_delimiter (by decide) (by decide) level
  have hcut : replaceCrLf (bracketContent value ++ (delimiter ']' '=' level ++ rest)) =
      replaceCrLf (bracketContent value) ++ replaceCrLf (delimiter ']' '=' level ++ rest) :=
    replaceCrLf_append_cons (by decide) (bracketContent value) _
  rw [List.append_assoc, List.append_assoc, replaceCrLf_append_of_notMem hopening, hcut,
    replaceCrLf_append_of_notMem hclosing, ← List.append_assoc, ← List.append_assoc]
  exact readBracketArgument_delimiter (ends_replaceCrLf hends)
    (dropNewline_replaceCrLf_bracketContent value) _

end LineEndings

section Script

def addTestCommand (arg : DiscoveryArguments) (test : DiscoveredTest) : CommandInvocation where
  identifier := "add_test".toList
  arguments := fullTestName arg test :: (arg.testExecutor ++ [arg.testExecutable] ++
    arg.testExtraArgs ++ ["--name".toList, test.nameFilter])

def setTestsPropertiesCommand (testName : Text) (properties : List Text) : CommandInvocation where
  identifier := "set_tests_properties".toList
  arguments := testName :: "PROPERTIES".toList :: properties

/-- The commands that a test is registered with. -/
def testCommands (arg : DiscoveryArguments) (test : DiscoveredTest) : List CommandInvocation :=
  let testName := fullTestName arg test
  [addTestCommand arg test,
    setTestsPropertiesCommand testName ["WORKING_DIRECTORY".toList, arg.testWorkingDir]] ++
  (if test.sourceLocation = [] then []
    else [setTestsPropertiesCommand testName ["DEF_SOURCE_LINE".toList, test.sourceLocation]]) ++
  (if arg.testProperties = [] then [] else [setTestsPropertiesCommand testName arg.testProperties])

/-- The commands of the whole script; the last one sets the list of the names. -/
def scriptCommands (arg : DiscoveryArguments) (tests : List DiscoveredTest) :
    List CommandInvocation :=
  tests.flatMap (testCommands arg) ++
  (if arg.testList = [] then []
    else [{ identifier := "set".toList
            arguments := [arg.testList, [';'].intercalate (tests.map (fullTestName arg))] }])

/-- The quoted texts are read as the arguments. -/
structure QuotedArguments.Reads (quoted : QuotedArguments) (arg : DiscoveryArguments) : Prop where
  extraArgs : ReadsArguments quoted.extraArgsScript arg.testExtraArgs
  executable : ReadsArgument quoted.quotedExecutable arg.testExecutable
  workingDir : ReadsArgument quoted.quotedWorkingDir arg.testWorkingDir
  properties : ReadsArguments quoted.propertiesScript arg.testProperties
  launcherArgs : ReadsArguments quoted.launcherArgsScript arg.testExecutor

theorem exists_quoteArguments (arg : DiscoveryArguments) :
    ∃ quoted, quoteArguments arg = some quoted ∧ quoted.Reads arg := by
  obtain ⟨extraArgs,hextra,hreadExtra⟩ := exists_bracketArguments arg.testExtraArgs
  obtain ⟨executable,hexecutable,hreadExecutable⟩ := exists_readsArgument arg.testExecutable
  obtain ⟨workingDir,hworking,hreadWorking⟩ := exists_readsArgument arg.testWorkingDir
  obtain ⟨properties,hproperties,hreadProperties⟩ := exists_bracketArguments arg.testProperties
  obtain ⟨launcherArgs,hlauncher,hreadLauncher⟩ := exists_bracketArguments arg.testExecutor
  have hquoted : quoteArguments arg = some
      { extraArgsScript := extraArgs
        quotedExecutable := executable
        quotedWorkingDir := workingDir
        propertiesScript := properties
        launcherArgsScript := launcherArgs } := by
    rw [quoteArguments, hextra, hexecutable, hworking, hproperties, hlauncher]
    rfl
  exact ⟨_, hquoted, hreadExtra, hreadExecutable, hreadWorking, hreadProperties, hreadLauncher⟩

theorem readsArgument_name : ReadsArgument "[==[--name]==]".toList "--name".toList := by
  have hends : Ends (delimiter ']' '=' 2) "--name".toList := by
    rw [ends_delimiter_iff (by decide)]
    decide
  have hcontent : dropNewline ("--name".toList ++ [']']) = "--name".toList ++ [']'] := rfl
  exact readsArgument_bracket (readBracketArgument_delimiter hends hcontent)

theorem isWord_addTest : IsWord "add_test".toList := ⟨by simp, by simp [isWordCharacter]⟩

theorem isWord_setTestsProperties : IsWord "set_tests_properties".toList :=
  ⟨by simp, by simp [isWordCharacter]⟩

theorem readsCommand_addTest {arg : DiscoveryArguments} {quoted : QuotedArguments}
    (h : quoted.Reads arg) {test : DiscoveredTest} {quotedTestName quotedNameFilter : Text}
    (hname : ReadsArgument quotedTestName (fullTestName arg test))
    (hfilter : ReadsArgument quotedNameFilter test.nameFilter) :
    ReadsCommand ("add_test(".toList ++ quotedTestName ++ quoted.launcherArgsScript ++ [' '] ++
      quoted.quotedExecutable ++ quoted.extraArgsScript ++ " [==[--name]==] ".toList ++
      quotedNameFilter ++ ")\n".toList) (addTestCommand arg test) := by
  have hlater := ((h.launcherArgs.append h.executable.readsArguments).append h.extraArgs).append
    (readsArgument_name.readsArguments.append hfilter.readsArguments)
  have hread := readsCommand_commandText isWord_addTest hname hlater
  have hoption : " [==[--name]==] ".toList = ' ' :: "[==[--name]==]".toList ++ [' '] := rfl
  have hopen : "add_test(".toList = "add_test".toList ++ ['('] := rfl
  have hclose : ")\n".toList = [')', '\n'] := rfl
  have htext : "add_test(".toList ++ quotedTestName ++ quoted.launcherArgsScript ++ [' '] ++
      quoted.quotedExecutable ++ quoted.extraArgsScript ++ " [==[--name]==] ".toList ++
      quotedNameFilter ++ ")\n".toList =
    commandText "add_test".toList quotedTestName (quoted.launcherArgsScript ++
      ' ' :: quoted.quotedExecutable ++ quoted.extraArgsScript ++
      (' ' :: "[==[--name]==]".toList ++ ' ' :: quotedNameFilter)) := by
    rw [hoption, hopen, hclose, commandText]
    simp only [List.append_assoc, List.cons_append, List.nil_append]
  rw [htext]
  exact hread

theorem readsCommand_setTestsProperties {quotedTestName testName text : Text}
    {properties : List Text} (hname : ReadsArgument quotedTestName testName)
    (hproperties : ReadsArguments text properties) :
    ReadsCommand (setTestsProperties quotedTestName text)
      (setTestsPropertiesCommand testName properties) := by
  have hword : ReadsArgument "PROPERTIES".toList "PROPERTIES".toList :=
    readsArgument_word ⟨by simp, by simp [isWordCharacter]⟩
  have hread := readsCommand_commandText isWord_setTestsProperties hname
    (hword.readsArguments.append hproperties)
  have htext : setTestsProperties quotedTestName text =
      commandText "set_tests_properties".toList quotedTestName
        (' ' :: "PROPERTIES".toList ++ text) := by
    unfold setTestsProperties
    simp [commandText]
  rw [htext]
  exact hread

/-- A property is written as its name, a word, and its value in quotes. -/
theorem readsCommand_property {keyword property quotedTestName testName text value : Text}
    (hword : IsWord property) (hkeyword : keyword = ' ' :: property ++ [' '])
    (hname : ReadsArgument quotedTestName testName) (h : ReadsArgument text value) :
    ReadsCommand (setTestsProperties quotedTestName (keyword ++ text))
      (setTestsPropertiesCommand testName [property, value]) := by
  have hproperty := (readsArgument_word hword).readsArguments.append h.readsArguments
  rw [hkeyword, List.append_assoc, List.singleton_append]
  exact readsCommand_setTestsProperties hname hproperty

theorem exists_sourceLineScript {quotedTestName testName : Text}
    (hname : ReadsArgument quotedTestName testName) (sourceLocation : Text) :
    ∃ texts : List Text, sourceLineScript quotedTestName sourceLocation = some texts.flatten ∧
      List.Forall₂ ReadsCommand texts (if sourceLocation = [] then []
        else [setTestsPropertiesCommand testName
          ["DEF_SOURCE_LINE".toList, sourceLocation]]) := by
  unfold sourceLineScript
  split_ifs with h
  · exact ⟨[], rfl, .nil⟩
  · obtain ⟨quoted,hquoted,hread⟩ := exists_readsArgument sourceLocation
    have hword : IsWord "DEF_SOURCE_LINE".toList := ⟨by simp, by simp [isWordCharacter]⟩
    refine ⟨[_], ?_, .cons (readsCommand_property hword rfl hname hread) .nil⟩
    rw [hquoted, List.flatten_cons, List.flatten_nil, List.append_nil]
    rfl

theorem exists_propertiesLine {quotedTestName testName text : Text} {properties : List Text}
    (hname : ReadsArgument quotedTestName testName) (h : ReadsArguments text properties) :
    ∃ texts : List Text,
      (if text = [] then [] else setTestsProperties quotedTestName text) = texts.flatten ∧
      List.Forall₂ ReadsCommand texts (if properties = [] then []
        else [setTestsPropertiesCommand testName properties]) := by
  -- the script looks at the quoted text, the commands depend on the properties themselves
  by_cases hnil : properties = []
  · rw [if_pos hnil, if_pos (h.eq_nil_iff.mpr hnil)]
    exact ⟨[], rfl, .nil⟩
  · rw [if_neg hnil, if_neg fun htext => hnil (h.eq_nil_iff.mp htext)]
    exact ⟨[_], List.flatten_singleton.symm,
      .cons (readsCommand_setTestsProperties hname h) .nil⟩

/-- A round adds texts that are read as the commands of its test, and as nothing else. -/
theorem exists_testScript {arg : DiscoveryArguments} {quoted : QuotedArguments}
    (h : quoted.Reads arg) (test : DiscoveredTest) :
    ∃ texts : List Text, testScript arg quoted test = some texts.flatten ∧
      List.Forall₂ ReadsCommand texts (testCommands arg test) := by
  obtain ⟨quotedNameFilter,hfilter,hreadFilter⟩ := exists_readsArgument test.nameFilter
  obtain ⟨quotedTestName,hname,hreadName⟩ := exists_readsArgument (fullTestName arg test)
  obtain ⟨sourceTexts,hsource,hreadSource⟩ :=
    exists_sourceLineScript hreadName test.sourceLocation
  obtain ⟨propertyTexts,hproperty,hreadProperty⟩ :=
    exists_propertiesLine hreadName h.properties
  have hword : IsWord "WORKING_DIRECTORY".toList := ⟨by simp, by simp [isWordCharacter]⟩
  have hadd := readsCommand_addTest h hreadName hreadFilter
  have hkeyword : " WORKING_DIRECTORY ".toList = ' ' :: "WORKING_DIRECTORY".toList ++ [' '] := rfl
  have hdirectory := readsCommand_property hword hkeyword hreadName h.workingDir
  refine ⟨_, ?_, List.rel_append (List.rel_append (.cons hadd (.cons hdirectory .nil))
    hreadSource) hreadProperty⟩
  rw [testScript, hfilter, hname]
  simp only [Option.bind_eq_bind, Option.bind_some]
  rw [hsource, hproperty]
  simp only [Option.bind_some, Option.pure_def, List.flatten_append, List.flatten_cons,
    List.flatten_nil, List.append_nil, List.append_assoc]

/-- The rounds of the loop, from any script and list of names. -/
theorem exists_foldlM_appendTest {arg : DiscoveryArguments} {quoted : QuotedArguments}
    (h : quoted.Reads arg) (tests : List DiscoveredTest) (state : Text × Text) :
    ∃ texts : List Text, tests.foldlM (appendTest arg quoted) state =
        some (state.1 ++ texts.flatten,(tests.map (fullTestName arg)).foldl listAppend state.2) ∧
      List.Forall₂ ReadsCommand texts (tests.flatMap (testCommands arg)) := by
  induction tests generalizing state with
  | nil => exact ⟨[], by simp, .nil⟩
  | cons test tests ih =>
    obtain ⟨texts,htest,hread⟩ := exists_testScript h test
    obtain ⟨later,hlater,hreadLater⟩ :=
      ih (state.1 ++ texts.flatten,listAppend state.2 (fullTestName arg test))
    have hround : appendTest arg quoted state test =
        some (state.1 ++ texts.flatten,listAppend state.2 (fullTestName arg test)) := by
      rw [appendTest, htest]
      rfl
    refine ⟨texts ++ later, ?_, List.rel_append hread hreadLater⟩
    rw [List.foldlM_cons, hround, Option.bind_eq_bind, Option.bind_some, hlater]
    simp only [List.flatten_append, List.append_assoc, List.map_cons, List.foldl_cons]

theorem foldl_listAppend_of_ne_nil {names : List Text} {list : Text} (hlist : list ≠ []) :
    names.foldl listAppend list = [';'].intercalate (list :: names) := by
  induction names generalizing list with
  | nil => simp
  | cons name names ih =>
    have hne : list ++ [';'] ++ name ≠ [] := by simp
    have hsplit : [';'].intercalate ((list ++ [';'] ++ name) :: names) =
        list ++ [';'] ++ [';'].intercalate (name :: names) := by
      cases names with
      | nil => simp
      | cons next names => simp [List.intercalate_cons_cons]
    rw [List.foldl_cons, listAppend, if_neg hlist, ih hne, hsplit, List.intercalate_cons_cons]

theorem foldl_listAppend {names : List Text} (h : ∀ name ∈ names, name ≠ []) :
    names.foldl listAppend [] = [';'].intercalate names := by
  cases names with
  | nil => rfl
  | cons name names =>
    have hname : listAppend [] name = name := if_pos rfl
    rw [List.foldl_cons, hname]
    exact foldl_listAppend_of_ne_nil (h name List.mem_cons_self)

theorem fullTestName_ne_nil (arg : DiscoveryArguments) {output : Text} {test : DiscoveredTest}
    (h : test ∈ discoverTests output) : fullTestName arg test ≠ [] := by
  obtain ⟨line,_,hline⟩ := List.mem_filterMap.mp h
  obtain ⟨c,name,hname,_⟩ := discoverLine_testName hline
  simp [fullTestName, hname]

theorem readsCommand_set {text text' name value : Text} (hname : ReadsArgument text name)
    (hvalue : ReadsArgument text' value) :
    ReadsCommand ("set(".toList ++ text ++ [' '] ++ text' ++ ")\n".toList)
      { identifier := "set".toList, arguments := [name, value] } := by
  have hword : IsWord "set".toList := ⟨by simp, by simp [isWordCharacter]⟩
  have hread := readsCommand_commandText hword hname hvalue.readsArguments
  have htext : "set(".toList ++ text ++ [' '] ++ text' ++ ")\n".toList =
      commandText "set".toList text (' ' :: text') := by simp [commandText]
  rw [htext]
  exact hread

/-- The script is written for every output, and read as the commands of its tests. -/
theorem exists_ctestScript (arg : DiscoveryArguments) (output : Text) :
    ∃ script, ctestScript arg output = some script ∧
      readFile script = some (scriptCommands arg (discoverTests output)) := by
  obtain ⟨quoted,hquoted,hreads⟩ := exists_quoteArguments arg
  obtain ⟨texts,hloop,hread⟩ :=
    exists_foldlM_appendTest hreads (discoverTests output) ([],[])
  have hnames : ((discoverTests output).map (fullTestName arg)).foldl listAppend [] =
      [';'].intercalate ((discoverTests output).map (fullTestName arg)) := by
    apply foldl_listAppend
    intro name hname
    obtain ⟨test,htest,rfl⟩ := List.mem_map.mp hname
    exact fullTestName_ne_nil arg htest
  rw [hnames, List.nil_append] at hloop
  unfold ctestScript scriptCommands
  rw [hquoted, Option.bind_eq_bind, Option.bind_some, hloop]
  simp only [Option.bind_eq_bind, Option.bind_some]
  by_cases hlist : arg.testList = []
  · rw [if_pos hlist, if_pos hlist, List.append_nil]
    exact ⟨_, rfl, readFile_flatten hread⟩
  · rw [if_neg hlist, if_neg hlist]
    obtain ⟨quotedTestList,hquotedList,hreadList⟩ := exists_readsArgument arg.testList
    obtain ⟨quotedTests,hquotedTests,hreadTests⟩ := exists_readsArgument
      ([';'].intercalate ((discoverTests output).map (fullTestName arg)))
    have hset := readsCommand_set hreadList hreadTests
    rw [hquotedList, hquotedTests]
    refine ⟨_, rfl, ?_⟩
    have hflatten := readFile_flatten (List.rel_append hread (.cons hset .nil))
    rw [List.flatten_append, List.flatten_singleton] at hflatten
    rw [← hflatten]
    simp only [List.append_assoc]

/-- Quoting round-trips for every value, up to the line ends of the value if the reader folds
them first, and so the script that is written for any arguments and any output consists, as it
is read, of the commands of its tests. -/
theorem bracketArgument_roundTrip :
    (∀ value : Text, ∃ level quoted,
      (∀ rounds, value.length < rounds → bracketLevel value rounds ['=', '='] = some level) ∧
      bracketArgument value = some quoted ∧
      (∀ rest, readBracketArgument (quoted ++ rest) = some (value,rest)) ∧
      ∀ rest, readBracketArgument (replaceCrLf (quoted ++ rest)) =
        some (replaceCrLf value,replaceCrLf rest)) ∧
    ∀ (arg : DiscoveryArguments) (output errorOutput : Text), ∃ script,
      discoverTestsImpl arg true
          { result := .exitCode 0, output := output, errorOutput := errorOutput } =
        .ok (some script) ∧
      readFile script = some (scriptCommands arg (discoverTests output)) := by
  constructor
  · intro value
    obtain ⟨level,_,hloop⟩ := exists_bracketLevel value
    obtain ⟨quoted,hquoted,hread⟩ := exists_bracketArgument value
    obtain ⟨quoted',hquoted',hfolded⟩ := bracketArgument_replaceCrLf value
    obtain rfl : quoted = quoted' := Option.some.inj (hquoted.symm.trans hquoted')
    exact ⟨_, quoted, hloop, hquoted, hread, hfolded⟩
  · intro arg output errorOutput
    obtain ⟨script,hscript,hread⟩ := exists_ctestScript arg output
    refine ⟨script, ?_, hread⟩
    rw [← hscript]
    rfl

end Script

end Cmake

end CucumberCpp
