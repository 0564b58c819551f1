import CucumberCpp.Messages
import CucumberCpp.OrderedMap
import CucumberCpp.TextLines

/-! The names of scenarios, from `MakeUniqueTestNames.cpp` over `ListScenarios.cpp` and the
discovery script `cucumber_add_tests.cmake` back to the filter of `RunCucumber.cpp`. -/
namespace CucumberCpp

open OrderedMap TextLines

/-- `std::string` and the strings of the script, by their characters. -/
abbrev Text := List Char

/-- A pickle with its place; of the location the line is read. -/
structure ListedPickle extends Pickle where
  uri : String
  location : Option ℕ
  deriving DecidableEq

/-- `cucumber::query::Lineage`; of features and rules the names are read. -/
structure Lineage where
  feature : Option String
  rule : Option String := none
  hasExample : Bool := false
  examplesIndex : Option ℕ := none
  exampleIndex : Option ℕ := none

def decimal (n : ℕ) : Text := Nat.toDigits 10 n

namespace Util

def trim (str : Text) : Text := strip (fun c => decide (c ∈ [' ', '\t', '\n', '\r'])) str

def sanitizeName (name : Text) : Text :=
  let name := replaceChar '\n' [' '] name
  let name := replaceChar '\r' [' '] name
  let name := replaceChar '\t' [' '] name
  let name := replaceChar ';' [','] name
  trim name

def exampleSuffix (lineage : Lineage) : Text :=
  if lineage.hasExample then
    match lineage.examplesIndex, lineage.exampleIndex with
    | some i, some j => ['.', '#'] ++ decimal (i+1) ++ ['.'] ++ decimal (j+1)
    | none, some j => ['.', '#'] ++ decimal (j+1)
    | _, none => []
  else []

/-- `findLineageBy` is that of the query that was told of the sources. -/
def getHierarchicalTestName (findLineageBy : ListedPickle → Option Lineage)
    (pickle : ListedPickle) : Text :=
  match findLineageBy pickle with
  | none => sanitizeName pickle.name.toList
  | some lineage =>
    let feature := (lineage.feature.filter fun name => name ≠ "").getD pickle.uri
    let featureName := sanitizeName feature.toList
    let ruleName := sanitizeName (lineage.rule.getD "").toList
    let scenarioName := sanitizeName pickle.name.toList
    if ruleName ≠ [] then
      featureName ++ ['.'] ++ ruleName ++ ['.'] ++ scenarioName ++ exampleSuffix lineage
    else featureName ++ ['.'] ++ scenarioName ++ exampleSuffix lineage

end Util

namespace Api

open Util

section

variable (findLineageBy : ListedPickle → Option Lineage)

/-- The loop of `MakeUnique` from a value of the counter on. -/
def makeUniqueFrom (testName : Text) (seenNames : Finset Text) : ℕ → ℕ → Option Text
  | 0, _ => none
  | fuel+1, counter =>
    let uniqueName := testName ++ ['.', '#'] ++ decimal counter
    if uniqueName ∈ seenNames then makeUniqueFrom testName seenNames fuel (counter+1)
    else some uniqueName

/-- Of more candidates than names were seen, one is new. -/
def makeUnique (testName : Text) (seenNames : Finset Text) : Option (Text × Finset Text) := do
  let uniqueName ←
    if testName ∈ seenNames then makeUniqueFrom testName seenNames (seenNames.card+1) 2
    else some testName
  pure (uniqueName,insert uniqueName seenNames)

/-- One round of the loop of `MakeUniqueTestNames`, on the names and the names seen. -/
def emplaceUniqueName (named : Map String Text × Finset Text) (pickle : ListedPickle) :
    Option (Map String Text × Finset Text) := do
  let (uniqueName,seenNames) ← makeUnique (getHierarchicalTestName findLineageBy pickle) named.2
  pure (named.1.tryEmplace pickle.id uniqueName,seenNames)

def makeUniqueTestNames (pickles : List ListedPickle) : Option (Map String Text) := do
  let (uniqueNames,_) ← pickles.foldlM (emplaceUniqueName findLineageBy) (Map.empty,∅)
  pure uniqueNames

def formatScenario (testName : Text) (pickle : ListedPickle) : Text :=
  if pickle.uri = "" then testName
  else
    match pickle.location with
    | some line => testName ++ ['\t'] ++ pickle.uri.toList ++ [':'] ++ decimal line
    | none => testName ++ ['\t'] ++ pickle.uri.toList

def listScenarios (pickles : List ListedPickle) : Option (List Text) := do
  let uniqueNames ← makeUniqueTestNames findLineageBy pickles
  pickles.mapM fun pickle => do
    let testName ← uniqueNames.find? pickle.id
    pure (formatScenario testName pickle)

/-- What `Application::ListScenarios` prints. -/
def listing (scenarios : List Text) : Text := scenarios.flatMap fun scenario => scenario ++ ['\n']

inductive Ordering where
  | defined
  | reverse
  deriving DecidableEq

def invalidRegexPattern (pattern what : Text) : Text :=
  "Invalid regex pattern '".toList ++ pattern ++ "': ".toList ++ what

/-- `create` compiles a pattern, or throws a `regex_error` with some `what`; a strategy
matches texts. The second component is printed. -/
def createNameRegexStrategies (create : Text → Except Text (Text → Bool))
    (nameRegexes : List Text) : Option (List (Text → Bool)) × List Text :=
  nameRegexes.foldl (fun (strategies,printed) pattern =>
    match create pattern with
    | .ok strategy => (strategies.map fun strategies => strategies ++ [strategy], printed)
    | .error what => (none, printed ++ [invalidRegexPattern pattern what])) (some [],[])

def filterByNameRegex (strategies : List (Text → Bool)) (uniqueNames : Map String Text)
    (pickle : ListedPickle) : Option Bool :=
  if strategies.isEmpty then some true
  else do
    let fullName ← uniqueNames.find? pickle.id
    pure (strategies.any fun strategy => strategy pickle.name.toList || strategy fullName)

def orderPickles (ordering : Ordering) (pickles : List ListedPickle) : List ListedPickle :=
  if ordering = .defined then pickles else pickles.reverse

/-- The pickles that `RunCucumber` runs. -/
def selectPickles (create : Text → Except Text (Text → Bool)) (nameRegexes : List Text)
    (ordering : Ordering) (pickles : List ListedPickle) : Option (List ListedPickle) := do
  let strategies ← (createNameRegexStrategies create nameRegexes).1
  let uniqueNames ← makeUniqueTestNames findLineageBy pickles
  let selected ← pickles.filterM (filterByNameRegex strategies uniqueNames)
  pure (orderPickles ordering selected)

end

end Api

namespace Cmake

def metacharacters : List Char :=
  ['^', '$', '.', '*', '+', '?', '(', ')', '[', ']', '{', '}', '|']

/-- `_cucumber_escape_regex`; the backslash comes first. -/
def escapeRegex (value : Text) : Text :=
  metacharacters.foldl (fun value char => replaceChar char ['\\',char] value)
    (replaceChar '\\' ['\\','\\'] value)

/-- The white space of `string(STRIP)`. -/
def isSpace (c : Char) : Bool := decide (c ∈ [' ', '\t', '\n', '\x0b', '\x0c', '\r'])

/-- `string(REPLACE "\r\n" "\n")`. -/
def replaceCrLf : Text → Text
  | [] => []
  | [c] => [c]
  | c :: d :: text =>
    if c = '\r' ∧ d = '\n' then '\n' :: replaceCrLf text else c :: replaceCrLf (d :: text)

/-- The match of a line with `^([^\t]+)\t(.*)$`. -/
def matchLine (line : Text) : Option (Text × Text) :=
  match line.takeWhile (· ≠ '\t'), line.dropWhile (· ≠ '\t') with
  | [], _ => none
  | _, [] => none
  | testName, _ :: sourceLocation => some (testName,sourceLocation)

/-- A test that the script adds, with the argument of its `--name`. -/
structure DiscoveredTest where
  testName : Text
  sourceLocation : Text
  nameFilter : Text
  deriving DecidableEq

def addTest (testName sourceLocation : Text) : DiscoveredTest where
  testName := testName
  sourceLocation := sourceLocation
  nameFilter := ['^'] ++ escapeRegex testName ++ ['$']

/-- One round of the loop of `cucumber_discover_tests_impl`. -/
def discoverLine (line : Text) : Option DiscoveredTest :=
  let line := strip isSpace line
  if line = [] then none
  else
    match matchLine line with
    | some (testName,sourceLocation) => some (addTest testName sourceLocation)
    | none => some (addTest line [])

/-- `cucumber_discover_tests_impl`, from the output of the executable on. -/
def discoverTests (output : Text) : List DiscoveredTest :=
  let output := replaceCrLf output
  let output := replaceChar '\r' ['\n'] output
  (lines '\n' (output ++ ['\n'])).filterMap discoverLine

end Cmake

end CucumberCpp
