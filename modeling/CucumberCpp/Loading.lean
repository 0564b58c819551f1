import CucumberCpp.Discovery
import CucumberCpp.EventLogScopes
import CucumberCpp.SupportCodeMessages

/-! `api/Gherkin.cpp`, `api/LoadPickles.cpp` and `api/ListScenarios.cpp`: from feature files to
pickles, with the messages that are broadcast on the way. -/
namespace CucumberCpp

open EventLog OrderedMap

variable {idGenerator : IdGenerator}

namespace Messages

structure Source where
  uri : String
  data : String
  deriving DecidableEq

structure Location where
  line : ℕ
  column : Option ℕ := none
  deriving DecidableEq

/-- `ParseError`, with its source reference in two fields. -/
structure ParseError where
  uri : Option String
  location : Option Location
  message : String
  deriving DecidableEq

end Messages

/-- `cucumber::messages::Envelope` as the calls of the API fill it. -/
inductive Message where
  | source (message : Messages.Source)
  | gherkinDocument (message : GherkinDocument)
  | pickle (message : ListedPickle)
  | parseError (message : Messages.ParseError)
  | supportCode (message : SupportCodeMessage)
  | run (envelope : Envelope)

def Message.parseError? : Message → Option Messages.ParseError
  | .parseError message => some message
  | _ => none

/-- What the calls of the API do that can be seen: messages, user code, lines on `std::cerr`. -/
inductive ApiEvent where
  | broadcast (message : Message)
  | invoked (call : Invocation) (result : Util.TestStepResult)
  | println (line : Text)

namespace ApiEvent

def message? : ApiEvent → Option Message
  | .broadcast message => some message
  | _ => none

def invocation? : ApiEvent → Option Invocation
  | .invoked call _ => some call
  | _ => none

end ApiEvent

abbrev ApiRun (idGenerator : IdGenerator) (α : Type) := Exec idGenerator ApiEvent Fault α

/-- `cucumber::gherkin::ParserError`. -/
structure ParserError where
  location : Option Messages.Location
  what : String

/-- The exceptions that `CollectPickles` catches. -/
inductive ParseFailure where
  | compositeParserError (errors : List ParserError)
  | parserError (error : ParserError)

def ParseFailure.errors : ParseFailure → List ParserError
  | .compositeParserError errors => errors
  | .parserError error => [error]

/-- `cucumber::gherkin`: `Slurp`, `Parser::Parse` and `PickleCompiler::Compile`. The latter two
draw ids from the generator of the call. -/
structure Gherkin where
  slurp : String → Except Fault String
  parse : String → String → Consumer String (Except ParseFailure GherkinDocument)
  compile : GherkinDocument → String → Consumer String (List ListedPickle)

/-- `support::PickleSource`. -/
structure LoadedPickle where
  pickle : ListedPickle
  gherkinDocument : GherkinDocument

def LoadedPickle.toPickleSource (source : LoadedPickle) : PickleSource where
  pickle := source.pickle.toPickle
  gherkinDocument := source.gherkinDocument

namespace Api

variable (gherkin : Gherkin)

def parseErrorMessage (uri : String) (error : ParserError) : Messages.ParseError where
  uri := some uri
  location := error.location
  message := error.what

/-- One round of the loop of `CollectPickles`. -/
def collectPath (pickleSources : List LoadedPickle) (uri : String) :
    ApiRun idGenerator (List LoadedPickle) := do
  let data ← fromExcept (gherkin.slurp uri)
  say (.broadcast (.source { uri := uri, data := data }))
  match ← consume (gherkin.parse uri data) with
  | .ok ast => do
    say (.broadcast (.gherkinDocument ast))
    let pickles ← consume (gherkin.compile ast uri)
    sayAll (pickles.map fun pickle => .broadcast (.pickle pickle))
    pure (pickleSources ++ pickles.map fun pickle => { pickle := pickle, gherkinDocument := ast })
  | .error failure => do
    sayAll (failure.errors.map fun error => .broadcast (.parseError (parseErrorMessage uri error)))
    pure pickleSources

def collectPickles (paths : List String) : ApiRun idGenerator (List LoadedPickle) :=
  paths.foldlM (collectPath gherkin) []

/-- The line that `ReportParseError` prints. -/
def reportParseError (parseError : Messages.ParseError) : Text :=
  let uri := (parseError.uri.getD "unknown source").toList
  let line := match parseError.location with
    | some location => ':' :: decimal location.line
    | none => []
  let column := match parseError.location.bind Messages.Location.column with
    | some column => ':' :: decimal column
    | none => []
  let message := match parseError.message.toList.dropInfix? [':', ' '] with
    | some (_,message) => message
    | none => parseError.message.toList
  "Parse error in: \"".toList ++ uri ++ line ++ column ++ "\" ".toList ++ message

/-- `RunOptions::Sources`. -/
structure Sources where
  paths : List String
  tagExpression : Option TagExpression := none
  nameRegexes : List Text := []
  ordering : Ordering := .defined

/-- `tagExpression->Evaluate` for a pickle, if there is a tag expression. -/
def Sources.selects (sources : Sources) (source : LoadedPickle) : Bool :=
  match sources.tagExpression with
  | none => true
  | some tagExpression => tagExpression (transformPickleTags source.pickle.tags)

/-- What `ParseErrorListener` collects of the events while it lives. -/
def parseErrors (sent : List ApiEvent) : List Messages.ParseError :=
  (sent.filterMap ApiEvent.message?).filterMap Message.parseError?

def loadPickles (sources : Sources) : ApiRun idGenerator (Option (List LoadedPickle)) := do
  let (pickleSources,sent) ← listen (collectPickles gherkin sources.paths)
  if parseErrors sent ≠ [] then do
    sayAll ((parseErrors sent).map fun parseError => .println (reportParseError parseError))
    pure none
  else
    pure (some (pickleSources.filter sources.selects))

/-- `ListScenarios`; `findLineageBy` is that of a query updated with the messages so far. -/
def listSources (findLineageBy : List Message → ListedPickle → Option Lineage)
    (sources : Sources) : ApiRun idGenerator (Option (List Text)) := do
  match ← listen (loadPickles gherkin sources) with
  | (none,_) => pure none
  | (some pickleSources,sent) =>
    match listScenarios (findLineageBy (sent.filterMap ApiEvent.message?))
      (pickleSources.map LoadedPickle.pickle) with
    | none => throw .outOfRange
    | some scenarios => pure (some scenarios)

end Api

/-- What loading one feature file came to; `parsed` and `compiled` are the ids that were drawn. -/
structure FileRun where
  source : Messages.Source
  parsed : List String
  compiled : List String := []
  outcome : Except ParseFailure (GherkinDocument × List ListedPickle)

namespace FileRun

def pickles (f : FileRun) : List LoadedPickle :=
  match f.outcome with
  | .ok (ast,pickles) => pickles.map fun pickle => { pickle := pickle, gherkinDocument := ast }
  | .error _ => []

def parseErrors (f : FileRun) : List Messages.ParseError :=
  match f.outcome with
  | .ok _ => []
  | .error failure => failure.errors.map (Api.parseErrorMessage f.source.uri)

/-- The messages about a file: its source, and its document and pickles or its errors. -/
def messages (f : FileRun) : List Message :=
  .source f.source :: match f.outcome with
    | .ok (ast,pickles) => .gherkinDocument ast :: pickles.map .pickle
    | .error failure =>
      failure.errors.map fun error => .parseError (Api.parseErrorMessage f.source.uri error)

end FileRun

/-- A file that was loaded as the source has it: read, parsed and compiled. -/
structure Gherkin.FileRule (gherkin : Gherkin) (f : FileRun) : Prop where
  read : gherkin.slurp f.source.uri = .ok f.source.data
  parsed : ∃ names : ℕ → String, Function.Injective names ∧
    f.parsed = (List.range (gherkin.parse f.source.uri f.source.data names).1).map names ∧
    (gherkin.parse f.source.uri f.source.data names).2 = f.outcome.map Prod.fst
  compiled : ∀ ast pickles, f.outcome = .ok (ast,pickles) →
    ∃ names : ℕ → String, Function.Injective names ∧
      f.compiled = (List.range (gherkin.compile ast f.source.uri names).1).map names ∧
      (gherkin.compile ast f.source.uri names).2 = pickles

end CucumberCpp
