import EntityLinking.CommandLine.Help
import EntityLinking.CommandLine.Request
import EntityLinking.Json.Datum
import EntityLinking.Log.Directive
import EntityLinking.Settings.EnvironmentFile

/-!
# The command line

One run reads a candidate index, a graph and a list of mentions from files, resolves the mentions,
and reports the results.  A run is a function of its arguments, the environment and the files.  The
environment also chooses which log lines are shown and whether texts are styled.
-/

namespace EntityLinking
namespace CommandLine

/-- Why a run fails. -/
inductive RunFault where
  | settings (path : String) (fault : ConfigFault)
  | overrides (fault : ConfigFault)
  | candidates (path : String) (fault : ConfigFault)
  | graph (path : String) (fault : ConfigFault)
  | service (fault : Fault)
  | unreadableMentions (path reason : String)
  | malformedMentions (json : Bool) (detail : String)
  | request (fault : Fault)
deriving DecidableEq

/-- A fault of the configuration with its cause: the reason why a file cannot be read is told once
more. -/
def explain (fault : ConfigFault) : String :=
  match fault with
  | .unreadable _ reason => fault.message ++ ": " ++ reason
  | _ => fault.message

def RunFault.message : RunFault → String
  | .settings path fault => "Failed to load config " ++ path ++ ": " ++ explain fault
  | .overrides fault => "Invalid environment override: " ++ explain fault
  | .candidates path fault => "Failed to load candidates " ++ path ++ ": " ++ explain fault
  | .graph path fault => "Failed to load graph " ++ path ++ ": " ++ explain fault
  | .service fault => fault.message
  | .unreadableMentions path reason => "Failed to read mentions " ++ path ++ ": " ++ reason
  | .malformedMentions json detail =>
    "Invalid mentions " ++ (if json then "JSON" else "YAML") ++ ": " ++ detail
  | .request fault => "Disambiguation failed: " ++ fault.message

/-- Whether the last name of a path has the extension `json`. -/
def isJsonPath (path : String) : Bool :=
  let steps := (path.toList.splitOn '/').filter fun name => name ≠ [] ∧ name ≠ ['.']
  match steps.getLast? with
  | none => false
  | some name =>
    let stem := (name.reverse.dropWhile (· ≠ '.')).drop 1
    name.reverse.takeWhile (· ≠ '.') == ['n', 'o', 's', 'j'] && !stem.isEmpty

/-- The mentions that a text lists. -/
def readMentions (json : Bool) (text : String) : Except RunFault (List Mention) :=
  let mentions? : Option (List Mention) :=
    if json then (Json.Value.read? text).bind Schema.mentions?
    else (Yaml.Node.read? text).bind Schema.mentions?
  match mentions? with
  | some mentions => .ok mentions
  | none => .error (.malformedMentions json "the text is no list of mentions")

def setUp (request : Request) (env : Environment) (files : FileReader) :
    Recorded Loading.Event RunFault (Service Rat) := do
  let chosen ← match request.settings with
    | some path => (Loading.settings files path).mapFault (RunFault.settings path)
    | none => pure {}
  let settings ← Recorded.ofExcept ((chosen.overridden env).mapError RunFault.overrides)
  let index ← Recorded.ofExcept ((Loading.candidates files request.candidates).mapError
    (RunFault.candidates request.candidates))
  let store ← Recorded.ofExcept ((Loading.graph files request.graph).mapError
    (RunFault.graph request.graph))
  ((Service.ofSettings settings index.lookup store.graph).mapEvents Loading.Event.service).mapFault
    RunFault.service

def mentions (request : Request) (files : FileReader) : Except RunFault (List Mention) := do
  let text ← (files.text request.mentions).mapError (RunFault.unreadableMentions request.mentions)
  readMentions (isJsonPath request.mentions) text

/-- What a request of a service does as a part of a run. -/
def ask {α : Type} (asked : Recorded Service.Event Fault α) : Recorded Loading.Event RunFault α :=
  (asked.mapEvents Loading.Event.service).mapFault RunFault.request

/-- The key of an environment that asks for styles where no terminal shows them. -/
def stylesKey : String :=
  "CLICOLOR_FORCE"

/-- The key of an environment that asks for no styles. -/
def noStylesKey : String :=
  "NO_COLOR"

/-- Whether reports are styled: styles are asked for, with any value but a zero. -/
def stylesReports (env : Environment) : Bool :=
  (env stylesKey).any (· ≠ "0")

/-- Whether help is styled: styles are asked for and not refused, each with any
value but the empty one. -/
def stylesHelp (env : Environment) : Bool :=
  (env stylesKey).any (· ≠ "") && (env noStylesKey).all (· = "")

def report (request : Request) (env : Environment) (files : FileReader) :
    Recorded Loading.Event RunFault String := do
  let service ← setUp request env files
  let ms ← Recorded.ofExcept (mentions request files)
  match request.command with
  | .resolve k =>
    let table ← ask (service.resolve ms k)
    return Report.table request.format (stylesReports env) (table.mapScores Binary64.ofRat)
  | .best =>
    let best ← ask (service.resolveBest ms)
    return Report.best request.format (stylesReports env)
      (best.map (Resolution.mapScore Binary64.ofRat))

/-- How a run ends. -/
structure Ending where
  exitCode : Nat
  output : String := ""
  /-- What the operator is told, text by text, apart from the output. -/
  remarks : List String := []
deriving DecidableEq

/-- What tells of a fault in the remarks. -/
def complaint (painted : Bool) (fault : RunFault) : String :=
  let word := "error"
  (if painted then Terminal.paint [.bold, .red] word else word) ++ ": " ++ fault.message

/-- How a failed run ends.  A JSON document tells of the fault in the output. -/
def Ending.ofFault (format : Report.Format) (painted : Bool) (fault : RunFault) : Ending :=
  match format with
  | .text => { exitCode := 1, remarks := [complaint painted fault] }
  | .json =>
    { exitCode := 1
      output := (Json.Value.object [("error", .text fault.message)]).compact ++ "\n" }

/-- The name of the file that fills up the environment. -/
def environmentFile : String :=
  ".env"

/-- The environment of a run; `none` if the file sets a value that no environment can hold. -/
def fillUp (env : Environment) (files : FileReader) : Option Environment :=
  match files environmentFile with
  | .ok octets => EnvironmentFile.apply octets env
  | .error _ => some env

def help (env : Environment) (topic : Topic) : String :=
  let text := Help.text env topic
  if stylesHelp env then text else Terminal.strip text

/-- How a run ends that makes no request. -/
def Ending.ofAside (env : Environment) : Aside → Ending
  | .refused => { exitCode := 2, remarks := ["error: the arguments are not understood"] }
  | .nothing => { exitCode := 2, remarks := [help env .program] }
  | .version => { exitCode := 0, output := Help.version ++ "\n" }
  | .help topic => { exitCode := 0, output := help env topic }

/-- The log of some events, as far as directives show it. -/
def entries (ds : List Log.Directive) (events : List Loading.Event) : List String :=
  ((events.filterMap Loading.Event.line?).filter (Log.isShown ds)).map Log.Line.entry

/-- One run with directives on its log. -/
def runWith (ds : List Log.Directive) (env : Environment) (arguments : List String)
    (files : FileReader) : Ending :=
  match Request.ofArguments env arguments with
  | .error aside => Ending.ofAside env aside
  | .ok request =>
    let reported := report request env files
    let ending : Ending := match reported.outcome with
      | .ok output => { exitCode := 0, output }
      | .error fault => Ending.ofFault request.format (stylesReports env) fault
    { ending with remarks := entries ds reported.events ++ ending.remarks }

/-- How a run ends that cannot go on, and why. -/
def Ending.broken (reason : String) : Ending :=
  { exitCode := 101, remarks := [reason] }

/-- One run in its own environment. -/
def runIn (env : Environment) (arguments : List String) (files : FileReader) : Ending :=
  let list := Log.readDirectives ((env Log.directivesKey).getD "")
  let ending :=
    if list.finished then runWith list.directives env arguments files
    else Ending.broken "a directive cannot be cut within a character"
  { ending with remarks := list.remarks ++ ending.remarks }

def run (arguments : List String) (env : Environment) (files : FileReader) : Ending :=
  match fillUp env files with
  | some env => runIn env arguments files
  | none => Ending.broken "the environment cannot hold a value"

end CommandLine
end EntityLinking
