import EntityLinking.FileReader
import EntityLinking.Schema
import EntityLinking.Service
import EntityLinking.Settings.Override
import EntityLinking.Yaml.Datum

/-!
# Loading from files

Settings, candidate indexes and graphs are YAML documents.  A file that cannot be read, a text that
is no document, and a document of another form are faults of the configuration.
-/

namespace EntityLinking

/-- The record that a YAML text writes. -/
def Yaml.load {α : Type} (read : Yaml.Node → Option α) (text : String) : Except ConfigFault α :=
  match Yaml.Node.read? text with
  | none => .error (.malformed "the text is no document")
  | some document =>
    match read document with
    | none => .error (.malformed "the document has another form")
    | some record => .ok record

namespace Loading

inductive Event where
  /-- Settings are read from a file. -/
  | settings (path : String)
  | service (event : Service.Event)
deriving DecidableEq

/-- The log line of an event, if it has one. -/
def Event.line? : Event → Option Log.Line
  | .settings path =>
    some ⟨.info, .configuration, "Loading disambiguator configuration from " ++ path⟩
  | .service event => event.line?

def text (files : FileReader) (path : String) : Except ConfigFault String :=
  (files.text path).mapError (ConfigFault.unreadable path)

def record {α : Type} (read : Yaml.Node → Option α) (files : FileReader) (path : String) :
    Except ConfigFault α := do
  Yaml.load read (← text files path)

def candidates : FileReader → String → Except ConfigFault CandidateIndex :=
  record Schema.candidateIndex?

def graph : FileReader → String → Except ConfigFault TripleStore :=
  record Schema.tripleStore?

def settings (files : FileReader) (path : String) : Recorded Event ConfigFault Settings :=
  ⟨[.settings path], record Schema.settings? files path⟩

/-- The key of an environment under which the path of the settings stands. -/
def settingsKey : String :=
  "COLLECTIVE_CONFIG"

/-- The settings that an environment chooses: those of the file it names, or else the standard ones,
with its overrides. -/
def settingsOf (files : FileReader) (env : Environment) : Recorded Event ConfigFault Settings := do
  let chosen ← match env settingsKey with
    | some path => settings files path
    | none => pure {}
  Recorded.ofExcept (chosen.overridden env)

def service (files : FileReader) (path : String) (lookup : Lookup) (kg : KnowledgeGraph) :
    Recorded Event Fault (Service Rat) := do
  let chosen ← (settings files path).mapFault Fault.configuration
  (Service.ofSettings chosen lookup kg).mapEvents Event.service

end Loading
end EntityLinking
