import EntityLinking.Text.Hex

/-!
# Log lines

The events of a journal that an operator is told about are written as lines with a
level.  Every line has a source, the activity that tells of the event, by which an
operator can choose what is shown.
-/

namespace EntityLinking
namespace Log

inductive Level where
  | debug
  | info
  | warn
deriving DecidableEq

def Level.name : Level → String
  | .debug => "DEBUG"
  | .info => "INFO"
  | .warn => "WARN"

/-- The activities that write lines. -/
inductive Source where
  | configuration
  | gathering
  | filtering
  | search
  | service
deriving DecidableEq

def Source.name : Source → String
  | .configuration => "collective_linker::config"
  | .gathering => "collective_linker::candidates::gatherer"
  | .filtering => "collective_linker::candidates::filter"
  | .search => "collective_linker::graph::subgraph"
  | .service => "collective_linker::disambiguate::orchestrator"

structure Line where
  level : Level
  source : Source
  message : String
deriving DecidableEq

/-- The line without its source. -/
def Line.text (l : Line) : String :=
  l.level.name ++ " " ++ l.message

/-- A character of a message as a terminal may show it: those that could steer the terminal are
written as escapes.  Line ends and tabs stay. -/
def visible (c : Char) : List Char :=
  let n := c.toNat
  if n = 0x07 ∨ n = 0x08 ∨ n = 0x0C ∨ n = 0x1B ∨ n = 0x7F then '\\' :: 'x' :: Text.hexText 2 n
  else if 0x80 ≤ n ∧ n ≤ 0x9F then '\\' :: 'u' :: '\x7b' :: Text.hexText 2 n ++ ['\x7d']
  else [c]

/-- The line as an operator sees it, with its source and without the time. -/
def Line.entry (l : Line) : String :=
  l.level.name ++ " " ++ l.source.name ++ ": " ++ String.ofList (l.message.toList.flatMap visible)

/-- A list of names, each in quotation marks. -/
def quotedList (names : List String) : String :=
  "[" ++ ", ".intercalate (names.map fun n => "\"" ++ n ++ "\"") ++ "]"

end Log
end EntityLinking
