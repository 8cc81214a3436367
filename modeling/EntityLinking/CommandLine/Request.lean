import EntityLinking.CommandLine.Help
import EntityLinking.Number.Integer
import EntityLinking.Report

/-!
# Requests

What the arguments of a run ask for.  Arguments are read from left to right: options before the
command, the command, and options behind it.  A question about the program itself is answered where
it stands, whatever follows it.
-/

namespace EntityLinking
namespace CommandLine

inductive Command where
  /-- Up to so many resolutions of each mention. -/
  | resolve (k : Nat)
  /-- The best resolution of each mention that has one. -/
  | best
deriving DecidableEq

/-- What the arguments ask for. -/
structure Request where
  candidates : String
  graph : String
  mentions : String
  /-- The file with the settings; without it the standard ones are used. -/
  settings : Option String
  format : Report.Format
  command : Command
deriving DecidableEq

/-- Why arguments make no request. -/
inductive Aside where
  /-- They are no valid arguments. -/
  | refused
  | nothing
  | version
  | help (topic : Topic)
deriving DecidableEq

def readFormat? (value : String) : Option Report.Format :=
  if value = "text" then some .text else if value = "json" then some .json else none

/-- Reads a number of resolutions. -/
def readCount? (value : String) : Option Nat :=
  let digits := match value.toList with
    | '+' :: rest => rest
    | cs => cs
  Integer.unsigned? 10 digits

/-- Whether an option can have a value.  No option has an empty one. -/
def Flag.accepts (flag : Flag) (value : String) : Bool :=
  match flag with
  | .format => (readFormat? value).isSome
  | .k => (readCount? value).isSome
  | _ => value ≠ ""

/-- Arguments under way: options with their values, before the command and behind it. -/
structure Draft where
  general : List (Flag × String) := []
  /-- The last option before the command, if its value is an argument of its own.
  Whether it can have this value is asked where the next option before the command
  stands, or else at the very end. -/
  pending : Option (Flag × String) := none
  command : Option Verb := none
  special : List (Flag × String) := []

namespace Draft

/-- Gives an option before the command its value, once. -/
def assignGeneral (d : Draft) (flag : Flag) (value : String) : Except Aside Draft :=
  if flag.isGeneral ∧ (d.general.lookup flag).isNone ∧ flag.accepts value then
    .ok { d with general := (flag, value) :: d.general }
  else .error .refused

/-- Gives an option behind the command its value, once. -/
def assignSpecial (d : Draft) (verb : Verb) (flag : Flag) (value : String) : Except Aside Draft :=
  if flag.isFor verb ∧ (d.special.lookup flag).isNone ∧ flag.accepts value then
    .ok { d with special := (flag, value) :: d.special }
  else .error .refused

/-- Gives the pending option its value. -/
def settle (d : Draft) : Except Aside Draft :=
  match d.pending with
  | none => .ok d
  | some (flag, value) => { d with pending := none }.assignGeneral flag value

/-- Makes ready for another option: before the command the pending one is settled. -/
def proceed (d : Draft) : Except Aside Draft :=
  if d.command.isNone then d.settle else .ok d

/-- Gives an option the value that stands in the same argument. -/
def assign (d : Draft) (flag : Flag) (value : String) : Except Aside Draft := do
  let d ← d.proceed
  match d.command with
  | none => d.assignGeneral flag value
  | some verb => d.assignSpecial verb flag value

/-- Gives an option the value that stands in the next argument. -/
def assignNext (d : Draft) (flag : Flag) (value : String) : Except Aside Draft := do
  let d ← d.proceed
  match d.command with
  | none => if flag.isGeneral then .ok { d with pending := some (flag, value) } else .error .refused
  | some verb => d.assignSpecial verb flag value

/-- The value of an option; behind the command it counts more. -/
def value? (d : Draft) (flag : Flag) : Option String :=
  d.special.lookup flag <|> d.general.lookup flag

/-- What is helped with at this point. -/
def topic (d : Draft) : Topic :=
  match d.command with
  | none => .program
  | some verb => .command verb

def askHelp (d : Draft) : Aside :=
  match d.proceed with
  | .ok d' => .help d'.topic
  | .error aside => aside

/-- Answers a question about the version, which may stand before the command only. -/
def askVersion (d : Draft) : Aside :=
  match d.proceed with
  | .ok d' => if d'.command.isNone then .version else .refused
  | .error aside => aside

end Draft

/-- What one argument is. -/
inductive Argument where
  /-- An option whose value is the next argument. -/
  | option (flag : Flag)
  | assignment (flag : Flag) (value : String)
  | askHelp
  | askVersion
  /-- Two hyphens: no options follow. -/
  | close
  | word (text : String)

namespace Argument

/-- Reads one argument; `none` for an unknown option.  The letters for help and version are options
without a value, so anything may follow them in their argument. -/
def read? (argument : String) : Option Argument :=
  match argument.toList with
  | ['-', '-'] => some close
  | '-' :: '-' :: cs =>
    let name := String.ofList (cs.takeWhile (· ≠ '='))
    match cs.dropWhile (· ≠ '=') with
    | [] =>
      if name = "help" then some askHelp
      else if name = "version" then some askVersion
      else (Flag.ofLong? name).map option
    | _ :: value => (Flag.ofLong? name).map fun flag => assignment flag (String.ofList value)
  | '-' :: 'h' :: _ => some askHelp
  | '-' :: 'V' :: _ => some askVersion
  | ['-', c] => (Flag.ofShort? c).map option
  | '-' :: c :: '=' :: value =>
    (Flag.ofShort? c).map fun flag => assignment flag (String.ofList value)
  | '-' :: c :: value => (Flag.ofShort? c).map fun flag => assignment flag (String.ofList value)
  | _ => some (word argument)

end Argument

/-- Whether an argument cannot be the value of the option before it. -/
def beginsOption (argument : String) : Bool :=
  match argument.toList with
  | '-' :: _ :: _ => true
  | _ => false

/-- Answers the word `help`, which the name of a command or the word itself may follow. -/
def answerHelp : List String → Aside
  | [] => .help .program
  | [word] =>
    if word = "help" then .help .help
    else
      match Verb.ofName? word with
      | some verb => .help (.command verb)
      | none => .refused
  | _ => .refused

/-- Takes in the arguments one after the other. -/
def collect (d : Draft) : List String → Except Aside Draft
  | [] => d.settle
  | argument :: rest =>
    match Argument.read? argument with
    | none => .error .refused
    | some .askHelp => .error d.askHelp
    | some .askVersion => .error d.askVersion
    | some .close => if d.command.isSome ∧ rest = [] then d.settle else .error .refused
    | some (.word text) =>
      if d.command.isSome then .error .refused
      else if text = "help" then .error (answerHelp rest)
      else
        match Verb.ofName? text with
        | some verb => collect { d with command := some verb } rest
        | none => .error .refused
    | some (.assignment flag value) => (d.assign flag value).bind fun d' => collect d' rest
    | some (.option flag) =>
      match rest with
      | [] => .error .refused
      | value :: rest' =>
        if beginsOption value then .error .refused
        else (d.assignNext flag value).bind fun d' => collect d' rest'

namespace Request

/-- The request of complete arguments.  The settings that the environment names count where the
arguments name none, and a name that is empty there is refused unless the arguments give one on both
sides of the command. -/
def ofDraft? (env : Environment) (d : Draft) : Option Request := do
  let count := ((d.value? .k).bind readCount?).getD 3
  let bothSides := (d.general.lookup .config).isSome && (d.special.lookup .config).isSome
  guard (bothSides || env Loading.settingsKey ≠ some "")
  return {
    candidates := ← d.value? .candidates
    graph := ← d.value? .graph
    mentions := ← d.value? .mentions
    settings := d.value? .config <|> env Loading.settingsKey
    format := ((d.value? .format).bind readFormat?).getD .text
    command := match ← d.command with
      | .best => .best
      | .resolve => .resolve count }

def ofArguments (env : Environment) (arguments : List String) : Except Aside Request :=
  if arguments = [] ∧ (env Loading.settingsKey).isNone then .error .nothing
  else
    (collect {} arguments).bind fun d =>
      match ofDraft? env d with
      | some request => .ok request
      | none => .error .refused

end Request
end CommandLine
end EntityLinking
