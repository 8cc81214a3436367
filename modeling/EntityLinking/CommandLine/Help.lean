import EntityLinking.CommandLine.Flag
import EntityLinking.Loading
import EntityLinking.Terminal.ControlSequence
import EntityLinking.Terminal.Style

/-!
# Help on the command line

The texts that tell how the command line is used: a sentence on the purpose, the form of a call, and
tables of commands, options and arguments.  The descriptions of a table begin in one column.  Titles
and the words that are written as they stand are set off for a terminal.
-/

namespace EntityLinking
namespace CommandLine

/-- What help is asked for. -/
inductive Topic where
  | program
  | command (verb : Verb)
  /-- The word `help` itself. -/
  | help
deriving DecidableEq

namespace Help

def programName : String :=
  "collective_cli"

def version : String :=
  programName ++ " 0.1.0"

/-- A stretch of text. -/
inductive Stretch where
  | plain (text : String)
  /-- Words that are written as they stand. -/
  | literal (text : String)
  | title (text : String)

namespace Stretch

def words : Stretch → String
  | plain text | literal text | title text => text

/-- The stretch with the control sequences that set it off. -/
def styled : Stretch → String
  | plain text => text
  | literal text => Terminal.switchOn [.bold] ++ text ++ Terminal.switchOff
  | title text =>
    Terminal.switchOn [.bold] ++ Terminal.switchOn [.underlined] ++ text ++ Terminal.switchOff

end Stretch

def styled (stretches : List Stretch) : String :=
  String.join (stretches.map Stretch.styled)

/-- What stands for the value of an option. -/
def placeholder (flag : Flag) : String :=
  "<" ++ flag.long.toUpper ++ ">"

/-- An option with its letter, or with room for one. -/
def spelling (short? : Option Char) (long : String) : List Stretch :=
  match short? with
  | some c => [.literal (String.ofList ['-', c]), .plain ", ", .literal ("--" ++ long)]
  | none => [.plain "    ", .literal ("--" ++ long)]

/-- What an option means, and what it is if it is not given. -/
def describe (env : Environment) : Flag → String
  | .config =>
    "Disambiguator configuration (YAML) [env: " ++ Loading.settingsKey ++ "=" ++
      (env Loading.settingsKey).getD "" ++ "]"
  | .candidates =>
    "Candidate index: `surface_forms: \x7b <form>: [ \x7buri, support, prior\x7d ] \x7d`"
  | .graph => "Knowledge graph: `triples: [[subject, predicate, object]]`"
  | .mentions =>
    "Mentions: list of `\x7bsurface_form, context, text_offset\x7d` (YAML or JSON)"
  | .format => "Output format [default: text] [possible values: json, text]"
  | .k => "[default: 3]"

def purpose : Verb → String
  | .resolve => "Up to k scored resolutions per mention"
  | .best => "Best resolution per mention; unresolved mentions are left out"

def purposeOfHelp : String :=
  "Print this message or the help of the given subcommand(s)"

/-- A table of words and descriptions.  All lines of a description begin in its column. -/
def table (title : String) (rows : List (List Stretch × String)) : String :=
  let widthOf (row : List Stretch × String) : Nat := (row.1.flatMap fun s => s.words.toList).length
  let width := (rows.map widthOf).foldl max 0
  let line (row : List Stretch × String) : String :=
    "\n  " ++ styled row.1 ++ "".pushn ' ' (width - widthOf row + 2) ++
      row.2.replace "\n" ("\n".pushn ' ' (width + 4))
  (Stretch.title (title ++ ":")).styled ++ String.join (rows.map line)

def options (env : Environment) (flags : List Flag) (others : List (List Stretch × String)) :
    String :=
  table "Options" <|
    (flags.map fun flag =>
      (spelling flag.short? flag.long ++ [.plain (" " ++ placeholder flag)], describe env flag)) ++
      (spelling (some 'h') "help", "Print help") :: others

/-- The options that every call gives, each with its value and a blank behind it. -/
def required : List Stretch :=
  (Flag.all.filter Flag.isRequired).flatMap fun flag =>
    [.literal ("--" ++ flag.long), .plain (" " ++ placeholder flag ++ " ")]

def usage (stretches : List Stretch) : String :=
  styled (.title "Usage:" :: .plain " " :: stretches)

/-- The form of a call with a command, which is one stretch with all that stands before it. -/
def usageOf (command rest : String) : String :=
  let before := programName ++ " " ++ String.join (required.map Stretch.words)
  usage [.literal (before ++ command), .plain (" " ++ rest)]

def paragraphs : List String → String :=
  fun ps => "\n\n".intercalate ps ++ "\n"

/-- The help on a topic, for a terminal. -/
def text (env : Environment) : Topic → String
  | .program => paragraphs [
      "Collective graph-based entity disambiguation over fixture files",
      usage <| [.literal programName, .plain " [OPTIONS] "] ++ required ++ [.plain "<COMMAND>"],
      table "Commands" <| (Verb.all.map fun verb => ([.literal verb.name], purpose verb)) ++
        [([.literal "help"], purposeOfHelp)],
      options env (Flag.all.filter Flag.isGeneral)
        [(spelling (some 'V') "version", "Print version")]]
  | .command verb => paragraphs [
      purpose verb,
      usageOf verb.name "[OPTIONS]",
      options env (Flag.all.filter (Flag.isFor verb)) []]
  | .help => paragraphs [
      purposeOfHelp,
      usageOf "help" "[COMMAND]...",
      table "Arguments" [([.plain "[COMMAND]..."], "Print help for the subcommand(s)")]]

end Help
end CommandLine
end EntityLinking
