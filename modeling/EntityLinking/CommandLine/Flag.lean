/-!
# Commands and options

The words of the command line: the commands, and the options with their names, letters and the
places where they may stand.
-/

namespace EntityLinking
namespace CommandLine

inductive Verb where
  | resolve
  | best
deriving DecidableEq

namespace Verb

def all : List Verb :=
  [.resolve, .best]

def name : Verb → String
  | .resolve => "resolve"
  | .best => "best"

def ofName? (word : String) : Option Verb :=
  all.find? (·.name == word)

end Verb

inductive Flag where
  | config
  | candidates
  | graph
  | mentions
  | format
  | k
deriving DecidableEq

namespace Flag

/-- The options in the order in which they are listed. -/
def all : List Flag :=
  [.k, .config, .candidates, .graph, .mentions, .format]

def long : Flag → String
  | .config => "config"
  | .candidates => "candidates"
  | .graph => "graph"
  | .mentions => "mentions"
  | .format => "format"
  | .k => "k"

def short? : Flag → Option Char
  | .config => some 'c'
  | .mentions => some 'm'
  | .format => some 'o'
  | .k => some 'k'
  | _ => none

def ofLong? (name : String) : Option Flag :=
  all.find? (·.long == name)

def ofShort? (c : Char) : Option Flag :=
  all.find? (·.short? == some c)

def isRequired (flag : Flag) : Bool :=
  flag = .candidates || flag = .graph || flag = .mentions

/-- Whether an option may stand before the command. -/
def isGeneral (flag : Flag) : Bool :=
  flag ≠ .k

/-- Whether an option may stand behind a command. -/
def isFor (verb : Verb) (flag : Flag) : Bool :=
  flag = .config || flag = .format || (flag = .k && verb = .resolve)

end Flag
end CommandLine
end EntityLinking
