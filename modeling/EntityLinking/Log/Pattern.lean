import EntityLinking.Log.Pattern.Depth
import EntityLinking.Log.Pattern.Mode
import EntityLinking.Text.Alphabetic
import EntityLinking.Text.Hex

/-!
# Patterns of values

A directive can ask for a value by a pattern, a regular expression.  No line has a value
that could be asked for, so all that counts of a pattern is whether it is one:
`Pattern.fault?` tells why it is not.

A pattern is taken in character by character.  `State.step` gives the state behind a character; it
sees the rest of the pattern too, but takes in nothing of it.
-/

namespace EntityLinking
namespace Log
namespace Pattern

inductive Place where
  | outside
  /-- In brackets, where a set is listed. -/
  | member
  /-- In brackets, as the last character of a range. -/
  | rangeEnd (first : Char)
deriving DecidableEq

/-- What has just been taken in. -/
inductive Phase where
  /-- A whole part; another one may follow at a place. -/
  | ready (place : Place)
  | escape (place : Place)
  /-- Some digits of a number; so many are left. -/
  | number (place : Place) (left value : Nat) (asOctet : Bool)
  /-- A sign of repetition before a question mark. -/
  | repeated
  | group
  /-- A question mark behind an opening parenthesis. -/
  | groupKind
  /-- The letter that announces a name. -/
  | announced
  /-- Some characters of a group's name, the last first. -/
  | groupName (name : List Char)
  | flags (run : FlagRun)
  /-- An opening bracket, and the sign that negates the set unless that may follow. -/
  | opened (mayNegate : Bool)
  /-- Minus signs at the beginning of a set. -/
  | dashes
  /-- The first of the two characters of an operator. -/
  | operator
  /-- A part of an ASCII class. -/
  | className
  /-- A member of a set, where a minus sign would make a range; a class of characters has no first
  one. -/
  | single (first? : Option Char)
deriving DecidableEq

/-- Whether blanks behind what has just been taken in count for nothing, if they do so anywhere. -/
def Phase.isLoose : Phase → Bool
  | .ready _ | .number .. | .group | .opened _ | .dashes | .single _ => true
  | _ => false

/-- A pattern under way. -/
structure State where
  mode : Mode := {}
  /-- The group under way, or else the whole pattern. -/
  rows : Rows := {}
  /-- The groups around it, the innermost first, each with the mode before the group within. -/
  outer : List (Rows × Mode) := []
  /-- The open brackets, the innermost first. -/
  brackets : List Rows := []
  /-- The names of the groups so far. -/
  names : List (List Char) := []
  phase : Phase := .ready .outside
  /-- Whether a comment has begun. -/
  comment : Bool := false
  /-- Whether there is a boundary of a word, in a mode that knows all characters. -/
  boundary : Bool := false
deriving DecidableEq

def classNames : List String :=
  ["alnum", "alpha", "ascii", "blank", "cntrl", "digit", "graph", "lower", "print", "punct",
    "space", "upper", "word", "xdigit"]

/-- Whether a text begins with the name of an ASCII class and what closes it. -/
def startsWithClassName (cs : List Char) : Bool :=
  classNames.contains (String.ofList (cs.takeWhile (· ≠ ':'))) &&
    [':', ']'].isPrefixOf (cs.dropWhile (· ≠ ':'))

/-- Reads an ASCII class behind its bracket, as in `[:alpha:]`: whether it is negated. -/
def className? (cs : List Char) : Option Bool :=
  match cs with
  | ':' :: '^' :: named => if startsWithClassName named then some true else none
  | ':' :: named => if startsWithClassName named then some false else none
  | _ => none

/-- Whether the name of a group may begin with a character. -/
def beginsName (c : Char) : Bool :=
  c = '_' || Text.isAlphabetic c

/-- Whether the name of a group may go on with a character. -/
def continuesName (c : Char) : Bool :=
  c = '_' || c = '.' || c = '[' || c = ']' || Text.isAlphanumeric c

/-- How deeply a pattern may be nested. -/
def depthLimit : Nat := 250

namespace State

/-- Puts a part of some depth behind those so far, in the innermost bracket or else in the group. -/
def push (s : State) (depth : Nat) : State :=
  match s.brackets with
  | [] => { s with rows := s.rows.push depth, phase := .ready .outside }
  | set :: around => { s with brackets := set.push depth :: around, phase := .ready .member }

def receive (s : State) (place : Place) (p : Primitive) : Option State :=
  match place, p with
  | .outside, _ =>
    if s.mode.allows p then
      some { s.push 0 with boundary := s.boundary || (p = .boundary && s.mode.unicode) }
    else none
  | .member, .literal c _ =>
    if s.mode.allowsInBrackets p then some { s with phase := .single (some c) } else none
  | .member, _ => if s.mode.allowsInBrackets p then some { s with phase := .single none } else none
  | .rangeEnd first, .literal c _ =>
    if s.mode.allowsInBrackets p ∧ first ≤ c then some (s.push 0) else none
  | .rangeEnd _, _ => none

/-- Begins a group, with the mode within it. -/
def openGroup (s : State) (mode : Mode) : State :=
  { s with mode, rows := {}, outer := (s.rows, s.mode) :: s.outer, phase := .ready .outside }

def closeGroup? (s : State) : Option State :=
  match s.outer with
  | [] => none
  | (rows, mode) :: outer => some ({ s with mode, rows, outer }.push (s.rows.depth + 1))

def openBracket (s : State) : State :=
  { s with brackets := {} :: s.brackets, phase := .opened true }

def closeBracket (s : State) : State :=
  match s.brackets with
  | [] => s
  | set :: brackets => { s with brackets }.push (set.depth + 1)

/-- Begins another operand of an operator on sets. -/
def operate (s : State) : State :=
  match s.brackets with
  | [] => s
  | set :: around => { s with brackets := set.operate :: around, phase := .operator }

def takeOutside (s : State) (c : Char) (rest : List Char) : Option State :=
  match c with
  | '(' => some { s with phase := .group }
  | ')' => s.closeGroup?
  | '|' => some { s with rows := s.rows.alternate, phase := .ready .outside }
  | '[' => some s.openBracket
  | '?' | '*' | '+' =>
    s.rows.row.repeat?.map fun row =>
      { s with
        rows.row := row
        phase := if rest.head? = some '?' then .repeated else .ready .outside }
  | '\x7b' => none
  | '\\' => some { s with phase := .escape .outside }
  | '.' => s.receive .outside .any
  | '^' | '$' => s.receive .outside .anchor
  | _ => s.receive .outside (.literal c false)

def takeMember (s : State) (c : Char) (rest : List Char) : Option State :=
  match c with
  | '[' =>
    match className? rest with
    | some negated =>
      if s.mode.allowsClass negated then some { s.push 0 with phase := .className } else none
    | none => some s.openBracket
  | ']' => some s.closeBracket
  | '\\' => some { s with phase := .escape .member }
  | _ =>
    if (c = '&' ∨ c = '-' ∨ c = '~') ∧ rest.head? = some c then some s.operate
    else s.receive .member (.literal c false)

/-- Takes in a character that is a member at the beginning of a set though it is a sign
elsewhere. -/
def takeLeading (s : State) (c : Char) (phase : Phase) : Option State :=
  if s.mode.allowsInBrackets (.literal c false) then some { s.push 0 with phase } else none

/-- Takes in a character behind a backslash. -/
def takeEscaped (s : State) (place : Place) (c : Char) : Option State :=
  match Escape.of? c with
  | some (.primitive p) => s.receive place p
  | some (.number digits asOctet) => some { s with phase := .number place digits 0 asOctet }
  | none => none

def takeDigit (s : State) (place : Place) (left value : Nat) (asOctet : Bool) (c : Char) :
    Option State := do
  let value := value * 16 + (← Text.hexValue? c)
  if 1 < left then some { s with phase := .number place (left - 1) value asOctet }
  else if value.isValidChar then s.receive place (.literal (Char.ofNat value) asOctet)
  else none

/-- Takes in a character behind some flags, which end at a colon or a closing parenthesis. -/
def takeFlag (s : State) (run : FlagRun) (c : Char) : Option State :=
  if c = ':' ∨ c = ')' then
    if run.written.head? = some '-' then none
    else if c = ':' then some (s.openGroup run.mode)
    else if run.written.isEmpty then none
    else some { s with
      mode := run.mode
      rows.row := s.rows.row.pushFlags
      phase := .ready .outside }
  else (run.take? c).map fun run => { s with phase := .flags run }

/-- Takes in a character of a group's name, which no other group has. -/
def takeName (s : State) (name : List Char) (c : Char) : Option State :=
  if c = '>' then
    if name.isEmpty ∨ s.names.contains name then none
    else some ({ s with names := name :: s.names }.openGroup s.mode)
  else if (if name.isEmpty then beginsName c else continuesName c) then
    some { s with phase := .groupName (c :: name) }
  else none

/-- Takes in a character behind a member of a set. -/
def takeBehindMember (s : State) (first? : Option Char) (c : Char) (rest : List Char) :
    Option State :=
  let next? := s.mode.upcoming? rest
  if c = '-' ∧ next? ≠ some ']' ∧ next? ≠ some '-' then
    first?.map fun first => { s with phase := .ready (.rangeEnd first) }
  else (s.push 0).takeMember c rest

/-- The state behind a character, before which no comment is open. -/
def take (s : State) (c : Char) (rest : List Char) : Option State :=
  match s.phase with
  | .ready .outside => s.takeOutside c rest
  | .ready .member => s.takeMember c rest
  | .ready (.rangeEnd first) =>
    if c = '\\' then some { s with phase := .escape (.rangeEnd first) }
    else s.receive (.rangeEnd first) (.literal c false)
  | .escape place => s.takeEscaped place c
  | .number place left value asOctet => s.takeDigit place left value asOctet c
  | .repeated => some { s with phase := .ready .outside }
  | .group => if c = '?' then some { s with phase := .groupKind }
    else (s.openGroup s.mode).takeOutside c rest
  | .groupKind =>
    if c = 'P' then some { s with phase := .announced }
    else if c = '<' then some { s with phase := .groupName [] }
    else s.takeFlag { mode := s.mode } c
  | .announced => if c = '<' then some { s with phase := .groupName [] } else none
  | .groupName name => s.takeName name c
  | .flags run => s.takeFlag run c
  | .opened mayNegate =>
    if c = '^' ∧ mayNegate then
      if s.mode.allowsNegation then some { s with phase := .opened false } else none
    else if c = '-' then s.takeLeading c .dashes
    else if c = ']' then s.takeLeading c (.ready .member)
    else s.takeMember c rest
  | .dashes => if c = '-' then s.takeLeading c .dashes else s.takeMember c rest
  | .operator => some { s with phase := .ready .member }
  | .className => some (if c = ']' then { s with phase := .ready .member } else s)
  | .single first? => s.takeBehindMember first? c rest

def step (s : State) (c : Char) (rest : List Char) : Option State :=
  if s.comment then some { s with comment := c ≠ '\n' }
  else if s.mode.spaced ∧ s.phase.isLoose ∧ (c = '#' ∨ Text.isBlank c) then
    some { s with comment := c = '#' }
  else s.take c rest

def run (s : State) : List Char → Option State
  | [] => some s
  | c :: rest =>
    match s.step c rest with
    | some s => s.run rest
    | none => none

/-- Whether nothing is left open, and the pattern is not nested too deeply. -/
def isComplete (s : State) : Bool :=
  s.phase = .ready .outside && s.outer.isEmpty && s.rows.depth ≤ depthLimit

end State

/-- Why a text is no pattern that values can be compared with. -/
inductive Fault where
  | malformed
  /-- Words end where their characters do, and not all characters of words are known. -/
  | wordBoundary
deriving DecidableEq

def Fault.message : Fault → String
  | .malformed => "error building NFA"
  | .wordBoundary =>
    "unsupported regex feature for DFAs: cannot build DFAs for regexes with Unicode word " ++
      "boundaries; switch to ASCII word boundaries, or heuristically enable Unicode word " ++
      "boundaries or use a different regex engine"

/-- What is wrong with a pattern; `none` if it is sound. -/
def fault? (cs : List Char) : Option Fault :=
  match State.run {} cs with
  | none => some .malformed
  | some s =>
    if !s.isComplete then some .malformed
    else if s.boundary then some .wordBoundary
    else none

end Pattern
end Log
end EntityLinking
