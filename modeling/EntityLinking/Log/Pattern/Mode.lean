import EntityLinking.Text.Blank

/-!
# Modes of a pattern

A pattern is read in a mode, which flags within it change.  `Mode.allows` tells which primitives
may stand in a pattern, and `Mode.allowsInBrackets` which of them may be members of a set.
Nothing is known here of the characters beyond ASCII: neither their other casings nor the
classes that they belong to.
-/

namespace EntityLinking
namespace Log
namespace Pattern

structure Mode where
  /-- Whether both casings of a character are meant. -/
  ignoresCase : Bool := false
  /-- Whether the pattern speaks of characters; otherwise it speaks of octets. -/
  unicode : Bool := true
  /-- Whether blanks and comments count for nothing. -/
  spaced : Bool := false
deriving DecidableEq

inductive Primitive where
  /-- A character; `asOctet` if it is written as the number of an octet. -/
  | literal (c : Char) (asOctet : Bool)
  /-- The digits, the blanks or the characters of words; or all characters but those. -/
  | named (negated : Bool)
  | any
  /-- An end of a line or of the text. -/
  | anchor
  /-- A place where a word begins or ends, or does not. -/
  | boundary
deriving DecidableEq

/-- What a character behind a backslash stands for. -/
inductive Escape where
  | primitive (p : Primitive)
  /-- A character by its number, which so many hexadecimal digits tell. -/
  | number (digits : Nat) (asOctet : Bool)
deriving DecidableEq

/-- The escape with a letter or sign. -/
def Escape.of? (c : Char) : Option Escape :=
  let literal (c : Char) : Option Escape := some (.primitive (.literal c false))
  match c with
  | 'x' => some (.number 2 true)
  | 'u' => some (.number 4 false)
  | 'U' => some (.number 8 false)
  | 'd' | 's' | 'w' => some (.primitive (.named false))
  | 'D' | 'S' | 'W' => some (.primitive (.named true))
  | 'A' | 'z' => some (.primitive .anchor)
  | 'b' | 'B' | '<' | '>' => some (.primitive .boundary)
  | 'a' => literal '\x07'
  | 't' => literal '\t'
  | 'n' => literal '\n'
  | 'v' => literal '\x0b'
  | 'f' => literal '\x0c'
  | 'r' => literal '\r'
  | _ => if c.toNat < 0x80 ∧ !c.isAlphanum then literal c else none

namespace Mode

/-- Whether a primitive may stand outside brackets. -/
def allows (m : Mode) (p : Primitive) : Bool :=
  match p with
  | .literal c asOctet => if m.unicode then !m.ignoresCase else !(asOctet && 0x80 ≤ c.toNat)
  | .named negated => !m.unicode && !negated
  | .any => m.unicode
  | .anchor | .boundary => true

/-- Whether a primitive may be a member of a set in brackets. -/
def allowsInBrackets (m : Mode) (p : Primitive) : Bool :=
  match p with
  | .literal c _ => if m.unicode then !m.ignoresCase else c.toNat < 0x80
  | .named negated => !m.unicode && !negated
  | .any | .anchor | .boundary => false

/-- Whether an ASCII class, or all characters but those of one, may be members of a set. -/
def allowsClass (m : Mode) (negated : Bool) : Bool :=
  if m.unicode then !m.ignoresCase else !negated

/-- Whether a set may be negated: octets beyond ASCII are no characters. -/
def allowsNegation (m : Mode) : Bool :=
  m.unicode

/-- The character that comes next in a text, blanks and the sign of one comment apart where
they count for nothing. -/
def upcoming? (m : Mode) (cs : List Char) : Option Char :=
  if m.spaced then
    match cs.dropWhile Text.isBlank with
    | '#' :: rest => (rest.dropWhile Text.isBlank).head?
    | rest => rest.head?
  else cs.head?

end Mode

/-- A run of flags under way. -/
structure FlagRun where
  /-- The mode that the flags make. -/
  mode : Mode
  /-- The flags and minus signs so far, the last first. -/
  written : List Char := []
deriving DecidableEq

/-- Takes in a flag; none stands twice, and those behind a minus sign are taken away. -/
def FlagRun.take? (run : FlagRun) (c : Char) : Option FlagRun :=
  let added := !run.written.contains '-'
  let written := c :: run.written
  if run.written.contains c then none
  else
    match c with
    | 'i' => some { run with written, mode.ignoresCase := added }
    | 'u' => some { run with written, mode.unicode := added }
    | 'x' => some { run with written, mode.spaced := added }
    | 'm' | 's' | 'U' | 'R' | '-' => some { run with written }
    | _ => none

end Pattern
end Log
end EntityLinking
