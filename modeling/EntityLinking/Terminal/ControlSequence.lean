/-!
# Control sequences

Where no terminal shows a text, control sequences are taken out of it.  They begin with the
character `ESC` and end by a grammar of their own, which `State.next` gives.  Besides the sequences
`strip` takes out the control characters that are no blanks.
-/

namespace EntityLinking
namespace Terminal

/-- Where in a control sequence a character stands. -/
inductive State where
  /-- In no sequence. -/
  | ground
  /-- Behind `ESC`. -/
  | escape
  | escapeIntermediate
  | control
  | controlParameter
  | controlIntermediate
  | controlIgnored
  /-- In a string for a device, which has parameters too. -/
  | device
  | deviceParameter
  | deviceIntermediate
  | deviceIgnored
  | devicePassed
  | command
  /-- In a string that nothing reads. -/
  | string
deriving DecidableEq

namespace State

/-- Whether the state lies within a string that the control character U+009C ends. -/
def isString (s : State) : Bool :=
  s = deviceIgnored || s = devicePassed || s = string

/-- The state behind `ESC` and one more character. -/
def behindEscape (n : Nat) : State :=
  if n = 0x50 then device
  else if n = 0x58 ∨ n = 0x5E ∨ n = 0x5F then string
  else if n = 0x5B then control
  else if n = 0x5D then command
  else if 0x20 ≤ n ∧ n ≤ 0x2F then escapeIntermediate
  else if 0x30 ≤ n ∧ n ≤ 0x7E then ground
  else escape

/-- The state behind one more ASCII character. -/
def nextAscii (s : State) (n : Nat) : State :=
  let isIntermediate := 0x20 ≤ n && n ≤ 0x2F
  let isParameter := 0x30 ≤ n && n ≤ 0x3B
  let isPrivate := 0x3C ≤ n && n ≤ 0x3F
  let isFinal := 0x40 ≤ n && n ≤ 0x7E
  if n = 0x1B then escape
  else if n = 0x18 ∨ n = 0x1A then ground
  else
    match s with
    | ground | string | deviceIgnored | devicePassed => s
    | escape => behindEscape n
    | escapeIntermediate => if isParameter || isPrivate || isFinal then ground else s
    | control =>
      if isIntermediate then controlIntermediate
      else if isParameter || isPrivate then controlParameter
      else if isFinal then ground else s
    | controlParameter =>
      if isIntermediate then controlIntermediate
      else if isPrivate then controlIgnored
      else if isFinal then ground else s
    | controlIntermediate =>
      if isParameter || isPrivate then controlIgnored else if isFinal then ground else s
    | controlIgnored => if isFinal then ground else s
    | device =>
      if isIntermediate then deviceIntermediate
      else if isParameter || isPrivate then deviceParameter
      else if isFinal then devicePassed else s
    | deviceParameter =>
      if isIntermediate then deviceIntermediate
      else if isPrivate then deviceIgnored
      else if isFinal then devicePassed else s
    | deviceIntermediate =>
      if isParameter || isPrivate then deviceIgnored else if isFinal then devicePassed else s
    | command => if n = 0x07 then ground else s

/-- The state behind one more character.  Beyond ASCII only the octet 9C counts, which ends a string
wherever it stands in a character. -/
def next (s : State) (c : Char) : State :=
  if c.toNat < 0x80 then s.nextAscii c.toNat
  else if s.isString && (String.utf8EncodeChar c).contains 0x9C then ground
  else s

/-- Whether control characters take effect in a state, rather than belong to a string. -/
def isOpen : State → Bool
  | ground | escape | escapeIntermediate | control | controlParameter | controlIntermediate
  | controlIgnored => true
  | _ => false

/-- Whether a character is shown: outside of sequences all but control characters, and a blank
control character wherever control characters take effect. -/
def shows (s : State) (c : Char) : Bool :=
  if c = '\t' ∨ c = '\n' ∨ c = '\x0c' ∨ c = '\r' then s.isOpen
  else s = ground && 0x20 ≤ c.toNat && c ≠ '\x7f'

end State

/-- The characters that are shown.  While they are, `shown` is `true`: they are looked at as if they
stood in no sequence, but a sequence that a blank has interrupted is resumed behind them, unless a
character beyond ASCII was among them. -/
def stripFrom (s : State) (shown : Bool) : List Char → List Char
  | [] => []
  | c :: rest =>
    if (if shown then .ground else s).shows c then
      c :: stripFrom (if c.toNat < 0x80 then s else .ground) true rest
    else stripFrom (s.next c) false rest

/-- A text without control sequences and without control characters that are no blanks. -/
def strip (text : String) : String :=
  String.ofList (stripFrom .ground false text.toList)

end Terminal
end EntityLinking
