import EntityLinking.Text.Hex
import EntityLinking.Yaml.Cursor

/-!
# Scalars of a YAML text

A scalar is written plainly or in quotation marks and may run over several lines.  Blanks within a
line are kept when text follows them.  A single line end between two pieces of text becomes a space;
of several line ends all but the first are kept.
-/

namespace EntityLinking
namespace Yaml

/-- White space that has been read and that is kept only if text follows. -/
structure Pending where
  /-- The blanks of the current line, last one first. -/
  blanks : List Char := []
  /-- The first line end, after an escaped one `none`, and the later ones, last one first. -/
  breaks : Option (Option Char × List Char) := none

namespace Pending

def isEmpty (w : Pending) : Bool :=
  w.blanks.isEmpty && w.breaks.isNone

/-- Whether a line has ended since the last text. -/
def brokeLine (w : Pending) : Bool :=
  w.breaks.isSome

/-- Adds a blank; blanks at the start of a line count for nothing. -/
def addBlank (w : Pending) (c : Char) : Pending :=
  if w.brokeLine then w else { w with blanks := c :: w.blanks }

def addBreak (w : Pending) (c : Char) : Pending :=
  match w.breaks with
  | none => ⟨[], some (some c, [])⟩
  | some (first, later) => ⟨[], some (first, c :: later)⟩

/-- The text that the white space stands for, last character first. -/
def folded (w : Pending) : List Char :=
  match w.breaks with
  | none => w.blanks
  | some (none, later) => later
  | some (some first, later) =>
    if first = '\n' then (if later.isEmpty then [' '] else later) else later ++ [first]

end Pending

/-- A scalar under way: its text so far, last character first, and the white space after it. -/
structure Partial where
  text : List Char := []
  pending : Pending := {}

namespace Partial

/-- Adds a character, with the white space before it. -/
def push (s : Partial) (c : Char) : Partial :=
  ⟨c :: (s.pending.folded ++ s.text), {}⟩

def pushBlank (s : Partial) (c : Char) : Partial :=
  { s with pending := s.pending.addBlank c }

def pushBreak (s : Partial) (c : Char) : Partial :=
  { s with pending := s.pending.addBreak (keptBreak c) }

/-- The text without the white space after it. -/
def trimmed (s : Partial) : String :=
  String.ofList s.text.reverse

/-- The text with the white space after it. -/
def whole (s : Partial) : String :=
  String.ofList (s.pending.folded ++ s.text).reverse

end Partial

/-- The characters that end a plain scalar inside brackets. -/
def isFlowIndicator (c : Char) : Bool :=
  c == ',' || c == '[' || c == ']' || c == '\x7b' || c == '\x7d'

/-- What a plain scalar depends on: whether it stands inside brackets, and the least column of its
further lines. -/
structure PlainContext where
  inFlow : Bool
  indent : Int

/-- Whether a plain scalar stops before a character that is neither blank nor line end. -/
def plainStops (ctx : PlainContext) (s : Partial) (column : Nat) (c : Char) (rest : List Char) :
    Bool :=
  (!s.pending.isEmpty && (c == '#' || (!ctx.inFlow && decide ((column : Int) < ctx.indent)))) ||
    (column == 0 && isDocumentMarker (c :: rest)) ||
    (c == ':' && atSpace rest) || (ctx.inFlow && isFlowIndicator c)

/-- Whether a colon inside brackets has no meaning. -/
def strayColon (ctx : PlainContext) (c : Char) (rest : List Char) : Bool :=
  ctx.inFlow && c == ':' &&
    match rest with
    | [] => false
    | d :: _ => d == '?' || isFlowIndicator d

/-- Reads a plain scalar from the given place.  The first two components of the place behind it are
the counts of octets and lines, the third is the column.  `none` if a tab stands where indentation
is needed, or a colon where it has no meaning. -/
def readPlain (ctx : PlainContext) (s : Partial) (p : Cursor) : Option (Partial × Cursor) :=
  go s p.index p.line p.column p.rest
where
  /-- Reads on, with the place kept as separate counts. -/
  go (s : Partial) (index line column : Nat) : List Char → Option (Partial × Cursor)
    | [] => some (s, ⟨[], index, line, column⟩)
    | '\r' :: '\n' :: rest => go (s.pushBreak '\n') (index + 2) (line + 1) 0 rest
    | c :: rest =>
      if isBreak c then go (s.pushBreak c) (index + c.utf8Size) (line + 1) 0 rest
      else if isBlank c then
        if s.pending.brokeLine && c == '\t' && decide ((column : Int) < ctx.indent) then none
        else go (s.pushBlank c) (index + 1) line (column + 1) rest
      else if plainStops ctx s column c rest then some (s, ⟨c :: rest, index, line, column⟩)
      else if strayColon ctx c rest then none
      else go (s.push c) (index + c.utf8Size) line (column + 1) rest

/-- Reads a scalar in single quotes after the opening one; a quote inside is written twice. -/
def readSingleQuoted (s : Partial) (index line column : Nat) :
    List Char → Option (Partial × Cursor)
  | [] => none
  | '\'' :: '\'' :: rest => readSingleQuoted (s.push '\'') (index + 2) line (column + 2) rest
  | '\r' :: '\n' :: rest => readSingleQuoted (s.pushBreak '\n') (index + 2) (line + 1) 0 rest
  | c :: rest =>
    if isBreak c then readSingleQuoted (s.pushBreak c) (index + c.utf8Size) (line + 1) 0 rest
    else if isBlank c then readSingleQuoted (s.pushBlank c) (index + 1) line (column + 1) rest
    else if column == 0 && isDocumentMarker (c :: rest) then none
    else if c = '\'' then some (s, ⟨rest, index + 1, line, column + 1⟩)
    else readSingleQuoted (s.push c) (index + c.utf8Size) line (column + 1) rest

/-- The character that a one-letter escape stands for. -/
def escaped? : Char → Option Char
  | '0' => some '\x00'
  | 'a' => some '\x07'
  | 'b' => some '\x08'
  | 't' => some '\t'
  | '\t' => some '\t'
  | 'n' => some '\n'
  | 'v' => some '\x0b'
  | 'f' => some '\x0c'
  | 'r' => some '\r'
  | 'e' => some '\x1b'
  | ' ' => some ' '
  | '"' => some '"'
  | '/' => some '/'
  | '\\' => some '\\'
  | 'N' => some (Char.ofNat 0x85)
  | '_' => some (Char.ofNat 0xA0)
  | 'L' => some (Char.ofNat 0x2028)
  | 'P' => some (Char.ofNat 0x2029)
  | _ => none

/-- The character that a run of hexadecimal digits names. -/
def hexChar? (ds : List Char) : Option Char :=
  (Text.hexNumber? ds).bind fun n => if n.isValidChar then some (Char.ofNat n) else none

/-- Reads a scalar in double quotes after the opening one.  An escaped line end joins two lines
without a space. -/
def readDoubleQuoted (s : Partial) (index line column : Nat) :
    List Char → Option (Partial × Cursor)
  | [] => none
  | '\\' :: 'x' :: a :: b :: rest =>
    match hexChar? [a, b] with
    | some c => readDoubleQuoted (s.push c) (index + 4) line (column + 4) rest
    | none => none
  | '\\' :: 'u' :: a :: b :: c :: d :: rest =>
    match hexChar? [a, b, c, d] with
    | some e => readDoubleQuoted (s.push e) (index + 6) line (column + 6) rest
    | none => none
  | '\\' :: 'U' :: a :: b :: c :: d :: e :: f :: g :: h :: rest =>
    match hexChar? [a, b, c, d, e, f, g, h] with
    | some i => readDoubleQuoted (s.push i) (index + 10) line (column + 10) rest
    | none => none
  | '\\' :: '\r' :: '\n' :: rest =>
    readDoubleQuoted ⟨s.pending.folded ++ s.text, ⟨[], some (none, [])⟩⟩ (index + 3) (line + 1) 0
      rest
  | '\\' :: c :: rest =>
    if isBreak c then
      readDoubleQuoted ⟨s.pending.folded ++ s.text, ⟨[], some (none, [])⟩⟩ (index + 1 + c.utf8Size)
        (line + 1) 0 rest
    else
      match escaped? c with
      | some e => readDoubleQuoted (s.push e) (index + 2) line (column + 2) rest
      | none => none
  | '\r' :: '\n' :: rest => readDoubleQuoted (s.pushBreak '\n') (index + 2) (line + 1) 0 rest
  | c :: rest =>
    if isBreak c then readDoubleQuoted (s.pushBreak c) (index + c.utf8Size) (line + 1) 0 rest
    else if isBlank c then readDoubleQuoted (s.pushBlank c) (index + 1) line (column + 1) rest
    else if column == 0 && isDocumentMarker (c :: rest) then none
    else if c = '"' then some (s, ⟨rest, index + 1, line, column + 1⟩)
    else readDoubleQuoted (s.push c) (index + c.utf8Size) line (column + 1) rest

end Yaml
end EntityLinking
