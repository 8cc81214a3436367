/-!
# Places in a YAML text

The classes of characters that the format tells apart, and a cursor that counts octets, lines and
columns.  A column is one character wide, and an index is the number of octets before a place.  A
carriage return and a line feed together end one line.
-/

namespace EntityLinking
namespace Yaml

/-- Space and tab. -/
def isBlank (c : Char) : Bool :=
  c == ' ' || c == '\t'

/-- The characters that end a line. -/
def isBreak (c : Char) : Bool :=
  c == '\n' || c == '\r' || c.toNat == 0x85 || c.toNat == 0x2028 || c.toNat == 0x2029

/-- Whether a text is over or goes on with a blank or a line end. -/
def atSpace : List Char → Bool
  | [] => true
  | c :: _ => isBlank c || isBreak c

/-- The characters that a text may contain. -/
def isAllowed (c : Char) : Bool :=
  let n := c.toNat
  n == 0x9 || n == 0xA || n == 0xD || (0x20 ≤ n && n ≤ 0x7E) || n == 0x85 ||
    (0xA0 ≤ n && n ≤ 0xD7FF) || (0xE000 ≤ n && n ≤ 0xFFFD) || 0x10000 ≤ n

/-- The byte order mark. -/
def isByteOrderMark (c : Char) : Bool :=
  c.toNat == 0xFEFF

/-- How a line end is kept in a value: the two rare separators as they are, all others as a line
feed. -/
def keptBreak (c : Char) : Char :=
  if c.toNat == 0x2028 || c.toNat == 0x2029 then c else '\n'

/-- Whether a text goes on with three equal characters and then a space, a line end or nothing. -/
def isMarker (c : Char) : List Char → Bool
  | a :: b :: d :: rest => a == c && b == c && d == c && atSpace rest
  | _ => false

/-- Whether a line that starts here marks the beginning or the end of a document. -/
def isDocumentMarker (cs : List Char) : Bool :=
  isMarker '-' cs || isMarker '.' cs

/-- A place in a text and what follows it. -/
structure Cursor where
  rest : List Char
  /-- The number of octets before the place. -/
  index : Nat := 0
  line : Nat := 0
  column : Nat := 0

namespace Cursor

def skip (p : Cursor) : Cursor :=
  match p.rest with
  | [] => p
  | c :: rest => { p with rest, index := p.index + c.utf8Size, column := p.column + 1 }

def skipMany (p : Cursor) : Nat → Cursor
  | 0 => p
  | n + 1 => p.skip.skipMany n

end Cursor
end Yaml
end EntityLinking
