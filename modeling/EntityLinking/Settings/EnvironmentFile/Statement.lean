import EntityLinking.Text.Blank
import EntityLinking.Text.Utf8

/-!
# Statements of an environment file

A statement is written on one line, or on several if a quotation runs over their ends.  A comment
ends its statement.  Lines are told apart in the octets, so that a line which is no text leaves the
lines before it readable.
-/

namespace EntityLinking
namespace EnvironmentFile

/-- How the next character of a statement is understood. -/
inductive Position where
  | plain
  /-- Behind a blank, where a number sign begins a comment.  A second blank is a plain character. -/
  | blank
  /-- Behind a backslash outside quotation marks. -/
  | escape
  /-- Behind an opening quotation mark. -/
  | quote (mark : Char)
  /-- Behind a backslash within quotation marks of either kind. -/
  | quoteEscape (mark : Char)
deriving DecidableEq

namespace Position

/-- The position behind a character that is no blank. -/
def behind (c : Char) : Position :=
  if c = '\\' then escape
  else if c = '"' ∨ c = '\'' then quote c
  else plain

/-- The position after one more character. -/
def next (p : Position) (c : Char) : Position :=
  match p with
  | plain => if Text.isBlank c ∧ c ≠ '\n' ∧ c ≠ '\r' then blank else behind c
  | blank => behind c
  | escape => plain
  | quote mark => if c = '\\' then quoteEscape mark else if c = mark then plain else quote mark
  | quoteEscape mark => quote mark

end Position

/-- Takes in a line.  The first component is what comes before a comment, the second the position at
the end, `none` if a comment has begun. -/
def takeLine (p : Position) : List Char → List Char × Option Position
  | [] => ([], some p)
  | c :: rest =>
    if p = .blank ∧ c = '#' then ([], none)
    else
      let taken := takeLine (p.next c) rest
      (c :: taken.1, taken.2)

/-- Whether nothing but a comment follows some blanks. -/
def isComment (cs : List Char) : Bool :=
  (cs.dropWhile Text.isBlank).head? == some '#'

/-- The statements of some lines, each with its line end and `none` for a line that is no text.
What has been read of the first statement is given with the position behind it.  A `none` among the
statements is where the file cannot be read any further. -/
def statements (begun : List Char) (p : Position) :
    List (Option (List Char)) → List (Option (List Char))
  | [] => if p = .plain then [] else [none]
  | none :: _ => [none]
  | some line :: rest =>
    if begun.isEmpty && isComment line then statements [] .plain rest
    else
      match takeLine p line with
      | (taken, none) => some (begun ++ taken) :: statements [] .plain rest
      | (taken, some .plain) => some (begun ++ taken) :: statements [] .plain rest
      | (taken, some p') => statements (begun ++ taken) p' rest

/-- Puts an octet before some lines. -/
def prependOctet (b : UInt8) : List (List UInt8) → List (List UInt8)
  | [] => [[b]]
  | line :: rest => if b = 10 then [b] :: line :: rest else (b :: line) :: rest

/-- The lines of a file, each with its line end. -/
def lines (octets : List UInt8) : List (List UInt8) :=
  octets.foldr prependOctet []

/-- The octets without a byte order mark at their beginning. -/
def withoutByteOrderMark : List UInt8 → List UInt8
  | 0xEF :: 0xBB :: 0xBF :: rest => rest
  | octets => octets

def statementsOf (octets : List UInt8) : List (Option (List Char)) :=
  statements [] .plain <| (lines (withoutByteOrderMark octets)).map fun line =>
    (Text.decode? line).map String.toList

end EnvironmentFile
end EntityLinking
