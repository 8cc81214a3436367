import EntityLinking.Json.Value
import EntityLinking.Text.Hex

/-!
# Writing JSON values

Two layouts: on one line without spaces, and with every item and member on a line of its own, two
spaces further in than what it belongs to.
-/

namespace EntityLinking
namespace Json

/-- A character as it stands in a string literal. -/
def escape (c : Char) : List Char :=
  if c = '"' then ['\\', '"']
  else if c = '\\' then ['\\', '\\']
  else if c = '\x08' then ['\\', 'b']
  else if c = '\x0c' then ['\\', 'f']
  else if c = '\n' then ['\\', 'n']
  else if c = '\r' then ['\\', 'r']
  else if c = '\t' then ['\\', 't']
  else if c.toNat < 0x20 then '\\' :: 'u' :: Text.hexText 4 c.toNat
  else [c]

def quote (s : String) : String :=
  "\"" ++ String.ofList (s.toList.flatMap escape) ++ "\""

/-- The text of a value that is neither array nor object. -/
def scalarText : Value → String
  | .boolean true => "true"
  | .boolean false => "false"
  | .number numeral => String.ofList numeral
  | .text s => quote s
  | _ => "null"

mutual

/-- The value on one line, put behind the parts written so far. -/
def compactParts (acc : List String) : Value → List String
  | .array items => "]" :: compactItems ("[" :: acc) true items
  | .object members => "\x7d" :: compactMembers ("\x7b" :: acc) true members
  | v => scalarText v :: acc

def compactItems (acc : List String) (first : Bool) : List Value → List String
  | [] => acc
  | v :: rest => compactItems (compactParts (if first then acc else "," :: acc) v) false rest

def compactMembers (acc : List String) (first : Bool) : List (String × Value) → List String
  | [] => acc
  | (name, v) :: rest =>
    let before := if first then acc else "," :: acc
    compactMembers (compactParts (":" :: quote name :: before) v) false rest

end

def Value.compact (v : Value) : String :=
  String.join (compactParts [] v).reverse

/-- A line end and the indentation after it. -/
def newline (depth : Nat) : String :=
  "\n" ++ String.ofList (List.replicate (2 * depth) ' ')

mutual

/-- The value over several lines, put behind the parts written so far. -/
def prettyParts (depth : Nat) (acc : List String) : Value → List String
  | .array [] => "[]" :: acc
  | .array (v :: rest) =>
    "]" :: newline depth ::
      prettyItems depth (prettyParts (depth + 1) (newline (depth + 1) :: "[" :: acc) v) rest
  | .object [] => "\x7b\x7d" :: acc
  | .object ((name, v) :: rest) =>
    "\x7d" :: newline depth ::
      prettyMembers depth (prettyParts (depth + 1)
        (": " :: quote name :: newline (depth + 1) :: "\x7b" :: acc) v) rest
  | v => scalarText v :: acc

def prettyItems (depth : Nat) (acc : List String) : List Value → List String
  | [] => acc
  | v :: rest =>
    prettyItems depth (prettyParts (depth + 1) (newline (depth + 1) :: "," :: acc) v) rest

def prettyMembers (depth : Nat) (acc : List String) : List (String × Value) → List String
  | [] => acc
  | (name, v) :: rest =>
    prettyMembers depth (prettyParts (depth + 1)
      (": " :: quote name :: newline (depth + 1) :: "," :: acc) v) rest

end

def Value.pretty (v : Value) : String :=
  String.join (prettyParts 0 [] v).reverse

end Json
end EntityLinking
