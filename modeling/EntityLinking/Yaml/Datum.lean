import EntityLinking.Datum
import EntityLinking.Number.Decimal
import EntityLinking.Number.Integer
import EntityLinking.Yaml.Node

/-!
# YAML nodes as data

A scalar is a text, whatever it looks like; where a number or nothing is wanted, only a plain scalar
can say so.  An empty plain scalar is also an empty list, map or record.
-/

namespace EntityLinking
namespace Yaml

/-- Digits of a radix other than ten, with the letter that announces it after a zero. -/
def announcedRadix? : List Char → Option (Nat × List Char)
  | '0' :: 'x' :: ds => some (16, ds)
  | '0' :: 'o' :: ds => some (8, ds)
  | '0' :: 'b' :: ds => some (2, ds)
  | _ => none

/-- Whether digits have a zero in front that has no meaning. -/
def hasLeadingZero : List Char → Bool
  | '0' :: d :: ds => (d :: ds).all Char.isDigit
  | _ => false

/-- The value of a numeral without a sign. -/
def magnitude? (cs : List Char) : Option Nat :=
  match announcedRadix? cs with
  | some (radix, ds) => Integer.natural? radix ds
  | none => if hasLeadingZero cs then none else Integer.natural? 10 cs

/-- Reads an unsigned word, with an optional plus sign. -/
def readNatural? (cs : List Char) : Option Nat :=
  let unsigned := match cs with
    | '+' :: rest => rest
    | _ => cs
  (magnitude? unsigned).filter Integer.fitsUnsigned

/-- Reads a signed word, with an optional sign. -/
def readInteger? (cs : List Char) : Option Int :=
  let value : Option Int := match cs with
    | '-' :: rest => (magnitude? rest).map fun n => -(n : Int)
    | '+' :: rest => (magnitude? rest).map fun n => (n : Int)
    | _ => (magnitude? cs).map fun n => (n : Int)
  value.filter Integer.fitsSigned

/-- Reads a finite or infinite number, or NaN. -/
def readReal? (s : String) : Option Binary64 :=
  if [".nan", ".NaN", ".NAN"].contains s then some .positiveNaN
  else if [".inf", ".Inf", ".INF", "+.inf", "+.Inf", "+.INF"].contains s then
    some (.ofMagnitude false Binary64.infiniteMagnitude)
  else if ["-.inf", "-.Inf", "-.INF"].contains s then
    some (.ofMagnitude true Binary64.infiniteMagnitude)
  else ((Decimal.read? s.toList).map Decimal.toBinary64).filter Binary64.isFinite

namespace Node

/-- The text of a plain scalar. -/
def plain? : Node → Option String
  | scalar text true => some text
  | _ => none

def text? : Node → Option String
  | scalar text _ => some text
  | _ => none

/-- Whether nothing has been written for the node. -/
def isAbsent (n : Node) : Bool :=
  n.plain? == some ""

/-- The members of a mapping of which all keys are scalars. -/
def members? : Node → Option (List (String × Node))
  | mapping members => members.mapM fun member => (text? member.1).map fun key => (key, member.2)
  | n => if n.isAbsent then some [] else none

instance : Datum Node where
  text? := text?
  natural? n := n.plain?.bind fun s => readNatural? s.toList
  integer? n := n.plain?.bind fun s => readInteger? s.toList
  real? n := n.plain?.bind readReal?
  isUnset n := n.plain?.any fun s => ["", "~", "null", "Null", "NULL"].contains s
  choice? := text?
  items? n :=
    match n with
    | sequence items => some items
    | _ => if n.isAbsent then some [] else none
  members? := members?
  fields? names n := n.members?.bind (Datum.known? names)

end Node
end Yaml
end EntityLinking
