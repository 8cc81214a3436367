import EntityLinking.Datum
import EntityLinking.Json.Reader
import EntityLinking.Number.Decimal
import EntityLinking.Number.Integer

/-!
# JSON values as data

A number is an integer only if its numeral is one; minus zero is none.  A record may also be written
as the list of its fields in declared order, and one of several names as the only member of an
object, with null for its value.
-/

namespace EntityLinking
namespace Json

/-- Reads an unsigned word. -/
def readNatural? (numeral : List Char) : Option Nat :=
  Integer.unsigned? 10 numeral

/-- Reads a signed word. -/
def readInteger? (numeral : List Char) : Option Int :=
  if numeral = ['-', '0'] then none else Integer.signed? 10 numeral

/-- Reads a finite number. -/
def readReal? (numeral : List Char) : Option Binary64 :=
  ((Decimal.read? numeral).map Decimal.toBinary64).filter Binary64.isFinite

namespace Value

def numeral? : Value → Option (List Char)
  | number numeral => some numeral
  | _ => none

def text? : Value → Option String
  | text s => some s
  | _ => none

def items? : Value → Option (List Value)
  | array items => some items
  | _ => none

def members? : Value → Option (List (String × Value))
  | object members => some members
  | _ => none

instance : Datum Value where
  text? := text?
  natural? v := v.numeral?.bind readNatural?
  integer? v := v.numeral?.bind readInteger?
  real? v := v.numeral?.bind readReal?
  isUnset v :=
    match v with
    | null => true
    | _ => false
  choice? v :=
    match v with
    | text s => some s
    | object [(name, null)] => some name
    | _ => none
  items? := items?
  members? := members?
  fields? names v :=
    match v with
    | array items => if items.length ≤ names.length then some (names.zip items) else none
    | object members => Datum.known? names members
    | _ => none

end Value
end Json
end EntityLinking
