import EntityLinking.Binary64.Text

/-!
# JSON values

A tree of JSON data.  A number is kept as the numeral it is written with, so that a reader can tell
an integer from a fraction and no digit is lost; the members of an object keep their order and may
repeat a name.
-/

namespace EntityLinking
namespace Json

inductive Value where
  | null
  | boolean (b : Bool)
  | number (numeral : List Char)
  | text (s : String)
  /-- A string in which half of a surrogate pair stands alone, or an object with such a name: what
  is written stands for no data, but it may be passed over. -/
  | unpaired
  | array (items : List Value)
  | object (members : List (String × Value))

namespace Value

instance : Inhabited Value := ⟨null⟩

def ofNat (n : Nat) : Value :=
  number (toString n).toList

def ofInt (n : Int) : Value :=
  number (toString n).toList

/-- A finite word as its shortest numeral, and anything else as null. -/
def ofBinary64 (x : Binary64) : Value :=
  if x.isFinite then number x.toNumeral.toList else null

/-- The value of the first member of this name. -/
def member? (v : Value) (name : String) : Option Value :=
  match v with
  | object members => members.lookup name
  | _ => none

end Value
end Json
end EntityLinking
