import EntityLinking.Text.Hex

/-!
# Integer numerals

Reading of integers in a given radix within the range of a 64-bit word.
-/

namespace EntityLinking
namespace Integer

/-- The value of a digit of the given radix, at most sixteen. -/
def digitValue? (radix : Nat) (c : Char) : Option Nat :=
  (Text.hexValue? c).filter (· < radix)

/-- The value of a non-empty run of digits of the given radix. -/
def natural? (radix : Nat) (cs : List Char) : Option Nat :=
  if cs.isEmpty then none
  else cs.foldlM (fun n c => (digitValue? radix c).map (n * radix + ·)) 0

/-- Whether a value fits an unsigned word. -/
def fitsUnsigned (n : Nat) : Bool :=
  decide (n < 0x10000000000000000)

/-- Whether a value fits a signed word. -/
def fitsSigned (n : Int) : Bool :=
  decide (-0x8000000000000000 ≤ n) && decide (n < 0x8000000000000000)

/-- Digits of an unsigned word, without a sign. -/
def unsigned? (radix : Nat) (cs : List Char) : Option Nat :=
  (natural? radix cs).filter fitsUnsigned

/-- Digits of a signed word after an optional sign. -/
def signed? (radix : Nat) (cs : List Char) : Option Int :=
  let value : Option Int :=
    match cs with
    | '-' :: rest => (natural? radix rest).map fun n => -(n : Int)
    | '+' :: rest => (natural? radix rest).map fun n => (n : Int)
    | _ => (natural? radix cs).map fun n => (n : Int)
  value.filter fitsSigned

end Integer
end EntityLinking
