import EntityLinking.Binary64.Rounding

/-!
# Decimal numerals

The written form of a number with an optional fraction and an optional decimal exponent, and the
binary64 word nearest to it.
-/

namespace EntityLinking

/-- The number `digits * 10 ^ exponent`, with a sign that also a zero carries. -/
structure Decimal where
  negative : Bool
  digits : Nat
  exponent : Int
deriving DecidableEq

namespace Decimal

/-- The value of a run of decimal digits. -/
def digitsValue (cs : List Char) : Nat :=
  cs.foldl (fun n c => n * 10 + (c.toNat - 0x30)) 0

/-- Splits off the decimal digits at the front. -/
def spanDigits (cs : List Char) : List Char × List Char :=
  (cs.takeWhile Char.isDigit, cs.dropWhile Char.isDigit)

/-- Splits off a sign at the front; the first component tells whether it is a minus sign. -/
def spanSign : List Char → Bool × List Char
  | '-' :: rest => (true, rest)
  | '+' :: rest => (false, rest)
  | cs => (false, cs)

/-- Reads the exponent part that ends a numeral: nothing, or `e` with an
optional sign and digits. -/
def readExponent? : List Char → Option Int
  | [] => some 0
  | c :: rest =>
    if c = 'e' ∨ c = 'E' then
      let (negative, unsigned) := spanSign rest
      let (ds, after) := spanDigits unsigned
      if ds.isEmpty ∨ !after.isEmpty then none
      else some (if negative then -(digitsValue ds : Int) else digitsValue ds)
    else none

/-- Reads a numeral: an optional sign, digits with at most one point among or beside them, and an
optional exponent.  One digit outside the exponent is needed. -/
def read? (cs : List Char) : Option Decimal :=
  let (negative, unsigned) := spanSign cs
  let (whole, afterWhole) := spanDigits unsigned
  let (fraction, afterFraction) :=
    match afterWhole with
    | '.' :: rest => spanDigits rest
    | rest => ([], rest)
  if whole.isEmpty ∧ fraction.isEmpty then none
  else
    (readExponent? afterFraction).map fun e =>
      ⟨negative, digitsValue (whole ++ fraction), e - fraction.length⟩

/-- The word nearest to the number.  Exponents so large or small that the outcome is settled are
decided without computing the power of ten. -/
def toBinary64 (d : Decimal) : Binary64 :=
  if d.digits = 0 ∨ d.exponent < -400 - d.digits.log2 then Binary64.ofMagnitude d.negative 0
  else if 400 < d.exponent then Binary64.ofMagnitude d.negative Binary64.infiniteMagnitude
  else if 0 ≤ d.exponent then Binary64.nearest d.negative (d.digits * Nat.pow 10 d.exponent.toNat) 1
  else Binary64.nearest d.negative d.digits (Nat.pow 10 (-d.exponent).toNat)

end Decimal
end EntityLinking
