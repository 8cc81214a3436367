import EntityLinking.Binary64.Basic

/-!
# Rounding to binary64

The word nearest to a quotient of two naturals, a tie going to the word with the even significand.
The arithmetic is exact: the quotient is scaled so that its integer part has the bits of a
significand, and the remainder decides the last bit.
-/

namespace EntityLinking

/-- The integer nearest to `num / den`, a tie going to the even one. -/
def roundDiv (num den : Nat) : Nat :=
  let q := num / den
  let r := num % den
  if den < 2 * r ∨ (2 * r = den ∧ q % 2 = 1) then q + 1 else q

namespace Binary64

/-- The exponent at which `num / den` has an integer part of 53 bits, though never below that of the
smallest positive word. -/
def scaleOf (num den : Nat) : Int :=
  let guess : Int := num.log2 - den.log2 - 52
  let enough : Bool :=
    if 0 ≤ guess then decide (exponentWeight * (den <<< guess.toNat) ≤ num)
    else decide (exponentWeight * den ≤ num <<< (-guess).toNat)
  max (if enough then guess else guess - 1) (-1074)

/-- The magnitude bits of the word nearest to `num / den`.  A significand that rounds up to the next
power of two carries into the exponent by itself. -/
def nearestMagnitude (num den : Nat) : Nat :=
  if num = 0 ∨ den = 0 then 0
  else
    let e := scaleOf num den
    let significand :=
      if 0 ≤ e then roundDiv num (den <<< e.toNat) else roundDiv (num <<< (-e).toNat) den
    min ((e + 1074).toNat * exponentWeight + significand) infiniteMagnitude

/-- The word nearest to `num / den` with the given sign. -/
def nearest (negative : Bool) (num den : Nat) : Binary64 :=
  ofMagnitude negative (nearestMagnitude num den)

def ofRat (r : Rat) : Binary64 :=
  nearest (decide (r.num < 0)) r.num.natAbs r.den

end Binary64
end EntityLinking
