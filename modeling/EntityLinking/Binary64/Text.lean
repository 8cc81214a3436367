import EntityLinking.Binary64.Rounding
import EntityLinking.Binary64.Shortest

/-!
# Written forms of binary64 words

Two forms for a reader: the shortest digits without an exponent, and four fixed places.  A third,
the numeral of a data format, switches to an exponent outside a range of sizes.
-/

namespace EntityLinking
namespace Binary64

def zeros (n : Nat) : List Char :=
  List.replicate n '0'

/-- The sign of a word, written for a negative one only. -/
def signText (x : Binary64) : List Char :=
  if x.isNegative then ['-'] else []

/-- Digits with a point and without an exponent.  A whole number is followed by `whole`. -/
def positional (whole : List Char) (d : Digits) : List Char :=
  if d.point ≤ 0 then '0' :: '.' :: (zeros (-d.point).toNat ++ d.digits)
  else if (d.digits.length : Int) ≤ d.point then
    d.digits ++ zeros (d.point - d.digits.length).toNat ++ whole
  else d.digits.take d.point.toNat ++ '.' :: d.digits.drop d.point.toNat

/-- One digit before the point and a signed exponent after the last. -/
def scientific (d : Digits) : List Char :=
  let fraction := d.digits.drop 1
  let e := d.point - 1
  d.digits.take 1 ++ (if fraction.isEmpty then [] else '.' :: fraction) ++
    'e' :: (if e < 0 then '-' else '+') :: decimalDigits e.natAbs

/-- The shortest numeral that reads back as the word, never with an exponent.  NaN has no sign. -/
def toPlainText (x : Binary64) : String :=
  if x.isNaN then "NaN"
  else String.ofList <| x.signText ++
    if x.isInfinite then ['i', 'n', 'f']
    else if x.magnitude = 0 then ['0']
    else positional [] (shortestDigits .upward x)

/-- The shortest numeral of a finite word in a data format: whole numbers keep one zero after the
point, and sizes below `10 ^ -5` or from `10 ^ 16` on are written with an exponent. -/
def toNumeral (x : Binary64) : String :=
  String.ofList <| x.signText ++
    if x.magnitude = 0 then ['0', '.', '0']
    else
      let d := shortestDigits .toEven x
      if -5 < d.point ∧ d.point ≤ 16 then positional ['.', '0'] d else scientific d

/-- The nearest multiple of `10 ^ -places` to a finite word, as a multiple; a tie goes to the even
one. -/
def fixedMultiple (places : Nat) (x : Binary64) : Nat :=
  roundDiv ((x.significand <<< x.exponent.toNat) * Nat.pow 10 places) (1 <<< (-x.exponent).toNat)

/-- The word with four decimal places.  NaN has no sign; a negative word keeps its sign also when
all places are zero. -/
def toFixedText (x : Binary64) : String :=
  if x.isNaN then "NaN"
  else String.ofList <| x.signText ++
    if x.isInfinite then ['i', 'n', 'f']
    else
      let n := x.fixedMultiple 4
      let fraction := decimalDigits (n % 10000)
      decimalDigits (n / 10000) ++ '.' :: (zeros (4 - fraction.length) ++ fraction)

end Binary64
end EntityLinking
