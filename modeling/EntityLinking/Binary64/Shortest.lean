import EntityLinking.Binary64.Basic

/-!
# Shortest decimal digits

The fewest decimal digits that still read back as a given word.  The numbers that round to a word
form an interval around its value, ends included when the significand is even.  On the grid of
numbers with a given count of digits only the two neighbours of the value can be nearest to it; the
first count at which one of them falls into the interval is taken, and of two the nearer.
-/

namespace EntityLinking

/-- Which of two equally near decimals is chosen. -/
inductive Tie where
  | toEven
  | upward
deriving DecidableEq

/-- Decimal digits and the place of the point: the value is `0.d₁d₂… * 10 ^ point`. -/
structure Digits where
  digits : List Char
  point : Int
deriving DecidableEq

namespace Binary64

def decimalDigits (n : Nat) : List Char :=
  Nat.toDigits 10 n

/-- The exponent of the first decimal digit of `num / den`, both positive. -/
def leadingExponent (num den : Nat) : Int :=
  if den ≤ num then (decimalDigits (num / den)).length - 1
  else -((decimalDigits ((den - 1) / num)).length : Int)

/-- The value of a finite word times four, and the interval of what rounds to it likewise, as
numerators over one denominator. -/
structure Neighbourhood where
  low : Nat
  value : Nat
  high : Nat
  den : Nat
  closed : Bool

/-- The interval around the value of a finite word.  Below a power of two words lie twice as
close. -/
def neighbourhood (x : Binary64) : Neighbourhood :=
  let m := x.significand
  let below := if m = exponentWeight ∧ -1074 < x.exponent then 1 else 2
  let e := x.exponent - 2
  { low := (4 * m - below) <<< e.toNat
    value := (4 * m) <<< e.toNat
    high := (4 * m + 2) <<< e.toNat
    den := 1 <<< (-e).toNat
    closed := m % 2 == 0 }

/-- The nearer neighbour of the value on the grid of multiples of `10 ^ k` that lies in the
interval, as a multiple, if there is one. -/
def Neighbourhood.onGrid? (n : Neighbourhood) (tie : Tie) (k : Int) : Option Nat :=
  let num := Nat.pow 10 (-k).toNat
  let den := n.den * Nat.pow 10 k.toNat
  let floor := n.value * num / den
  let inside (c : Nat) : Bool :=
    if n.closed then decide (n.low * num ≤ c * den) && decide (c * den ≤ n.high * num)
    else decide (n.low * num < c * den) && decide (c * den < n.high * num)
  let toFloor := n.value * num - floor * den
  let toNext := (floor + 1) * den - n.value * num
  let takeFloor : Bool :=
    decide (toFloor < toNext) ||
      (toFloor == toNext && (match tie with | .toEven => floor % 2 == 0 | .upward => false))
  match inside floor, inside (floor + 1) with
  | true, true => some (if takeFloor then floor else floor + 1)
  | true, false => some floor
  | false, true => some (floor + 1)
  | false, false => none

/-- Tries one, two, … digits up to a bound. -/
def Neighbourhood.shortest (n : Neighbourhood) (tie : Tie) (lead : Int) : Nat → Nat → Nat × Int
  | _, 0 => (0, 0)
  | count, more + 1 =>
    let k := lead - count
    match n.onGrid? tie k with
    | some c => (c, k)
    | none => n.shortest tie lead (count + 1) more

/-- The shortest digits of a finite word that is not zero.  Seventeen digits always suffice. -/
def shortestDigits (tie : Tie) (x : Binary64) : Digits :=
  let n := x.neighbourhood
  let (c, k) := n.shortest tie (leadingExponent n.value n.den) 0 17
  let ds := decimalDigits c
  let trimmed := (ds.reverse.dropWhile (· == '0')).reverse
  ⟨trimmed, ds.length + k⟩

end Binary64
end EntityLinking
