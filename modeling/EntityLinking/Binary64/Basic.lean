import EntityLinking.Ranking

/-!
# Binary64 words

A prior or a score is an IEEE 754 binary64 word, kept as its 64 bits: the program moves such words
around and compares them, and a NaN keeps its sign on the way.  Two comparisons are used.  Ranking
follows the standard's total order, which places every word, and equality is the arithmetic one, in
which the two zeros are equal and a NaN differs from everything.
-/

namespace EntityLinking

/-- A binary64 word. -/
structure Binary64 where
  bits : UInt64
deriving DecidableEq

namespace Binary64

def zero : Binary64 := ⟨0⟩

/-- The weight of the sign bit in a word. -/
def signWeight : Nat := 0x8000000000000000

/-- The weight of the last exponent bit in a word: so many significands share an exponent. -/
def exponentWeight : Nat := 0x10000000000000

/-- The magnitude bits of infinity; larger ones belong to NaNs. -/
def infiniteMagnitude : Nat := 0x7FF * exponentWeight

/-- The NaN without a sign and with only the first bit of its significand set. -/
def positiveNaN : Binary64 := ⟨0x7FF8000000000000⟩

def isNegative (x : Binary64) : Bool :=
  decide (signWeight ≤ x.bits.toNat)

/-- The word without its sign bit. -/
def magnitude (x : Binary64) : Nat :=
  x.bits.toNat % signWeight

def ofMagnitude (negative : Bool) (m : Nat) : Binary64 :=
  ⟨UInt64.ofNat (m % signWeight + if negative then signWeight else 0)⟩

def isNaN (x : Binary64) : Bool :=
  decide (infiniteMagnitude < x.magnitude)

def isInfinite (x : Binary64) : Bool :=
  x.magnitude == infiniteMagnitude

def isFinite (x : Binary64) : Bool :=
  decide (x.magnitude < infiniteMagnitude)

/-- The integer significand of a finite word: its value is `significand * 2 ^ exponent` but for the
sign. -/
def significand (x : Binary64) : Nat :=
  if x.magnitude < exponentWeight then x.magnitude
  else exponentWeight + x.magnitude % exponentWeight

/-- The binary exponent of a finite word. -/
def exponent (x : Binary64) : Int :=
  if x.magnitude < exponentWeight then -1074 else (x.magnitude / exponentWeight : Nat) - 1075

/-- The place of a word in the total order: negative NaNs come first, then the negative numbers,
negative zero, positive zero, the positive numbers, and positive NaNs last. -/
def rank (x : Binary64) : Int :=
  if x.isNegative then -1 - (x.magnitude : Int) else x.magnitude

instance : Ranked Binary64 where
  le a b := decide (a.rank ≤ b.rank)
  le_trans a b c := by
    simpa using fun (h : a.rank ≤ b.rank) (h' : b.rank ≤ c.rank) => Int.le_trans h h'
  le_total a b := by
    simpa using Int.le_total a.rank b.rank

/-- Arithmetic equality: the zeros are equal, and a NaN equals nothing. -/
def sameNumber (a b : Binary64) : Bool :=
  !a.isNaN && !b.isNaN && (a == b || (a.magnitude == 0 && b.magnitude == 0))

end Binary64
end EntityLinking
