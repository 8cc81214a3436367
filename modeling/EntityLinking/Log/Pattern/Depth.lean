/-!
# How deeply a pattern is nested

The parts of a pattern stand in rows, one part after the other, and rows stand side by side
between dividing signs.  A row of several parts is one level deeper than its deepest part, and
so are rows side by side.
-/

namespace EntityLinking
namespace Log
namespace Pattern

structure Row where
  size : Nat := 0
  /-- The depth of the deepest part. -/
  deepest : Nat := 0
  /-- The depth of the last part, if there is one and it can be repeated. -/
  last? : Option Nat := none
deriving DecidableEq

namespace Row

def depth (r : Row) : Nat :=
  if r.size ≤ 1 then r.deepest else r.deepest + 1

def push (r : Row) (depth : Nat) : Row :=
  { size := r.size + 1, deepest := max r.deepest depth, last? := some depth }

/-- One more part that cannot be repeated. -/
def pushFlags (r : Row) : Row :=
  { r with size := r.size + 1, last? := none }

def repeat? (r : Row) : Option Row :=
  r.last?.map fun depth =>
    { r with deepest := max r.deepest (depth + 1), last? := some (depth + 1) }

end Row

/-- Rows side by side, the last of which is under way. -/
structure Rows where
  /-- The depth of the rows before. -/
  earlier? : Option Nat := none
  row : Row := {}
deriving DecidableEq

namespace Rows

def depth (rs : Rows) : Nat :=
  match rs.earlier? with
  | none => rs.row.depth
  | some earlier => max earlier rs.row.depth + 1

/-- One more part in the last row. -/
def push (rs : Rows) (depth : Nat) : Rows :=
  { rs with row := rs.row.push depth }

/-- Begins another row beside all the others. -/
def alternate (rs : Rows) : Rows :=
  { earlier? := some (max (rs.earlier?.getD 0) rs.row.depth) }

/-- Begins another row beside all the others taken together. -/
def operate (rs : Rows) : Rows :=
  { earlier? := some rs.depth }

end Rows

end Pattern
end Log
end EntityLinking
