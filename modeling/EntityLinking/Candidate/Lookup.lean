import EntityLinking.Entity
import EntityLinking.Fault

/-!
# Candidate lookup

A lookup gives the candidate entities of a surface form, in an order of its own.  An index held in
memory is one.
-/

namespace EntityLinking

/-- The candidates of a surface form, or why there are none. -/
abbrev Lookup := String → Except LookupFault (List Entity)

/-- Candidate lists by surface form, at most one to a form. -/
structure CandidateIndex where
  rows : List (String × List Entity) := []
deriving DecidableEq

namespace CandidateIndex

def find? (index : CandidateIndex) (surface : String) : Option (List Entity) :=
  index.rows.lookup surface

/-- Files a list under a surface form in place of an earlier one. -/
def insert (index : CandidateIndex) (surface : String) (entities : List Entity) : CandidateIndex :=
  if (index.find? surface).isSome then
    ⟨index.rows.map fun row => if row.1 = surface then (surface, entities) else row⟩
  else ⟨index.rows ++ [(surface, entities)]⟩

/-- The index of several rows; a later row for a form replaces an earlier one. -/
def ofRows (rows : List (String × List Entity)) : CandidateIndex :=
  rows.foldl (fun index row => index.insert row.1 row.2) {}

def size (index : CandidateIndex) : Nat :=
  index.rows.length

def isEmpty (index : CandidateIndex) : Bool :=
  index.rows.isEmpty

def lookup (index : CandidateIndex) : Lookup := fun surface =>
  match index.find? surface with
  | some entities => .ok entities
  | none => .error (.notFound surface)

end CandidateIndex
end EntityLinking
