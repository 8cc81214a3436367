import EntityLinking.Entity
import EntityLinking.MentionMap

/-!
# Candidate sets

The candidates of the mentions of a request.  Mentions keep the order in which they came, and
candidates the order of the lookup.
-/

namespace EntityLinking

/-- The candidates of each mention. -/
abbrev Candidates := MentionMap (List Entity)

namespace Candidates

def total (set : Candidates) : Nat :=
  (set.toList.flatMap (·.value)).length

def hasAny (set : Candidates) : Bool :=
  set.toList.any (!·.value.isEmpty)

end Candidates
end EntityLinking
