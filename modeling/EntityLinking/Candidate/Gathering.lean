import EntityLinking.Candidate.Lookup
import EntityLinking.Candidate.Set
import EntityLinking.Log
import EntityLinking.Recorded

/-!
# Gathering candidates

One lookup for each distinct mention, in the order of their first occurrences.  A surface form that
the lookup does not know leaves its mention without candidates; any other fault ends the gathering.
-/

namespace EntityLinking
namespace Gathering

inductive Event where
  /-- The lookup was asked for a surface form. -/
  | asked (surface : String)
  /-- The lookup knows nothing of a surface form. -/
  | unknown (surface : String) (offset : Nat)
  | gathered (candidates mentions : Nat)
deriving DecidableEq

/-- The log line of an event; asking is not logged. -/
def Event.line? : Event → Option Log.Line
  | .asked _ => none
  | .unknown surface offset =>
    some ⟨.warn, .gathering, "No candidates found for '" ++ surface ++ "' at offset " ++
      toString offset⟩
  | .gathered candidates mentions =>
    some ⟨.info, .gathering, "Found " ++ toString candidates ++
      " total resource candidates for " ++ toString mentions ++ " surface forms"⟩

def ask (lookup : Lookup) (mention : Mention) : Recorded Event LookupFault (List Entity) :=
  match lookup mention.surface with
  | .ok entities => ⟨[.asked mention.surface], .ok entities⟩
  | .error (.notFound surface) =>
    ⟨[.asked mention.surface, .unknown surface mention.offset], .ok []⟩
  | .error fault => ⟨[.asked mention.surface], .error fault⟩

/-- Adds the mentions that the set does not have yet. -/
def extend (lookup : Lookup) :
    List Mention → Candidates → Recorded Event LookupFault Candidates
  | [], set => pure set
  | mention :: rest, set =>
    if set.contains mention then extend lookup rest set
    else do
      let entities ← ask lookup mention
      extend lookup rest (set.insert mention entities)

/-- The candidates of all distinct mentions. -/
def gather (lookup : Lookup) (mentions : List Mention) :
    Recorded Event LookupFault Candidates := do
  let set ← extend lookup mentions .empty
  Recorded.note (.gathered set.total set.size)
  return set

end Gathering
end EntityLinking
