import EntityLinking.Fault

/-!
# Knowledge graphs

Read access to a graph of entities: whether a vertex exists, and what it is linked with in either
direction.  Any single answer may be a fault.
-/

namespace EntityLinking

/-- An adjacent vertex with the predicate that links it. -/
structure Link where
  uri : String
  predicate : String
deriving DecidableEq

/-- What a knowledge graph answers. -/
structure KnowledgeGraph where
  /-- Whether there is a vertex of this name. -/
  contains : String → Except GraphFault Bool
  /-- The vertices adjacent to this one, edge directions ignored. -/
  neighbours : String → Except GraphFault (List Link)

end EntityLinking
