import EntityLinking.Binary64.Basic

/-!
# Candidate entities

An entity of the knowledge base, as a lookup returns it for a surface form.
-/

namespace EntityLinking

/-- A candidate entity.  Its URI is kept exactly as the lookup spells it. -/
structure Entity where
  uri : String
  /-- How often the entity is the target of a mention in the corpus. -/
  support : Nat := 0
  /-- The probability of the entity before the document is seen. -/
  prior : Binary64 := .zero
deriving DecidableEq

namespace Entity

/-- Equality with priors compared as numbers. -/
def sameAs (a b : Entity) : Bool :=
  a.uri == b.uri && a.support == b.support && a.prior.sameNumber b.prior

/-- The entity as text, such as `urn:Paris (support=3)`. -/
def text (e : Entity) : String :=
  e.uri ++ " (support=" ++ toString e.support ++ ")"

end Entity
end EntityLinking
