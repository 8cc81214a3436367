/-!
# Senses and their scores

The graph side of the program knows a sense by the URI of its vertex and nothing else.  A row is a
form, which stands for a mention, with what belongs to it.
-/

namespace EntityLinking

/-- Values that name a vertex of the knowledge graph. -/
class HasUri (S : Type) where
  uri : S → String

instance : HasUri String := ⟨id⟩

/-- The senses of each form, in the order of the mentions. -/
abbrev SenseRows (F S : Type) := List (F × List S)

/-- A sense of a form with its score. -/
structure Scored (F S σ : Type) where
  form : F
  sense : S
  score : σ
deriving DecidableEq

/-- The scored senses of each form, best first. -/
abbrev ScoreRows (F S σ : Type) := List (F × List (Scored F S σ))

namespace SenseRows

variable {F S : Type}

/-- The number of senses of all forms together. -/
def total (rows : SenseRows F S) : Nat :=
  (rows.flatMap (·.2)).length

def uris [HasUri S] (rows : SenseRows F S) : List (List String) :=
  rows.map fun row => row.2.map HasUri.uri

end SenseRows

namespace ScoreRows

variable {F S σ κ : Type} [DecidableEq κ]

/-- The scores of the first row whose form has the given key. -/
def find? (key : F → κ) (rows : ScoreRows F S σ) (k : κ) : Option (List (Scored F S σ)) :=
  (List.find? (fun row => key row.1 = k) rows).map (·.2)

def flatten (rows : ScoreRows F S σ) : List (Scored F S σ) :=
  rows.flatMap (·.2)

end ScoreRows
end EntityLinking
