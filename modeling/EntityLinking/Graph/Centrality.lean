import EntityLinking.Graph.Sense
import EntityLinking.Graph.Subgraph
import EntityLinking.Ranking

/-!
# Degree centrality

A sense scores the share of the other vertices that it is linked with.  Scores are exact rationals.
-/

namespace EntityLinking
namespace DegreeCentrality

def name : String :=
  "degree_centrality"

/-- The degree of a vertex over the number of the other vertices; zero when there are no others or
the vertex is not there. -/
def score (g : Subgraph) (uri : String) : Rat :=
  if g.vertexCount ≤ 1 then 0 else (g.degree uri : Rat) / ((g.vertexCount - 1 : Nat) : Rat)

/-- The senses of one form with their scores, in their own order. -/
def scoreRow {F S : Type} [HasUri S] (g : Subgraph) (form : F) (senses : List S) :
    List (Scored F S Rat) :=
  senses.map fun sense => ⟨form, sense, score g (HasUri.uri sense)⟩

/-- At most `k` senses of each form, best first. -/
def best {F S : Type} [HasUri S] (rows : SenseRows F S) (g : Subgraph) (k : Nat) :
    ScoreRows F S Rat :=
  rows.map fun row =>
    (row.1, (Ranked.sortDescending Scored.score (scoreRow g row.1 row.2)).take k)

def bestOnly {F S : Type} [HasUri S] (rows : SenseRows F S) (g : Subgraph) :
    List (Scored F S Rat) :=
  (best rows g 1).flatten

end DegreeCentrality
end EntityLinking
