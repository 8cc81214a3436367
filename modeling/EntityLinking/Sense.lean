import EntityLinking.Candidate.Set
import EntityLinking.Graph.Sense
import EntityLinking.Resolution
import EntityLinking.Uri.Decoder

/-!
# Candidates as senses

Between the candidates of a request and the graph stands a change of names: a candidate is known to
the graph by its decoded URI.  The sense keeps the candidate it was made from, so the way back never
has to encode a URI again.
-/

namespace EntityLinking

/-- A candidate entity under the URI by which the graph knows it. -/
structure Sense where
  uri : String
  entity : Entity
deriving DecidableEq

instance : HasUri Sense := ⟨Sense.uri⟩

abbrev MentionSenses := SenseRows Mention Sense

abbrev MentionScores (σ : Type) := ScoreRows Mention Sense σ

namespace Sense

def ofEntity (decoder : Decoder) (entity : Entity) : Sense :=
  ⟨decoder.decode entity.uri, entity⟩

/-- The senses of a candidate set, mentions and candidates in the same order. -/
def rows (decoder : Decoder) (set : Candidates) : MentionSenses :=
  set.toList.map fun entry => (entry.mention, entry.value.map (ofEntity decoder))

def toResolution {σ : Type} (s : Scored Mention Sense σ) : Resolution σ :=
  ⟨s.form, s.sense.entity, s.score⟩

/-- The table of scored senses. -/
def table {σ : Type} [Ranked σ] (scores : MentionScores σ) : Table σ :=
  Table.assemble (scores.map fun row => (row.1, row.2.map toResolution))

/-- A scored sense as text, such as `Paris: urn:Paris --> 0.5`. -/
def scoreText (name uri : String) (score : Binary64) : String :=
  name ++ ": " ++ uri ++ " --> " ++ score.toPlainText

end Sense
end EntityLinking
