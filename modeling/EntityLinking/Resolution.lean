import EntityLinking.Binary64.Text
import EntityLinking.Entity
import EntityLinking.MentionMap

/-!
# Resolutions and result tables

A resolution is a mention linked to an entity with a score.  A table lists the resolutions of every
mention: mentions by ascending offset, resolutions by descending score.  Both sorts are stable, so
what ties keeps the order it came in, and nothing is lost, merged with another mention or rescored.
-/

namespace EntityLinking

/-- A mention linked to one candidate entity. -/
structure Resolution (σ : Type) where
  mention : Mention
  entity : Entity
  score : σ
deriving DecidableEq

/-- The resolution with its score in another type. -/
def Resolution.mapScore {σ τ : Type} (f : σ → τ) (r : Resolution σ) : Resolution τ :=
  ⟨r.mention, r.entity, f r.score⟩

namespace Resolution

/-- The resolution as text, such as `Paris@4 -> urn:Paris (0.5000)`. -/
def text (r : Resolution Binary64) : String :=
  r.mention.text ++ " -> " ++ r.entity.uri ++ " (" ++ r.score.toFixedText ++ ")"

/-- Equality with mentions compared by their keys, and priors and scores as numbers. -/
def sameAs (a b : Resolution Binary64) : Bool :=
  a.mention.key == b.mention.key && a.entity.sameAs b.entity && a.score.sameNumber b.score

end Resolution

/-- The resolutions of the mentions of a request. -/
structure Table (σ : Type) where
  rows : List (MentionMap.Entry (List (Resolution σ))) := []
deriving DecidableEq

namespace Table

variable {σ τ : Type}

/-- Files the resolutions of all rows under their mentions; rows of one mention are joined. -/
def merge (rows : List (Mention × List (Resolution σ))) : MentionMap (List (Resolution σ)) :=
  rows.foldl (fun m row => m.alter row.1 fun earlier => earlier.getD [] ++ row.2) .empty

/-- The table of some rows: rows of one mention are joined, mentions are sorted by offset, and the
resolutions of each by score, the best first. -/
def assemble [Ranked σ] (rows : List (Mention × List (Resolution σ))) : Table σ :=
  let byOffset := (merge rows).toList.mergeSort fun a b =>
    decide (a.mention.offset ≤ b.mention.offset)
  ⟨byOffset.map fun entry =>
    { entry with value := Ranked.sortDescending Resolution.score entry.value }⟩

def size (t : Table σ) : Nat :=
  t.rows.length

def isEmpty (t : Table σ) : Bool :=
  t.rows.isEmpty

def mentions (t : Table σ) : List Mention :=
  t.rows.map (·.mention)

/-- The number of resolutions of all mentions together. -/
def total (t : Table σ) : Nat :=
  (t.rows.flatMap (·.value)).length

def find? (t : Table σ) (mention : Mention) : Option (List (Resolution σ)) :=
  (t.rows.find? fun row => row.key = mention.key).map (·.value)

/-- The best resolution of each mention that has one, in table order. -/
def best (t : Table σ) : List (Resolution σ) :=
  t.rows.filterMap (·.value.head?)

/-- The table with its scores in another type. -/
def mapScores (f : σ → τ) (t : Table σ) : Table τ :=
  ⟨t.rows.map fun row => ⟨row.mention, row.value.map (Resolution.mapScore f)⟩⟩

end Table
end EntityLinking
