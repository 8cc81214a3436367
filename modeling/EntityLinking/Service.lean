import EntityLinking.Candidate.Filter
import EntityLinking.Candidate.Gathering
import EntityLinking.Graph.Centrality
import EntityLinking.Graph.Search
import EntityLinking.Sense

/-!
# The linking service

A request is a list of mentions and a number of resolutions wanted for each.  The service gathers
the candidates of all mentions, filters them, turns them into senses, has the subgraph of the
request constructed, has the senses scored in it, and assembles the scores into a table.  Every
distinct mention of a request is in its table, also one that nothing was found for.  Construction
and scoring are asked at most once, and not at all when no candidate is left.
-/

namespace EntityLinking

/-- A strategy that constructs the subgraph of a request; `none` means that
there is no usable one. -/
abbrev Construction := MentionSenses → Recorded Search.Event GraphFault (Option Subgraph)

/-- A strategy that scores the senses of a request in its subgraph. -/
structure Scoring (σ : Type) where
  name : String
  /-- At most so many scored senses of each mention. -/
  best : MentionSenses → Subgraph → Nat → Except GraphFault (MentionScores σ)

def pathConstruction (kg : KnowledgeGraph) (maxDistance : Nat) : Construction := fun rows =>
  Search.relevant kg maxDistance rows.uris

def degreeScoring : Scoring Rat where
  name := DegreeCentrality.name
  best rows g k := .ok (DegreeCentrality.best rows g k)

/-- The collaborators of a service. -/
structure Service (σ : Type) where
  lookup : Lookup
  filters : Pipeline
  decoder : Decoder
  construction : Construction
  scoring : Scoring σ

namespace Service

inductive Event where
  | configured (stages : List String) (decoding : Decoding) (maxDistance : Nat)
  | resolving (mentions : Nat) (scoring : String) (k : Nat)
  | gathering (event : Gathering.Event)
  | filtering (event : FilterEvent)
  /-- No candidate is left after filtering. -/
  | exhausted
  /-- The construction was asked for a subgraph of these senses. -/
  | construct (senses : MentionSenses)
  /-- Something happened during construction. -/
  | searching (event : Search.Event)
  /-- There is no subgraph for so many senses. -/
  | unusable (senses : Nat)
  /-- There is a subgraph of this size. -/
  | constructed (vertices edges : Nat)
  /-- The scoring was asked for the best so many senses in a subgraph. -/
  | score (senses : MentionSenses) (graph : Subgraph) (k : Nat)
  | scored (scoring : String)
deriving DecidableEq

/-- The log line of an event, if it has one. -/
def Event.line? : Event → Option Log.Line
  | .configured stages decoding maxDistance =>
    some ⟨.info, .service, "Collective disambiguator configured: filters " ++
      Log.quotedList stages ++ ", decoding " ++ decoding.title ++ ", max distance " ++
      toString maxDistance⟩
  | .resolving mentions scoring k =>
    some ⟨.info, .service, "Resolving " ++ toString mentions ++ " mentions with " ++ scoring ++
      " (k=" ++ toString k ++ ")"⟩
  | .gathering event => event.line?
  | .filtering event => some event.line
  | .exhausted =>
    some ⟨.info, .service, "No candidates left after filtering; skipping graph strategies"⟩
  | .construct _ => none
  | .searching event => event.line?
  | .unusable senses =>
    some ⟨.info, .service, "No usable subgraph for " ++ toString senses ++ " candidate senses"⟩
  | .constructed vertices edges =>
    some ⟨.debug, .service, "Subgraph with " ++ toString vertices ++ " vertices and " ++
      toString edges ++ " edges"⟩
  | .score _ _ _ => none
  | .scored scoring => some ⟨.debug, .service, scoring⟩

variable {σ : Type}

/-- A failed lookup ends the request. -/
def lookupOutage (fault : LookupFault) : Fault :=
  .searchInfrastructure (.lookup fault)

/-- A failed strategy ends the request. -/
def graphOutage (fault : GraphFault) : Fault :=
  .searchInfrastructure (.graph fault)

/-- The table in which no mention has a resolution. -/
def unresolved [Ranked σ] (set : Candidates) : Table σ :=
  Table.assemble (set.mentions.map fun mention => (mention, []))

/-- The scores with an empty row for each mention that the scoring left out. -/
def fillIn (senses : MentionSenses) (scores : MentionScores σ) : MentionScores σ :=
  senses.foldl (fun rows row =>
    if (rows.find? Mention.key row.1.key).isNone then rows ++ [(row.1, [])] else rows) scores

/-- The candidates of a request: gathered, then filtered. -/
def candidates (s : Service σ) (mentions : List Mention) : Recorded Event Fault Candidates := do
  let gathered ← ((Gathering.gather s.lookup mentions).mapEvents Event.gathering).mapFault
    lookupOutage
  Recorded.notes ((s.filters.report gathered).map Event.filtering)
  return s.filters.apply gathered

def construct (s : Service σ) (senses : MentionSenses) :
    Recorded Event Fault (Option Subgraph) := do
  Recorded.note (.construct senses)
  ((s.construction senses).mapEvents Event.searching).mapFault graphOutage

def score (s : Service σ) (senses : MentionSenses) (g : Subgraph) (k : Nat) :
    Recorded Event Fault (MentionScores σ) :=
  ⟨[.score senses g k], (s.scoring.best senses g k).mapError graphOutage⟩

/-- Up to `k` scored resolutions for each mention of a candidate set. -/
def resolveCandidates [Ranked σ] (s : Service σ) (set : Candidates) (k : Nat) :
    Recorded Event Fault (Table σ) :=
  if !set.hasAny then do
    Recorded.note .exhausted
    return unresolved set
  else do
    let senses := Sense.rows s.decoder set
    match ← s.construct senses with
    | none => do
      Recorded.note (.unusable senses.total)
      return unresolved set
    | some g => do
      Recorded.note (.constructed g.vertexCount g.edgeCount)
      let scores ← s.score senses g k
      Recorded.note (.scored s.scoring.name)
      return Sense.table (fillIn senses scores)

/-- Up to `k` scored resolutions for each mention of a request. -/
def resolve [Ranked σ] (s : Service σ) (mentions : List Mention) (k : Nat) :
    Recorded Event Fault (Table σ) :=
  if k = 0 then Recorded.fail (.invalidInput "k must be at least 1")
  else do
    Recorded.note (.resolving mentions.length s.scoring.name k)
    let set ← s.candidates mentions
    s.resolveCandidates set k

/-- The best resolution of each mention that has one, in the order of offsets. -/
def resolveBest [Ranked σ] (s : Service σ) (mentions : List Mention) :
    Recorded Event Fault (List (Resolution σ)) := do
  let table ← s.resolve mentions 1
  return table.best

/-- The service that settings describe, with construction by paths and scoring by degree
centrality. -/
def ofSettings (settings : Settings) (lookup : Lookup) (kg : KnowledgeGraph) :
    Recorded Event Fault (Service Rat) :=
  if settings.maxDistance = 0 then
    Recorded.fail (.misconfiguration "subgraph.max_distance must be at least 1")
  else do
    let filters := Pipeline.ofSettings settings.filters
    Recorded.notes ((Pipeline.warnings settings.filters).map Event.filtering)
    Recorded.note (.configured filters.stageNames settings.decoding settings.maxDistance)
    return {
      lookup
      filters
      decoder := settings.decoder
      construction := pathConstruction kg settings.maxDistance
      scoring := degreeScoring }

def withScoring {τ : Type} (s : Service σ) (scoring : Scoring τ) : Service τ :=
  { s with scoring }

def withConstruction (s : Service σ) (construction : Construction) : Service σ :=
  { s with construction }

end Service
end EntityLinking
