import EntityLinking.Graph.Knowledge
import EntityLinking.Graph.Subgraph
import EntityLinking.Log
import EntityLinking.Recorded

/-!
# Search for paths between senses

The subgraph of a request is grown from the senses of its mentions.  From every sense that is a
vertex of the knowledge graph a breadth-first search goes out, up to a greatest distance.  Whenever
it finds a sense of a mention that does not have the starting sense itself, the path to it is added
to the subgraph and the search does not go on from there.  All senses that are vertices belong to
the subgraph, also those that no path touches.

Vertices are explored distance by distance: `frontier` holds those at the current distance, in
the order of their discovery, and `next` collects those one step further.  Each vertex remembers
the one from which it was first seen, so the discoveries, newest first, form a tree whose
branches end in the start.
-/

namespace EntityLinking
namespace Search

inductive Event where
  | contains (uri : String)
  | neighbours (uri : String)
  /-- A candidate sense is no vertex of the graph. -/
  | absent (uri : String)
  | built (vertices edges senses : Nat)
deriving DecidableEq

/-- The log line of an event; questions to the graph are not logged. -/
def Event.line? : Event → Option Log.Line
  | .contains _ => none
  | .neighbours _ => none
  | .absent uri =>
    some ⟨.debug, .search, "Candidate '" ++ uri ++ "' has no vertex in the knowledge graph"⟩
  | .built vertices edges senses =>
    some ⟨.debug, .search, "Subgraph built: " ++ toString vertices ++ " vertices, " ++
      toString edges ++ " edges for " ++ toString senses ++ " candidate senses"⟩

/-- A vertex found by a search, with the vertex and the predicate it was first seen from. -/
structure Discovery where
  vertex : String
  parent : String
  predicate : String
deriving DecidableEq

/-- The edges from a vertex back to the start, the last one first.  A parent was discovered before
its children, so it is looked for among the older discoveries only. -/
def trail : List Discovery → String → List Edge
  | [], _ => []
  | d :: older, uri =>
    if d.vertex = uri then ⟨d.parent, d.predicate, uri⟩ :: trail older d.parent
    else trail older uri

structure State where
  /-- The vertices found so far, newest first. -/
  found : List Discovery
  /-- The vertices found at the next distance that the search goes on from. -/
  next : List String
  graph : Subgraph

def State.seen (s : State) (start uri : String) : Bool :=
  uri == start || s.found.any (·.vertex == uri)

/-- Looks at one neighbour of `uri`.  A vertex seen before is passed over; a new one that is a
target adds its path, and any other is to be explored at the next distance. -/
def visit (isTarget : String → Bool) (start uri : String) (s : State) (link : Link) : State :=
  if s.seen start link.uri then s
  else
    let found := ⟨link.uri, uri, link.predicate⟩ :: s.found
    if isTarget link.uri then
      { s with found := found, graph := s.graph.addEdges (trail found link.uri) }
    else { s with found := found, next := s.next ++ [link.uri] }

def askNeighbours (kg : KnowledgeGraph) (uri : String) : Recorded Event GraphFault (List Link) :=
  ⟨[.neighbours uri], kg.neighbours uri⟩

def askContains (kg : KnowledgeGraph) (uri : String) : Recorded Event GraphFault Bool :=
  ⟨[.contains uri], kg.contains uri⟩

def exploreLevel (kg : KnowledgeGraph) (isTarget : String → Bool) (start : String) :
    List String → State → Recorded Event GraphFault State
  | [], s => pure s
  | uri :: rest, s => do
    let links ← askNeighbours kg uri
    exploreLevel kg isTarget start rest (links.foldl (visit isTarget start uri) s)

/-- Explores up to so many further steps from the vertices of a frontier. -/
def explore (kg : KnowledgeGraph) (isTarget : String → Bool) (start : String) :
    Nat → List String → State → Recorded Event GraphFault State
  | 0, _, s => pure s
  | _ + 1, [], s => pure s
  | distance + 1, uri :: rest, s => do
    let s' ← exploreLevel kg isTarget start (uri :: rest) { s with next := [] }
    explore kg isTarget start distance s'.next s'

/-- The senses of each mention, by URI.  Rows stand for mentions; two rows are two mentions. -/
abbrev Rows := List (List String)

/-- Whether some mention has the sense `t` and lacks the sense `s`. -/
def rivals (rows : Rows) (s t : String) : Bool :=
  rows.any fun row => row.contains t && !row.contains s

/-- The distinct senses in the order in which they first appear. -/
def senses (rows : Rows) : List String :=
  rows.flatten.eraseDups

/-- Adds all paths from one sense to senses of other mentions. -/
def expand (kg : KnowledgeGraph) (rows : Rows) (maxDistance : Nat) (start : String)
    (g : Subgraph) : Recorded Event GraphFault Subgraph := do
  let s ← explore kg (rivals rows start) start maxDistance [start] ⟨[], [], g⟩
  return s.graph

/-- Adds the senses that are vertices of the knowledge graph. -/
def addSenses (kg : KnowledgeGraph) :
    List String → Subgraph → Recorded Event GraphFault Subgraph
  | [], g => pure g
  | uri :: rest, g => do
    if ← askContains kg uri then addSenses kg rest (g.addVertex uri)
    else do
      Recorded.note (.absent uri)
      addSenses kg rest g

/-- Searches from every sense that has become part of the subgraph. -/
def expandAll (kg : KnowledgeGraph) (rows : Rows) (maxDistance : Nat) :
    List String → Subgraph → Recorded Event GraphFault Subgraph
  | [], g => pure g
  | uri :: rest, g =>
    if g.contains uri then do
      let g' ← expand kg rows maxDistance uri g
      expandAll kg rows maxDistance rest g'
    else expandAll kg rows maxDistance rest g

/-- The subgraph of the senses of a request; `none` if no sense is a vertex. -/
def relevant (kg : KnowledgeGraph) (maxDistance : Nat) (rows : Rows) :
    Recorded Event GraphFault (Option Subgraph) := do
  let order := senses rows
  let vertices ← addSenses kg order {}
  let g ← expandAll kg rows maxDistance order vertices
  Recorded.note (.built g.vertexCount g.edgeCount order.length)
  return if g.isEmpty then none else some g

end Search
end EntityLinking
