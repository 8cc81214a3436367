/-!
# Relevance subgraphs

The small undirected graph in which senses are scored.  Vertices are numbered in the order of their
first mention, and two vertices are linked at most once, whichever way round and under whatever
predicate.
-/

namespace EntityLinking

/-- A link of a subgraph, with the predicate that it was first seen under. -/
structure Edge where
  source : String
  predicate : String
  target : String
deriving DecidableEq

/-- An undirected graph whose vertices are named by URIs. -/
structure Subgraph where
  vertices : List String := []
  edges : List Edge := []
deriving DecidableEq

/-- Whether an edge joins two vertices, in either direction. -/
def Edge.joins (e : Edge) (a b : String) : Bool :=
  (e.source == a && e.target == b) || (e.source == b && e.target == a)

namespace Subgraph

def contains (g : Subgraph) (uri : String) : Bool :=
  g.vertices.contains uri

/-- Adds a vertex unless it is there. -/
def addVertex (g : Subgraph) (uri : String) : Subgraph :=
  if g.contains uri then g else { g with vertices := g.vertices ++ [uri] }

def position? (g : Subgraph) (uri : String) : Option Nat :=
  g.vertices.idxOf? uri

def linked (g : Subgraph) (a b : String) : Bool :=
  g.edges.any (·.joins a b)

/-- Adds both ends, and the edge unless they are linked. -/
def addEdge (g : Subgraph) (e : Edge) : Subgraph :=
  let withEnds := (g.addVertex e.source).addVertex e.target
  if withEnds.linked e.source e.target then withEnds
  else { withEnds with edges := withEnds.edges ++ [e] }

def addEdges (g : Subgraph) (es : List Edge) : Subgraph :=
  es.foldl addEdge g

/-- The number of distinct vertices linked with one; zero for a vertex that is not there. -/
def degree (g : Subgraph) (uri : String) : Nat :=
  if g.contains uri then g.vertices.countP (g.linked uri) else 0

def vertexCount (g : Subgraph) : Nat :=
  g.vertices.length

def edgeCount (g : Subgraph) : Nat :=
  g.edges.length

def isEmpty (g : Subgraph) : Bool :=
  g.vertices.isEmpty

end Subgraph
end EntityLinking
