import EntityLinking.Graph.Knowledge

/-!
# Triple stores

A knowledge graph held in memory.  Vertices are numbered in the order of their first mention, and
every triple is an edge of its own, also if it repeats another.  The neighbours of a vertex are
listed by vertex number and then by predicate, whatever the order of the triples.
-/

namespace EntityLinking

structure Triple where
  subject : String
  predicate : String
  object : String
deriving DecidableEq

/-- Vertices in the order of their first mention, and all triples in the order they came. -/
structure TripleStore where
  vertices : List String := []
  triples : List Triple := []
deriving DecidableEq

namespace TripleStore

def addVertex (store : TripleStore) (uri : String) : TripleStore :=
  if store.vertices.contains uri then store
  else { store with vertices := store.vertices ++ [uri] }

/-- Adds a triple and the vertices it mentions, the subject first. -/
def addTriple (store : TripleStore) (t : Triple) : TripleStore :=
  let withEnds := (store.addVertex t.subject).addVertex t.object
  { withEnds with triples := withEnds.triples ++ [t] }

def ofTriples (triples : List Triple) : TripleStore :=
  triples.foldl addTriple {}

def position? (store : TripleStore) (uri : String) : Option Nat :=
  store.vertices.idxOf? uri

def contains (store : TripleStore) (uri : String) : Bool :=
  store.vertices.contains uri

def vertexCount (store : TripleStore) : Nat :=
  store.vertices.length

def edgeCount (store : TripleStore) : Nat :=
  store.triples.length

/-- The order of links: by vertex number, then by predicate. -/
def linkLe (store : TripleStore) (a b : Link) : Bool :=
  let i := store.vertices.idxOf a.uri
  let j := store.vertices.idxOf b.uri
  decide (i < j) || (i == j && decide (a.predicate ≤ b.predicate))

/-- The links of a vertex in both directions; a triple from a vertex to itself gives two. -/
def links (store : TripleStore) (uri : String) : List Link :=
  let outgoing := store.triples.filterMap fun t =>
    if t.subject = uri then some ⟨t.object, t.predicate⟩ else none
  let incoming := store.triples.filterMap fun t =>
    if t.object = uri then some ⟨t.subject, t.predicate⟩ else none
  (outgoing ++ incoming).mergeSort store.linkLe

/-- The sorted links of a vertex; there are none to ask for where there is no vertex. -/
def neighbours (store : TripleStore) (uri : String) : Except GraphFault (List Link) :=
  if store.contains uri then .ok (store.links uri) else .error (.vertexNotFound uri)

def graph (store : TripleStore) : KnowledgeGraph where
  contains uri := .ok (store.contains uri)
  neighbours := store.neighbours

end TripleStore
end EntityLinking
