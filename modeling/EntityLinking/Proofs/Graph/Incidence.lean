import EntityLinking.Proofs.Graph.Numbering
import EntityLinking.Proofs.Graph.TripleStore
import EntityLinking.Proofs.Text.Collation

/-!
# The links of a triple store

A store gives back what was put into it as an undirected view.  Each triple is a link at both of its
ends, a triple from a vertex to itself is two links there, and no two triples are taken for one.
The links of a vertex are sorted, and links that tie are the same; so there is only one order to
list them in, whatever order the triples came in.
-/

namespace EntityLinking
namespace TripleStore

/-- The vertices that an addition mentions, in order. -/
def Addition.mentions : Addition → List String
  | .vertex uri => [uri]
  | .triple t => [t.subject, t.object]

def Addition.triple? : Addition → Option Triple
  | .vertex _ => none
  | .triple t => some t

/-- The triples among some additions, in order and with their repetitions. -/
def added (additions : List Addition) : List Triple :=
  additions.filterMap Addition.triple?

/-- The links that a triple is at a vertex: one for each of its ends there. -/
def linksAt (u : String) (t : Triple) : List Link :=
  (if t.subject = u then [⟨t.object, t.predicate⟩] else []) ++
    if t.object = u then [⟨t.subject, t.predicate⟩] else []

/-- The order of the links of a vertex: by the numbers of the vertices they lead to, and among those
to one vertex by the octets of their predicates. -/
def InOrder (store : TripleStore) (a b : Link) : Prop :=
  ∃ i j, store.position? a.uri = some i ∧ store.position? b.uri = some j ∧
    (i < j ∨ i = j ∧ Text.encode a.predicate.toList ≤ Text.encode b.predicate.toList)

variable {store store' : TripleStore} {additions : List Addition} {u v p : String} {a b : Link}

theorem ofAdditions_concat (additions : List Addition) (addition : Addition) :
    ofAdditions (additions ++ [addition]) = (ofAdditions additions).add addition :=
  List.foldl_append

/-! ## Vertices and triples -/

theorem vertices_addVertex_of_mentioned {us : List String} (h : store.vertices = us.eraseDups)
    (u : String) : (store.addVertex u).vertices = (us ++ [u]).eraseDups := by
  rw [eraseDups_concat, ← h, addVertex]
  split <;> rfl

theorem vertices_ofAdditions (additions : List Addition) :
    (ofAdditions additions).vertices = (additions.flatMap Addition.mentions).eraseDups := by
  induction additions using List.reverseRecOn with
  | nil => rfl
  | append_singleton additions addition ih =>
      rw [ofAdditions_concat, List.flatMap_append, List.flatMap_singleton]
      cases addition with
      | vertex uri => exact vertices_addVertex_of_mentioned ih uri
      | triple t =>
          have hsubject := vertices_addVertex_of_mentioned ih t.subject
          have hobject := vertices_addVertex_of_mentioned hsubject t.object
          rw [List.append_assoc] at hobject
          exact hobject

theorem numbered_ofAdditions (additions : List Addition) :
    Numbered (additions.flatMap Addition.mentions) (ofAdditions additions).vertices
      (ofAdditions additions).position? := by
  have hnumbered := numbered_eraseDups (additions.flatMap Addition.mentions)
  rwa [← vertices_ofAdditions] at hnumbered

theorem triples_ofAdditions (additions : List Addition) :
    (ofAdditions additions).triples = added additions := by
  induction additions using List.reverseRecOn with
  | nil => rfl
  | append_singleton additions addition ih =>
      rw [ofAdditions_concat, added, List.filterMap_append, ← added, ← ih]
      cases addition with
      | vertex uri => simp [add, Addition.triple?]
      | triple t => simp [add, Addition.triple?]

/-! ## Both ends of a triple -/

theorem links_perm (store : TripleStore) (u : String) :
    (store.links u).Perm (store.triples.flatMap (linksAt u)) := by
  have hboth : ∀ t, linksAt u t =
      (if t.subject = u then some (⟨t.object, t.predicate⟩ : Link) else none).toList ++
        (if t.object = u then some (⟨t.subject, t.predicate⟩ : Link) else none).toList := by
    intro t
    rw [linksAt]
    split <;> split <;> rfl
  rw [links, List.filterMap_eq_flatMap_toList, List.filterMap_eq_flatMap_toList, funext hboth]
  exact (List.mergeSort_perm _ _).trans (List.flatMap_append_perm _ _ _)

theorem count_linksAt (t : Triple) (u v p : String) :
    (linksAt u t).count ⟨v, p⟩ =
      (if t.subject = u ∧ t.object = v ∧ t.predicate = p then 1 else 0) +
        if t.object = u ∧ t.subject = v ∧ t.predicate = p then 1 else 0 := by
  have hone : ∀ (c : Prop) [Decidable c] (l : Link),
      (if c then [l] else []).count ⟨v, p⟩ = if c ∧ l.uri = v ∧ l.predicate = p then 1 else 0 := by
    rintro c _ ⟨uri, predicate⟩
    by_cases hc : c
    · simp [hc, List.count_singleton]
    · simp [hc]
  rw [linksAt, List.count_append, hone, hone]

/-- Seen from its other end, a triple leads back. -/
theorem count_linksAt_comm (t : Triple) (u v p : String) :
    (linksAt u t).count ⟨v, p⟩ = (linksAt v t).count ⟨u, p⟩ := by
  rw [count_linksAt, count_linksAt, Nat.add_comm]
  simp only [and_left_comm]

theorem count_links_comm (store : TripleStore) (u v p : String) :
    (store.links u).count ⟨v, p⟩ = (store.links v).count ⟨u, p⟩ := by
  rw [(store.links_perm u).count_eq, (store.links_perm v).count_eq, List.count_flatMap,
    List.count_flatMap]
  congr 1
  apply List.map_congr_left
  intro t ht
  exact count_linksAt_comm t u v p

theorem length_links (store : TripleStore) (u : String) :
    (store.links u).length =
      (store.triples.countP fun t => t.subject = u) +
        store.triples.countP fun t => t.object = u := by
  rw [links, List.length_mergeSort, List.length_append, List.length_filterMap_eq_countP,
    List.length_filterMap_eq_countP]
  congr 1
  · apply List.countP_congr
    intro t ht
    simp
  · apply List.countP_congr
    intro t ht
    simp

/-- Every triple is a link twice. -/
theorem sum_length_links (hvertices : store.vertices.Nodup) (hclosed : store.Closed) :
    (store.vertices.map fun u => (store.links u).length).sum = 2 * store.edgeCount := by
  simp only [length_links]
  rw [List.sum_map_add, sum_countP_eq_length hvertices Triple.subject fun t ht => (hclosed t ht).1,
    sum_countP_eq_length hvertices Triple.object fun t ht => (hclosed t ht).2, edgeCount,
    Nat.two_mul]

/-! ## The order of links -/

theorem position?_eq_idxOf (hu : u ∈ store.vertices) :
    store.position? u = some (store.vertices.idxOf u) :=
  List.findIdx?_eq_some_iff_findIdx_eq.mpr ⟨List.idxOf_lt_length_of_mem hu, rfl⟩

theorem inOrder_iff (ha : a.uri ∈ store.vertices) (hb : b.uri ∈ store.vertices) :
    store.InOrder a b ↔ store.linkLe a b = true := by
  rw [linkLe_iff, InOrder, position?_eq_idxOf ha, position?_eq_idxOf hb]
  simp only [Option.some.injEq, Text.encode_le_encode_iff]
  constructor
  · rintro ⟨i, j, rfl, rfl, horder⟩
    exact horder
  · intro horder
    exact ⟨_, _, rfl, rfl, horder⟩

theorem pairwise_links (hclosed : store.Closed) (u : String) :
    (store.links u).Pairwise store.InOrder := by
  have hvertex : ∀ l ∈ store.links u, l.uri ∈ store.vertices := by
    intro l hl
    exact contains_iff.mp (hclosed.contains_right (exists_mem_links_iff.mp ⟨l, hl, rfl⟩))
  have hsorted : (store.links u).Pairwise fun a b => store.linkLe a b = true :=
    List.pairwise_mergeSort store.linkLe_trans store.linkLe_total _
  apply hsorted.imp_of_mem
  intro a b ha hb hle
  exact (inOrder_iff (hvertex a ha) (hvertex b hb)).mpr hle

theorem eq_of_position?_eq {i : Nat} (hu : store.position? u = some i)
    (hv : store.position? v = some i) : u = v := by
  obtain ⟨_, hu, -⟩ := List.idxOf?_eq_some_iff.mp hu
  obtain ⟨_, hv, -⟩ := List.idxOf?_eq_some_iff.mp hv
  exact hu.symm.trans hv

/-- Links that tie are the same link. -/
theorem InOrder.antisymm (hab : store.InOrder a b) (hba : store.InOrder b a) : a = b := by
  obtain ⟨i, j, hi, hj, hij⟩ := hab
  obtain ⟨j', i', hj', hi', hji⟩ := hba
  obtain rfl : i = i' := Option.some.inj (hi.symm.trans hi')
  obtain rfl : j = j' := Option.some.inj (hj.symm.trans hj')
  rcases hij with hlt | ⟨rfl, hle⟩
  · omega
  · rcases hji with hlt | ⟨-, hge⟩
    · omega
    · have huri : a.uri = b.uri := eq_of_position?_eq hi hj
      have hpredicate : a.predicate = b.predicate :=
        String.le_antisymm (Text.encode_le_encode_iff.mp hle) (Text.encode_le_encode_iff.mp hge)
      obtain ⟨uri, predicate⟩ := a
      exact congrArg₂ Link.mk huri hpredicate

/-- In whatever order the links of a vertex are enumerated, sorting them gives one list. -/
theorem eq_links_of_inOrder (hclosed : store.Closed) {ls : List Link}
    (hperm : ls.Perm (store.triples.flatMap (linksAt u))) (hordered : ls.Pairwise store.InOrder) :
    ls = store.links u :=
  (hperm.trans (store.links_perm u).symm).eq_of_pairwise
    (fun _ _ _ _ hab hba => hab.antisymm hba) hordered (pairwise_links hclosed u)

/-- With the same numbers, the same triples give the same links, in whatever order they came. -/
theorem links_eq_of_perm (hclosed : store.Closed) (hclosed' : store'.Closed)
    (hvertices : store'.vertices = store.vertices) (htriples : store'.triples.Perm store.triples)
    (u : String) : store'.links u = store.links u := by
  apply eq_links_of_inOrder hclosed
  · exact (store'.links_perm u).trans (htriples.flatMap_right _)
  · have hordered := pairwise_links hclosed' u
    have hnumbers : store'.position? = store.position? := by
      funext v
      rw [position?, hvertices, position?]
    apply hordered.imp
    intro a b hab
    rwa [InOrder, hnumbers] at hab

/-! ## The undirected view -/

/-- What a store answers after some additions: an undirected view of its triples, in which every
triple counts at both of its ends. -/
structure Faithful (additions : List Addition) (store : TripleStore) : Prop where
  numbered : Numbered (additions.flatMap Addition.mentions) store.vertices store.position?
  edgeCount_eq : store.edgeCount = (added additions).length
  neighbours_eq : ∀ u : String, store.neighbours u =
    if u ∈ additions.flatMap Addition.mentions then .ok (store.links u)
    else .error (.vertexNotFound u)
  perm : ∀ u : String, (store.links u).Perm ((added additions).flatMap (linksAt u))
  ordered : ∀ u : String, (store.links u).Pairwise store.InOrder
  unique : ∀ (u : String) (ls : List Link), ls.Perm ((added additions).flatMap (linksAt u)) →
    ls.Pairwise store.InOrder → ls = store.links u
  symmetric : ∀ u v p : String, (store.links u).count ⟨v, p⟩ = (store.links v).count ⟨u, p⟩
  sum_length : (store.vertices.map fun u => (store.links u).length).sum = 2 * store.edgeCount

theorem faithful_ofAdditions (additions : List Addition) :
    Faithful additions (ofAdditions additions) := by
  have hclosed := closed_ofAdditions additions
  have hnumbered := numbered_ofAdditions additions
  have htriples := triples_ofAdditions additions
  constructor
  case numbered => exact hnumbered
  case edgeCount_eq => rw [edgeCount, htriples]
  case neighbours_eq =>
    intro u
    rw [neighbours]
    simp only [contains_iff, hnumbered.mem_iff]
  case perm =>
    intro u
    rw [← htriples]
    exact links_perm _ u
  case ordered => exact pairwise_links hclosed
  case unique =>
    intro u ls hperm hordered
    rw [← htriples] at hperm
    exact eq_links_of_inOrder hclosed hperm hordered
  case symmetric => exact count_links_comm _
  case sum_length => exact sum_length_links hnumbered.once hclosed

/-- However it has been filled, a store is a faithful undirected view of its triples; filled with
the same triples in another order that numbers the vertices alike, it answers the same. -/
theorem ofAdditions_faithful (additions additions' : List Addition) :
    Faithful additions (ofAdditions additions) ∧
      ((added additions').Perm (added additions) →
        (ofAdditions additions').vertices = (ofAdditions additions).vertices →
          ∀ u, (ofAdditions additions').neighbours u = (ofAdditions additions).neighbours u) := by
  refine ⟨faithful_ofAdditions additions, ?_⟩
  intro htriples hvertices u
  rw [← triples_ofAdditions, ← triples_ofAdditions] at htriples
  have hlinks := links_eq_of_perm (closed_ofAdditions additions) (closed_ofAdditions additions')
    hvertices htriples u
  rw [neighbours, neighbours, hlinks, contains, contains, hvertices]

/-- Two vertices with a triple each way between them and a loop at the first, the loop added last or
first. -/
theorem neighbours_loop_last_or_first :
    let last : List Addition :=
      [.triple ⟨"a", "q", "b"⟩, .triple ⟨"b", "p", "a"⟩, .triple ⟨"a", "p", "a"⟩]
    let first : List Addition :=
      [.triple ⟨"a", "p", "a"⟩, .triple ⟨"b", "p", "a"⟩, .triple ⟨"a", "q", "b"⟩]
    (added first).Perm (added last) ∧ (ofAdditions first).vertices = (ofAdditions last).vertices ∧
      (ofAdditions last).neighbours "a" =
        .ok [⟨"a", "p"⟩, ⟨"a", "p"⟩, ⟨"b", "p"⟩, ⟨"b", "q"⟩] ∧
      ∀ u, (ofAdditions first).neighbours u = (ofAdditions last).neighbours u := by
  intro last first
  have htriples : (added first).Perm (added last) := by decide
  have hvertices : (ofAdditions first).vertices = (ofAdditions last).vertices := by decide
  exact ⟨htriples, hvertices, by cbv, (ofAdditions_faithful last first).2 htriples hvertices⟩

end TripleStore
end EntityLinking
