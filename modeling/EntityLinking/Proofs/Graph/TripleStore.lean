import Mathlib.Data.List.Basic
import Mathlib.Data.List.Induction
import Mathlib.Data.List.Permutation
import EntityLinking.Graph.TripleStore

/-!
# What a triple store answers

A store built from triples knows exactly the vertices that its triples mention, and the neighbours
of a vertex are the other ends of the triples that mention it, in either direction.  They are listed
by vertex number, so two stores with the same vertices differ in the neighbours of a vertex at most
in how often and under which predicates they list them, if the same vertices are adjacent.
-/

namespace EntityLinking
namespace TripleStore

/-- Some triple links two vertices, in one direction or the other. -/
def Adjacent (store : TripleStore) (a b : String) : Prop :=
  ∃ t ∈ store.triples,
    (t.subject = a ∧ t.object = b) ∨ (t.subject = b ∧ t.object = a)

instance (store : TripleStore) (a b : String) : Decidable (store.Adjacent a b) :=
  inferInstanceAs (Decidable (∃ t ∈ store.triples, _))

theorem Adjacent.symm {store : TripleStore} {a b : String}
    (h : store.Adjacent a b) : store.Adjacent b a := by
  obtain ⟨t, ht, hends⟩ := h
  exact ⟨t, ht, Or.symm hends⟩

theorem contains_iff {store : TripleStore} {u : String} :
    store.contains u = true ↔ u ∈ store.vertices := by
  simp [contains]

/-! ## Links -/

theorem mem_links_iff {store : TripleStore} {u : String} {l : Link} :
    l ∈ store.links u ↔
      ∃ t ∈ store.triples,
        (t.subject = u ∧ l = ⟨t.object, t.predicate⟩) ∨
          (t.object = u ∧ l = ⟨t.subject, t.predicate⟩) := by
  simp only [links, List.mem_mergeSort, List.mem_append, List.mem_filterMap]
  constructor
  · rintro (⟨t, ht, hl⟩ | ⟨t, ht, hl⟩)
    · split at hl
      next hsubject => exact ⟨t, ht, Or.inl ⟨hsubject, (Option.some.inj hl).symm⟩⟩
      next => simp at hl
    · split at hl
      next hobject => exact ⟨t, ht, Or.inr ⟨hobject, (Option.some.inj hl).symm⟩⟩
      next => simp at hl
  · rintro ⟨t, ht, ⟨hsubject, rfl⟩ | ⟨hobject, rfl⟩⟩
    · exact Or.inl ⟨t, ht, if_pos hsubject⟩
    · exact Or.inr ⟨t, ht, if_pos hobject⟩

/-- The links of a vertex lead to the adjacent vertices. -/
theorem exists_mem_links_iff {store : TripleStore} {u v : String} :
    (∃ l ∈ store.links u, l.uri = v) ↔ store.Adjacent u v := by
  constructor
  · rintro ⟨l, hl, rfl⟩
    obtain ⟨t, ht, ⟨rfl, rfl⟩ | ⟨rfl, rfl⟩⟩ := mem_links_iff.mp hl
    · exact ⟨t, ht, Or.inl ⟨rfl, rfl⟩⟩
    · exact ⟨t, ht, Or.inr ⟨rfl, rfl⟩⟩
  · rintro ⟨t, ht, ⟨rfl, rfl⟩ | ⟨rfl, rfl⟩⟩
    · exact ⟨⟨t.object, t.predicate⟩,
        mem_links_iff.mpr ⟨t, ht, Or.inl ⟨rfl, rfl⟩⟩, rfl⟩
    · exact ⟨⟨t.subject, t.predicate⟩,
        mem_links_iff.mpr ⟨t, ht, Or.inr ⟨rfl, rfl⟩⟩, rfl⟩

theorem mem_uri_links_iff {store : TripleStore} {u v : String} :
    v ∈ (store.links u).map Link.uri ↔ store.Adjacent u v := by
  rw [List.mem_map, exists_mem_links_iff]

theorem linkLe_iff {store : TripleStore} {a b : Link} :
    store.linkLe a b = true ↔
      store.vertices.idxOf a.uri < store.vertices.idxOf b.uri ∨
        store.vertices.idxOf a.uri = store.vertices.idxOf b.uri ∧ a.predicate ≤ b.predicate := by
  simp [linkLe]

theorem linkLe_trans (store : TripleStore) (a b c : Link) (hab : store.linkLe a b = true)
    (hbc : store.linkLe b c = true) : store.linkLe a c = true := by
  rw [linkLe_iff] at *
  rcases hab with hab | ⟨hab, hpredicate⟩
  · rcases hbc with hbc | ⟨hbc, -⟩
    · exact Or.inl (Nat.lt_trans hab hbc)
    · exact Or.inl (hbc ▸ hab)
  · rcases hbc with hbc | ⟨hbc, hpredicate'⟩
    · exact Or.inl (hab ▸ hbc)
    · exact Or.inr ⟨hab.trans hbc, String.le_trans hpredicate hpredicate'⟩

theorem linkLe_total (store : TripleStore) (a b : Link) :
    (store.linkLe a b || store.linkLe b a) = true := by
  rw [Bool.or_eq_true, linkLe_iff, linkLe_iff]
  rcases Nat.lt_trichotomy (store.vertices.idxOf a.uri) (store.vertices.idxOf b.uri) with
    hlt | heq | hgt
  · exact Or.inl (Or.inl hlt)
  · rcases String.le_total a.predicate b.predicate with hle | hle
    · exact Or.inl (Or.inr ⟨heq, hle⟩)
    · exact Or.inr (Or.inr ⟨heq.symm, hle⟩)
  · exact Or.inr (Or.inl hgt)

/-- The neighbours of a vertex are listed by their numbers. -/
theorem pairwise_uri_links (store : TripleStore) (u : String) :
    ((store.links u).map Link.uri).Pairwise fun a b =>
      store.vertices.idxOf a ≤ store.vertices.idxOf b := by
  have hsorted : (store.links u).Pairwise fun a b => store.linkLe a b = true :=
    List.pairwise_mergeSort store.linkLe_trans store.linkLe_total _
  refine List.pairwise_map.mpr (hsorted.imp ?_)
  intro a b hab
  rcases linkLe_iff.mp hab with hlt | ⟨heq, -⟩
  · exact Nat.le_of_lt hlt
  · exact Nat.le_of_eq heq

theorem neighbours_eq_ok_iff {store : TripleStore} {u : String} {ls : List Link} :
    store.neighbours u = .ok ls ↔ store.contains u = true ∧ ls = store.links u := by
  unfold neighbours
  split
  next hu => simp [hu, eq_comm]
  next hu => simp [hu]

/-! ## Stores built from triples -/

/-- Every vertex that a triple mentions is a vertex of the store. -/
def Closed (store : TripleStore) : Prop :=
  ∀ t ∈ store.triples, t.subject ∈ store.vertices ∧ t.object ∈ store.vertices

theorem mem_vertices_addVertex {store : TripleStore} {u v : String} :
    v ∈ (store.addVertex u).vertices ↔ v ∈ store.vertices ∨ v = u := by
  unfold addVertex
  split
  next hu =>
    constructor
    · exact Or.inl
    · rintro (hv | rfl)
      · exact hv
      · simpa using hu
  next =>
    simp

@[simp] theorem triples_addVertex (store : TripleStore) (u : String) :
    (store.addVertex u).triples = store.triples := by
  unfold addVertex
  split <;> rfl

theorem mem_vertices_addTriple {store : TripleStore} {t : Triple} {v : String} :
    v ∈ (store.addTriple t).vertices ↔
      v ∈ store.vertices ∨ v = t.subject ∨ v = t.object := by
  simp only [addTriple, mem_vertices_addVertex]
  rw [or_assoc]

@[simp] theorem triples_addTriple (store : TripleStore) (t : Triple) :
    (store.addTriple t).triples = store.triples ++ [t] := by
  simp [addTriple]

theorem Closed.addVertex {store : TripleStore} (h : store.Closed) (u : String) :
    (store.addVertex u).Closed := by
  intro t ht
  rw [triples_addVertex] at ht
  rw [mem_vertices_addVertex, mem_vertices_addVertex]
  exact ⟨Or.inl (h t ht).1, Or.inl (h t ht).2⟩

theorem Closed.addTriple {store : TripleStore} (h : store.Closed) (t : Triple) :
    (store.addTriple t).Closed := by
  intro t' ht'
  rw [triples_addTriple, List.mem_append, List.mem_singleton] at ht'
  rw [mem_vertices_addTriple, mem_vertices_addTriple]
  rcases ht' with hold | rfl
  · exact ⟨Or.inl (h t' hold).1, Or.inl (h t' hold).2⟩
  · exact ⟨Or.inr (Or.inl rfl), Or.inr (Or.inr rfl)⟩

theorem closed_empty : ({} : TripleStore).Closed := by
  intro t ht
  simp at ht

/-- Something put into a store. -/
inductive Addition where
  | vertex (uri : String)
  | triple (t : Triple)

def add (store : TripleStore) : Addition → TripleStore
  | .vertex uri => store.addVertex uri
  | .triple t => store.addTriple t

/-- The store that holds what was put into an empty one, in that order. -/
def ofAdditions (additions : List Addition) : TripleStore :=
  additions.foldl add {}

theorem ofTriples_eq_ofAdditions (triples : List Triple) :
    ofTriples triples = ofAdditions (triples.map .triple) := by
  rw [ofAdditions, List.foldl_map]
  rfl

theorem closed_ofAdditions (additions : List Addition) : (ofAdditions additions).Closed := by
  have hfold : ∀ (as : List Addition) (store : TripleStore),
      store.Closed → (as.foldl add store).Closed := by
    intro as
    induction as with
    | nil => exact fun store h => h
    | cons a as ih =>
        intro store h
        cases a with
        | vertex uri => exact ih _ (h.addVertex uri)
        | triple t => exact ih _ (h.addTriple t)
  exact hfold additions {} closed_empty

theorem closed_ofTriples (triples : List Triple) : (ofTriples triples).Closed := by
  rw [ofTriples_eq_ofAdditions]
  exact closed_ofAdditions _

theorem Closed.contains_left {store : TripleStore} (h : store.Closed) {a b : String}
    (hab : store.Adjacent a b) : store.contains a = true := by
  obtain ⟨t, ht, ⟨rfl, -⟩ | ⟨-, rfl⟩⟩ := hab
  · exact contains_iff.mpr (h t ht).1
  · exact contains_iff.mpr (h t ht).2

theorem Closed.contains_right {store : TripleStore} (h : store.Closed) {a b : String}
    (hab : store.Adjacent a b) : store.contains b = true :=
  h.contains_left hab.symm

theorem ofTriples_concat (triples : List Triple) (t : Triple) :
    ofTriples (triples ++ [t]) = (ofTriples triples).addTriple t :=
  List.foldl_append

@[simp] theorem triples_ofTriples (triples : List Triple) :
    (ofTriples triples).triples = triples := by
  induction triples using List.reverseRecOn with
  | nil => rfl
  | append_singleton triples t ih => rw [ofTriples_concat, triples_addTriple, ih]

/-- The vertices are the ends of the triples. -/
theorem mem_vertices_ofTriples {triples : List Triple} {u : String} :
    u ∈ (ofTriples triples).vertices ↔ ∃ t ∈ triples, u = t.subject ∨ u = t.object := by
  induction triples using List.reverseRecOn with
  | nil => simp [ofTriples]
  | append_singleton triples t ih =>
      rw [ofTriples_concat, mem_vertices_addTriple, ih]
      simp only [List.mem_append, List.mem_singleton, or_and_right, exists_or, exists_eq_left]

/-! ## Stores that differ in repetitions -/

/-- Two stores with the same vertices, numbered alike, in which the same different vertices are
adjacent. -/
structure Interchangeable (store store' : TripleStore) : Prop where
  vertices_eq : store.vertices = store'.vertices
  adjacent_iff : ∀ {a b : String}, a ≠ b → (store.Adjacent a b ↔ store'.Adjacent a b)

theorem Interchangeable.symm {store store' : TripleStore} (h : store.Interchangeable store') :
    store'.Interchangeable store :=
  ⟨h.vertices_eq.symm, fun hne => (h.adjacent_iff hne).symm⟩

theorem Interchangeable.contains_eq {store store' : TripleStore} (h : store.Interchangeable store')
    (u : String) : store.contains u = store'.contains u := by
  rw [contains, h.vertices_eq, contains]

/-- Neighbours of a vertex that two stores list in order are listed in the same order. -/
theorem Interchangeable.eq_of_sublist {store store' : TripleStore}
    (h : store.Interchangeable store') (hclosed : store.Closed) {u : String} {xs ys : List String}
    (hxs : xs.Sublist ((store.links u).map Link.uri))
    (hys : ys.Sublist ((store'.links u).map Link.uri)) (hperm : xs.Perm ys) : xs = ys := by
  have hsorted := (store.pairwise_uri_links u).sublist hxs
  have hsorted' := (store'.pairwise_uri_links u).sublist hys
  rw [← h.vertices_eq] at hsorted'
  apply hperm.eq_of_pairwise _ hsorted hsorted'
  intro a b ha _ hab hba
  have hadjacent : store.Adjacent u a := mem_uri_links_iff.mp (hxs.subset ha)
  have hvertex : a ∈ store.vertices := contains_iff.mp (hclosed.contains_right hadjacent)
  exact (List.idxOf_inj hvertex).mp (Nat.le_antisymm hab hba)

/-- A triple that says nothing new beside others: its ends occur in them, and they are the same
vertex or linked in one direction or the other. -/
structure Redundant (triples : List Triple) (extra : Triple) : Prop where
  occurs : ∀ u ∈ [extra.subject, extra.object], ∃ t ∈ triples, u = t.subject ∨ u = t.object
  linked : extra.subject = extra.object ∨
    ∃ t ∈ triples, (t.subject = extra.subject ∧ t.object = extra.object) ∨
      (t.subject = extra.object ∧ t.object = extra.subject)

theorem addVertex_of_contains {store : TripleStore} {u : String} (hu : store.contains u = true) :
    store.addVertex u = store :=
  if_pos hu

theorem adjacent_addTriple_iff {store : TripleStore} {t : Triple} {a b : String} :
    (store.addTriple t).Adjacent a b ↔ store.Adjacent a b ∨
      (t.subject = a ∧ t.object = b) ∨ (t.subject = b ∧ t.object = a) := by
  rw [Adjacent, triples_addTriple]
  simp only [List.mem_append, List.mem_singleton, or_and_right, exists_or, exists_eq_left]
  rfl

theorem Redundant.interchangeable {triples : List Triple} {extra : Triple}
    (h : Redundant triples extra) :
    (ofTriples triples).Interchangeable (ofTriples (triples ++ [extra])) := by
  have hcontains : ∀ u ∈ [extra.subject, extra.object], (ofTriples triples).contains u = true :=
    fun u hu => contains_iff.mpr (mem_vertices_ofTriples.mpr (h.occurs u hu))
  have hsubject := hcontains extra.subject List.mem_cons_self
  have hobject := hcontains extra.object (List.mem_cons_of_mem _ List.mem_cons_self)
  have hlinked : extra.subject ≠ extra.object →
      (ofTriples triples).Adjacent extra.subject extra.object := by
    intro hne
    rw [Adjacent, triples_ofTriples]
    exact h.linked.resolve_left hne
  rw [ofTriples_concat]
  constructor
  · rw [addTriple, addVertex_of_contains hsubject, addVertex_of_contains hobject]
  · intro a b hab
    rw [adjacent_addTriple_iff]
    constructor
    · exact Or.inl
    · rintro (hold | ⟨rfl, rfl⟩ | ⟨rfl, rfl⟩)
      · exact hold
      · exact hlinked hab
      · exact (hlinked hab.symm).symm

end TripleStore
end EntityLinking
