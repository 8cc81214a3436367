import Mathlib.Data.List.Count
import Mathlib.Data.List.Nodup
import Mathlib.Data.List.Perm.Subperm
import Mathlib.Data.Sym.Sym2
import Mathlib.Logic.Relation
import EntityLinking.Graph.Subgraph

/-!
# What a subgraph holds after it has grown

A subgraph is read through two questions: whether it holds a vertex, and whether it links two
vertices.  Each way of growing it is described by the answers to these questions afterwards, so
that no later argument has to look at the lists behind them.
-/

namespace EntityLinking

/-- An edge joins its ends in either direction and nothing else. -/
theorem Edge.joins_iff {e : Edge} {a b : String} :
    e.joins a b = true ↔
      (e.source = a ∧ e.target = b) ∨ (e.source = b ∧ e.target = a) := by
  simp [Edge.joins]

theorem Edge.joins_self (e : Edge) : e.joins e.source e.target = true := by
  simp [Edge.joins]

/-- The two vertices that an edge joins, whatever its direction. -/
def Edge.ends (e : Edge) : Sym2 String :=
  s(e.source, e.target)

theorem Edge.joins_iff_ends_eq {e : Edge} {a b : String} :
    e.joins a b = true ↔ e.ends = s(a, b) := by
  rw [joins_iff, ends, Sym2.eq_iff]

theorem Edge.mem_ends_iff {e : Edge} {u : String} :
    u ∈ e.ends ↔ u = e.source ∨ u = e.target := by
  rw [ends, Sym2.mem_iff]

theorem Edge.joins_comm (e : Edge) (a b : String) : e.joins a b = e.joins b a := by
  simp [Edge.joins, Bool.or_comm]

namespace Subgraph

/-! ## Vertices -/

theorem contains_iff {g : Subgraph} {u : String} :
    g.contains u = true ↔ u ∈ g.vertices := by
  simp [contains]

@[simp] theorem not_contains_empty (u : String) :
    ¬ ({} : Subgraph).contains u = true := by
  simp [contains]

theorem contains_addVertex {g : Subgraph} {u v : String} :
    (g.addVertex u).contains v = true ↔ g.contains v = true ∨ v = u := by
  unfold addVertex
  split
  next hu =>
    constructor
    · exact Or.inl
    · rintro (hv | rfl)
      · exact hv
      · exact hu
  next =>
    simp [contains_iff]

@[simp] theorem edges_addVertex (g : Subgraph) (u : String) :
    (g.addVertex u).edges = g.edges := by
  unfold addVertex
  split <;> rfl

/-- A new edge brings its ends along. -/
theorem vertices_addEdge (g : Subgraph) (e : Edge) :
    (g.addEdge e).vertices = ((g.addVertex e.source).addVertex e.target).vertices := by
  simp only [addEdge]
  split <;> rfl

theorem contains_addEdge {g : Subgraph} {e : Edge} {v : String} :
    (g.addEdge e).contains v = true ↔
      g.contains v = true ∨ v = e.source ∨ v = e.target := by
  rw [contains, vertices_addEdge, ← contains, contains_addVertex, contains_addVertex, or_assoc]

theorem contains_addEdges {g : Subgraph} {es : List Edge} {v : String} :
    (g.addEdges es).contains v = true ↔
      g.contains v = true ∨ ∃ e ∈ es, v = e.source ∨ v = e.target := by
  induction es generalizing g with
  | nil => simp [addEdges]
  | cons e es ih =>
      have hstep : g.addEdges (e :: es) = (g.addEdge e).addEdges es := rfl
      rw [hstep, ih, contains_addEdge]
      simp only [List.mem_cons, exists_eq_or_imp]
      rw [or_assoc]

theorem nodup_addVertex {g : Subgraph} (hg : g.vertices.Nodup) (u : String) :
    (g.addVertex u).vertices.Nodup := by
  unfold addVertex
  split
  next => exact hg
  next hu =>
    rw [contains_iff] at hu
    exact List.nodup_append_comm.mp (List.nodup_cons.mpr ⟨hu, hg⟩)

theorem nodup_addEdge {g : Subgraph} (hg : g.vertices.Nodup) (e : Edge) :
    (g.addEdge e).vertices.Nodup := by
  rw [vertices_addEdge]
  exact nodup_addVertex (nodup_addVertex hg e.source) e.target

theorem nodup_addEdges {g : Subgraph} (hg : g.vertices.Nodup) (es : List Edge) :
    (g.addEdges es).vertices.Nodup := by
  induction es generalizing g with
  | nil => exact hg
  | cons e es ih => exact ih (nodup_addEdge hg e)

/-! ## Links -/

theorem linked_iff {g : Subgraph} {a b : String} :
    g.linked a b = true ↔ ∃ e ∈ g.edges, e.joins a b = true := by
  simp [linked]

theorem linked_comm (g : Subgraph) (a b : String) : g.linked a b = g.linked b a := by
  simp only [linked, Edge.joins_comm _ a b]

@[simp] theorem linked_addVertex (g : Subgraph) (u a b : String) :
    (g.addVertex u).linked a b = g.linked a b := by
  simp [linked]

/-- An edge between linked vertices adds no link, and any other edge adds its own. -/
theorem linked_addEdge {g : Subgraph} {e : Edge} {a b : String} :
    (g.addEdge e).linked a b = true ↔ g.linked a b = true ∨ e.joins a b = true := by
  simp only [addEdge, linked_addVertex]
  split
  next hlinked =>
    rw [linked_addVertex, linked_addVertex]
    constructor
    · exact Or.inl
    · rintro (hab | hab)
      · exact hab
      · rcases Edge.joins_iff.mp hab with ⟨rfl, rfl⟩ | ⟨rfl, rfl⟩
        · exact hlinked
        · rw [linked_comm]
          exact hlinked
  next =>
    simp only [linked_iff, edges_addVertex, List.mem_append, List.mem_singleton]
    constructor
    · rintro ⟨d, hd | rfl, hjoins⟩
      · exact Or.inl ⟨d, hd, hjoins⟩
      · exact Or.inr hjoins
    · rintro (⟨d, hd, hjoins⟩ | hjoins)
      · exact ⟨d, Or.inl hd, hjoins⟩
      · exact ⟨e, Or.inr rfl, hjoins⟩

theorem linked_addEdges {g : Subgraph} {es : List Edge} {a b : String} :
    (g.addEdges es).linked a b = true ↔
      g.linked a b = true ∨ ∃ e ∈ es, e.joins a b = true := by
  induction es generalizing g with
  | nil => simp [addEdges]
  | cons e es ih =>
      have hstep : g.addEdges (e :: es) = (g.addEdge e).addEdges es := rfl
      rw [hstep, ih, linked_addEdge]
      simp only [List.mem_cons, exists_eq_or_imp]
      rw [or_assoc]

/-- Some edge has these ends exactly if they are linked. -/
theorem mem_map_ends_iff {g : Subgraph} {a b : String} :
    s(a, b) ∈ g.edges.map Edge.ends ↔ g.linked a b = true := by
  rw [List.mem_map, linked_iff]
  simp only [Edge.joins_iff_ends_eq]

/-- No two edges of a subgraph get the same ends. -/
theorem nodup_ends_addEdge {g : Subgraph} (hg : (g.edges.map Edge.ends).Nodup) (e : Edge) :
    ((g.addEdge e).edges.map Edge.ends).Nodup := by
  simp only [addEdge, linked_addVertex]
  split
  next =>
    rw [edges_addVertex, edges_addVertex]
    exact hg
  next hlinked =>
    have hnew : e.ends ∉ g.edges.map Edge.ends := mt mem_map_ends_iff.mp hlinked
    simp only [edges_addVertex, List.map_append, List.map_singleton]
    exact List.nodup_append_comm.mp (List.nodup_cons.mpr ⟨hnew, hg⟩)

theorem nodup_ends_addEdges {g : Subgraph} (hg : (g.edges.map Edge.ends).Nodup) (es : List Edge) :
    ((g.addEdges es).edges.map Edge.ends).Nodup := by
  induction es generalizing g with
  | nil => exact hg
  | cons e es ih => exact ih (nodup_ends_addEdge hg e)

theorem addEdges_append (g : Subgraph) (es fs : List Edge) :
    g.addEdges (es ++ fs) = (g.addEdges es).addEdges fs :=
  List.foldl_append

/-! ## Components -/

/-- Two vertices are in one component: links lead from the one to the other. -/
def Joined (g : Subgraph) (a b : String) : Prop :=
  Relation.ReflTransGen (fun x y => g.linked x y = true) a b

theorem Joined.trans {g : Subgraph} {a b c : String} (hab : g.Joined a b) (hbc : g.Joined b c) :
    g.Joined a c :=
  Relation.ReflTransGen.trans hab hbc

theorem Joined.symm {g : Subgraph} {a b : String} (h : g.Joined a b) : g.Joined b a := by
  induction h with
  | refl => exact Relation.ReflTransGen.refl
  | @tail x y hax hxy ih =>
      have hyx : g.linked y x = true := by
        rw [linked_comm]
        exact hxy
      exact Relation.ReflTransGen.head hyx ih

/-! ## Degrees -/

/-- The vertices that the degree of a vertex counts. -/
def neighbours (g : Subgraph) (u : String) : List String :=
  g.vertices.filter (g.linked u)

theorem mem_neighbours_iff {g : Subgraph} {u v : String} :
    v ∈ g.neighbours u ↔ g.contains v = true ∧ g.linked u v = true := by
  rw [neighbours, List.mem_filter, contains_iff]

theorem degree_eq_length_neighbours {g : Subgraph} {u : String} (hu : g.contains u = true) :
    g.degree u = (g.neighbours u).length := by
  rw [degree, if_pos hu, List.countP_eq_length_filter, neighbours]

theorem degree_pos_iff {g : Subgraph} {u : String} :
    0 < g.degree u ↔
      g.contains u = true ∧ ∃ v, g.contains v = true ∧ g.linked u v = true := by
  by_cases hu : g.contains u = true
  · rw [degree_eq_length_neighbours hu, List.length_pos_iff_exists_mem]
    simp only [mem_neighbours_iff, hu, true_and]
  · have hzero : g.degree u = 0 := if_neg hu
    simp [hzero, hu]

/-- Two different neighbours make a degree of at least two. -/
theorem two_le_degree {g : Subgraph} {v x y : String}
    (hv : g.contains v = true)
    (hx : g.contains x = true) (hy : g.contains y = true)
    (hvx : g.linked v x = true) (hvy : g.linked v y = true)
    (hxy : x ≠ y) : 2 ≤ g.degree v := by
  rw [degree_eq_length_neighbours hv]
  have hsub : [x, y] ⊆ g.neighbours v := by
    intro w hw
    rw [mem_neighbours_iff]
    rcases List.mem_pair.mp hw with rfl | rfl
    · exact ⟨hx, hvx⟩
    · exact ⟨hy, hvy⟩
  have hnodup : [x, y].Nodup := by simpa using hxy
  exact (List.subperm_of_subset hnodup hsub).length_le

/-- Without a loop at it, a vertex is linked with other vertices only. -/
theorem degree_le_of_not_linked_self {g : Subgraph} {v : String}
    (hloop : g.linked v v = false) : g.degree v ≤ g.vertexCount - 1 := by
  by_cases hv : g.contains v = true
  · rw [degree, if_pos hv]
    have hlt : g.vertices.countP (g.linked v) < g.vertices.length := by
      rw [List.countP_lt_length_iff]
      exact ⟨v, contains_iff.mp hv, by simp [hloop]⟩
    exact Nat.le_sub_one_of_lt hlt
  · rw [degree, if_neg hv]
    exact Nat.zero_le _

/-! ## Parts -/

/-- What one subgraph holds and links, the other one does too. -/
structure Part (g g' : Subgraph) : Prop where
  contains : ∀ {u : String}, g.contains u = true → g'.contains u = true
  linked : ∀ {a b : String}, g.linked a b = true → g'.linked a b = true

theorem Part.degree_le {g g' : Subgraph} (h : g.Part g') (hnodup : g.vertices.Nodup)
    (u : String) : g.degree u ≤ g'.degree u := by
  by_cases hu : g.contains u = true
  · have hsub : g.neighbours u ⊆ g'.neighbours u := by
      intro v hv
      obtain ⟨hcontains, hlinked⟩ := mem_neighbours_iff.mp hv
      exact mem_neighbours_iff.mpr ⟨h.contains hcontains, h.linked hlinked⟩
    have hneighbours : (g.neighbours u).Nodup := hnodup.filter _
    rw [degree_eq_length_neighbours hu, degree_eq_length_neighbours (h.contains hu)]
    exact (List.subperm_of_subset hneighbours hsub).length_le
  · rw [degree, if_neg hu]
    exact Nat.zero_le _

/-! ## Orders of growth -/

/-- Two subgraphs with the same vertices and the same links, listed in whatever order. -/
structure Alike (g g' : Subgraph) : Prop where
  nodup_left : g.vertices.Nodup
  nodup_right : g'.vertices.Nodup
  contains_iff : ∀ {u : String}, g.contains u = true ↔ g'.contains u = true
  linked_iff : ∀ {a b : String}, g.linked a b = true ↔ g'.linked a b = true

theorem Part.alike {g g' : Subgraph} (h : g.Part g') (h' : g'.Part g) (hg : g.vertices.Nodup)
    (hg' : g'.vertices.Nodup) : g.Alike g' :=
  ⟨hg, hg', ⟨h.contains, h'.contains⟩, ⟨h.linked, h'.linked⟩⟩

theorem Alike.vertices_perm {g g' : Subgraph} (h : g.Alike g') : g.vertices.Perm g'.vertices := by
  rw [List.perm_ext_iff_of_nodup h.nodup_left h.nodup_right]
  intro u
  rw [← Subgraph.contains_iff, ← Subgraph.contains_iff]
  exact h.contains_iff

theorem Alike.vertexCount_eq {g g' : Subgraph} (h : g.Alike g') :
    g.vertexCount = g'.vertexCount :=
  h.vertices_perm.length_eq

theorem Alike.edgeCount_eq {g g' : Subgraph} (h : g.Alike g')
    (hg : (g.edges.map Edge.ends).Nodup) (hg' : (g'.edges.map Edge.ends).Nodup) :
    g.edgeCount = g'.edgeCount := by
  have hperm : (g.edges.map Edge.ends).Perm (g'.edges.map Edge.ends) := by
    rw [List.perm_ext_iff_of_nodup hg hg']
    intro ends
    induction ends using Sym2.ind with
    | _ a b => rw [mem_map_ends_iff, mem_map_ends_iff, h.linked_iff]
  have hlength := hperm.length_eq
  rw [List.length_map, List.length_map] at hlength
  exact hlength

theorem Alike.degree_eq {g g' : Subgraph} (h : g.Alike g') (u : String) :
    g.degree u = g'.degree u := by
  have hlinked : g.linked u = g'.linked u := by
    funext v
    exact Bool.eq_iff_iff.mpr h.linked_iff
  rw [degree, degree, hlinked, h.vertices_perm.countP_eq]
  simp only [h.contains_iff]

end Subgraph
end EntityLinking
