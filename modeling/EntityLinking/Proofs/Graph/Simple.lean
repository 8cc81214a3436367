import Mathlib.Data.Set.Card
import EntityLinking.Proofs.Graph.Numbering
import EntityLinking.Proofs.Graph.Subgraph

/-!
# Grown subgraphs

A subgraph grows vertex by vertex and edge by edge.  Whatever has been asked for on the way, loops,
repetitions and edges turned round included, two vertices get at most one edge, and which vertices
are linked is told by the requests alone.  So degrees and edges are counted in two ways: by what the
subgraph holds, and by the different pairs of vertices in its history.
-/

namespace EntityLinking
namespace Subgraph

/-- A step by which a subgraph grows. -/
inductive Growth where
  | vertex (uri : String)
  | edge (e : Edge)

/-- The vertices that a step mentions, in order. -/
def Growth.mentions : Growth → List String
  | .vertex uri => [uri]
  | .edge e => [e.source, e.target]

def Growth.edge? : Growth → Option Edge
  | .vertex _ => none
  | .edge e => some e

def grow (g : Subgraph) : Growth → Subgraph
  | .vertex uri => g.addVertex uri
  | .edge e => g.addEdge e

/-- The subgraph that has grown out of the empty one. -/
def grown (history : List Growth) : Subgraph :=
  history.foldl grow {}

/-- The edges asked for in a history, in order and with their repetitions. -/
def requested (history : List Growth) : List Edge :=
  history.filterMap Growth.edge?

variable {g : Subgraph} {history : List Growth} {u v : String} {e : Edge}

theorem grown_concat (history : List Growth) (step : Growth) :
    grown (history ++ [step]) = (grown history).grow step :=
  List.foldl_append

theorem requested_concat (history : List Growth) (step : Growth) :
    requested (history ++ [step]) = requested history ++ step.edge?.toList := by
  rw [requested, List.filterMap_append, requested]
  cases step <;> rfl

/-! ## Vertices -/

theorem vertices_addVertex_of_mentioned {us : List String} (h : g.vertices = us.eraseDups)
    (u : String) : (g.addVertex u).vertices = (us ++ [u]).eraseDups := by
  rw [eraseDups_concat, ← h, addVertex, contains]
  split <;> rfl

theorem vertices_grown (history : List Growth) :
    (grown history).vertices = (history.flatMap Growth.mentions).eraseDups := by
  induction history using List.reverseRecOn with
  | nil => rfl
  | append_singleton history step ih =>
      rw [grown_concat, List.flatMap_append, List.flatMap_singleton]
      cases step with
      | vertex uri => exact vertices_addVertex_of_mentioned ih uri
      | edge e =>
          have hsource := vertices_addVertex_of_mentioned ih e.source
          have htarget := vertices_addVertex_of_mentioned hsource e.target
          rw [grow, vertices_addEdge, htarget, List.append_assoc]
          rfl

theorem numbered_grown (history : List Growth) :
    Numbered (history.flatMap Growth.mentions) (grown history).vertices
      (grown history).position? := by
  have hnumbered := numbered_eraseDups (history.flatMap Growth.mentions)
  rwa [← vertices_grown] at hnumbered

theorem contains_ends_of_mem_requested (he : e ∈ requested history) :
    (grown history).contains e.source = true ∧ (grown history).contains e.target = true := by
  obtain ⟨step, hstep, hedge⟩ := List.mem_filterMap.mp he
  have hmentions : ∀ w ∈ [e.source, e.target], w ∈ (grown history).vertices := by
    intro w hw
    rw [vertices_grown, List.mem_eraseDups, List.mem_flatMap]
    cases step with
    | vertex uri => simp [Growth.edge?] at hedge
    | edge e' =>
        obtain rfl : e' = e := by simpa [Growth.edge?] using hedge
        exact ⟨_, hstep, hw⟩
  exact ⟨contains_iff.mpr (hmentions e.source (by simp)),
    contains_iff.mpr (hmentions e.target (by simp))⟩

/-! ## Links -/

/-- Vertices are linked as soon as an edge between them has been asked for. -/
theorem linked_grown : (grown history).linked u v = true ↔
    ∃ e ∈ requested history, e.joins u v = true := by
  induction history using List.reverseRecOn with
  | nil => simp [grown, requested, linked]
  | append_singleton history step ih =>
      rw [grown_concat, requested_concat]
      cases step with
      | vertex uri => simp [grow, Growth.edge?, ih]
      | edge e =>
          rw [grow, linked_addEdge, ih]
          simp only [Growth.edge?, Option.toList_some, List.mem_append, List.mem_singleton,
            or_and_right, exists_or, exists_eq_left]

theorem nodup_ends_grown (history : List Growth) : ((grown history).edges.map Edge.ends).Nodup := by
  induction history using List.reverseRecOn with
  | nil => exact List.nodup_nil
  | append_singleton history step ih =>
      rw [grown_concat]
      cases step with
      | vertex uri => rwa [grow, edges_addVertex]
      | edge e => exact nodup_ends_addEdge ih e

theorem contains_of_linked_grown (h : (grown history).linked u v = true) :
    (grown history).contains u = true ∧ (grown history).contains v = true := by
  obtain ⟨e, he, hjoins⟩ := linked_grown.mp h
  have hends := contains_ends_of_mem_requested he
  rcases Edge.joins_iff.mp hjoins with ⟨rfl, rfl⟩ | ⟨rfl, rfl⟩
  · exact hends
  · exact hends.symm

theorem contains_ends_of_mem_grown (he : e ∈ (grown history).edges) :
    (grown history).contains e.source = true ∧ (grown history).contains e.target = true :=
  contains_of_linked_grown (linked_iff.mpr ⟨e, he, e.joins_self⟩)

/-- Between two vertices there is one edge or none. -/
theorem countP_joins_le_one (hends : (g.edges.map Edge.ends).Nodup) (u v : String) :
    (g.edges.countP fun e => e.joins u v) ≤ 1 := by
  have hcount : (g.edges.countP fun e => e.joins u v) = (g.edges.map Edge.ends).count s(u, v) := by
    rw [List.count, List.countP_map]
    apply List.countP_congr
    intro e he
    rw [Edge.joins_iff_ends_eq, Function.comp_apply, beq_iff_eq]
  rw [hcount]
  exact List.nodup_iff_count_le_one.mp hends _

theorem edgeCount_grown (history : List Growth) :
    (grown history).edgeCount = ((requested history).map Edge.ends).toFinset.card := by
  have hsame : ((grown history).edges.map Edge.ends).toFinset =
      ((requested history).map Edge.ends).toFinset := by
    ext ends
    induction ends using Sym2.ind with
    | _ a b =>
        rw [List.mem_toFinset, List.mem_toFinset, mem_map_ends_iff, linked_grown, List.mem_map]
        simp only [Edge.joins_iff_ends_eq]
  rw [← hsame, List.toFinset_card_of_nodup (nodup_ends_grown history), List.length_map, edgeCount]

/-! ## Degrees -/

theorem degree_grown_eq_length (history : List Growth) (u : String) :
    (grown history).degree u = ((grown history).neighbours u).length := by
  by_cases hu : (grown history).contains u = true
  · exact degree_eq_length_neighbours hu
  · have hnone : (grown history).neighbours u = [] := by
      rw [List.eq_nil_iff_forall_not_mem]
      intro v hv
      exact hu (contains_of_linked_grown (mem_neighbours_iff.mp hv).2).1
    rw [hnone, degree, if_neg hu, List.length_nil]

/-- The degree of a vertex counts the vertices that an edge with it has been asked for. -/
theorem degree_grown (history : List Growth) (u : String) :
    (grown history).degree u = {v | ∃ e ∈ requested history, e.joins u v = true}.ncard := by
  have hset : {v | ∃ e ∈ requested history, e.joins u v = true} =
      ↑((grown history).neighbours u).toFinset := by
    ext v
    rw [Set.mem_ofPred_eq, ← linked_grown, List.coe_toFinset, Set.mem_ofPred_eq, mem_neighbours_iff,
      iff_and_self]
    exact fun hlinked => (contains_of_linked_grown hlinked).2
  have hnodup : ((grown history).neighbours u).Nodup := (numbered_grown history).once.filter _
  rw [hset, Set.ncard_coe_finset, List.toFinset_card_of_nodup hnodup, degree_grown_eq_length]

/-- Whether an edge has an end at a vertex. -/
def touches (u : String) (e : Edge) : Bool :=
  e.source = u || e.target = u

/-- The other end of an edge that touches a vertex. -/
def across (u : String) (e : Edge) : String :=
  if e.source = u then e.target else e.source

theorem ends_eq_across (hu : touches u e = true) : e.ends = s(u, across u e) := by
  by_cases hsource : e.source = u
  · rw [across, if_pos hsource, Edge.ends, hsource]
  · have htarget : e.target = u := by simpa [touches, hsource] using hu
    rw [across, if_neg hsource, Edge.ends, htarget, Sym2.eq_swap]

theorem touches_of_joins (h : e.joins u v = true) : touches u e = true := by
  rcases Edge.joins_iff.mp h with ⟨rfl, -⟩ | ⟨-, rfl⟩
  · simp [touches]
  · simp [touches]

/-- Each neighbour of a vertex is at the other end of one edge. -/
theorem neighbours_perm (hvertices : g.vertices.Nodup) (hends : (g.edges.map Edge.ends).Nodup)
    (hclosed : ∀ e ∈ g.edges, g.contains e.source = true ∧ g.contains e.target = true)
    (u : String) : (g.neighbours u).Perm ((g.edges.filter (touches u)).map (across u)) := by
  have hacross : ∀ e ∈ g.edges.filter (touches u), e.ends = s(u, across u e) :=
    fun e he => ends_eq_across (List.mem_filter.mp he).2
  have hnodup : ((g.edges.filter (touches u)).map (across u)).Nodup := by
    have hpart : ((g.edges.filter (touches u)).map Edge.ends).Nodup :=
      hends.sublist (List.filter_sublist.map Edge.ends)
    rw [List.map_congr_left hacross] at hpart
    exact List.Nodup.of_map (fun v => s(u, v)) (by rwa [List.map_map])
  have hneighbours : (g.neighbours u).Nodup := hvertices.filter _
  rw [List.perm_ext_iff_of_nodup hneighbours hnodup]
  intro v
  rw [mem_neighbours_iff, List.mem_map, linked_iff]
  constructor
  · rintro ⟨-, e, he, hjoins⟩
    have htouches := touches_of_joins hjoins
    have hsame : s(u, across u e) = s(u, v) := by
      rw [← ends_eq_across htouches, ← Edge.joins_iff_ends_eq]
      exact hjoins
    exact ⟨e, List.mem_filter.mpr ⟨he, htouches⟩, Sym2.congr_right.mp hsame⟩
  · rintro ⟨e, he, rfl⟩
    have hmem : e ∈ g.edges := (List.mem_filter.mp he).1
    refine ⟨?_, e, hmem, Edge.joins_iff_ends_eq.mpr (hacross e he)⟩
    rw [across]
    split
    next => exact (hclosed e hmem).2
    next => exact (hclosed e hmem).1

/-- A degree counts the edges at one end and at the other, but a loop only once. -/
theorem degree_add_countP_loop (history : List Growth) (u : String) :
    (grown history).degree u +
        ((grown history).edges.countP fun e => e.source = u && e.target = u) =
      ((grown history).edges.countP fun e => e.source = u) +
        ((grown history).edges.countP fun e => e.target = u) := by
  have hperm := neighbours_perm (numbered_grown history).once (nodup_ends_grown history)
    (fun e he => contains_ends_of_mem_grown he) u
  have hdegree : (grown history).degree u = (grown history).edges.countP (touches u) := by
    rw [degree_grown_eq_length, hperm.length_eq, List.length_map,
      ← List.countP_eq_length_filter]
  rw [hdegree]
  exact countP_or_add_countP_and (fun e : Edge => e.source = u) (fun e => e.target = u) _

/-- A loop is met at one vertex. -/
theorem sum_countP_loop (hvertices : g.vertices.Nodup)
    (hclosed : ∀ e ∈ g.edges, e.source ∈ g.vertices) :
    (g.vertices.map fun u => g.edges.countP fun e => e.source = u && e.target = u).sum =
      g.edges.countP fun e => e.source = e.target := by
  have hloops : ∀ e ∈ g.edges.filter fun e => e.source = e.target, e.source ∈ g.vertices :=
    fun e he => hclosed e (List.mem_filter.mp he).1
  rw [List.countP_eq_length_filter, ← sum_countP_eq_length hvertices Edge.source hloops]
  congr 1
  apply List.map_congr_left
  intro u hu
  rw [List.countP_filter]
  apply List.countP_congr
  intro e he
  simp only [Bool.and_eq_true, decide_eq_true_eq]
  constructor
  · rintro ⟨rfl, htarget⟩
    exact ⟨rfl, htarget.symm⟩
  · rintro ⟨rfl, hloop⟩
    exact ⟨rfl, hloop.symm⟩

/-- The degrees come to two for every edge, and to one for a loop. -/
theorem sum_degree_grown (history : List Growth) :
    ((grown history).vertices.map (grown history).degree).sum +
        ((grown history).edges.countP fun e => e.source = e.target) =
      2 * (grown history).edgeCount := by
  have hvertices := (numbered_grown history).once
  have hsource : ∀ e ∈ (grown history).edges, e.source ∈ (grown history).vertices :=
    fun e he => contains_iff.mp (contains_ends_of_mem_grown he).1
  have htarget : ∀ e ∈ (grown history).edges, e.target ∈ (grown history).vertices :=
    fun e he => contains_iff.mp (contains_ends_of_mem_grown he).2
  have hdegrees := congrArg List.sum <| List.map_congr_left
    fun u (_ : u ∈ (grown history).vertices) => degree_add_countP_loop history u
  rw [List.sum_map_add, List.sum_map_add, sum_countP_loop hvertices hsource,
    sum_countP_eq_length hvertices Edge.source hsource,
    sum_countP_eq_length hvertices Edge.target htarget] at hdegrees
  rw [hdegrees, edgeCount, Nat.two_mul]

/-- What a history makes of a subgraph: vertices in the order of their first mention, and one edge
for each pair of vertices that an edge has been asked for between, in whatever direction and under
whatever predicates. -/
structure Simple (history : List Growth) (g : Subgraph) : Prop where
  numbered : Numbered (history.flatMap Growth.mentions) g.vertices g.position?
  linked_iff : ∀ {u v : String}, g.linked u v = true ↔ ∃ e ∈ requested history, e.joins u v = true
  once : ∀ u v : String, (g.edges.countP fun e => e.joins u v) ≤ 1
  edgeCount_eq : g.edgeCount = ((requested history).map Edge.ends).toFinset.card
  degree_eq : ∀ u : String,
    g.degree u = {v | ∃ e ∈ requested history, e.joins u v = true}.ncard
  degree_absent : ∀ u : String, ¬ g.contains u = true → g.degree u = 0
  sum_degree : (g.vertices.map g.degree).sum + (g.edges.countP fun e => e.source = e.target) =
    2 * g.edgeCount

/-- However it has grown, a subgraph is a simple graph over the vertices mentioned. -/
theorem grown_simple (history : List Growth) : Simple history (grown history) where
  numbered := numbered_grown history
  linked_iff := linked_grown
  once := countP_joins_le_one (nodup_ends_grown history)
  edgeCount_eq := edgeCount_grown history
  degree_eq := degree_grown history
  degree_absent := fun _ hu => if_neg hu
  sum_degree := sum_degree_grown history

end Subgraph
end EntityLinking
