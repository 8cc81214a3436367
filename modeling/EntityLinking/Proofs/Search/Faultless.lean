import EntityLinking.Proofs.Search.Locality

/-!
# Constructions over a store

A store answers every question about its own vertices, and its triples lead from vertices to
vertices only.  A construction begins at candidates that are vertices and follows links, so it never
asks for the neighbours of anything else.  It meets no fault, nothing but vertices of the store
enters its subgraph, and only a request without a single vertex is left without one.
-/

namespace EntityLinking
namespace Search

variable {store : TripleStore} {rows : Rows} {maxDistance : Nat} {start : String} {event : Event}

/-- An expansion asks a store about its vertices only. -/
theorem vertex_of_mem_events_expand (hclosed : store.Closed) (hstart : store.contains start = true)
    {g : Subgraph} (he : event ∈ (expand store.graph rows maxDistance start g).events) :
    ∃ u, store.contains u = true ∧ event = .neighbours u := by
  have hsteps : ∀ {u v : String}, store.contains u = true → Steps store.graph u v →
      store.contains v = true :=
    fun _ hstep => hclosed.contains_right ((steps_graph_iff hclosed).mp hstep)
  obtain ⟨i, u, -, hu, hevent⟩ :=
    mem_events_expand (P := fun _ u => store.contains u = true) (fun hu hstep => hsteps hu hstep)
      hstart he
  exact ⟨u, hu, hevent⟩

/-- The run lemma: before and after each expansion the subgraph holds vertices of the store only, so
the next one starts at a vertex as well. -/
theorem vertex_of_mem_events_expandAll (hclosed : store.Closed) :
    ∀ {order : List String} {g : Subgraph}, (∀ u, g.contains u = true → store.contains u = true) →
      event ∈ (expandAll store.graph rows maxDistance order g).events →
        ∃ u, store.contains u = true ∧ event = .neighbours u := by
  intro order
  induction order with
  | nil =>
      intro g _ he
      simp [expandAll] at he
  | cons start rest ih =>
      intro g hg he
      rw [expandAll] at he
      split at he
      next hstart =>
        rw [Recorded.bind_eq, Recorded.mem_events_andThen] at he
        rcases he with he | ⟨g', hexpand, he⟩
        · exact vertex_of_mem_events_expand hclosed (hg start hstart) he
        · exact ih (contains_of_expand hclosed hexpand hg) he
      next => exact ih hg he

/-- A construction asks a store for the neighbours of its vertices only. -/
theorem vertex_of_neighbours_mem (hclosed : store.Closed) {u : String}
    (h : Event.neighbours u ∈ (relevant store.graph maxDistance rows).events) :
    store.contains u = true := by
  rw [relevant, Recorded.bind_eq, Recorded.mem_events_andThen] at h
  rcases h with h | ⟨vertices, hadd, h⟩
  · obtain ⟨w, -, hevent⟩ := mem_events_addSenses h
    simp at hevent
  · rw [Recorded.bind_eq, Recorded.mem_events_andThen] at h
    rcases h with h | ⟨g, -, h⟩
    · obtain ⟨w, hw, hevent⟩ :=
        vertex_of_mem_events_expandAll hclosed (contains_of_addSenses hadd) h
      obtain rfl : u = w := by simpa using hevent
      exact hw
    · simp [Recorded.note] at h

/-- A construction over a store that meets no fault: it asks for the neighbours of vertices only,
ends with a subgraph of vertices, or with none if no candidate is a vertex. -/
structure Faultless (store : TripleStore) (rows : Rows)
    (run : Recorded Event GraphFault (Option Subgraph)) : Prop where
  succeeds : ∃ result, run.outcome = .ok result
  asks : ∀ u, Event.neighbours u ∈ run.events → store.contains u = true
  holds : ∀ g, run.outcome = .ok (some g) → ∀ u, g.contains u = true → store.contains u = true
  none_iff : run.outcome = .ok none ↔ ∀ u, Candidate rows u → store.contains u = false

/-- Whatever is put into a store in whatever order, constructions over it meet no fault. -/
theorem relevant_faultless (additions : List TripleStore.Addition) (rows : Rows)
    (maxDistance : Nat) :
    Faultless (.ofAdditions additions) rows
      (relevant (TripleStore.ofAdditions additions).graph maxDistance rows) := by
  have hclosed := TripleStore.closed_ofAdditions additions
  have hcases := relevant_graph hclosed maxDistance rows
  constructor
  · rcases hcases with ⟨hrun, -⟩ | ⟨g, trees, hrun, -⟩
    · exact ⟨none, hrun⟩
    · exact ⟨some g, hrun⟩
  · intro u hu
    exact vertex_of_neighbours_mem hclosed hu
  · intro g hrun u hu
    obtain ⟨trees, h⟩ := exists_explained hrun
    exact h.contains_vertex hclosed hu
  · rcases hcases with ⟨hrun, hnone⟩ | ⟨g, trees, hrun, -, u, hu, hcontains⟩
    · exact iff_of_true hrun fun u hu => Bool.eq_false_iff.mpr (hnone u hu)
    · refine iff_of_false (by simp [hrun]) ?_
      intro hnone
      simp [hnone u hu] at hcontains

end Search
end EntityLinking
