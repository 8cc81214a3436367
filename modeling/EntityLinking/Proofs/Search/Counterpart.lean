import EntityLinking.Proofs.Search.Relevance

/-!
# Constructions beside each other

Two constructions are compared search by search.  If every search of the one has a
counterpart in the other that finds all its branches, the subgraph of the one is a part of
the subgraph of the other.
-/

namespace EntityLinking
namespace Search

variable {store store' : TripleStore} {rows rows' : Rows} {maxDistance maxDistance' : Nat}
variable {g g' : Subgraph} {trees trees' : Trees} {start : String}

/-- A search that adds an edge has started from a vertex of the store. -/
theorem Explained.contains_start (hclosed : store.Closed)
    (h : Explained store.graph maxDistance rows g trees) {found : List Discovery}
    (htree : (start, found) ∈ trees) {e : Edge} (he : e ∈ branches (rivals rows start) found) :
    store.contains start = true := by
  have hgrown := (h.complete htree).grown
  obtain ⟨t, ht, -, -⟩ := hgrown.mem_branches_iff.mp he
  obtain ⟨r, rfl, rfl, -, -, -, hfollows, -⟩ := hgrown.exists_route ht
  obtain ⟨v, d, hd, hsource, -⟩ := hfollows.exists_step
  have hadj := (steps_graph_iff hclosed).mp (hgrown.steps_of_mem_trail hd)
  exact hsource ▸ hclosed.contains_left hadj

/-- A search in one construction finds no branch that its counterpart in the other one lacks. -/
def Outdone (store store' : TripleStore) (rows rows' : Rows) (maxDistance maxDistance' : Nat)
    (start : String) : Prop :=
  ∀ found found', discoveries store.graph rows maxDistance start = .ok found →
    discoveries store'.graph rows' maxDistance' start = .ok found' →
      ∀ e ∈ branches (rivals rows start) found,
        ∃ e' ∈ branches (rivals rows' start) found', e'.ends = e.ends

theorem Explained.exists_counterpart (hclosed : store.Closed)
    (h : Explained store.graph maxDistance rows g trees)
    (h' : Explained store'.graph maxDistance' rows' g' trees')
    (hcandidate : ∀ u, Candidate rows u → Candidate rows' u)
    (hcontains : ∀ u, store.contains u = true → store'.contains u = true)
    (houtdone : ∀ start, store.contains start = true →
      Outdone store store' rows rows' maxDistance maxDistance' start)
    {e : Edge} (he : e ∈ trees.edges rows) : ∃ e' ∈ trees'.edges rows', e'.ends = e.ends := by
  obtain ⟨start, found, htree, hbranch⟩ := Trees.mem_edges_iff.mp he
  have hstart : store.contains start = true := h.contains_start hclosed htree hbranch
  obtain ⟨found', htree'⟩ := h'.searched (hcandidate start (h.candidate htree))
    (contains_graph_iff.mpr (hcontains start hstart))
  obtain ⟨e', hbranch', hends⟩ := houtdone start hstart found found' (h.discoveries_eq htree)
    (h'.discoveries_eq htree') e hbranch
  exact ⟨e', Trees.mem_edges_iff.mpr ⟨start, found', htree', hbranch'⟩, hends⟩

theorem Explained.part (hclosed : store.Closed)
    (h : Explained store.graph maxDistance rows g trees)
    (h' : Explained store'.graph maxDistance' rows' g' trees')
    (hcandidate : ∀ u, Candidate rows u → Candidate rows' u)
    (hcontains : ∀ u, store.contains u = true → store'.contains u = true)
    (houtdone : ∀ start, store.contains start = true →
      Outdone store store' rows rows' maxDistance maxDistance' start) : g.Part g' := by
  have hedges : ∀ {e}, e ∈ trees.edges rows → ∃ e' ∈ trees'.edges rows', e'.ends = e.ends :=
    h.exists_counterpart hclosed h' hcandidate hcontains houtdone
  constructor
  · intro u hu
    rcases h.contains_iff.mp hu with ⟨hcandidateU, hcontainsU⟩ | ⟨e, he, hends⟩
    · have hu' := hcontains u (contains_graph_iff.mp hcontainsU)
      exact h'.contains_iff.mpr (Or.inl ⟨hcandidate u hcandidateU, contains_graph_iff.mpr hu'⟩)
    · obtain ⟨e', he', hsame⟩ := hedges he
      have hmem : u ∈ e'.ends := hsame ▸ Edge.mem_ends_iff.mpr hends
      exact h'.contains_iff.mpr (Or.inr ⟨e', he', Edge.mem_ends_iff.mp hmem⟩)
  · intro a b hab
    obtain ⟨e, he, hjoins⟩ := h.linked_iff.mp hab
    obtain ⟨e', he', hsame⟩ := hedges he
    have hjoins' : e'.joins a b = true := by
      rw [Edge.joins_iff_ends_eq, hsame, ← Edge.joins_iff_ends_eq]
      exact hjoins
    exact h'.linked_iff.mpr ⟨e', he', hjoins'⟩

/-- Two constructions over triple stores that have candidates among the vertices both or neither
have both a subgraph or neither. -/
theorem exists_relevant_rel {R : Subgraph → Subgraph → Prop} (hclosed : store.Closed)
    (hclosed' : store'.Closed)
    (hvertex : (∃ u, Candidate rows u ∧ store.contains u = true) ↔
      ∃ u, Candidate rows' u ∧ store'.contains u = true)
    (hrel : ∀ {g g' trees trees'}, Explained store.graph maxDistance rows g trees →
      Explained store'.graph maxDistance' rows' g' trees' → R g g') :
    ∃ result result', (relevant store.graph maxDistance rows).outcome = .ok result ∧
      (relevant store'.graph maxDistance' rows').outcome = .ok result' ∧
      Option.Rel R result result' := by
  rcases relevant_graph hclosed maxDistance rows with
    ⟨hrun, hnone⟩ | ⟨g, trees, hrun, hexplained, hsome⟩
  · rcases relevant_graph hclosed' maxDistance' rows' with
      ⟨hrun', -⟩ | ⟨g', trees', -, -, hsome'⟩
    · exact ⟨none, none, hrun, hrun', .none⟩
    · obtain ⟨u, hu, hcontains⟩ := hvertex.mpr hsome'
      exact absurd hcontains (hnone u hu)
  · rcases relevant_graph hclosed' maxDistance' rows' with
      ⟨-, hnone'⟩ | ⟨g', trees', hrun', hexplained', -⟩
    · obtain ⟨u, hu, hcontains⟩ := hvertex.mp hsome
      exact absurd hcontains (hnone' u hu)
    · exact ⟨some g, some g', hrun, hrun', .some (hrel hexplained hexplained')⟩

end Search
end EntityLinking
