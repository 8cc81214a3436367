import EntityLinking.Proofs.Graph.TripleStore
import EntityLinking.Proofs.Search.Exploration

/-!
# The relevance subgraph from its searches

Which mentions own a sense decides where a search passes and where it stops.  The subgraph of a
request holds the candidates that are vertices, and the branches of one complete search from each of
them; nothing else adds to it.  Over a triple store no search meets a fault, and there is a subgraph
as soon as one candidate is a vertex.
-/

namespace EntityLinking
namespace Search

variable {kg : KnowledgeGraph} {rows : Rows} {s t u v : String} {maxDistance : Nat}

/-! ## Owners -/

/-- Mention number `i` has this sense as a candidate. -/
def Owns (rows : Rows) (i : Nat) (u : String) : Prop :=
  ∃ row, rows[i]? = some row ∧ u ∈ row

/-- Some mention has this sense as a candidate. -/
def Candidate (rows : Rows) (u : String) : Prop :=
  ∃ i, Owns rows i u

/-- Some mention owns `t` and does not own `s`. -/
def Rival (rows : Rows) (s t : String) : Prop :=
  ∃ i, Owns rows i t ∧ ¬ Owns rows i s

/-- A vertex that is no candidate, or one owned only by mentions that own `s`. -/
def Passable (rows : Rows) (s v : String) : Prop :=
  ∀ i, Owns rows i v → Owns rows i s

theorem candidate_iff : Candidate rows u ↔ ∃ row ∈ rows, u ∈ row := by
  constructor
  · rintro ⟨i, row, hi, hu⟩
    exact ⟨row, List.mem_of_getElem? hi, hu⟩
  · rintro ⟨row, hrow, hu⟩
    obtain ⟨i, hi⟩ := List.mem_iff_getElem?.mp hrow
    exact ⟨i, row, hi, hu⟩

theorem mem_senses_iff : u ∈ senses rows ↔ Candidate rows u := by
  rw [senses, List.mem_eraseDups, List.mem_flatten, candidate_iff]

theorem rivals_iff : rivals rows s t = true ↔ Rival rows s t := by
  simp only [rivals, List.any_eq_true, Bool.and_eq_true, List.contains_iff_mem,
    Bool.not_eq_true', Bool.eq_false_iff, ne_eq]
  constructor
  · rintro ⟨row, hrow, ht, hs⟩
    obtain ⟨i, hi⟩ := List.mem_iff_getElem?.mp hrow
    refine ⟨i, ⟨row, hi, ht⟩, ?_⟩
    rintro ⟨row', hi', hs'⟩
    obtain rfl : row = row' := by simpa [hi] using hi'
    exact hs hs'
  · rintro ⟨i, ⟨row, hi, ht⟩, hs⟩
    exact ⟨row, List.mem_of_getElem? hi, ht, fun hmem => hs ⟨row, hi, hmem⟩⟩

theorem rival_iff : Rival rows s t ↔ ∃ row ∈ rows, t ∈ row ∧ s ∉ row := by
  rw [← rivals_iff]
  simp [rivals]

theorem not_rival_iff : ¬ Rival rows s v ↔ Passable rows s v := by
  simp [Rival, Passable]

theorem rivals_eq_false_iff : rivals rows s v = false ↔ Passable rows s v := by
  rw [← not_rival_iff, ← rivals_iff, Bool.not_eq_true]

theorem rivals_self (rows : Rows) (s : String) : rivals rows s s = false :=
  rivals_eq_false_iff.mpr fun _ h => h

theorem Rival.candidate (h : Rival rows s t) : Candidate rows t :=
  h.imp fun _ hi => hi.1

/-! ## Senses and expansions -/

theorem addSenses_cons_eq_ok_iff {rest : List String} {g g' : Subgraph} :
    (addSenses kg (u :: rest) g).outcome = .ok g' ↔
      (kg.contains u = .ok true ∧ (addSenses kg rest (g.addVertex u)).outcome = .ok g') ∨
        (kg.contains u = .ok false ∧ (addSenses kg rest g).outcome = .ok g') := by
  rw [addSenses, Recorded.bind_eq, Recorded.outcome_andThen_eq_ok_iff]
  simp only [askContains]
  constructor
  · rintro ⟨_ | _, hcontains, hrest⟩
    · exact Or.inr ⟨hcontains, by simpa [Recorded.note] using hrest⟩
    · exact Or.inl ⟨hcontains, by simpa using hrest⟩
  · rintro (⟨hcontains, hrest⟩ | ⟨hcontains, hrest⟩)
    · exact ⟨true, hcontains, by simpa using hrest⟩
    · exact ⟨false, hcontains, by simpa [Recorded.note] using hrest⟩

theorem edges_addSenses {order : List String} :
    ∀ {g g' : Subgraph}, (addSenses kg order g).outcome = .ok g' → g'.edges = g.edges := by
  induction order with
  | nil =>
      intro g g' hrun
      obtain rfl : g = g' := by simpa [addSenses] using hrun
      rfl
  | cons u rest ih =>
      intro g g' hrun
      rcases addSenses_cons_eq_ok_iff.mp hrun with ⟨-, hrest⟩ | ⟨-, hrest⟩
      · rw [ih hrest, Subgraph.edges_addVertex]
      · exact ih hrest

theorem nodup_addSenses {order : List String} :
    ∀ {g g' : Subgraph}, (addSenses kg order g).outcome = .ok g' →
      g.vertices.Nodup → g'.vertices.Nodup := by
  induction order with
  | nil =>
      intro g g' hrun hg
      obtain rfl : g = g' := by simpa [addSenses] using hrun
      exact hg
  | cons u rest ih =>
      intro g g' hrun hg
      rcases addSenses_cons_eq_ok_iff.mp hrun with ⟨-, hrest⟩ | ⟨-, hrest⟩
      · exact ih hrest (Subgraph.nodup_addVertex hg u)
      · exact ih hrest hg

theorem contains_addSenses {order : List String} :
    ∀ {g g' : Subgraph}, (addSenses kg order g).outcome = .ok g' →
      (g'.contains v = true ↔
        g.contains v = true ∨ (v ∈ order ∧ kg.contains v = .ok true)) := by
  induction order with
  | nil =>
      intro g g' hrun
      obtain rfl : g = g' := by simpa [addSenses] using hrun
      simp
  | cons u rest ih =>
      intro g g' hrun
      rcases addSenses_cons_eq_ok_iff.mp hrun with ⟨hu, hrest⟩ | ⟨hu, hrest⟩
      · rw [ih hrest, Subgraph.contains_addVertex, List.mem_cons]
        constructor
        · rintro ((hv | rfl) | ⟨hv, hkg⟩)
          · exact Or.inl hv
          · exact Or.inr ⟨Or.inl rfl, hu⟩
          · exact Or.inr ⟨Or.inr hv, hkg⟩
        · rintro (hv | ⟨rfl | hv, hkg⟩)
          · exact Or.inl (Or.inl hv)
          · exact Or.inl (Or.inr rfl)
          · exact Or.inr ⟨hv, hkg⟩
      · rw [ih hrest, List.mem_cons]
        constructor
        · rintro (hv | ⟨hv, hkg⟩)
          · exact Or.inl hv
          · exact Or.inr ⟨Or.inr hv, hkg⟩
        · rintro (hv | ⟨rfl | hv, hkg⟩)
          · exact Or.inl hv
          · rw [hu] at hkg
            simp at hkg
          · exact Or.inr ⟨hv, hkg⟩

/-- What the search from a sense finds, whatever subgraph its branches are added to. -/
def discoveries (kg : KnowledgeGraph) (rows : Rows) (maxDistance : Nat) (start : String) :
    Except GraphFault (List Discovery) :=
  (explore kg (rivals rows start) start maxDistance [start] ⟨[], [], {}⟩).outcome.map State.found

theorem discoveries_eq_ok_iff {start : String} {found : List Discovery} :
    discoveries kg rows maxDistance start = .ok found ↔
      ∃ s, (explore kg (rivals rows start) start maxDistance [start] ⟨[], [], {}⟩).outcome = .ok s ∧
        s.found = found := by
  rw [discoveries]
  cases (explore kg (rivals rows start) start maxDistance [start] ⟨[], [], {}⟩).outcome with
  | error fault => simp [Except.map]
  | ok s => simp [Except.map]

theorem discoveries_of_explore {start : String} {g : Subgraph} {s : State}
    (hrun : (explore kg (rivals rows start) start maxDistance [start] ⟨[], [], g⟩).outcome =
      .ok s) : discoveries kg rows maxDistance start = .ok s.found := by
  have hsame : SameProgress ⟨[], [], g⟩ ⟨[], [], {}⟩ := ⟨rfl, rfl⟩
  obtain ⟨t, ht, hfound⟩ := SameProgress.lockstep.explore hsame (by simp [Seen]) hrun
  exact discoveries_eq_ok_iff.mpr ⟨t, ht, hfound.found.symm⟩

theorem complete_of_discoveries {start : String} {found : List Discovery}
    (h : discoveries kg rows maxDistance start = .ok found) :
    Complete kg (rivals rows start) start maxDistance found := by
  obtain ⟨s, hexplore, rfl⟩ := discoveries_eq_ok_iff.mp h
  have hinitial : AtDistance kg (rivals rows start) start 0 [start] ⟨[], [], {}⟩ :=
    atDistance_start (rivals_self rows start) {}
  have hcomplete := hinitial.complete hexplore
  rwa [Nat.zero_add] at hcomplete

/-- One expansion adds the branches of a complete search. -/
theorem expand_eq_ok {start : String} {g g' : Subgraph}
    (hrun : (expand kg rows maxDistance start g).outcome = .ok g') :
    ∃ found, discoveries kg rows maxDistance start = .ok found ∧
      Complete kg (rivals rows start) start maxDistance found ∧
      g' = g.addEdges (branches (rivals rows start) found) := by
  rw [expand, Recorded.bind_eq, Recorded.outcome_andThen_eq_ok_iff] at hrun
  obtain ⟨s, hexplore, hs⟩ := hrun
  obtain rfl : s.graph = g' := by simpa using hs
  have hfound := discoveries_of_explore hexplore
  exact ⟨s.found, hfound, complete_of_discoveries hfound, graph_explore hexplore rfl⟩

/-- Finished searches, each with the sense it started from. -/
abbrev Trees := List (String × List Discovery)

/-- The edges of all branches of some searches, search by search. -/
def Trees.edges (rows : Rows) (trees : Trees) : List Edge :=
  trees.flatMap fun tree => branches (rivals rows tree.1) tree.2

theorem Trees.mem_edges_iff {trees : Trees} {e : Edge} :
    e ∈ trees.edges rows ↔
      ∃ start found, (start, found) ∈ trees ∧ e ∈ branches (rivals rows start) found := by
  simp [Trees.edges]

theorem expandAll_eq_ok {order : List String} :
    ∀ {g g' : Subgraph}, (expandAll kg rows maxDistance order g).outcome = .ok g' →
      ∃ trees : Trees,
        (∀ tree ∈ trees, tree.1 ∈ order ∧
          discoveries kg rows maxDistance tree.1 = .ok tree.2 ∧
          Complete kg (rivals rows tree.1) tree.1 maxDistance tree.2) ∧
        (∀ u ∈ order, g.contains u = true → ∃ found, (u, found) ∈ trees) ∧
        g' = g.addEdges (trees.edges rows) := by
  induction order with
  | nil =>
      intro g g' hrun
      obtain rfl : g = g' := by simpa [expandAll] using hrun
      exact ⟨[], by simp, by simp, rfl⟩
  | cons start rest ih =>
      intro g g' hrun
      rw [expandAll] at hrun
      split at hrun
      next hstart =>
        rw [Recorded.bind_eq, Recorded.outcome_andThen_eq_ok_iff] at hrun
        obtain ⟨h, hexpand, hrest⟩ := hrun
        obtain ⟨found, hdiscoveries, hcomplete, rfl⟩ := expand_eq_ok hexpand
        obtain ⟨trees, htrees, hsearched, rfl⟩ := ih hrest
        refine ⟨(start, found) :: trees, ?_, ?_, ?_⟩
        · intro tree htree
          rcases List.mem_cons.mp htree with rfl | htree
          · exact ⟨List.mem_cons_self, hdiscoveries, hcomplete⟩
          · exact ⟨List.mem_cons_of_mem _ (htrees tree htree).1, (htrees tree htree).2⟩
        · intro u hu hcontains
          rcases List.mem_cons.mp hu with rfl | hu
          · exact ⟨found, List.mem_cons_self⟩
          · obtain ⟨found', hfound'⟩ := hsearched u hu
              (Subgraph.contains_addEdges.mpr (Or.inl hcontains))
            exact ⟨found', List.mem_cons_of_mem _ hfound'⟩
        · rw [← Subgraph.addEdges_append]
          rfl
      next hstart =>
        obtain ⟨trees, htrees, hsearched, rfl⟩ := ih hrun
        refine ⟨trees, ?_, ?_, rfl⟩
        · intro tree htree
          exact ⟨List.mem_cons_of_mem _ (htrees tree htree).1, (htrees tree htree).2⟩
        · intro u hu hcontains
          rcases List.mem_cons.mp hu with rfl | hu
          · exact absurd hcontains hstart
          · exact hsearched u hu hcontains

/-! ## The whole subgraph -/

/-- What a subgraph holds, in terms of the searches it was grown by. -/
structure Explained (kg : KnowledgeGraph) (maxDistance : Nat) (rows : Rows) (g : Subgraph)
    (trees : Trees) : Prop where
  candidate : ∀ {start found}, (start, found) ∈ trees → Candidate rows start
  discoveries_eq : ∀ {start found}, (start, found) ∈ trees →
    discoveries kg rows maxDistance start = .ok found
  complete : ∀ {start found}, (start, found) ∈ trees →
    Complete kg (rivals rows start) start maxDistance found
  searched : ∀ {u}, Candidate rows u → kg.contains u = .ok true →
    ∃ found, (u, found) ∈ trees
  contains_iff : ∀ {u}, g.contains u = true ↔
    (Candidate rows u ∧ kg.contains u = .ok true) ∨
      ∃ e ∈ trees.edges rows, u = e.source ∨ u = e.target
  linked_iff : ∀ {a b}, g.linked a b = true ↔ ∃ e ∈ trees.edges rows, e.joins a b = true
  nodup : g.vertices.Nodup

theorem relevant_eq_ok_iff {result : Option Subgraph} :
    (relevant kg maxDistance rows).outcome = .ok result ↔
      ∃ vertices g, (addSenses kg (senses rows) {}).outcome = .ok vertices ∧
        (expandAll kg rows maxDistance (senses rows) vertices).outcome = .ok g ∧
        result = if g.isEmpty then none else some g := by
  simp only [relevant, Recorded.bind_eq, Recorded.outcome_andThen_eq_ok_iff, Recorded.note,
    Recorded.andThen_ok, Recorded.pure_eq, Except.ok.injEq]
  constructor
  · rintro ⟨vertices, hadd, g, hexpand, rfl⟩
    exact ⟨vertices, g, hadd, hexpand, rfl⟩
  · rintro ⟨vertices, g, hadd, hexpand, rfl⟩
    exact ⟨vertices, hadd, g, hexpand, rfl⟩

theorem explained_of_expandAll {vertices g : Subgraph}
    (hadd : (addSenses kg (senses rows) {}).outcome = .ok vertices)
    (hexpand : (expandAll kg rows maxDistance (senses rows) vertices).outcome = .ok g) :
    ∃ trees, Explained kg maxDistance rows g trees := by
  obtain ⟨trees, htrees, hsearched, rfl⟩ := expandAll_eq_ok hexpand
  have hvertices : ∀ {u}, vertices.contains u = true ↔
      Candidate rows u ∧ kg.contains u = .ok true := by
    intro u
    rw [contains_addSenses hadd, mem_senses_iff]
    simp [Subgraph.contains]
  have hlinked : ∀ {a b}, ¬ vertices.linked a b = true := by
    intro a b
    simp [Subgraph.linked, edges_addSenses hadd]
  refine ⟨trees, ?_, ?_, ?_, ?_, ?_, ?_, ?_⟩
  · intro start found htree
    exact mem_senses_iff.mp (htrees _ htree).1
  · intro start found htree
    exact (htrees _ htree).2.1
  · intro start found htree
    exact (htrees _ htree).2.2
  · intro u hu hcontains
    exact hsearched u (mem_senses_iff.mpr hu) (hvertices.mpr ⟨hu, hcontains⟩)
  · intro u
    rw [Subgraph.contains_addEdges, hvertices]
  · intro a b
    rw [Subgraph.linked_addEdges]
    exact or_iff_right hlinked
  · exact Subgraph.nodup_addEdges (nodup_addSenses hadd List.nodup_nil) _

theorem exists_explained {g : Subgraph}
    (hrun : (relevant kg maxDistance rows).outcome = .ok (some g)) :
    ∃ trees, Explained kg maxDistance rows g trees := by
  obtain ⟨vertices, g', hadd, hexpand, hresult⟩ := relevant_eq_ok_iff.mp hrun
  split at hresult
  next => simp at hresult
  next =>
    obtain rfl : g = g' := by simpa using hresult
    exact explained_of_expandAll hadd hexpand

theorem nodup_ends_of_relevant {g : Subgraph}
    (hrun : (relevant kg maxDistance rows).outcome = .ok (some g)) :
    (g.edges.map Edge.ends).Nodup := by
  obtain ⟨vertices, g', hadd, hexpand, hresult⟩ := relevant_eq_ok_iff.mp hrun
  obtain ⟨trees, -, -, rfl⟩ := expandAll_eq_ok hexpand
  split at hresult
  next => simp at hresult
  next =>
    obtain rfl : g = vertices.addEdges (trees.edges rows) := by simpa using hresult
    apply Subgraph.nodup_ends_addEdges
    simp [edges_addSenses hadd]

/-! ## Over a triple store -/

variable {store : TripleStore}

theorem steps_graph_iff (hclosed : store.Closed) :
    Steps store.graph u v ↔ store.Adjacent u v := by
  constructor
  · rintro ⟨links, hlinks, hl⟩
    obtain ⟨-, rfl⟩ := TripleStore.neighbours_eq_ok_iff.mp hlinks
    exact TripleStore.exists_mem_links_iff.mp hl
  · intro hadj
    exact ⟨store.links u,
      TripleStore.neighbours_eq_ok_iff.mpr ⟨hclosed.contains_left hadj, rfl⟩,
      TripleStore.exists_mem_links_iff.mpr hadj⟩

theorem contains_graph_iff : store.graph.contains u = .ok true ↔ store.contains u = true := by
  simp [TripleStore.graph]

theorem exists_addSenses_eq_ok (store : TripleStore) (order : List String) :
    ∀ g : Subgraph, ∃ g', (addSenses store.graph order g).outcome = .ok g' := by
  induction order with
  | nil => exact fun g => ⟨g, rfl⟩
  | cons u rest ih =>
      intro g
      cases hu : store.contains u with
      | true =>
          obtain ⟨g', hrest⟩ := ih (g.addVertex u)
          exact ⟨g', addSenses_cons_eq_ok_iff.mpr (Or.inl ⟨congrArg _ hu, hrest⟩)⟩
      | false =>
          obtain ⟨g', hrest⟩ := ih g
          exact ⟨g', addSenses_cons_eq_ok_iff.mpr (Or.inr ⟨congrArg _ hu, hrest⟩)⟩

theorem exists_expand_eq_ok (hclosed : store.Closed) (maxDistance : Nat) (rows : Rows)
    {start : String} (hstart : store.contains start = true) (g : Subgraph) :
    ∃ g', (expand store.graph rows maxDistance start g).outcome = .ok g' := by
  have hinside : ∀ u, store.contains u = true → ∃ links,
      store.graph.neighbours u = .ok links ∧ ∀ l ∈ links, store.contains l.uri = true := by
    intro u hu
    refine ⟨store.links u, TripleStore.neighbours_eq_ok_iff.mpr ⟨hu, rfl⟩, ?_⟩
    intro l hl
    exact hclosed.contains_right (TripleStore.exists_mem_links_iff.mp ⟨l, hl, rfl⟩)
  have hexplore : ∃ s, (explore store.graph (rivals rows start) start maxDistance [start]
      ⟨[], [], g⟩).outcome = .ok s :=
    explore_isOk hinside (by simpa using hstart)
  obtain ⟨s, hs⟩ := hexplore
  refine ⟨s.graph, ?_⟩
  rw [expand, Recorded.bind_eq, Recorded.outcome_andThen_eq_ok_iff]
  exact ⟨s, hs, rfl⟩

/-- Both ends of a branch's edges are vertices of the store. -/
theorem contains_ends_of_mem_branches (hclosed : store.Closed) {isTarget : String → Bool}
    {start : String} {found : List Discovery} (hgrown : Grown store.graph isTarget start found)
    {e : Edge} (he : e ∈ branches isTarget found) :
    store.contains e.source = true ∧ store.contains e.target = true := by
  obtain ⟨t, -, -, htrail⟩ := hgrown.mem_branches_iff.mp he
  have hadj := (steps_graph_iff hclosed).mp (hgrown.steps_of_mem_trail htrail)
  exact ⟨hclosed.contains_left hadj, hclosed.contains_right hadj⟩

/-- An expansion adds vertices of the store only. -/
theorem contains_of_expand (hclosed : store.Closed) {start : String} {g g' : Subgraph}
    (hrun : (expand store.graph rows maxDistance start g).outcome = .ok g')
    (hg : ∀ u, g.contains u = true → store.contains u = true) :
    ∀ u, g'.contains u = true → store.contains u = true := by
  obtain ⟨found, -, hcomplete, rfl⟩ := expand_eq_ok hrun
  intro u hu
  rcases Subgraph.contains_addEdges.mp hu with hu | ⟨e, he, hends⟩
  · exact hg u hu
  · have hcontains := contains_ends_of_mem_branches hclosed hcomplete.grown he
    rcases hends with rfl | rfl
    · exact hcontains.1
    · exact hcontains.2

/-- The senses that are added are vertices of the store. -/
theorem contains_of_addSenses {order : List String} {g : Subgraph}
    (hrun : (addSenses store.graph order {}).outcome = .ok g) :
    ∀ u, g.contains u = true → store.contains u = true := by
  intro u hu
  rcases (contains_addSenses hrun).mp hu with hu | ⟨-, hu⟩
  · exact absurd hu (Subgraph.not_contains_empty u)
  · exact contains_graph_iff.mp hu

theorem exists_expandAll_eq_ok (hclosed : store.Closed) (maxDistance : Nat) (rows : Rows)
    (order : List String) :
    ∀ {g : Subgraph}, (∀ u, g.contains u = true → store.contains u = true) →
      ∃ g', (expandAll store.graph rows maxDistance order g).outcome = .ok g' := by
  induction order with
  | nil => exact fun {g} _ => ⟨g, rfl⟩
  | cons start rest ih =>
      intro g hg
      rw [expandAll]
      split
      next hstart =>
        obtain ⟨h, hexpand⟩ :=
          exists_expand_eq_ok hclosed maxDistance rows (hg start hstart) g
        obtain ⟨g', hrest⟩ := ih (contains_of_expand hclosed hexpand hg)
        refine ⟨g', ?_⟩
        rw [Recorded.bind_eq, Recorded.outcome_andThen_eq_ok_iff]
        exact ⟨h, hexpand, hrest⟩
      next => exact ih hg

/-- A subgraph over a triple store holds vertices of the store only. -/
theorem Explained.contains_vertex (hclosed : store.Closed) {g : Subgraph} {trees : Trees}
    (h : Explained store.graph maxDistance rows g trees) (hu : g.contains u = true) :
    store.contains u = true := by
  rcases h.contains_iff.mp hu with ⟨-, hcontains⟩ | ⟨e, he, hends⟩
  · exact contains_graph_iff.mp hcontains
  · obtain ⟨start, found, htree, hbranch⟩ := Trees.mem_edges_iff.mp he
    have hcontains := contains_ends_of_mem_branches hclosed (h.complete htree).grown hbranch
    rcases hends with rfl | rfl
    · exact hcontains.1
    · exact hcontains.2

/-- Over a triple store the subgraph of a request is always constructed: there is none exactly when
no candidate is a vertex, and otherwise it is explained by complete searches. -/
theorem relevant_graph (hclosed : store.Closed) (maxDistance : Nat) (rows : Rows) :
    ((relevant store.graph maxDistance rows).outcome = .ok none ∧
        ∀ u, Candidate rows u → ¬ store.contains u = true) ∨
      ∃ g trees, (relevant store.graph maxDistance rows).outcome = .ok (some g) ∧
        Explained store.graph maxDistance rows g trees ∧
        ∃ u, Candidate rows u ∧ store.contains u = true := by
  obtain ⟨vertices, hadd⟩ := exists_addSenses_eq_ok store (senses rows) {}
  obtain ⟨g, hexpand⟩ :=
    exists_expandAll_eq_ok hclosed maxDistance rows (senses rows) (contains_of_addSenses hadd)
  obtain ⟨trees, htrees⟩ := explained_of_expandAll hadd hexpand
  have hrun := relevant_eq_ok_iff.mpr ⟨vertices, g, hadd, hexpand, rfl⟩
  by_cases hempty : g.isEmpty = true
  · left
    rw [if_pos hempty] at hrun
    refine ⟨hrun, ?_⟩
    intro u hu hcontains
    have hg : g.contains u = true :=
      htrees.contains_iff.mpr (Or.inl ⟨hu, contains_graph_iff.mpr hcontains⟩)
    rw [Subgraph.isEmpty, List.isEmpty_iff] at hempty
    simp [Subgraph.contains, hempty] at hg
  · right
    rw [if_neg hempty] at hrun
    refine ⟨g, trees, hrun, htrees, ?_⟩
    obtain ⟨u, hu⟩ : ∃ u, g.contains u = true := by
      rw [Subgraph.isEmpty, List.isEmpty_iff] at hempty
      obtain ⟨u, hu⟩ := List.exists_mem_of_ne_nil _ hempty
      exact ⟨u, Subgraph.contains_iff.mpr hu⟩
    rcases htrees.contains_iff.mp hu with ⟨hcandidate, hcontains⟩ | ⟨e, he, -⟩
    · exact ⟨u, hcandidate, contains_graph_iff.mp hcontains⟩
    · -- an edge belongs to a branch, and the target at its end is a candidate
      obtain ⟨start, found, htree, hbranch⟩ := Trees.mem_edges_iff.mp he
      have hgrown := (htrees.complete htree).grown
      obtain ⟨t, hdiscovered, htarget, -⟩ := hgrown.mem_branches_iff.mp hbranch
      obtain ⟨w, hstep⟩ := hgrown.exists_steps_of_discovered hdiscovered
      exact ⟨t, (rivals_iff.mp htarget).candidate,
        hclosed.contains_right ((steps_graph_iff hclosed).mp hstep)⟩

end Search
end EntityLinking
