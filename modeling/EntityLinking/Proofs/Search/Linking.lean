import EntityLinking.Proofs.Search.Relevance

/-!
# What the relevance subgraph links

The main statements describe the subgraph of a request by routes alone.  Nothing is in it without a
reason: every edge lies on a short simple route between two candidates that stand for different
mentions, and so does every vertex that is no candidate.  And nothing is missing: whenever the store
has a walk from a candidate to a rival whose interior the search may pass, the subgraph has a route
between the two that is no longer than the shortest such walk.
-/

namespace EntityLinking
namespace Search

variable {kg : KnowledgeGraph} {store : TripleStore} {rows : Rows} {maxDistance : Nat}
variable {g : Subgraph} {trees : Trees} {s t u v : String}

/-- A simple route of the subgraph, of at most the greatest distance, from a candidate to a rival
of it, that passes only vertices which belong to no other mention. -/
structure Connection (g : Subgraph) (rows : Rows) (maxDistance : Nat) (r : Route) : Prop where
  follows : r.Follows fun a b => g.linked a b = true
  simple : r.Simple
  length_le : r.length ≤ maxDistance
  source : Candidate rows r.source
  target : Candidate rows r.target
  rival : Rival rows r.source r.target
  passable : ∀ v ∈ r.interior, Passable rows r.source v

/-- A walk of the store between two vertices that passes only what a search from the first vertex
may pass.  It may come by a vertex more than once. -/
structure OpenWalk (store : TripleStore) (rows : Rows) (s t : String) (r : Route) : Prop where
  source : r.source = s
  target : r.target = t
  follows : r.Follows store.Adjacent
  passable : ∀ v ∈ r.interior, Passable rows s v

/-! ## Branches as connections -/

theorem Explained.linked_of_mem_branches (h : Explained kg maxDistance rows g trees)
    {start : String} {found : List Discovery} (htree : (start, found) ∈ trees)
    {e : Edge} (he : e ∈ branches (rivals rows start) found) :
    g.linked e.source e.target = true :=
  h.linked_iff.mpr ⟨e, Trees.mem_edges_iff.mpr ⟨start, found, htree, he⟩, e.joins_self⟩

/-- The branch to a target that a search has found connects the start with it, and is as long as the
target is deep. -/
theorem Explained.exists_connection (h : Explained kg maxDistance rows g trees)
    {start : String} {found : List Discovery} (htree : (start, found) ∈ trees)
    (hfound : Discovered found t) (hrival : rivals rows start t = true) :
    ∃ r : Route, Connection g rows maxDistance r ∧ r.source = start ∧ r.target = t ∧
      r.length = depth found t ∧
      ∀ e ∈ trail found t, [e.source, e.target] <:+: r.vertices := by
  have hcomplete := h.complete htree
  obtain ⟨r, rfl, rfl, hlength, hsimple, hopen, hfollows, huses⟩ :=
    hcomplete.grown.exists_route hfound
  refine ⟨r, ?_, rfl, rfl, hlength, huses⟩
  have hmem : ∀ e ∈ trail found r.target, e ∈ branches (rivals rows r.source) found :=
    fun e he => hcomplete.grown.mem_branches_iff.mpr ⟨r.target, hfound, hrival, he⟩
  constructor
  · apply hfollows.imp
    rintro a b ⟨e, he, rfl, rfl⟩
    exact h.linked_of_mem_branches htree (hmem e he)
  · exact hsimple
  · rw [hlength]
    exact hcomplete.depth_le (Or.inr hfound)
  · exact h.candidate htree
  · exact (rivals_iff.mp hrival).candidate
  · exact rivals_iff.mp hrival
  · intro v hv
    exact rivals_eq_false_iff.mp (hopen v hv)

/-- Every edge that the searches add is a step of the knowledge graph and of some connection. -/
theorem Explained.connection_of_mem_edges (h : Explained kg maxDistance rows g trees)
    {e : Edge} (he : e ∈ trees.edges rows) :
    Steps kg e.source e.target ∧
      ∃ r, Connection g rows maxDistance r ∧ [e.source, e.target] <:+: r.vertices := by
  obtain ⟨start, found, htree, hbranch⟩ := Trees.mem_edges_iff.mp he
  have hgrown := (h.complete htree).grown
  obtain ⟨t, hfound, hrival, htrail⟩ := hgrown.mem_branches_iff.mp hbranch
  obtain ⟨r, hr, -, -, -, huses⟩ := h.exists_connection htree hfound hrival
  exact ⟨hgrown.steps_of_mem_trail htrail, r, hr, huses e htrail⟩

theorem Connection.ne_of_infix {r : Route} (h : Connection g rows maxDistance r)
    {a b : String} (hab : [a, b] <:+: r.vertices) : a ≠ b := by
  have hnodup : [a, b].Nodup := h.simple.sublist hab.sublist
  simpa using hnodup

/-- Every edge lies on a simple route, so no search adds a loop. -/
theorem Explained.not_linked_self (h : Explained kg maxDistance rows g trees) (u : String) :
    g.linked u u = false := by
  rw [Bool.eq_false_iff]
  intro hloop
  obtain ⟨e, he, hjoins⟩ := h.linked_iff.mp hloop
  obtain ⟨-, r, hr, huses⟩ := h.connection_of_mem_edges he
  have hne := hr.ne_of_infix huses
  rcases Edge.joins_iff.mp hjoins with ⟨hsource, htarget⟩ | ⟨hsource, htarget⟩
  · exact hne (hsource.trans htarget.symm)
  · exact hne (hsource.trans htarget.symm)

/-- On a connection a vertex that is no candidate lies in the interior. -/
theorem Connection.mem_interior {r : Route} (h : Connection g rows maxDistance r)
    (hv : v ∈ r.vertices) (hnot : ¬ Candidate rows v) : v ∈ r.interior := by
  simp only [Route.vertices, List.mem_cons, List.mem_append, List.not_mem_nil, or_false] at hv
  rcases hv with rfl | hv | rfl
  · exact absurd h.source hnot
  · exact hv
  · exact absurd h.target hnot

/-! ## Nothing without a reason -/

/-- A subgraph woven from connections: it holds the candidates that are vertices of the store, its
edges are adjacencies of the store that lie on connections, and whatever is no candidate lies inside
a connection. -/
structure Woven (store : TripleStore) (rows : Rows) (maxDistance : Nat) (g : Subgraph) : Prop where
  candidates : ∀ u, Candidate rows u → store.contains u = true → g.contains u = true
  edges : ∀ a b, g.linked a b = true →
    g.contains a = true ∧ g.contains b = true ∧ a ≠ b ∧ store.Adjacent a b ∧
      ∃ r, Connection g rows maxDistance r ∧ r.Uses a b
  others : ∀ v, g.contains v = true → ¬ Candidate rows v →
    ∃ r, Connection g rows maxDistance r ∧ v ∈ r.interior
  loopless : ∀ v, g.linked v v = false
  degrees : ∀ v, g.contains v = true → ¬ Candidate rows v → 2 ≤ g.degree v

theorem Explained.edges_connected (hclosed : store.Closed)
    (h : Explained store.graph maxDistance rows g trees) {a b : String}
    (hab : g.linked a b = true) :
    g.contains a = true ∧ g.contains b = true ∧ a ≠ b ∧ store.Adjacent a b ∧
      ∃ r, Connection g rows maxDistance r ∧ r.Uses a b := by
  obtain ⟨e, he, hjoins⟩ := h.linked_iff.mp hab
  obtain ⟨hstep, r, hr, huses⟩ := h.connection_of_mem_edges he
  have hadj : store.Adjacent e.source e.target := (steps_graph_iff hclosed).mp hstep
  have hsource : g.contains e.source = true :=
    h.contains_iff.mpr (Or.inr ⟨e, he, Or.inl rfl⟩)
  have htarget : g.contains e.target = true :=
    h.contains_iff.mpr (Or.inr ⟨e, he, Or.inr rfl⟩)
  have hne := hr.ne_of_infix huses
  rcases Edge.joins_iff.mp hjoins with ⟨rfl, rfl⟩ | ⟨rfl, rfl⟩
  · exact ⟨hsource, htarget, hne, hadj, r, hr, Or.inl huses⟩
  · exact ⟨htarget, hsource, hne.symm, hadj.symm, r, hr, Or.inr huses⟩

theorem Explained.others_connected (h : Explained kg maxDistance rows g trees)
    (hv : g.contains v = true) (hnot : ¬ Candidate rows v) :
    ∃ r, Connection g rows maxDistance r ∧ v ∈ r.interior := by
  rcases h.contains_iff.mp hv with ⟨hcandidate, -⟩ | ⟨e, he, hends⟩
  · exact absurd hcandidate hnot
  · obtain ⟨-, r, hr, huses⟩ := h.connection_of_mem_edges he
    refine ⟨r, hr, hr.mem_interior (huses.subset ?_) hnot⟩
    rcases hends with rfl | rfl
    · exact List.mem_cons_self
    · exact List.mem_cons_of_mem _ List.mem_cons_self

theorem Explained.woven (hclosed : store.Closed)
    (h : Explained store.graph maxDistance rows g trees) : Woven store rows maxDistance g := by
  constructor
  · intro u hu hcontains
    exact h.contains_iff.mpr (Or.inl ⟨hu, contains_graph_iff.mpr hcontains⟩)
  · intro a b hab
    exact h.edges_connected hclosed hab
  · intro v hv hnot
    exact h.others_connected hv hnot
  · exact h.not_linked_self
  · intro v hv hnot
    obtain ⟨r, hr, hmem⟩ := h.others_connected hv hnot
    obtain ⟨x, y, hxy, hxv, hvy⟩ := Route.exists_neighbours_of_mem_interior hr.simple hmem
    have hx : g.linked v x = true := by
      rw [Subgraph.linked_comm]
      exact hr.follows.of_infix hxv
    have hy : g.linked v y = true := hr.follows.of_infix hvy
    exact Subgraph.two_le_degree hv (h.edges_connected hclosed hx).2.1
      (h.edges_connected hclosed hy).2.1 hx hy hxy

/-- A subgraph constructed over a store of triples is woven from connections; it has no loops, and
what is no candidate has at least two neighbours. -/
theorem relevant_woven (triples : List Triple) (rows : Rows) (maxDistance : Nat) (g : Subgraph)
    (hrun : (relevant (TripleStore.ofTriples triples).graph maxDistance rows).outcome =
      .ok (some g)) :
    Woven (TripleStore.ofTriples triples) rows maxDistance g := by
  obtain ⟨trees, h⟩ := exists_explained hrun
  exact h.woven (TripleStore.closed_ofTriples triples)

/-- Two rivals behind one vertex, with a loop at the start and a link that is stated twice. -/
def fork : List Triple :=
  [⟨"a", "p", "x"⟩, ⟨"b", "q", "x"⟩, ⟨"a", "r", "a"⟩, ⟨"x", "p", "a"⟩, ⟨"x", "p", "c"⟩]

theorem relevant_woven_fork :
    (relevant (TripleStore.ofTriples fork).graph 2 [["a"], ["b", "c"]]).outcome =
        .ok (some ⟨["a", "b", "c", "x"],
          [⟨"x", "q", "b"⟩, ⟨"a", "p", "x"⟩, ⟨"x", "p", "c"⟩]⟩) ∧
      Woven (TripleStore.ofTriples fork) [["a"], ["b", "c"]] 2
        ⟨["a", "b", "c", "x"], [⟨"x", "q", "b"⟩, ⟨"a", "p", "x"⟩, ⟨"x", "p", "c"⟩]⟩ := by
  have hrun : (relevant (TripleStore.ofTriples fork).graph 2 [["a"], ["b", "c"]]).outcome =
      .ok (some ⟨["a", "b", "c", "x"],
        [⟨"x", "q", "b"⟩, ⟨"a", "p", "x"⟩, ⟨"x", "p", "c"⟩]⟩) := by cbv
  exact ⟨hrun, relevant_woven fork [["a"], ["b", "c"]] 2 _ hrun⟩

/-! ## Nothing missing -/

theorem OpenWalk.contains_source {r : Route} (hclosed : store.Closed)
    (h : OpenWalk store rows s t r) : store.contains s = true := by
  obtain ⟨v, hstep⟩ := h.follows.exists_step
  rw [← h.source]
  exact hclosed.contains_left hstep

/-- A search from a candidate finds every rival that an open walk of at most the greatest distance
leads to, and connects it by a shortest route. -/
theorem Explained.exists_shortest (hclosed : store.Closed)
    (h : Explained store.graph maxDistance rows g trees)
    (hs : Candidate rows s) (hrival : Rival rows s t)
    {r : Route} (hr : OpenWalk store rows s t r) (hlength : r.length ≤ maxDistance) :
    ∃ p, Connection g rows maxDistance p ∧ p.source = s ∧ p.target = t ∧
      ∀ q, OpenWalk store rows s t q → p.length ≤ q.length := by
  obtain ⟨found, htree⟩ :=
    h.searched hs (contains_graph_iff.mpr (hr.contains_source hclosed))
  have hcomplete := h.complete htree
  have hfind : ∀ {q : Route}, OpenWalk store rows s t q → q.length ≤ maxDistance →
      Seen s found t ∧ depth found t ≤ q.length := by
    intro q hq hqlength
    rw [← hq.target]
    refine hcomplete.seen_of_route (rivals_self rows s) hq.source ?_ ?_ hqlength
    · intro w hw
      exact rivals_eq_false_iff.mpr (hq.passable w hw)
    · exact hq.follows.imp fun a b hab => (steps_graph_iff hclosed).mpr hab
  obtain ⟨hseen, hdepth⟩ := hfind hr hlength
  have hfound : Discovered found t := by
    rcases hseen with rfl | hfound
    · obtain ⟨i, ht, hnot⟩ := hrival
      exact absurd ht hnot
    · exact hfound
  obtain ⟨p, hp, hsource, htarget, hplength, -⟩ :=
    h.exists_connection htree hfound (rivals_iff.mpr hrival)
  refine ⟨p, hp, hsource, htarget, ?_⟩
  intro q hq
  rcases Nat.lt_or_ge maxDistance q.length with hlong | hshort
  · exact hp.length_le.trans hlong.le
  · rw [hplength]
    exact (hfind hq hshort).2

/-- If the store has an open walk of at most the greatest distance from a candidate to a rival, the
subgraph has a simple route between them that is no longer than any open walk. -/
theorem exists_relevant_shortest (triples : List Triple) (rows : Rows) (maxDistance : Nat)
    (s t : String) (hs : Candidate rows s) (hrival : Rival rows s t)
    (hwalk : ∃ r, OpenWalk (TripleStore.ofTriples triples) rows s t r ∧ r.length ≤ maxDistance) :
    ∃ g, (relevant (TripleStore.ofTriples triples).graph maxDistance rows).outcome =
        .ok (some g) ∧
      ∃ p : Route, p.source = s ∧ p.target = t ∧ p.Simple ∧
        p.Follows (fun a b => g.linked a b = true) ∧
        ∀ q, OpenWalk (TripleStore.ofTriples triples) rows s t q → p.length ≤ q.length := by
  have hclosed := TripleStore.closed_ofTriples triples
  obtain ⟨r, hr, hlength⟩ := hwalk
  rcases relevant_graph hclosed maxDistance rows with ⟨-, hnone⟩ | ⟨g, trees, hrun, h, -⟩
  · exact absurd (hr.contains_source hclosed) (hnone s hs)
  · obtain ⟨p, hp, hsource, htarget, hshortest⟩ :=
      h.exists_shortest hclosed hs hrival hr hlength
    exact ⟨g, hrun, p, hsource, htarget, hp.simple, hp.follows, hshortest⟩

/-- The rival stands at exactly the greatest distance, and another one is found on the way. -/
theorem exists_relevant_shortest_fork :
    Candidate [["a"], ["b", "c"]] "a" ∧ Rival [["a"], ["b", "c"]] "a" "c" ∧
      OpenWalk (TripleStore.ofTriples fork) [["a"], ["b", "c"]] "a" "c" ⟨"a", ["x"], "c"⟩ ∧
      ∃ g, (relevant (TripleStore.ofTriples fork).graph 2 [["a"], ["b", "c"]]).outcome =
          .ok (some g) ∧
        ∃ p : Route, p.source = "a" ∧ p.target = "c" ∧ p.Simple ∧
          p.Follows (fun a b => g.linked a b = true) ∧
          ∀ q, OpenWalk (TripleStore.ofTriples fork) [["a"], ["b", "c"]] "a" "c" q →
            p.length ≤ q.length := by
  have hs : Candidate [["a"], ["b", "c"]] "a" := candidate_iff.mpr ⟨["a"], by simp, by simp⟩
  have hrival : Rival [["a"], ["b", "c"]] "a" "c" := rivals_iff.mp (by decide)
  have hax : (TripleStore.ofTriples fork).Adjacent "a" "x" := by decide
  have hxc : (TripleStore.ofTriples fork).Adjacent "x" "c" := by decide
  have hwalk : OpenWalk (TripleStore.ofTriples fork) [["a"], ["b", "c"]] "a" "c"
      ⟨"a", ["x"], "c"⟩ := by
    refine ⟨rfl, rfl, List.isChain_cons_cons.mpr ⟨hax, List.isChain_pair.mpr hxc⟩, ?_⟩
    intro v hv
    obtain rfl : v = "x" := by simpa using hv
    exact rivals_eq_false_iff.mp (by decide)
  exact ⟨hs, hrival, hwalk,
    exists_relevant_shortest fork [["a"], ["b", "c"]] 2 "a" "c" hs hrival ⟨_, hwalk, le_rfl⟩⟩

end Search
end EntityLinking
