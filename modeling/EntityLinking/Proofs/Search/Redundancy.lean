import EntityLinking.Proofs.Graph.Centrality
import EntityLinking.Proofs.Graph.TripleStore
import EntityLinking.Proofs.Search.Counterpart

/-!
# Redundant triples

Of the links of a vertex a search takes the first to each vertex that it has not seen, in order of
number.  A second link between two vertices, under whatever predicate and in whatever direction, is
passed over, and so is a link from a vertex to itself.  Two stores that differ in nothing else are
searched in step: the same vertices are found from the same ones, at most under other predicates.
-/

namespace EntityLinking
namespace Search

variable {store store' : TripleStore} {rows : Rows} {isTarget : String → Bool}
variable {start u : String} {maxDistance : Nat} {found found' : List Discovery}
variable {s s' t t' : State} {g g' : Subgraph} {trees trees' : Trees} {fresh : List String}

/-! ## Discoveries without their predicates -/

/-- What a discovery is made from and what it finds. -/
def Discovery.ends (d : Discovery) : String × String :=
  (d.parent, d.vertex)

theorem discovered_iff : Discovered found u ↔ u ∈ (found.map Discovery.ends).map Prod.snd := by
  simp [Discovered, Discovery.ends]

theorem seen_congr (h : found.map Discovery.ends = found'.map Discovery.ends) :
    Seen start found u ↔ Seen start found' u := by
  rw [Seen, Seen, discovered_iff, discovered_iff, h]

theorem map_ends_trail : ∀ {found found' : List Discovery},
    found.map Discovery.ends = found'.map Discovery.ends →
      ∀ u, (trail found u).map Edge.ends = (trail found' u).map Edge.ends := by
  intro found
  induction found with
  | nil =>
      intro found' h u
      rw [List.map_eq_nil_iff.mp h.symm]
  | cons d older ih =>
      intro found' h u
      obtain ⟨d', older', rfl, hends, holder⟩ := List.map_eq_cons_iff.mp h.symm
      have hparent : d.parent = d'.parent := (congrArg Prod.fst hends).symm
      have hvertex : d.vertex = d'.vertex := (congrArg Prod.snd hends).symm
      by_cases hu : u = d.vertex
      · have hself : trail (d' :: older') d.vertex =
            ⟨d'.parent, d'.predicate, d'.vertex⟩ :: trail older' d'.parent := by
          rw [hvertex, trail_cons_self]
        rw [hu, trail_cons_self, hself, List.map_cons, List.map_cons, ih holder.symm,
          Edge.ends, Edge.ends, hparent, hvertex]
      · rw [trail_cons_of_ne hu, trail_cons_of_ne (hvertex ▸ hu)]
        exact ih holder.symm u

theorem map_ends_branches : ∀ {found found' : List Discovery},
    found.map Discovery.ends = found'.map Discovery.ends →
      (branches isTarget found).map Edge.ends = (branches isTarget found').map Edge.ends := by
  intro found
  induction found with
  | nil =>
      intro found' h
      rw [List.map_eq_nil_iff.mp h.symm]
  | cons d older ih =>
      intro found' h
      have htrail := map_ends_trail h
      obtain ⟨d', older', rfl, hends, holder⟩ := List.map_eq_cons_iff.mp h.symm
      have hvertex : d.vertex = d'.vertex := (congrArg Prod.snd hends).symm
      rw [branches, branches, List.map_append, List.map_append, ih holder.symm, ← hvertex]
      split
      · rw [htrail]
      · rfl

/-! ## What the links of a vertex add -/

/-- Between two states of a search these vertices have been found from `u`, one after the other. -/
structure Finds (isTarget : String → Bool) (u : String) (fresh : List String) (s s' : State) :
    Prop where
  found : s'.found.map Discovery.ends =
    (fresh.map fun v => (u, v)).reverse ++ s.found.map Discovery.ends
  next : s'.next = s.next ++ fresh.filter fun v => !isTarget v

theorem finds_visit {link : Link} (hnew : ¬ Seen start s.found link.uri) :
    Finds isTarget u [link.uri] s (visit isTarget start u s link) := by
  constructor
  · rw [found_visit_of_new hnew]
    rfl
  · cases ht : isTarget link.uri with
    | true => simp [visit_of_target hnew ht, ht]
    | false => simp [visit_of_open hnew ht, ht]

theorem Finds.cons {v : String} (h : Finds isTarget u [v] s s')
    (h' : Finds isTarget u fresh s' t) : Finds isTarget u (v :: fresh) s t := by
  constructor
  · rw [h'.found, h.found]
    simp
  · rw [h'.next, h.next, List.append_assoc, ← List.filter_append]
    rfl

/-- Looking at all links of a vertex finds those at their ends that are new, each once and in the
order of the links. -/
theorem exists_finds (isTarget : String → Bool) (start u : String) :
    ∀ (links : List Link) (s : State), ∃ fresh : List String,
      fresh.Sublist (links.map Link.uri) ∧ fresh.Nodup ∧
      (∀ v, v ∈ fresh ↔ v ∈ links.map Link.uri ∧ ¬ Seen start s.found v) ∧
      Finds isTarget u fresh s (links.foldl (visit isTarget start u) s) := by
  intro links
  induction links with
  | nil => exact fun s => ⟨[], .slnil, .nil, by simp, ⟨rfl, by simp⟩⟩
  | cons link links ih =>
      intro s
      by_cases hseen : Seen start s.found link.uri
      · obtain ⟨fresh, hsublist, hnodup, hmem, hfinds⟩ := ih s
        refine ⟨fresh, hsublist.cons _, hnodup, ?_, ?_⟩
        · intro v
          rw [hmem, List.map_cons, List.mem_cons, or_and_right, iff_or_self]
          rintro ⟨rfl, hnew⟩
          exact absurd hseen hnew
        · rwa [List.foldl_cons, visit_of_seen hseen]
      · obtain ⟨fresh, hsublist, hnodup, hmem, hfinds⟩ := ih (visit isTarget start u s link)
        have hlink : link.uri ∉ fresh := fun h => ((hmem _).mp h).2 seen_visit_self
        refine ⟨link.uri :: fresh, hsublist.cons_cons _, hnodup.cons hlink, ?_,
          (finds_visit hseen).cons hfinds⟩
        intro v
        rw [List.mem_cons, hmem, found_visit_of_new hseen, seen_cons, List.map_cons, List.mem_cons]
        by_cases hv : v = link.uri
        · simp [hv, hseen]
        · simp [hv]

/-! ## Stores searched in step -/

/-- Two states of a search that differ at most in predicates and in the subgraph that has been
grown. -/
structure SameTree (s t : State) : Prop where
  found : s.found.map Discovery.ends = t.found.map Discovery.ends
  next : s.next = t.next

theorem SameTree.finds (h : SameTree s t) (hs : Finds isTarget u fresh s s')
    (ht : Finds isTarget u fresh t t') : SameTree s' t' :=
  ⟨by rw [hs.found, h.found, ht.found], by rw [hs.next, h.next, ht.next]⟩

theorem SameTree.lockstep (hclosed : store.Closed) (h : store.Interchangeable store') :
    Lockstep store.graph store'.graph isTarget start SameTree where
  next := fun hst => hst.next
  clear := fun hst => ⟨hst.found, rfl⟩
  visits := by
    intro s t u links hst hu hlinks
    obtain ⟨hcontains, rfl⟩ := TripleStore.neighbours_eq_ok_iff.mp hlinks
    have hcontains' : store'.contains u = true := h.contains_eq u ▸ hcontains
    obtain ⟨fresh, hsublist, hnodup, hmem, hfinds⟩ :=
      exists_finds isTarget start u (store.links u) s
    obtain ⟨fresh', hsublist', hnodup', hmem', hfinds'⟩ :=
      exists_finds isTarget start u (store'.links u) t
    have hperm : fresh.Perm fresh' := by
      rw [List.perm_ext_iff_of_nodup hnodup hnodup']
      intro v
      rw [hmem, hmem', TripleStore.mem_uri_links_iff, TripleStore.mem_uri_links_iff,
        seen_congr hst.found]
      apply and_congr_left
      intro hnew
      apply h.adjacent_iff
      rintro rfl
      exact hnew ((seen_congr hst.found).mp hu)
    obtain rfl := h.eq_of_sublist hclosed hsublist hsublist' hperm
    exact ⟨store'.links u, TripleStore.neighbours_eq_ok_iff.mpr ⟨hcontains', rfl⟩,
      hst.finds hfinds hfinds'⟩

theorem map_ends_discoveries (hclosed : store.Closed) (h : store.Interchangeable store')
    (hfound : discoveries store.graph rows maxDistance start = .ok found)
    (hfound' : discoveries store'.graph rows maxDistance start = .ok found') :
    found.map Discovery.ends = found'.map Discovery.ends := by
  obtain ⟨s, hrun, rfl⟩ := discoveries_eq_ok_iff.mp hfound
  obtain ⟨t, hrun', rfl⟩ := discoveries_eq_ok_iff.mp hfound'
  have hstart : SameTree ⟨[], [], {}⟩ ⟨[], [], {}⟩ := ⟨rfl, rfl⟩
  obtain ⟨r, hrun'', hsame⟩ :=
    (SameTree.lockstep hclosed h).explore hstart (by simp [Seen]) hrun
  obtain rfl : t = r := by simpa [hrun'] using hrun''
  exact hsame.found

theorem outdone_of_interchangeable (hclosed : store.Closed) (h : store.Interchangeable store') :
    Outdone store store' rows rows maxDistance maxDistance start := by
  intro found found' hfound hfound' e he
  have hends : (branches (rivals rows start) found).map Edge.ends =
      (branches (rivals rows start) found').map Edge.ends :=
    map_ends_branches (map_ends_discoveries hclosed h hfound hfound')
  have hmem : e.ends ∈ (branches (rivals rows start) found').map Edge.ends :=
    hends ▸ List.mem_map_of_mem he
  exact List.mem_map.mp hmem

theorem Explained.part_of_interchangeable (hclosed : store.Closed)
    (hstores : store.Interchangeable store')
    (h : Explained store.graph maxDistance rows g trees)
    (h' : Explained store'.graph maxDistance rows g' trees') : g.Part g' :=
  h.part hclosed h' (fun _ hu => hu) (fun u hu => hstores.contains_eq u ▸ hu) fun _ _ =>
    outdone_of_interchangeable hclosed hstores

/-- Over interchangeable stores there are subgraphs with the same vertices and links, or none. -/
theorem relevant_interchangeable (hclosed : store.Closed) (hclosed' : store'.Closed)
    (hstores : store.Interchangeable store') (rows : Rows) (maxDistance : Nat) :
    ∃ result result', (relevant store.graph maxDistance rows).outcome = .ok result ∧
      (relevant store'.graph maxDistance rows).outcome = .ok result' ∧
      Option.Rel Subgraph.Alike result result' := by
  apply exists_relevant_rel hclosed hclosed'
  · simp only [hstores.contains_eq]
  · intro g g' trees trees' h h'
    have hpart := h.part_of_interchangeable hclosed hstores h'
    have hpart' := h'.part_of_interchangeable hclosed' hstores.symm h
    exact hpart.alike hpart' h.nodup h'.nodup

/-- A triple that says nothing new makes no difference to the subgraph, nor to the ranking by
degree. -/
theorem relevant_redundant {F S : Type} [HasUri S] {triples : List Triple} {extra : Triple}
    (h : TripleStore.Redundant triples extra) (candidates : SenseRows F S) (maxDistance : Nat) :
    ∃ result result',
      (relevant (TripleStore.ofTriples triples).graph maxDistance candidates.uris).outcome =
        .ok result ∧
      (relevant (TripleStore.ofTriples (triples ++ [extra])).graph maxDistance
        candidates.uris).outcome = .ok result' ∧
      Option.Rel (fun g g' => g.Alike g' ∧ (∀ u, g.degree u = g'.degree u) ∧
        ∀ k, DegreeCentrality.best candidates g k = DegreeCentrality.best candidates g' k)
        result result' := by
  obtain ⟨result, result', hrun, hrun', hresults⟩ :=
    relevant_interchangeable (TripleStore.closed_ofTriples triples)
      (TripleStore.closed_ofTriples (triples ++ [extra])) h.interchangeable candidates.uris
      maxDistance
  refine ⟨result, result', hrun, hrun', ?_⟩
  cases hresults with
  | none => exact .none
  | some halike =>
      exact .some ⟨halike, halike.degree_eq, DegreeCentrality.best_congr halike candidates⟩

/-- Two candidates with two ways between them. -/
def diamond : List Triple :=
  [⟨"a", "p", "x"⟩, ⟨"y", "p", "a"⟩, ⟨"x", "p", "b"⟩, ⟨"b", "p", "y"⟩]

theorem relevant_redundant_diamond :
    TripleStore.Redundant diamond ⟨"y", "o", "b"⟩ ∧
      ∃ result result',
        (relevant (TripleStore.ofTriples diamond).graph 2
          (SenseRows.uris [("m", ["a"]), ("n", ["b"])])).outcome = .ok result ∧
        (relevant (TripleStore.ofTriples (diamond ++ [⟨"y", "o", "b"⟩])).graph 2
          (SenseRows.uris [("m", ["a"]), ("n", ["b"])])).outcome = .ok result' ∧
        Option.Rel (fun g g' => g.Alike g' ∧ (∀ u, g.degree u = g'.degree u) ∧
          ∀ k, DegreeCentrality.best [("m", ["a"]), ("n", ["b"])] g k =
            DegreeCentrality.best [("m", ["a"]), ("n", ["b"])] g' k) result result' := by
  have h : TripleStore.Redundant diamond ⟨"y", "o", "b"⟩ :=
    ⟨by decide, by decide⟩
  exact ⟨h, relevant_redundant h [("m", ["a"]), ("n", ["b"])] 2⟩

end Search
end EntityLinking
