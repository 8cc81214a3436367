import EntityLinking.Proofs.Search.Counterpart

/-!
# Greater distances

A search that may go further begins like one that stops earlier: what the shorter one has found are
the oldest discoveries of the longer one, and each vertex keeps the parent that it was first seen
from.  So the subgraph only grows with the greatest distance.  It stops growing when that distance
reaches the number of vertices, because no branch is so long: then the search has seen all it can.
-/

namespace EntityLinking
namespace Search

variable {kg : KnowledgeGraph} {store : TripleStore} {rows : Rows} {isTarget : String → Bool}
variable {start u : String} {distance extra maxDistance maxDistance' : Nat} {frontier : List String}
variable {s s' t : State} {link : Link} {found found' : List Discovery}
variable {g g' : Subgraph} {trees trees' : Trees}

/-! ## Older discoveries -/

theorem suffix_found_visit : s.found <:+ (visit isTarget start u s link).found := by
  by_cases hseen : Seen start s.found link.uri
  · rw [visit_of_seen hseen]
  · rw [found_visit_of_new hseen]
    exact List.suffix_cons _ _

/-- A search forgets nothing that was found before. -/
theorem suffix_found_explore
    (hrun : (explore kg isTarget start distance frontier s).outcome = .ok s') :
    s.found <:+ s'.found :=
  explore_induction (P := fun t => s.found <:+ t.found) (fun _ ht => ht)
    (fun _ _ _ ht => ht.trans suffix_found_visit) hrun List.suffix_rfl

/-- A search that may go further goes on from where the other one stops. -/
theorem suffix_found_explore_add :
    ∀ {distance : Nat} {frontier : List String} {s s' t : State},
      (explore kg isTarget start distance frontier s).outcome = .ok s' →
        (explore kg isTarget start (distance + extra) frontier s).outcome = .ok t →
          s'.found <:+ t.found := by
  intro distance
  induction distance with
  | zero =>
      intro frontier s s' t hrun hrun'
      obtain rfl : s = s' := by simpa [explore] using hrun
      exact suffix_found_explore hrun'
  | succ distance ih =>
      intro frontier s s' t hrun hrun'
      rw [Nat.succ_add_eq_add_succ, Nat.add_succ] at hrun'
      cases frontier with
      | nil =>
          obtain rfl : s = s' := by simpa [explore] using hrun
          exact suffix_found_explore hrun'
      | cons u rest =>
          obtain ⟨r, hlevel, hrest⟩ := explore_succ_cons_eq_ok_iff.mp hrun
          obtain ⟨r', hlevel', hrest'⟩ := explore_succ_cons_eq_ok_iff.mp hrun'
          obtain rfl : r = r' := by simpa [hlevel] using hlevel'
          exact ih hrest hrest'

theorem suffix_of_discoveries (hle : maxDistance ≤ maxDistance')
    (hfound : discoveries kg rows maxDistance start = .ok found)
    (hfound' : discoveries kg rows maxDistance' start = .ok found') : found <:+ found' := by
  obtain ⟨s, hrun, rfl⟩ := discoveries_eq_ok_iff.mp hfound
  obtain ⟨t, hrun', rfl⟩ := discoveries_eq_ok_iff.mp hfound'
  obtain ⟨extra, rfl⟩ := Nat.exists_eq_add_of_le hle
  exact suffix_found_explore_add hrun hrun'

/-- Later discoveries add their branches behind those of the earlier ones. -/
theorem prefix_branches (h : found <:+ found') :
    branches isTarget found <+: branches isTarget found' := by
  obtain ⟨newer, rfl⟩ := h
  induction newer with
  | nil => exact List.prefix_rfl
  | cons d newer ih => exact ih.trans (List.prefix_append _ _)

theorem outdone_of_le (hle : maxDistance ≤ maxDistance') :
    Outdone store store rows rows maxDistance maxDistance' start := by
  intro found found' hfound hfound' e he
  exact ⟨e, (prefix_branches (suffix_of_discoveries hle hfound hfound')).subset he, rfl⟩

theorem Explained.part_of_le (hclosed : store.Closed) (hle : maxDistance ≤ maxDistance')
    (h : Explained store.graph maxDistance rows g trees)
    (h' : Explained store.graph maxDistance' rows g' trees') : g.Part g' :=
  h.part hclosed h' (fun _ hu => hu) (fun _ hu => hu) fun _ _ => outdone_of_le hle

/-! ## Searches that have seen all they can -/

/-- A branch is shorter than the store has vertices. -/
theorem Grown.depth_lt_vertexCount (hclosed : store.Closed)
    (h : Grown store.graph isTarget start found) (hstart : store.contains start = true)
    (u : String) : depth found u < store.vertexCount := by
  have hsub : start :: stem found u ⊆ store.vertices := by
    intro w hw
    rcases List.mem_cons.mp hw with rfl | hw
    · exact TripleStore.contains_iff.mp hstart
    · obtain ⟨v, hstep⟩ := h.exists_steps_of_discovered (h.discovered_of_mem_stem hw)
      have hadj := (steps_graph_iff hclosed).mp hstep
      exact TripleStore.contains_iff.mp (hclosed.contains_right hadj)
  have hlength := (List.subperm_of_subset (h.nodup_stem u) hsub).length_le
  rw [List.length_cons, length_stem] at hlength
  exact hlength

/-- The discoveries of a search that has seen everything its open vertices lead to cannot be
continued. -/
theorem Grown.eq_of_suffix (h : Grown kg isTarget start found') (hsuffix : found <:+ found')
    (hall : ∀ {u v : String}, Seen start found u → isTarget u = false → Steps kg u v →
      Seen start found v) : found = found' := by
  induction h with
  | nil => exact List.suffix_nil.mp hsuffix
  | @cons d older holder hparent hopen hnew hstep ih =>
      rcases List.suffix_cons_iff.mp hsuffix with hsame | holderSuffix
      · exact hsame
      · obtain rfl := ih holderSuffix
        exact absurd (hall hparent hopen hstep) hnew

theorem discoveries_eq_of_vertexCount_le (hclosed : store.Closed)
    (hstart : store.contains start = true) (hbound : store.vertexCount ≤ maxDistance)
    (hle : maxDistance ≤ maxDistance')
    (hfound : discoveries store.graph rows maxDistance start = .ok found)
    (hfound' : discoveries store.graph rows maxDistance' start = .ok found') : found = found' := by
  have hcomplete := complete_of_discoveries hfound
  have hgrown' := (complete_of_discoveries hfound').grown
  apply hgrown'.eq_of_suffix (suffix_of_discoveries hle hfound hfound')
  intro u v hu hopen hstep
  have hdepth : depth found u < maxDistance :=
    (hcomplete.grown.depth_lt_vertexCount hclosed hstart u).trans_le hbound
  exact (hcomplete.closed hu hopen hdepth hstep).1

theorem outdone_of_vertexCount_le (hclosed : store.Closed) (hstart : store.contains start = true)
    (hbound : store.vertexCount ≤ maxDistance') :
    Outdone store store rows rows maxDistance maxDistance' start := by
  rcases Nat.le_total maxDistance maxDistance' with hle | hle
  · exact outdone_of_le hle
  · intro found found' hfound hfound' e he
    obtain rfl := discoveries_eq_of_vertexCount_le hclosed hstart hbound hle hfound' hfound
    exact ⟨e, he, rfl⟩

theorem Explained.part_of_vertexCount_le (hclosed : store.Closed)
    (hbound : store.vertexCount ≤ maxDistance')
    (h : Explained store.graph maxDistance rows g trees)
    (h' : Explained store.graph maxDistance' rows g' trees') : g.Part g' :=
  h.part hclosed h' (fun _ hu => hu) (fun _ hu => hu) fun _ hstart =>
    outdone_of_vertexCount_le hclosed hstart hbound

/-- A greater distance takes nothing away from a subgraph, so no degree falls; whether there is a
subgraph does not depend on it at all.  From the number of vertices on it makes no difference. -/
theorem relevant_grows (triples : List Triple) (rows : Rows) (maxDistance maxDistance' : Nat) :
    ∃ result result',
      (relevant (TripleStore.ofTriples triples).graph maxDistance rows).outcome = .ok result ∧
      (relevant (TripleStore.ofTriples triples).graph maxDistance' rows).outcome = .ok result' ∧
      result.isNone = result'.isNone ∧
      (maxDistance ≤ maxDistance' →
        Option.Rel (fun g g' => g.Part g' ∧ ∀ u, g.degree u ≤ g'.degree u) result result') ∧
      ((TripleStore.ofTriples triples).vertexCount ≤ maxDistance →
        (TripleStore.ofTriples triples).vertexCount ≤ maxDistance' →
          Option.Rel Subgraph.Alike result result') := by
  have hclosed := TripleStore.closed_ofTriples triples
  have hcompare : ∀ {g g' trees trees'},
      Explained (TripleStore.ofTriples triples).graph maxDistance rows g trees →
      Explained (TripleStore.ofTriples triples).graph maxDistance' rows g' trees' →
        (maxDistance ≤ maxDistance' → g.Part g' ∧ ∀ u, g.degree u ≤ g'.degree u) ∧
        ((TripleStore.ofTriples triples).vertexCount ≤ maxDistance →
          (TripleStore.ofTriples triples).vertexCount ≤ maxDistance' → g.Alike g') := by
    intro g g' trees trees' h h'
    constructor
    · intro hle
      have hpart := h.part_of_le hclosed hle h'
      exact ⟨hpart, hpart.degree_le h.nodup⟩
    · intro hbound hbound'
      have hpart := h.part_of_vertexCount_le hclosed hbound' h'
      have hpart' := h'.part_of_vertexCount_le hclosed hbound h
      exact hpart.alike hpart' h.nodup h'.nodup
  obtain ⟨result, result', hrun, hrun', hresults⟩ :=
    exists_relevant_rel hclosed hclosed Iff.rfl hcompare
  refine ⟨result, result', hrun, hrun', ?_⟩
  cases hresults with
  | none => exact ⟨rfl, fun _ => .none, fun _ _ => .none⟩
  | some hgraphs =>
      exact ⟨rfl, fun hle => .some (hgraphs.1 hle), fun hbound hbound' =>
        .some (hgraphs.2 hbound hbound')⟩

/-- Two candidates at distance two, and a vertex beyond that only a longer search comes by. -/
def ladder : List Triple :=
  [⟨"a", "p", "x"⟩, ⟨"x", "p", "b"⟩, ⟨"x", "p", "y"⟩]

theorem relevant_grows_ladder :
    (∃ result result', (relevant (TripleStore.ofTriples ladder).graph 1 [["a"], ["b"]]).outcome =
          .ok result ∧
        (relevant (TripleStore.ofTriples ladder).graph 2 [["a"], ["b"]]).outcome = .ok result' ∧
        result.isNone = result'.isNone ∧ 1 ≤ 2 ∧
        Option.Rel (fun g g' => g.Part g' ∧ ∀ u, g.degree u ≤ g'.degree u) result result') ∧
      ∃ result result', (relevant (TripleStore.ofTriples ladder).graph 5 [["a"], ["b"]]).outcome =
          .ok result ∧
        (relevant (TripleStore.ofTriples ladder).graph 4 [["a"], ["b"]]).outcome = .ok result' ∧
        result.isNone = result'.isNone ∧
        (TripleStore.ofTriples ladder).vertexCount ≤ 5 ∧
        (TripleStore.ofTriples ladder).vertexCount ≤ 4 ∧
        Option.Rel Subgraph.Alike result result' := by
  have hcount : (TripleStore.ofTriples ladder).vertexCount = 4 := by decide
  constructor
  · obtain ⟨result, result', hrun, hrun', hnone, hgrows, -⟩ :=
      relevant_grows ladder [["a"], ["b"]] 1 2
    exact ⟨result, result', hrun, hrun', hnone, by decide, hgrows (by decide)⟩
  · obtain ⟨result, result', hrun, hrun', hnone, -, hsaturated⟩ :=
      relevant_grows ladder [["a"], ["b"]] 5 4
    have hbound : (TripleStore.ofTriples ladder).vertexCount ≤ 5 := by omega
    exact ⟨result, result', hrun, hrun', hnone, hbound, hcount.le, hsaturated hbound hcount.le⟩

end Search
end EntityLinking
