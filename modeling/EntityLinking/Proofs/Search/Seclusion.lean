import EntityLinking.Proofs.Graph.Centrality
import EntityLinking.Proofs.Search.Component

/-!
# Contested and secluded senses

Whether a candidate has neighbours in the subgraph of a request can be told from the store and the
owners alone.  It has some if a rival stands near it: its own search links it with the first rival
on the way there.  It has none if all candidates near it have the same owners: on a connection
through it both ends would be near it, and the ends of a connection never have the same owners.  So
a contested candidate outranks every secluded one.
-/

namespace EntityLinking
namespace Search

variable {store : TripleStore} {rows : Rows} {maxDistance : Nat}
variable {g : Subgraph} {trees : Trees} {u v : String}

/-- A walk of the store of at most so many steps leads from one vertex to another. -/
def Near (store : TripleStore) (maxDistance : Nat) (s t : String) : Prop :=
  ∃ r : Route, r.source = s ∧ r.target = t ∧ r.Follows store.Adjacent ∧ r.length ≤ maxDistance

/-- Some mention that lacks this sense has another one near it. -/
def Contested (store : TripleStore) (rows : Rows) (maxDistance : Nat) (u : String) : Prop :=
  ∃ t, Near store maxDistance u t ∧ Rival rows u t

/-- All other candidates near this sense belong to the same mentions as it does. -/
def Secluded (store : TripleStore) (rows : Rows) (maxDistance : Nat) (u : String) : Prop :=
  ∀ t, Candidate rows t → t ≠ u → Near store maxDistance u t → ∀ i, Owns rows i t ↔ Owns rows i u

/-! ## Degrees -/

theorem Explained.degree_pos_of_contested (hclosed : store.Closed)
    (h : Explained store.graph maxDistance rows g trees) (hu : Candidate rows u)
    (hcontested : Contested store rows maxDistance u) : 0 < g.degree u := by
  obtain ⟨t, ⟨r, rfl, rfl, hfollows, hlength⟩, hrival⟩ := hcontested
  obtain ⟨v, -, ⟨i, hiv, hir⟩, hjoined⟩ :
      ∃ v ∈ r.interior ++ [r.target], Rival rows r.source v ∧ g.Joined r.source v :=
    h.exists_joined_rival hclosed hu hfollows (by simpa [Route.length] using hlength) (by simp)
      hrival
  rcases Relation.ReflTransGen.cases_head hjoined with rfl | ⟨w, hlinked, -⟩
  · exact absurd hiv hir
  · obtain ⟨hsource, hw, -⟩ := h.edges_connected hclosed hlinked
    exact Subgraph.degree_pos_iff.mpr ⟨hsource, w, hw, hlinked⟩

/-- A connection through a vertex stays near it. -/
theorem Explained.near_of_mem_vertices (hclosed : store.Closed)
    (h : Explained store.graph maxDistance rows g trees) {r : Route}
    (hr : Connection g rows maxDistance r) (hu : u ∈ r.vertices) (hv : v ∈ r.vertices)
    (huv : u ≠ v) : Near store maxDistance u v := by
  have hfollows : r.Follows store.Adjacent :=
    hr.follows.imp fun a b hab => (h.edges_connected hclosed hab).2.2.2.1
  obtain ⟨p, hsource, htarget, hp, hlength⟩ :=
    hfollows.exists_between (fun a b hab => hab.symm) hu hv huv
  exact ⟨p, hsource, htarget, hp, hlength.trans hr.length_le⟩

theorem Explained.degree_eq_zero_of_secluded (hclosed : store.Closed)
    (h : Explained store.graph maxDistance rows g trees)
    (hsecluded : Secluded store rows maxDistance u) : g.degree u = 0 := by
  by_contra hdegree
  obtain ⟨-, w, -, hlinked⟩ := Subgraph.degree_pos_iff.mp (Nat.pos_of_ne_zero hdegree)
  obtain ⟨-, -, -, -, r, hr, huses⟩ := h.edges_connected hclosed hlinked
  have hu : u ∈ r.vertices := by
    rcases huses with huses | huses
    · exact huses.subset List.mem_cons_self
    · exact huses.subset (List.mem_cons_of_mem _ List.mem_cons_self)
  have howners : ∀ v ∈ r.vertices, Candidate rows v → ∀ i, Owns rows i v ↔ Owns rows i u := by
    intro v hv hcandidate
    by_cases hvu : v = u
    · subst hvu
      exact fun i => Iff.rfl
    · exact hsecluded v hcandidate hvu (h.near_of_mem_vertices hclosed hr hu hv (Ne.symm hvu))
  -- the ends of the connection would have the owners of `u` in common
  obtain ⟨i, htarget, hsource⟩ := hr.rival
  have hiu : Owns rows i u := (howners r.target (by simp [Route.vertices]) hr.target i).mp htarget
  exact hsource ((howners r.source (by simp [Route.vertices]) hr.source i).mpr hiu)

theorem Explained.degree_eq_zero_of_not_contains (hclosed : store.Closed)
    (h : Explained store.graph maxDistance rows g trees) (hu : ¬ store.contains u = true) :
    g.degree u = 0 := by
  by_contra hdegree
  obtain ⟨-, w, -, hlinked⟩ := Subgraph.degree_pos_iff.mp (Nat.pos_of_ne_zero hdegree)
  obtain ⟨-, -, -, hadj, -⟩ := h.edges_connected hclosed hlinked
  exact hu (hclosed.contains_left hadj)

/-! ## Ranks -/

open Classical in
/-- A subgraph in which contested candidates have neighbours and secluded ones have none.  So
whatever number is wanted, the scores list all contested candidates of a mention before a secluded
one of it, or one that is no vertex of the store. -/
structure Discerning {F S : Type} [HasUri S] (store : TripleStore) (rows : SenseRows F S)
    (maxDistance : Nat) (g : Subgraph) : Prop where
  contested : ∀ u, Candidate rows.uris u → store.contains u = true →
    Contested store rows.uris maxDistance u → 1 ≤ g.degree u
  secluded : ∀ u, Candidate rows.uris u → store.contains u = true →
    Secluded store rows.uris maxDistance u → g.degree u = 0
  listed : ∀ (k i : Nat) (form : F) (senses : List S), rows[i]? = some (form, senses) →
    ∃ scored, (DegreeCentrality.best rows g k)[i]? = some (form, scored) ∧
      ∀ before c after, scored = before ++ c :: after →
        (Secluded store rows.uris maxDistance (HasUri.uri c.sense) ∨
          ¬ store.contains (HasUri.uri c.sense) = true) →
        ((before.map Scored.sense).filter fun x =>
            Contested store rows.uris maxDistance (HasUri.uri x)).Perm
          (senses.filter fun x => Contested store rows.uris maxDistance (HasUri.uri x))

theorem candidate_uris {F S : Type} [HasUri S] {rows : SenseRows F S} {i : Nat} {form : F}
    {senses : List S} (hrow : rows[i]? = some (form, senses)) {x : S} (hx : x ∈ senses) :
    Candidate rows.uris (HasUri.uri x) :=
  ⟨i, senses.map HasUri.uri, by rw [SenseRows.uris, List.getElem?_map, hrow]; rfl,
    List.mem_map_of_mem hx⟩

theorem Explained.discerning {F S : Type} [HasUri S] {rows : SenseRows F S}
    (hclosed : store.Closed) (h : Explained store.graph maxDistance rows.uris g trees) :
    Discerning store rows maxDistance g := by
  constructor
  · intro u hu _ hcontested
    exact h.degree_pos_of_contested hclosed hu hcontested
  · intro u _ _ hsecluded
    exact h.degree_eq_zero_of_secluded hclosed hsecluded
  · intro k i form senses hrow
    have hbest : (DegreeCentrality.best rows g k)[i]? = some (form,
        (Ranked.sortDescending Scored.score (DegreeCentrality.scoreRow g form senses)).take k) := by
      rw [DegreeCentrality.best, List.getElem?_map, hrow]
      rfl
    refine ⟨_, hbest, ?_⟩
    intro before c after hlisted hidle
    have hzero : g.degree (HasUri.uri c.sense) = 0 := by
      rcases hidle with hsecluded | hnone
      · exact h.degree_eq_zero_of_secluded hclosed hsecluded
      · exact h.degree_eq_zero_of_not_contains hclosed hnone
    apply DegreeCentrality.filter_perm_of_take_scoreRow (h.woven hclosed).loopless hlisted
    intro x hx hcontested
    have hcontested : Contested store rows.uris maxDistance (HasUri.uri x) := by
      simpa using hcontested
    rw [hzero]
    exact h.degree_pos_of_contested hclosed (candidate_uris hrow hx) hcontested

/-- As soon as a candidate is a vertex, there is a subgraph, and in it contested candidates outrank
secluded ones. -/
theorem exists_relevant_discerning {F S : Type} [HasUri S] (triples : List Triple)
    (rows : SenseRows F S) (maxDistance : Nat)
    (hvertex : ∃ u, Candidate rows.uris u ∧ (TripleStore.ofTriples triples).contains u = true) :
    ∃ g, (relevant (TripleStore.ofTriples triples).graph maxDistance rows.uris).outcome =
        .ok (some g) ∧
      Discerning (TripleStore.ofTriples triples) rows maxDistance g := by
  have hclosed := TripleStore.closed_ofTriples triples
  obtain ⟨u, hu, hcontains⟩ := hvertex
  rcases relevant_graph hclosed maxDistance rows.uris with ⟨-, hnone⟩ | ⟨g, trees, hrun, h, -⟩
  · exact absurd hcontains (hnone u hu)
  · exact ⟨g, hrun, h.discerning hclosed⟩

/-- Two pairs of vertices with nothing between them. -/
def islands : List Triple :=
  [⟨"c", "p", "d"⟩, ⟨"b", "p", "a"⟩]

/-- A mention with three candidates, of which the lookup has the contested one last, and a
mention with its rival. -/
def offers : SenseRows String String :=
  [("x", ["c", "z", "a"]), ("y", ["b"])]

theorem exists_relevant_discerning_islands :
    (∃ u, Candidate offers.uris u ∧ (TripleStore.ofTriples islands).contains u = true) ∧
      Contested (TripleStore.ofTriples islands) offers.uris 1 "a" ∧
      Secluded (TripleStore.ofTriples islands) offers.uris 1 "c" ∧
      ∃ g, (relevant (TripleStore.ofTriples islands).graph 1 offers.uris).outcome = .ok (some g) ∧
        Discerning (TripleStore.ofTriples islands) offers 1 g := by
  have hvertex : ∃ u, Candidate offers.uris u ∧
      (TripleStore.ofTriples islands).contains u = true :=
    ⟨"a", candidate_iff.mpr ⟨["c", "z", "a"], by decide, by decide⟩, by decide⟩
  have hab : (TripleStore.ofTriples islands).Adjacent "a" "b" := by decide
  have hnear : Near (TripleStore.ofTriples islands) 1 "a" "b" :=
    ⟨⟨"a", [], "b"⟩, rfl, rfl, List.isChain_pair.mpr hab, le_rfl⟩
  have hrival : Rival offers.uris "a" "b" := rivals_iff.mp (by decide)
  have hsecluded : Secluded (TripleStore.ofTriples islands) offers.uris 1 "c" := by
    rintro t ht - ⟨⟨s, interior, t⟩, rfl, rfl, hfollows, hlength⟩
    obtain rfl : interior = [] :=
      List.eq_nil_of_length_eq_zero (Nat.le_zero.mp (Nat.le_of_succ_le_succ hlength))
    have hapart : ∀ v ∈ senses offers.uris,
        ¬ (TripleStore.ofTriples islands).Adjacent "c" v := by decide
    exact absurd (List.isChain_pair.mp hfollows) (hapart t (mem_senses_iff.mpr ht))
  exact ⟨hvertex, ⟨"b", hnear, hrival⟩, hsecluded,
    exists_relevant_discerning islands offers 1 hvertex⟩

end Search
end EntityLinking
