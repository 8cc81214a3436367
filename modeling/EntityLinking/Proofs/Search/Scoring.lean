import EntityLinking.Proofs.Graph.Centrality
import EntityLinking.Proofs.Graph.Simple
import EntityLinking.Proofs.Search.Linking
import EntityLinking.Proofs.Table.Assembly

/-!
# Shortlists by degree centrality

Every form of a request gets a shortlist of its senses: the best of them by score, at most so many,
where senses that tie keep their order.  A score is the share of the other vertices that a sense is
linked with.  In a subgraph that has a loop it can exceed one, since the loop counts as well; the
subgraphs that the search constructs have no loops.
-/

namespace EntityLinking

theorem Rat.stablySorted_sortDescending {α : Type} (key : α → Rat) (given : List α) :
    StablySorted (fun x y => y < x) key given (Ranked.sortDescending key given) := by
  apply Ranked.stablySorted_sortDescending
  intro x y hlt
  exact decide_eq_false (not_le.mpr hlt)

namespace Search

theorem vertexCount_pos_of_relevant {kg : KnowledgeGraph} {rows : Rows} {maxDistance : Nat}
    {g : Subgraph} (hrun : (relevant kg maxDistance rows).outcome = .ok (some g)) :
    0 < g.vertexCount := by
  obtain ⟨-, g', -, -, hresult⟩ := relevant_eq_ok_iff.mp hrun
  by_cases hempty : g'.isEmpty = true
  · simp [hempty] at hresult
  · obtain rfl : g = g' := by simpa [hempty] using hresult
    rw [Subgraph.vertexCount, List.length_pos_iff]
    simpa [Subgraph.isEmpty] using hempty

end Search

namespace DegreeCentrality

variable {F S : Type} [HasUri S] {g : Subgraph} {u : String}

/-! ## Scores -/

theorem score_of_many (hmany : 1 < g.vertexCount) (u : String) :
    score g u = (g.degree u : Rat) / ((g.vertexCount : Rat) - 1) := by
  have hsome : 0 < g.vertexCount := by omega
  rw [score_eq_share hsome, share, if_neg hmany.ne']

theorem score_of_absent (hu : g.contains u = false) : score g u = 0 := by
  have hdegree : g.degree u = 0 := if_neg (Bool.eq_false_iff.mp hu)
  rw [score, hdegree]
  simp

theorem score_nonneg (g : Subgraph) (u : String) : 0 ≤ score g u := by
  rw [score]
  split
  · exact le_rfl
  · positivity

theorem score_le_one (hdegree : g.degree u ≤ g.vertexCount - 1) : score g u ≤ 1 := by
  rw [score]
  split
  · exact zero_le_one
  · exact div_le_one_of_le₀ (Nat.cast_le.mpr hdegree) (Nat.cast_nonneg _)

/-- How a subgraph that has grown by a history scores a sense. -/
structure Share (history : List Subgraph.Growth) (g : Subgraph) (u : String) (x : Rat) : Prop where
  few : g.vertexCount ≤ 1 → x = 0
  absent : g.contains u = false → x = 0
  many : 1 < g.vertexCount → x = (g.degree u : Rat) / ((g.vertexCount : Rat) - 1)
  vertexCount_eq : g.vertexCount = (history.flatMap Subgraph.Growth.mentions).toFinset.card
  degree_eq : g.degree u = {v | ∃ e ∈ Subgraph.requested history, e.joins u v = true}.ncard

theorem share_grown (history : List Subgraph.Growth) (u : String) :
    Share history (Subgraph.grown history) u (score (Subgraph.grown history) u) where
  few := fun hfew => if_pos hfew
  absent := score_of_absent
  many := fun hmany => score_of_many hmany u
  vertexCount_eq := by
    have hnumbered := Subgraph.numbered_grown history
    rw [Subgraph.vertexCount, ← List.toFinset_card_of_nodup hnumbered.once]
    congr 1
    ext v
    rw [List.mem_toFinset, List.mem_toFinset, hnumbered.mem_iff]
  degree_eq := Subgraph.degree_grown history u

/-! ## Shortlists -/

/-- What is listed for a row of senses: the first `k`, or all if there are fewer, when they are
stably sorted by descending score. -/
structure Shortlisted (score : String → Rat) (k : Nat) (row : F × List S)
    (best : F × List (Scored F S Rat)) : Prop where
  form_eq : best.1 = row.1
  length_eq : best.2.length = min k row.2.length
  exists_sorted : ∃ sorted,
    StablySorted (fun x y => y < x) (fun sense => score (HasUri.uri sense)) row.2 sorted ∧
      best.2 = (sorted.take (min k row.2.length)).map fun sense =>
        ⟨row.1, sense, score (HasUri.uri sense)⟩

theorem shortlisted_best (rows : SenseRows F S) (g : Subgraph) (k : Nat) :
    List.Forall₂ (Shortlisted (score g) k) rows (best rows g k) := by
  rw [best, List.forall₂_map_right_iff, List.forall₂_same]
  rintro ⟨form, senses⟩ -
  have hlength : (Ranked.sortDescending (fun sense => score g (HasUri.uri sense)) senses).length =
      senses.length := List.length_mergeSort senses
  rw [scoreRow, Ranked.sortDescending_map, ← List.map_take]
  constructor
  · rfl
  · rw [List.length_map, List.length_take, hlength]
  · refine ⟨_, Rat.stablySorted_sortDescending _ senses, ?_⟩
    rw [List.take_eq_take_min, hlength]

/-- Over a subgraph that has grown in whatever way, each row of senses gets its shortlist of scores,
one list after the other; and in a subgraph that a search has constructed every score lies between
zero and one. -/
theorem best_grown (history : List Subgraph.Growth) (rows : SenseRows F S) (k : Nat) :
    List.Forall₂ (Shortlisted (score (Subgraph.grown history)) k) rows
        (best rows (Subgraph.grown history) k) ∧
      bestOnly rows (Subgraph.grown history) =
        ((best rows (Subgraph.grown history) 1).map Prod.snd).flatten ∧
      (∀ u, Share history (Subgraph.grown history) u (score (Subgraph.grown history) u)) ∧
      ∀ (kg : KnowledgeGraph) (maxDistance : Nat) (senses : Search.Rows) (g : Subgraph),
        (Search.relevant kg maxDistance senses).outcome = .ok (some g) →
          0 < g.vertexCount ∧
            ∀ u, g.degree u ≤ g.vertexCount - 1 ∧ 0 ≤ score g u ∧ score g u ≤ 1 := by
  refine ⟨shortlisted_best rows _ k, ?_, share_grown history, ?_⟩
  · rw [bestOnly, ScoreRows.flatten, List.flatMap_def]
  · intro kg maxDistance senses g hrun
    obtain ⟨trees, h⟩ := Search.exists_explained hrun
    refine ⟨Search.vertexCount_pos_of_relevant hrun, ?_⟩
    intro u
    have hdegree : g.degree u ≤ g.vertexCount - 1 :=
      Subgraph.degree_le_of_not_linked_self (h.not_linked_self u)
    exact ⟨hdegree, score_nonneg g u, score_le_one hdegree⟩

/-- A loop that was asked for scores two; the loop of the fork is not constructed. -/
theorem best_grown_fork :
    let loop : List Subgraph.Growth := [.edge ⟨"a", "p", "b"⟩, .edge ⟨"a", "p", "a"⟩]
    let g : Subgraph :=
      ⟨["a", "b", "c", "x"], [⟨"x", "q", "b"⟩, ⟨"a", "p", "x"⟩, ⟨"x", "p", "c"⟩]⟩
    score (Subgraph.grown loop) "a" = 2 ∧
      (Search.relevant (TripleStore.ofTriples Search.fork).graph 2 [["a"], ["b", "c"]]).outcome =
        .ok (some g) ∧
      ∀ u, g.degree u ≤ 3 ∧ 0 ≤ score g u ∧ score g u ≤ 1 := by
  intro loop g
  have hrun : (Search.relevant (TripleStore.ofTriples Search.fork).graph 2
      [["a"], ["b", "c"]]).outcome = .ok (some g) := by cbv
  have hbounds := (best_grown loop [("A", ["a"])] 1).2.2.2 _ 2 [["a"], ["b", "c"]] g hrun
  exact ⟨by decide +kernel, hrun, hbounds.2⟩

end DegreeCentrality
end EntityLinking
