import Mathlib.Algebra.Order.Field.Rat
import EntityLinking.Graph.Centrality
import EntityLinking.Proofs.Graph.Subgraph

/-!
# Scores and degrees

In a subgraph without loops degree centrality ranks senses as their degrees do, also where there is
only one vertex and every score is zero.  So ranking by score is sorting by degree, and a sense is
listed only after every sense of the same form that has a higher degree.
-/

namespace EntityLinking

/-- Before a value that is listed among the best stand all values that rank above it. -/
theorem Ranked.filter_perm_of_take_eq {α σ : Type} [Ranked σ] {key : α → σ} {k : Nat}
    {xs before after : List α} {c : α}
    (hlisted : (sortDescending key xs).take k = before ++ c :: after) {p : α → Bool}
    (hp : ∀ x ∈ xs, p x = true → ¬ le (key x) (key c) = true) :
    (before.filter p).Perm (xs.filter p) := by
  have hperm : (sortDescending key xs).Perm xs := List.mergeSort_perm xs (noHigher key)
  have hsorted : sortDescending key xs =
      before ++ (c :: after ++ (sortDescending key xs).drop k) := by
    rw [← List.append_assoc, ← hlisted, List.take_append_drop]
  have hlower : ∀ x ∈ c :: after ++ (sortDescending key xs).drop k, ¬ p x = true := by
    have hpairwise := pairwise_sortDescending key xs
    rw [hsorted] at hpairwise
    have hbehind := (List.pairwise_append.mp hpairwise).2.1
    rw [List.cons_append, List.pairwise_cons] at hbehind
    intro x hx hpx
    have hmem : x ∈ xs := by
      rw [← hperm.mem_iff, hsorted]
      exact List.mem_append_right before hx
    rcases List.mem_cons.mp hx with rfl | hx
    · exact hp x hmem hpx (by simpa using le_total (key x) (key x))
    · exact hp x hmem hpx (hbehind.1 x hx)
  have hfilter : (sortDescending key xs).filter p = before.filter p := by
    rw [hsorted, List.filter_append, List.filter_eq_nil_iff.mpr hlower, List.append_nil]
  rw [← hfilter]
  exact hperm.filter p

namespace DegreeCentrality

variable {g : Subgraph} {u v : String}

/-- The degree of a vertex over the number of the others; zero when it is the only one. -/
def share (g : Subgraph) (uri : String) : Rat :=
  if g.vertexCount = 1 then 0 else (g.degree uri : Rat) / ((g.vertexCount : Rat) - 1)

theorem score_eq_share (hg : 0 < g.vertexCount) (uri : String) : score g uri = share g uri := by
  by_cases hone : g.vertexCount = 1
  · rw [score, if_pos hone.le, share, if_pos hone]
  · have hmany : ¬ g.vertexCount ≤ 1 := by omega
    rw [score, if_neg hmany, share, if_neg hone, Nat.cast_sub hg, Nat.cast_one]

theorem score_le_score_iff (hloop : ∀ w, g.linked w w = false) :
    score g u ≤ score g v ↔ g.degree u ≤ g.degree v := by
  by_cases hfew : g.vertexCount ≤ 1
  · have hzero : ∀ w, g.degree w = 0 := by
      intro w
      have hle := Subgraph.degree_le_of_not_linked_self (hloop w)
      omega
    simp [score, hfew, hzero]
  · have hpos : (0 : Rat) < ((g.vertexCount - 1 : Nat) : Rat) := by
      rw [Nat.cast_pos]
      omega
    rw [score, if_neg hfew, score, if_neg hfew, div_le_div_iff_of_pos_right hpos, Nat.cast_le]

theorem share_congr {g' : Subgraph} (h : g.Alike g') (uri : String) :
    share g uri = share g' uri := by
  rw [share, share, h.vertexCount_eq, h.degree_eq]

theorem score_congr {g' : Subgraph} (h : g.Alike g') (uri : String) :
    score g uri = score g' uri := by
  rw [score, score, h.vertexCount_eq, h.degree_eq]

/-- Subgraphs with the same vertices and links rank all senses alike. -/
theorem best_congr {F S : Type} [HasUri S] {g' : Subgraph} (h : g.Alike g') (rows : SenseRows F S)
    (k : Nat) : best rows g k = best rows g' k := by
  have hrow : ∀ (form : F) (senses : List S), scoreRow g form senses = scoreRow g' form senses := by
    intro form senses
    simp only [scoreRow, score_congr h]
  simp only [best, hrow]

/-- Ranking by score is sorting by descending degree. -/
theorem sortDescending_score {α : Type} (hloop : ∀ w, g.linked w w = false) (uri : α → String)
    (xs : List α) : Ranked.sortDescending (fun x => score g (uri x)) xs =
      xs.mergeSort fun a b => decide (g.degree (uri b) ≤ g.degree (uri a)) := by
  have hle : Ranked.noHigher (fun x => score g (uri x)) =
      fun a b => decide (g.degree (uri b) ≤ g.degree (uri a)) := by
    funext a b
    exact decide_eq_decide.mpr (score_le_score_iff hloop)
  rw [Ranked.sortDescending, hle]

/-- A sense is listed only after all senses of its form that have a higher degree. -/
theorem filter_perm_of_take_scoreRow {F S : Type} [HasUri S] (hloop : ∀ w, g.linked w w = false)
    {form : F} {senses : List S} {k : Nat} {before after : List (Scored F S Rat)}
    {c : Scored F S Rat}
    (hlisted : (Ranked.sortDescending Scored.score (scoreRow g form senses)).take k =
      before ++ c :: after) {p : S → Bool}
    (hp : ∀ x ∈ senses, p x = true →
      g.degree (HasUri.uri c.sense) < g.degree (HasUri.uri x)) :
    ((before.map Scored.sense).filter p).Perm (senses.filter p) := by
  rw [scoreRow, Ranked.sortDescending_map, ← List.map_take, List.map_eq_append_iff] at hlisted
  obtain ⟨front, rest, hsplit, rfl, hrest⟩ := hlisted
  obtain ⟨sense, back, rfl, rfl, -⟩ := List.map_eq_cons_iff.mp hrest
  have hsenses : (front.map fun x => (⟨form, x, score g (HasUri.uri x)⟩ : Scored F S Rat)).map
      Scored.sense = front := by
    rw [List.map_map]
    exact List.map_id front
  rw [hsenses]
  apply Ranked.filter_perm_of_take_eq hsplit
  intro x hx hpx hle
  have hdegree := (score_le_score_iff hloop).mp (of_decide_eq_true hle)
  exact absurd (hp x hx hpx) (Nat.not_lt.mpr hdegree)

end DegreeCentrality
end EntityLinking
