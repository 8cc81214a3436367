import EntityLinking.Proofs.Search.Linking

/-!
# Candidates near each other

Two candidates that the store links are linked in the subgraph as soon as some mention owns only one
of them: one of the two searches finds the other at once.  Where every mention owns both or neither,
no search looks for the other.

Candidates further apart need not be connected by any one search, because a search stops at the
first rival on each of its ways.  Where no candidate belongs to two mentions they are in one
component all the same: each of the two is linked with a rival on the way to the other, and what
remains between those is shorter.
-/

namespace EntityLinking
namespace Search

variable {kg : KnowledgeGraph} {store : TripleStore} {rows : Rows} {maxDistance i j : Nat}
variable {g : Subgraph} {trees : Trees} {s t u v : String}

/-! ## Adjacent candidates -/

/-- A route between adjacent rivals is not longer than one step. -/
theorem Explained.linked_of_adjacent (hclosed : store.Closed)
    (h : Explained store.graph maxDistance rows g trees) (hdistance : 0 < maxDistance)
    (hs : Candidate rows s) (hrival : Rival rows s t) (hadj : store.Adjacent s t) :
    g.linked s t = true := by
  have hwalk : OpenWalk store rows s t ⟨s, [], t⟩ :=
    ⟨rfl, rfl, List.isChain_pair.mpr hadj, by simp⟩
  obtain ⟨p, hp, rfl, rfl, hshortest⟩ := h.exists_shortest hclosed hs hrival hwalk hdistance
  have hlength : p.interior.length + 1 ≤ 1 := hshortest _ hwalk
  have hinterior : p.interior = [] := List.eq_nil_of_length_eq_zero (by omega)
  have hstep : [p.source, p.target] <:+: p.vertices := ⟨[], [], by simp [Route.vertices, hinterior]⟩
  exact hp.follows.of_infix hstep

/-- Of two candidates that some mention tells apart, one is a rival of the other. -/
theorem rival_of_owners_ne (howners : ∃ i, ¬ (Owns rows i s ↔ Owns rows i t)) :
    Rival rows s t ∨ Rival rows t s := by
  obtain ⟨i, hi⟩ := howners
  by_cases his : Owns rows i s
  · right
    refine ⟨i, his, ?_⟩
    intro hit
    exact hi ⟨fun _ => hit, fun _ => his⟩
  · left
    have hit : Owns rows i t := by
      by_contra hit
      exact hi ⟨fun hs => absurd hs his, fun ht => absurd ht hit⟩
    exact ⟨i, hit, his⟩

/-- Two candidates that some triple links are linked in the subgraph, and each is one of the
neighbours that the degree of the other counts, if some mention owns one of them without the
other. -/
theorem exists_relevant_linked (triples : List Triple) (rows : Rows) (maxDistance : Nat)
    (s t : String) (hdistance : 0 < maxDistance) (hs : Candidate rows s) (ht : Candidate rows t)
    (howners : ∃ i, ¬ (Owns rows i s ↔ Owns rows i t))
    (hadj : (TripleStore.ofTriples triples).Adjacent s t) :
    ∃ g, (relevant (TripleStore.ofTriples triples).graph maxDistance rows).outcome =
        .ok (some g) ∧
      g.linked s t = true ∧
      t ∈ g.neighbours s ∧ g.degree s = (g.neighbours s).length ∧
      s ∈ g.neighbours t ∧ g.degree t = (g.neighbours t).length := by
  have hclosed := TripleStore.closed_ofTriples triples
  rcases relevant_graph hclosed maxDistance rows with ⟨-, hnone⟩ | ⟨g, trees, hrun, h, -⟩
  · exact absurd (hclosed.contains_left hadj) (hnone s hs)
  · have hlinked : g.linked s t = true := by
      rcases rival_of_owners_ne howners with hrival | hrival
      · exact h.linked_of_adjacent hclosed hdistance hs hrival hadj
      · -- `t` is out of reach for the search from `s`, and the search from `t` stops at `s`
        rw [Subgraph.linked_comm]
        exact h.linked_of_adjacent hclosed hdistance ht hrival hadj.symm
    obtain ⟨hcontainsS, hcontainsT, -⟩ := h.edges_connected hclosed hlinked
    have hlinked' : g.linked t s = true := by
      rw [Subgraph.linked_comm]
      exact hlinked
    exact ⟨g, hrun, hlinked,
      Subgraph.mem_neighbours_iff.mpr ⟨hcontainsT, hlinked⟩,
      Subgraph.degree_eq_length_neighbours hcontainsS,
      Subgraph.mem_neighbours_iff.mpr ⟨hcontainsS, hlinked'⟩,
      Subgraph.degree_eq_length_neighbours hcontainsT⟩

/-- The second mention owns both of two linked candidates, the first only one. -/
theorem exists_relevant_linked_nested :
    Candidate [["s"], ["s", "t"]] "s" ∧ Candidate [["s"], ["s", "t"]] "t" ∧
      (∃ i, ¬ (Owns [["s"], ["s", "t"]] i "s" ↔ Owns [["s"], ["s", "t"]] i "t")) ∧
      (TripleStore.ofTriples [⟨"t", "p", "s"⟩]).Adjacent "s" "t" ∧
      ∃ g, (relevant (TripleStore.ofTriples [⟨"t", "p", "s"⟩]).graph 1
          [["s"], ["s", "t"]]).outcome = .ok (some g) ∧
        g.linked "s" "t" = true ∧
        "t" ∈ g.neighbours "s" ∧ g.degree "s" = (g.neighbours "s").length ∧
        "s" ∈ g.neighbours "t" ∧ g.degree "t" = (g.neighbours "t").length := by
  have hs : Candidate [["s"], ["s", "t"]] "s" := candidate_iff.mpr ⟨["s"], by simp, by simp⟩
  have ht : Candidate [["s"], ["s", "t"]] "t" := candidate_iff.mpr ⟨["s", "t"], by simp, by simp⟩
  have howners : ∃ i, ¬ (Owns [["s"], ["s", "t"]] i "s" ↔ Owns [["s"], ["s", "t"]] i "t") :=
    ⟨0, by simp [Owns]⟩
  have hadj : (TripleStore.ofTriples [⟨"t", "p", "s"⟩]).Adjacent "s" "t" := by decide
  exact ⟨hs, ht, howners, hadj,
    exists_relevant_linked [⟨"t", "p", "s"⟩] [["s"], ["s", "t"]] 1 "s" "t" (by decide) hs ht howners
      hadj⟩

/-- Two mentions with the same two candidates: a triple links a candidate of the one with a
candidate of the other, and the subgraph does not. -/
theorem relevant_twins_unlinked :
    Owns [["s", "t"], ["s", "t"]] 0 "s" ∧ Owns [["s", "t"], ["s", "t"]] 1 "t" ∧
      (TripleStore.ofTriples [⟨"s", "p", "t"⟩]).Adjacent "s" "t" ∧
      ∃ g, (relevant (TripleStore.ofTriples [⟨"s", "p", "t"⟩]).graph 1
          [["s", "t"], ["s", "t"]]).outcome = .ok (some g) ∧
        g.linked "s" "t" = false ∧ g.degree "s" = 0 ∧ g.degree "t" = 0 := by
  refine ⟨by simp [Owns], by simp [Owns], by decide, ⟨["s", "t"], []⟩, ?_, ?_⟩
  · cbv
  · decide

/-! ## Candidates at a distance -/

/-- No candidate belongs to two mentions. -/
def Exclusive (rows : Rows) : Prop :=
  ∀ u i j, Owns rows i u → Owns rows j u → i = j

theorem Exclusive.rival (h : Exclusive rows) (hs : Owns rows i s) (ht : Owns rows j t)
    (hij : i ≠ j) : Rival rows s t :=
  ⟨j, ht, fun hjs => hij (h s i j hs hjs)⟩

/-- Of the rivals on a walk from a candidate, the first is joined with it. -/
theorem Explained.exists_joined_rival (hclosed : store.Closed)
    (h : Explained store.graph maxDistance rows g trees) (hs : Candidate rows s)
    {walk : List String} (hchain : (s :: walk).IsChain store.Adjacent)
    (hlength : walk.length ≤ maxDistance) (ht : t ∈ walk) (hrival : Rival rows s t) :
    ∃ v ∈ walk, Rival rows s v ∧ g.Joined s v := by
  obtain ⟨v, hfind⟩ : ∃ v, walk.find? (rivals rows s) = some v :=
    Option.isSome_iff_exists.mp (List.find?_isSome.mpr ⟨t, ht, rivals_iff.mpr hrival⟩)
  obtain ⟨hv, front, back, rfl, hfront⟩ := List.find?_eq_some_iff_append.mp hfind
  have hwalk : OpenWalk store rows s v ⟨s, front, v⟩ := by
    refine ⟨rfl, rfl, ?_, ?_⟩
    · exact hchain.infix ⟨[], back, by simp [Route.vertices]⟩
    · intro w hw
      exact rivals_eq_false_iff.mp (by simpa using hfront w hw)
  have hshort : front.length + 1 ≤ maxDistance := by
    rw [List.length_append, List.length_cons] at hlength
    omega
  obtain ⟨p, hp, rfl, rfl, -⟩ :=
    h.exists_shortest hclosed hs (rivals_iff.mp hv) hwalk hshort
  exact ⟨_, by simp, rivals_iff.mp hv, hp.follows.reflTransGen⟩

/-- Candidates of different mentions among these vertices are joined. -/
def Knit (g : Subgraph) (rows : Rows) (stretch : List String) : Prop :=
  ∀ u ∈ stretch, ∀ v ∈ stretch, ∀ i j, Owns rows i u → Owns rows j v → i ≠ j → g.Joined u v

theorem Knit.cons (hexclusive : Exclusive rows) {rest : List String} (hrest : Knit g rows rest)
    (hhead : ∀ v ∈ rest, ∀ i j, Owns rows i s → Owns rows j v → i ≠ j → g.Joined s v) :
    Knit g rows (s :: rest) := by
  intro u hu v hv i j hui hvj hij
  rcases List.mem_cons.mp hu with rfl | hurest
  · rcases List.mem_cons.mp hv with rfl | hvrest
    · exact absurd (hexclusive _ i j hui hvj) hij
    · exact hhead v hvrest i j hui hvj hij
  · rcases List.mem_cons.mp hv with rfl | hvrest
    · exact (hhead u hurest j i hvj hui hij.symm).symm
    · exact hrest u hurest v hvrest i j hui hvj hij

/-- The ends of a walk are joined if all shorter parts of the walk are knit. -/
theorem Explained.joined_ends (hclosed : store.Closed)
    (h : Explained store.graph maxDistance rows g trees) (hexclusive : Exclusive rows)
    {middle : List String} (hchain : (s :: (middle ++ [t])).IsChain store.Adjacent)
    (hlength : middle.length + 1 ≤ maxDistance) (hfront : Knit g rows (s :: middle))
    (hback : Knit g rows (middle ++ [t])) (hs : Owns rows i s) (ht : Owns rows j t)
    (hij : i ≠ j) : g.Joined s t := by
  -- the first rival `v` on the way from `s`, and the first rival `w` on the way back from `t`
  obtain ⟨v, hv, ⟨k, hkv, hks⟩, hsv⟩ : ∃ v ∈ middle ++ [t], Rival rows s v ∧ g.Joined s v :=
    h.exists_joined_rival hclosed ⟨i, hs⟩ hchain (by simpa using hlength) (by simp)
      (hexclusive.rival hs ht hij)
  have hreturn : (t :: (middle.reverse ++ [s])).IsChain store.Adjacent := by
    have hreverse := List.isChain_reverse.mpr (hchain.imp fun a b hab => hab.symm)
    simpa using hreverse
  obtain ⟨w, hw, ⟨l, hlw, hlt⟩, htw⟩ :
      ∃ w ∈ middle.reverse ++ [s], Rival rows t w ∧ g.Joined t w :=
    h.exists_joined_rival hclosed ⟨j, ht⟩ hreturn (by simpa using hlength) (by simp)
      (hexclusive.rival ht hs hij.symm)
  have hw : w ∈ s :: middle := by simpa [or_comm] using hw
  have hki : k ≠ i := fun hki => hks (hki ▸ hs)
  have hlj : l ≠ j := fun hlj => hlt (hlj ▸ ht)
  by_cases hkj : k = j
  · subst hkj
    by_cases hli : l = i
    · subst hli
      -- `v` stands for the mention of `t` and `w` for that of `s`
      rcases List.mem_append.mp hv with hv | hv
      · exact (hsv.trans (hfront v (List.mem_cons_of_mem s hv) w hw k l hkv hlw hki)).trans
          htw.symm
      · obtain rfl : v = t := List.mem_singleton.mp hv
        exact hsv
    · have hsw : g.Joined s w := hfront s List.mem_cons_self w hw i l hs hlw (Ne.symm hli)
      exact hsw.trans htw.symm
  · have hvt : g.Joined v t := hback v hv t (by simp) k j hkv ht hkj
    exact hsv.trans hvt

/-- A walk is knit if it is so without its last vertex and without its first. -/
theorem Explained.knit_of_parts (hclosed : store.Closed)
    (h : Explained store.graph maxDistance rows g trees) (hexclusive : Exclusive rows)
    {middle : List String} (hchain : (s :: (middle ++ [t])).IsChain store.Adjacent)
    (hlength : middle.length + 1 ≤ maxDistance) (hfront : Knit g rows (s :: middle))
    (hback : Knit g rows (middle ++ [t])) : Knit g rows (s :: (middle ++ [t])) := by
  apply hback.cons hexclusive
  intro v hv i j hs hvj hij
  rcases List.mem_append.mp hv with hv | hv
  · exact hfront s List.mem_cons_self v (List.mem_cons_of_mem s hv) i j hs hvj hij
  · obtain rfl : v = t := List.mem_singleton.mp hv
    exact h.joined_ends hclosed hexclusive hchain hlength hfront hback hs hvj hij

/-- Every walk of at most the greatest distance is knit. -/
theorem Explained.knit_of_isChain (hclosed : store.Closed)
    (h : Explained store.graph maxDistance rows g trees) (hexclusive : Exclusive rows) :
    ∀ (n : Nat) (stretch : List String), stretch.length ≤ n →
      stretch.length ≤ maxDistance + 1 → stretch.IsChain store.Adjacent → Knit g rows stretch := by
  intro n
  induction n with
  | zero =>
      intro stretch hn _ _ u hu
      rw [Nat.le_zero, List.length_eq_zero_iff] at hn
      simp [hn] at hu
  | succ n ih =>
      intro stretch hn hlength hchain
      cases stretch with
      | nil => intro u hu; simp at hu
      | cons a rest =>
          rcases List.eq_nil_or_concat rest with rfl | ⟨middle, b, rfl⟩
          · have hempty : Knit g rows [] := ih [] (by simp) (by simp) .nil
            exact hempty.cons hexclusive (by simp)
          · rw [List.concat_eq_append] at hchain hn hlength ⊢
            rw [List.length_cons, List.length_append, List.length_singleton] at hn hlength
            have hwhole : (a :: middle ++ [b]).IsChain store.Adjacent := hchain
            have hfront : Knit g rows (a :: middle) :=
              ih _ (by rw [List.length_cons]; omega) (by rw [List.length_cons]; omega)
                hwhole.left_of_append
            have hback : Knit g rows (middle ++ [b]) :=
              ih _ (by rw [List.length_append, List.length_singleton]; omega)
                (by rw [List.length_append, List.length_singleton]; omega) hchain.tail
            exact h.knit_of_parts hclosed hexclusive hchain (by omega) hfront hback

/-- A vertex that is joined with another one is in the subgraph. -/
theorem Explained.contains_of_joined (hclosed : store.Closed)
    (h : Explained store.graph maxDistance rows g trees) (hjoined : g.Joined s t) (hne : s ≠ t) :
    g.contains s = true := by
  rcases Relation.ReflTransGen.cases_head hjoined with rfl | ⟨v, hlinked, -⟩
  · exact absurd rfl hne
  · exact (h.edges_connected hclosed hlinked).1

/-- Where no candidate belongs to two mentions, candidates of different mentions that are
at most the greatest distance apart are in one component of the subgraph, whatever
candidates stand between them. -/
theorem exists_relevant_joined (triples : List Triple) (rows : Rows) (maxDistance : Nat)
    (hexclusive : Exclusive rows) (s t : String) (i j : Nat) (hs : Owns rows i s)
    (ht : Owns rows j t) (hij : i ≠ j)
    (hnear : ∃ r : Route, r.source = s ∧ r.target = t ∧
      r.Follows (TripleStore.ofTriples triples).Adjacent ∧ r.length ≤ maxDistance) :
    ∃ g, (relevant (TripleStore.ofTriples triples).graph maxDistance rows).outcome =
        .ok (some g) ∧
      g.contains s = true ∧ g.contains t = true ∧ g.Joined s t := by
  have hclosed := TripleStore.closed_ofTriples triples
  obtain ⟨r, rfl, rfl, hfollows, hlength⟩ := hnear
  have hne : r.source ≠ r.target := by
    intro hsame
    rw [← hsame] at ht
    exact hij (hexclusive _ i j hs ht)
  rcases relevant_graph hclosed maxDistance rows with ⟨-, hnone⟩ | ⟨g, trees, hrun, h, -⟩
  · obtain ⟨v, hstep⟩ := hfollows.exists_step
    exact absurd (hclosed.contains_left hstep) (hnone r.source ⟨i, hs⟩)
  · have hvertices : r.vertices.length ≤ maxDistance + 1 := by
      rw [Route.vertices, List.length_cons, List.length_append, List.length_singleton]
      rw [Route.length] at hlength
      omega
    have hknit := h.knit_of_isChain hclosed hexclusive _ r.vertices le_rfl hvertices hfollows
    have hjoined : g.Joined r.source r.target :=
      hknit _ (by simp [Route.vertices]) _ (by simp [Route.vertices]) i j hs ht hij
    exact ⟨g, hrun, h.contains_of_joined hclosed hjoined hne,
      h.contains_of_joined hclosed hjoined.symm hne.symm, hjoined⟩

/-- On the only way between the candidates stand a second one of each mention, in the wrong
order. -/
theorem exists_relevant_joined_interlaced :
    Exclusive [["s", "w"], ["v", "t"]] ∧ Owns [["s", "w"], ["v", "t"]] 0 "s" ∧
      Owns [["s", "w"], ["v", "t"]] 1 "t" ∧
      ∃ g, (relevant (TripleStore.ofTriples
          [⟨"s", "p", "v"⟩, ⟨"w", "p", "v"⟩, ⟨"w", "p", "t"⟩]).graph 3
          [["s", "w"], ["v", "t"]]).outcome = .ok (some g) ∧
        g.contains "s" = true ∧ g.contains "t" = true ∧ g.Joined "s" "t" := by
  have hexclusive : Exclusive [["s", "w"], ["v", "t"]] := by
    rintro u i j ⟨row, hi, hu⟩ ⟨row', hj, hu'⟩
    match i, j with
    | 0, 0 => rfl
    | 1, 1 => rfl
    | 0, 1 =>
        obtain rfl : ["s", "w"] = row := by simpa using hi
        obtain rfl : ["v", "t"] = row' := by simpa using hj
        rcases List.mem_pair.mp hu with rfl | rfl <;> simp at hu'
    | 1, 0 =>
        obtain rfl : ["v", "t"] = row := by simpa using hi
        obtain rfl : ["s", "w"] = row' := by simpa using hj
        rcases List.mem_pair.mp hu with rfl | rfl <;> simp at hu'
    | _ + 2, _ => simp at hi
    | _, _ + 2 => simp at hj
  have hs : Owns [["s", "w"], ["v", "t"]] 0 "s" := by simp [Owns]
  have ht : Owns [["s", "w"], ["v", "t"]] 1 "t" := by simp [Owns]
  have hsv : (TripleStore.ofTriples
    [⟨"s", "p", "v"⟩, ⟨"w", "p", "v"⟩, ⟨"w", "p", "t"⟩]).Adjacent "s" "v" := by decide
  have hvw : (TripleStore.ofTriples
    [⟨"s", "p", "v"⟩, ⟨"w", "p", "v"⟩, ⟨"w", "p", "t"⟩]).Adjacent "v" "w" := by decide
  have hwt : (TripleStore.ofTriples
    [⟨"s", "p", "v"⟩, ⟨"w", "p", "v"⟩, ⟨"w", "p", "t"⟩]).Adjacent "w" "t" := by decide
  have hwalk : (⟨"s", ["v", "w"], "t"⟩ : Route).Follows (TripleStore.ofTriples
      [⟨"s", "p", "v"⟩, ⟨"w", "p", "v"⟩, ⟨"w", "p", "t"⟩]).Adjacent :=
    List.isChain_cons_cons.mpr ⟨hsv, List.isChain_cons_cons.mpr ⟨hvw, List.isChain_pair.mpr hwt⟩⟩
  exact ⟨hexclusive, hs, ht,
    exists_relevant_joined _ _ 3 hexclusive "s" "t" 0 1 hs ht (by decide)
      ⟨⟨"s", ["v", "w"], "t"⟩, rfl, rfl, hwalk, by decide⟩⟩

end Search
end EntityLinking
