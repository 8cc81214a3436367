import EntityLinking.Proofs.Search.Invariance
import EntityLinking.Proofs.Service.Configured

/-!
# Requests beside each other

How the answers of one configured service to two requests compare.  A mention is answered by
its own candidates and by the subgraph, and the subgraph depends on no more than which
mentions have candidates at all: so neither the order of the mentions, nor repetitions, nor
mentions without candidates change what another mention gets.  And wanting more resolutions
only adds to the end of each list.
-/

namespace EntityLinking
namespace Service

variable {settings : Settings} {index : CandidateIndex} {store : TripleStore}
variable {service : Service Rat} {A B C : List Mention} {m : Mention} {k k' : Nat}

/-- The service that settings give is the configured one. -/
theorem eq_configured (h : (ofSettings settings index.lookup store.graph).outcome = .ok service) :
    service = configured settings index store := by
  by_cases hdistance : settings.maxDistance = 0
  · rw [ofSettings, if_pos hdistance] at h
    simp [Recorded.fail] at h
  · rw [ofSettings_eq_ok (Nat.pos_of_ne_zero hdistance) index store] at h
    exact (Except.ok.inj h).symm

/-! ## What a mention is given -/

/-- The best candidates of a surface form in a subgraph, with their scores. -/
def podium (settings : Settings) (index : CandidateIndex) (g : Subgraph) (k : Nat)
    (surface : String) : List (Entity × Rat) :=
  ((ranking settings index g surface).take k).map fun e =>
    (e, DegreeCentrality.share g (vertex settings e))

theorem podium_congr {g g' : Subgraph} (h : g.Alike g') (k : Nat) (surface : String) :
    podium settings index g k surface = podium settings index g' k surface := by
  have hranking : ranking settings index g surface = ranking settings index g' surface := by
    rw [ranking, ranking]
    simp only [h.degree_eq]
  rw [podium, podium, hranking]
  simp only [DegreeCentrality.share_congr h]

/-- Some candidate of a request is a vertex of the store. -/
def Grounded (settings : Settings) (index : CandidateIndex) (store : TripleStore)
    (mentions : List Mention) : Prop :=
  ∃ u, Search.Candidate (vertices settings index mentions) u ∧ store.contains u = true

theorem grounded_iff {mentions : List Mention} :
    Grounded settings index store mentions ↔
      ∃ m ∈ mentions, ∃ e ∈ shortlist settings index m.surface,
        store.contains (vertex settings e) = true := by
  constructor
  · rintro ⟨u, hu, hcontains⟩
    obtain ⟨m, hm, e, he, rfl⟩ := candidate_vertices_iff.mp hu
    exact ⟨m, hm, e, he, hcontains⟩
  · rintro ⟨m, hm, e, he, hcontains⟩
    exact ⟨_, candidate_vertices_iff.mpr ⟨m, hm, e, he, rfl⟩, hcontains⟩

theorem contains_eq_false_of_not_grounded {mentions : List Mention}
    (hnone : ¬ Grounded settings index store mentions) :
    ∀ m ∈ mentions, ∀ e ∈ shortlist settings index m.surface,
      store.contains (vertex settings e) = false := by
  intro m hm e he
  rw [Bool.eq_false_iff]
  intro hcontains
  exact hnone (grounded_iff.mpr ⟨m, hm, e, he, hcontains⟩)

section Readings

variable {mentions : List Mention} {table : Table Rat}

theorem Answers.key_mem (h : Answers settings index store mentions k table)
    (hm : m.key ∈ mentions.map Mention.key) : m.key ∈ table.mentions.map Mention.key := by
  obtain ⟨n, hn, hkey⟩ := List.mem_map.mp hm
  obtain ⟨n', hn', hkey'⟩ := Mention.exists_mem_distinct hn
  rw [h.mentions_eq]
  exact List.mem_map.mpr ⟨n', (Mention.inOrder_perm _).mem_iff.mpr hn', hkey'.trans hkey⟩

theorem Answers.scored?_of_not_grounded (h : Answers settings index store mentions k table)
    (hnone : ¬ Grounded settings index store mentions) (hm : m.key ∈ mentions.map Mention.key) :
    table.scored? m = some [] := by
  have hrows := h.unlinked (contains_eq_false_of_not_grounded hnone)
  obtain ⟨n, -, hfind⟩ := Table.exists_find?_eq hrows (h.key_mem hm)
  rw [Table.scored?, hfind]
  rfl

theorem Answers.scored?_of_grounded (h : Answers settings index store mentions k table)
    (hsome : Grounded settings index store mentions) :
    ∃ g, (Search.relevant store.graph settings.maxDistance
        (vertices settings index mentions)).outcome = .ok (some g) ∧
      ∀ m, m.key ∈ mentions.map Mention.key →
        table.scored? m = some (podium settings index g k m.surface) := by
  obtain ⟨g, hrun, hrows⟩ := h.linked (grounded_iff.mp hsome)
  refine ⟨g, hrun, ?_⟩
  intro m hm
  obtain ⟨n, hkey, hfind⟩ := Table.exists_find?_eq hrows (h.key_mem hm)
  have hsurface : n.surface = m.surface := congrArg Mention.Key.surface hkey
  rw [Table.scored?, hfind, Option.map_some, List.map_map, ← hsurface, podium]
  rfl

end Readings

/-! ## Mentions that matter -/

/-- Some mention of a request has this key, and candidates that the filters leave. -/
def Contends (settings : Settings) (index : CandidateIndex) (mentions : List Mention)
    (key : Mention.Key) : Prop :=
  ∃ m ∈ mentions, m.key = key ∧ shortlist settings index m.surface ≠ []

theorem covered_vertices
    (h : ∀ key, Contends settings index A key → Contends settings index B key) :
    Search.Covered (vertices settings index A) (vertices settings index B) := by
  intro row hrow hne
  obtain ⟨m, hm, rfl⟩ := List.mem_map.mp hrow
  have hshortlist : shortlist settings index m.surface ≠ [] := by
    intro hnil
    rw [hnil] at hne
    exact hne rfl
  obtain ⟨n, hn, hkey, -⟩ := h m.key ⟨m, Mention.mem_of_mem_distinct hm, rfl, hshortlist⟩
  obtain ⟨n', hn', hkey'⟩ := Mention.exists_mem_distinct hn
  have hsurface : n'.surface = m.surface := congrArg Mention.Key.surface (hkey'.trans hkey)
  refine ⟨_, List.mem_map_of_mem hn', ?_⟩
  intro u
  rw [hsurface]

theorem indistinct_vertices
    (h : ∀ key, Contends settings index A key ↔ Contends settings index B key) :
    Search.Indistinct (vertices settings index A) (vertices settings index B) :=
  Search.indistinct_of_covered (covered_vertices fun key => (h key).mp)
    (covered_vertices fun key => (h key).mpr)

/-- Requests with the same contenders give a mention that they share the same. -/
theorem scored?_eq_of_contends_iff (hclosed : store.Closed) {tableA tableB : Table Rat}
    (hA : Answers settings index store A k tableA) (hB : Answers settings index store B k tableB)
    (h : ∀ key, Contends settings index A key ↔ Contends settings index B key)
    (hmA : m.key ∈ A.map Mention.key) (hmB : m.key ∈ B.map Mention.key) :
    ∃ scored, tableA.scored? m = some scored ∧ tableB.scored? m = some scored := by
  have hindistinct := indistinct_vertices h
  have hgrounded : Grounded settings index store A ↔ Grounded settings index store B := by
    simp only [Grounded, hindistinct.candidate_iff]
  by_cases hsome : Grounded settings index store A
  · obtain ⟨g, hrun, hscoredA⟩ := hA.scored?_of_grounded hsome
    obtain ⟨g', hrun', hscoredB⟩ := hB.scored?_of_grounded (hgrounded.mp hsome)
    obtain ⟨result, result', hresult, hresult', hrel⟩ :=
      hindistinct.relevant_alike hclosed settings.maxDistance
    rw [hrun, Except.ok.injEq] at hresult
    rw [hrun', Except.ok.injEq] at hresult'
    subst hresult hresult'
    cases hrel with
    | some halike =>
        refine ⟨_, hscoredA m hmA, ?_⟩
        rw [hscoredB m hmB, podium_congr halike]
  · exact ⟨[], hA.scored?_of_not_grounded hsome hmA,
      hB.scored?_of_not_grounded (mt hgrounded.mpr hsome) hmB⟩

/-- Changes to a request that leave its contenders alone: mentions trade places, one is repeated, or
one without candidates is put in anywhere. -/
inductive Rearranged (settings : Settings) (index : CandidateIndex) :
    List Mention → List Mention → Prop
  | permuted {A B : List Mention} (h : A.Perm B) : Rearranged settings index A B
  | repeated {front back : List Mention} {m : Mention}
      (h : m.key ∈ (front ++ back).map Mention.key) :
      Rearranged settings index (front ++ back) (front ++ m :: back)
  | idle {front back : List Mention} {m : Mention} (h : shortlist settings index m.surface = []) :
      Rearranged settings index (front ++ back) (front ++ m :: back)
  | trans {A B C : List Mention} (hAB : Rearranged settings index A B)
      (hBC : Rearranged settings index B C) : Rearranged settings index A C

theorem contends_insert_iff {front back : List Mention} {key : Mention.Key} :
    Contends settings index (front ++ m :: back) key ↔
      (m.key = key ∧ shortlist settings index m.surface ≠ []) ∨
        Contends settings index (front ++ back) key := by
  simp only [Contends, List.mem_append, List.mem_cons]
  constructor
  · rintro ⟨n, hn | rfl | hn, hrest⟩
    · exact Or.inr ⟨n, Or.inl hn, hrest⟩
    · exact Or.inl hrest
    · exact Or.inr ⟨n, Or.inr hn, hrest⟩
  · rintro (hrest | ⟨n, hn | hn, hrest⟩)
    · exact ⟨m, Or.inr (Or.inl rfl), hrest⟩
    · exact ⟨n, Or.inl hn, hrest⟩
    · exact ⟨n, Or.inr (Or.inr hn), hrest⟩

/-- A mention whose surface form the index lacks has no candidates. -/
theorem Rearranged.unknown {front back : List Mention} (h : index.find? m.surface = none) :
    Rearranged settings index (front ++ back) (front ++ m :: back) := by
  have hshortlist : shortlist settings index m.surface = [] := by
    rw [shortlist, h, Option.getD_none, Pipeline.select_nil]
  exact .idle hshortlist

theorem Rearranged.contends_iff (h : Rearranged settings index A B) (key : Mention.Key) :
    Contends settings index A key ↔ Contends settings index B key := by
  induction h with
  | permuted h =>
      simp only [Contends, h.mem_iff]
  | @repeated front back m h =>
      rw [contends_insert_iff]
      constructor
      · exact Or.inr
      · rintro (⟨hkey, hshortlist⟩ | hrest)
        · obtain ⟨n, hn, hnm⟩ := List.mem_map.mp h
          have hsurface : n.surface = m.surface := congrArg Mention.Key.surface hnm
          exact ⟨n, hn, hnm.trans hkey, hsurface ▸ hshortlist⟩
        · exact hrest
  | @idle front back m h =>
      rw [contends_insert_iff]
      constructor
      · exact Or.inr
      · rintro (⟨-, hshortlist⟩ | hrest)
        · exact absurd h hshortlist
        · exact hrest
  | trans _ _ ihAB ihBC => exact ihAB.trans ihBC

theorem Rearranged.subset (h : Rearranged settings index A B) : A ⊆ B := by
  induction h with
  | permuted h => exact h.subset
  | repeated h => exact ((List.sublist_cons_self _ _).append_left _).subset
  | idle h => exact ((List.sublist_cons_self _ _).append_left _).subset
  | trans _ _ ihAB ihBC => exact List.Subset.trans ihAB ihBC

/-- What a mention is given depends on the contenders of its request and on nothing else: requests
with the same contenders give each of them the same entities with the same scores in the same order.
So permuting the mentions, repeating one, or putting in one without candidates changes nothing for
the mentions that were there. -/
theorem resolve_scored?_eq (settings : Settings) (index : CandidateIndex)
    (additions : List TripleStore.Addition) (service : Service Rat)
    (hservice :
      (ofSettings settings index.lookup (TripleStore.ofAdditions additions).graph).outcome =
        .ok service)
    (A B : List Mention) (k : Nat) (hk : 0 < k) :
    ∃ tableA tableB, (service.resolve A k).outcome = .ok tableA ∧
      (service.resolve B k).outcome = .ok tableB ∧
      ((∀ key, Contends settings index A key ↔ Contends settings index B key) →
        ∀ m, Contends settings index A m.key →
          ∃ scored, tableA.scored? m = some scored ∧ tableB.scored? m = some scored) ∧
      (Rearranged settings index A B → ∀ m ∈ A,
        ∃ scored, tableA.scored? m = some scored ∧ tableB.scored? m = some scored) := by
  have hclosed := TripleStore.closed_ofAdditions additions
  obtain rfl := eq_configured hservice
  obtain ⟨tableA, htableA, hA⟩ := exists_answers hclosed settings index A hk
  obtain ⟨tableB, htableB, hB⟩ := exists_answers hclosed settings index B hk
  refine ⟨tableA, tableB, htableA, htableB, ?_, ?_⟩
  · intro hsame m hm
    obtain ⟨n', hn', hkey', -⟩ := (hsame m.key).mp hm
    obtain ⟨n, hn, hkey, -⟩ := hm
    exact scored?_eq_of_contends_iff hclosed hA hB hsame (List.mem_map.mpr ⟨n, hn, hkey⟩)
      (List.mem_map.mpr ⟨n', hn', hkey'⟩)
  · intro hrearranged m hm
    exact scored?_eq_of_contends_iff hclosed hA hB hrearranged.contends_iff
      (List.mem_map_of_mem hm) (List.mem_map_of_mem (hrearranged.subset hm))

/-- The mentions trade places, the first is repeated, and one is put in that the index lacks. -/
theorem resolve_scored?_eq_atlas :
    ∃ service tableA tableB,
      (ofSettings {} atlas.lookup
        (TripleStore.ofAdditions [.vertex "x", .triple ⟨"s", "flows", "pa"⟩]).graph).outcome =
          .ok service ∧
      (service.resolve [⟨"Seine", 9, ""⟩, ⟨"Paris", 0, ""⟩] 1).outcome = .ok tableA ∧
      (service.resolve [⟨"Paris", 0, ""⟩, ⟨"Atlantis", 3, ""⟩, ⟨"Seine", 9, ""⟩,
        ⟨"Paris", 0, "again"⟩] 1).outcome = .ok tableB ∧
      ∃ scored, tableA.scored? ⟨"Paris", 0, ""⟩ = some scored ∧
        tableB.scored? ⟨"Paris", 0, ""⟩ = some scored := by
  have hdistance : 0 < ({} : Settings).maxDistance := by decide
  have hservice := ofSettings_eq_ok hdistance atlas
    (TripleStore.ofAdditions [.vertex "x", .triple ⟨"s", "flows", "pa"⟩])
  have hpermuted : Rearranged {} atlas [⟨"Seine", 9, ""⟩, ⟨"Paris", 0, ""⟩]
      ([⟨"Paris", 0, ""⟩] ++ [⟨"Seine", 9, ""⟩]) := .permuted (List.Perm.swap _ _ _)
  have hunknown : Rearranged {} atlas ([⟨"Paris", 0, ""⟩] ++ [⟨"Seine", 9, ""⟩])
      ([⟨"Paris", 0, ""⟩, ⟨"Atlantis", 3, ""⟩, ⟨"Seine", 9, ""⟩] ++ []) :=
    .unknown (by decide)
  have hrepeated : Rearranged {} atlas
      ([⟨"Paris", 0, ""⟩, ⟨"Atlantis", 3, ""⟩, ⟨"Seine", 9, ""⟩] ++ [])
      [⟨"Paris", 0, ""⟩, ⟨"Atlantis", 3, ""⟩, ⟨"Seine", 9, ""⟩, ⟨"Paris", 0, "again"⟩] :=
    .repeated (by decide)
  obtain ⟨tableA, tableB, htableA, htableB, -, hscored⟩ :=
    resolve_scored?_eq {} atlas [.vertex "x", .triple ⟨"s", "flows", "pa"⟩] _ hservice
      [⟨"Seine", 9, ""⟩, ⟨"Paris", 0, ""⟩]
      [⟨"Paris", 0, ""⟩, ⟨"Atlantis", 3, ""⟩, ⟨"Seine", 9, ""⟩, ⟨"Paris", 0, "again"⟩] 1 (by decide)
  exact ⟨_, tableA, tableB, hservice, htableA, htableB,
    hscored ((hpermuted.trans hunknown).trans hrepeated) _ (by decide)⟩

/-! ## Numbers of resolutions -/

/-- A request for fewer resolutions is answered by the first ones of each mention. -/
theorem Answers.eq_firsts {mentions : List Mention} {table table' : Table Rat}
    (h : Answers settings index store mentions k table)
    (h' : Answers settings index store mentions k' table') (hle : k ≤ k') :
    table = table'.firsts k := by
  have hmentions : table.mentions = table'.mentions := h.mentions_eq.trans h'.mentions_eq.symm
  have hrows : table.rows = table'.rows.map fun row => ⟨row.mention, row.value.take k⟩ := by
    by_cases hsome : Grounded settings index store mentions
    · obtain ⟨g, hrun, hrows⟩ := h.linked (grounded_iff.mp hsome)
      obtain ⟨g', hrun', hrows'⟩ := h'.linked (grounded_iff.mp hsome)
      obtain rfl : g = g' := by simpa [hrun] using hrun'
      rw [hrows, hrows', List.map_map, hmentions]
      apply List.map_congr_left
      intro m hm
      rw [Function.comp_apply, ← List.map_take, List.take_take, Nat.min_eq_left hle]
    · have hnone := contains_eq_false_of_not_grounded hsome
      rw [h.unlinked hnone, h'.unlinked hnone, List.map_map, hmentions]
      apply List.map_congr_left
      intro m hm
      simp
  cases table
  exact congrArg Table.mk hrows

/-- Wanting more resolutions only extends the answer: the table for fewer has the same mentions,
each with the first of the resolutions that it has in the table for more.  So the best resolutions
are the first of each mention that has any, however many were wanted. -/
theorem resolve_eq_firsts (settings : Settings) (index : CandidateIndex)
    (additions : List TripleStore.Addition) (service : Service Rat)
    (hservice :
      (ofSettings settings index.lookup (TripleStore.ofAdditions additions).graph).outcome =
        .ok service)
    (mentions : List Mention) (k k' : Nat) (hk : 0 < k) (hle : k ≤ k') :
    ∃ table table', (service.resolve mentions k).outcome = .ok table ∧
      (service.resolve mentions k').outcome = .ok table' ∧
      table.mentions = table'.mentions ∧ table = table'.firsts k ∧
      (service.resolveBest mentions).outcome =
        .ok (table.rows.filterMap fun row => row.value.head?) := by
  have hclosed := TripleStore.closed_ofAdditions additions
  obtain rfl := eq_configured hservice
  obtain ⟨single, hsingle, hanswersSingle⟩ :=
    exists_answers hclosed settings index mentions Nat.one_pos
  obtain ⟨table, htable, hanswers⟩ := exists_answers hclosed settings index mentions hk
  obtain ⟨table', htable', hanswers'⟩ :=
    exists_answers hclosed settings index mentions (Nat.lt_of_lt_of_le hk hle)
  have hbest : single.best = table.rows.filterMap fun row => row.value.head? := by
    rw [hanswersSingle.eq_firsts hanswers hk, Table.best_firsts _ Nat.one_pos, Table.best]
  refine ⟨table, table', htable, htable', hanswers.mentions_eq.trans hanswers'.mentions_eq.symm,
    hanswers.eq_firsts hanswers' hle, ?_⟩
  rw [resolveBest, Recorded.bind_eq, Recorded.outcome_andThen_eq_ok_iff]
  exact ⟨single, hsingle, congrArg Except.ok hbest⟩

/-- One of two candidates that tie, and then both. -/
theorem resolve_eq_firsts_atlas :
    ∃ service table table',
      (ofSettings {} atlas.lookup
          (TripleStore.ofAdditions [.vertex "x", .vertex "pa"]).graph).outcome = .ok service ∧
      (service.resolve [⟨"Paris", 0, ""⟩, ⟨"Atlantis", 3, ""⟩] 1).outcome = .ok table ∧
      (service.resolve [⟨"Paris", 0, ""⟩, ⟨"Atlantis", 3, ""⟩] 2).outcome = .ok table' ∧
      table.mentions = table'.mentions ∧ table = table'.firsts 1 ∧
      (service.resolveBest [⟨"Paris", 0, ""⟩, ⟨"Atlantis", 3, ""⟩]).outcome =
        .ok (table.rows.filterMap fun row => row.value.head?) := by
  have hdistance : 0 < ({} : Settings).maxDistance := by decide
  have hservice := ofSettings_eq_ok hdistance atlas
    (TripleStore.ofAdditions [.vertex "x", .vertex "pa"])
  obtain ⟨table, table', hrest⟩ :=
    resolve_eq_firsts {} atlas [.vertex "x", .vertex "pa"] _ hservice
      [⟨"Paris", 0, ""⟩, ⟨"Atlantis", 3, ""⟩] 1 2 (by decide) (by decide)
  exact ⟨_, table, table', hservice, hrest⟩

end Service
end EntityLinking
