import EntityLinking.Proofs.Graph.Centrality
import EntityLinking.Proofs.Search.Linking
import EntityLinking.Proofs.Service.Leading
import EntityLinking.Proofs.Uri.Spelling

/-!
# What a configured service answers

Over an index and a store of triples a service as the settings describe it always answers, and its
answer can be told without the service: every mention gets the first few of its filtered candidates,
sorted by their degree in the subgraph of the request.
-/

namespace EntityLinking
namespace Service

variable {settings : Settings} {index : CandidateIndex} {store : TripleStore}
variable {mentions : List Mention} {k : Nat}

/-- The candidates of a surface form that the filters leave; none when the index lacks the form. -/
def shortlist (settings : Settings) (index : CandidateIndex) (surface : String) : List Entity :=
  (Pipeline.ofSettings settings.filters).select ((index.find? surface).getD [])

/-- The name of a candidate in the knowledge graph. -/
def vertex (settings : Settings) (entity : Entity) : String :=
  settings.decoder.decode entity.uri

/-- The names of the candidates of each mention of a request. -/
def vertices (settings : Settings) (index : CandidateIndex) (mentions : List Mention) :
    Search.Rows :=
  (Mention.distinct mentions).map fun m =>
    (shortlist settings index m.surface).map (vertex settings)

/-- The candidates of a surface form by descending degree in a subgraph; equal degrees keep the
order of the shortlist. -/
def ranking (settings : Settings) (index : CandidateIndex) (g : Subgraph) (surface : String) :
    List Entity :=
  (shortlist settings index surface).mergeSort fun a b =>
    decide (g.degree (vertex settings b) ≤ g.degree (vertex settings a))

/-- A table that answers a request as the settings, the index and the store demand. -/
structure Answers (settings : Settings) (index : CandidateIndex) (store : TripleStore)
    (mentions : List Mention) (k : Nat) (table : Table Rat) : Prop where
  mentions_eq : table.mentions = Mention.inOrder (Mention.distinct mentions)
  unlinked : (∀ m ∈ mentions, ∀ e ∈ shortlist settings index m.surface,
      store.contains (vertex settings e) = false) →
    table.rows = table.mentions.map fun m => ⟨m, []⟩
  linked : (∃ m ∈ mentions, ∃ e ∈ shortlist settings index m.surface,
      store.contains (vertex settings e) = true) →
    ∃ g, (Search.relevant store.graph settings.maxDistance
        (vertices settings index mentions)).outcome = .ok (some g) ∧
      table.rows = table.mentions.map fun m =>
        ⟨m, ((ranking settings index g m.surface).take k).map fun e =>
          ⟨m, e, DegreeCentrality.share g (vertex settings e)⟩⟩

/-- The service that settings describe over an index and a store. -/
def configured (settings : Settings) (index : CandidateIndex) (store : TripleStore) :
    Service Rat where
  lookup := index.lookup
  filters := Pipeline.ofSettings settings.filters
  decoder := settings.decoder
  construction := pathConstruction store.graph settings.maxDistance
  scoring := degreeScoring

theorem ofSettings_eq_ok (hdistance : 0 < settings.maxDistance) (index : CandidateIndex)
    (store : TripleStore) :
    (ofSettings settings index.lookup store.graph).outcome =
      .ok (configured settings index store) :=
  outcome_ofSettings hdistance index.lookup store.graph

/-! ## The parts over an index and a store -/

theorem survivors_described (settings : Settings) (index : CandidateIndex) (kg : KnowledgeGraph)
    (surface : String) :
    (described settings index.lookup kg).survivors surface = shortlist settings index surface :=
  survivors_pathService index (Pipeline.ofSettings settings.filters) settings.decoder kg
    settings.maxDistance surface

theorem survivors_configured (surface : String) :
    (configured settings index store).survivors surface = shortlist settings index surface :=
  survivors_described settings index store.graph surface

theorem uris_senses_configured (settings : Settings) (index : CandidateIndex) (store : TripleStore)
    (mentions : List Mention) :
    ((configured settings index store).senses mentions).uris =
      vertices settings index mentions := by
  rw [SenseRows.uris, senses, List.map_map, vertices]
  apply List.map_congr_left
  intro m hm
  rw [Function.comp_apply, survivors_configured, List.map_map]
  rfl

theorem construction_configured :
    ((configured settings index store).construction
        ((configured settings index store).senses mentions)).outcome =
      (Search.relevant store.graph settings.maxDistance
        (vertices settings index mentions)).outcome := by
  rw [← uris_senses_configured settings index store mentions]
  rfl

theorem candidate_vertices_iff {u : String} :
    Search.Candidate (vertices settings index mentions) u ↔
      ∃ m ∈ mentions, ∃ e ∈ shortlist settings index m.surface, vertex settings e = u := by
  rw [Search.candidate_iff, ← Mention.exists_surface_distinct_iff fun surface =>
    ∃ e ∈ shortlist settings index surface, vertex settings e = u]
  simp [vertices]

/-! ## Scores over an index and a store -/

/-- A candidate as a resolution of a mention, with its score in a subgraph. -/
def rated (settings : Settings) (g : Subgraph) (m : Mention) (e : Entity) : Resolution Rat :=
  ⟨m, e, DegreeCentrality.score g (vertex settings e)⟩

/-- The scores of the configured service. -/
def scores (settings : Settings) (index : CandidateIndex) (store : TripleStore)
    (mentions : List Mention) (g : Subgraph) (k : Nat) : MentionScores Rat :=
  DegreeCentrality.best ((configured settings index store).senses mentions) g k

theorem map_fst_scores (g : Subgraph) :
    (scores settings index store mentions g k).map Prod.fst = Mention.distinct mentions :=
  map_fst_best (configured settings index store) mentions g k

/-- Where scores and degrees rank alike, the leading candidates are the first of the ranking. -/
theorem leading_shortlist {g : Subgraph} (hloop : ∀ v, g.linked v v = false) (surface : String)
    (k : Nat) : leading settings.decoder g k (shortlist settings index surface) =
      (ranking settings index g surface).take k := by
  rw [leading, DegreeCentrality.sortDescending_score hloop]
  rfl

/-! ## The answer -/

theorem answer_scores_rows {g : Subgraph} (hloop : ∀ v, g.linked v v = false) :
    (answer (scores settings index store mentions g k) mentions).rows =
      (Mention.inOrder (Mention.distinct mentions)).map fun m =>
        ⟨m, ((ranking settings index g m.surface).take k).map (rated settings g m)⟩ := by
  rw [scores, rows_answer_best]
  apply List.map_congr_left
  intro m hm
  rw [survivors_configured, ← leading_shortlist hloop]
  rfl

/-- When no candidate is a vertex, the empty table answers a request. -/
theorem answers_nil
    (hnone : ∀ m ∈ mentions, ∀ e ∈ shortlist settings index m.surface,
      ¬ store.contains (vertex settings e) = true) :
    Answers settings index store mentions k (answer [] mentions) := by
  refine ⟨mentions_answer [] mentions, ?_, ?_⟩
  · intro _
    exact answer_nil_rows mentions
  · rintro ⟨m, hm, e, he, hcontains⟩
    exact absurd hcontains (hnone m hm e he)

/-- When some candidate is a vertex, the table of the scores in the subgraph answers a request. -/
theorem answers_scores {g : Subgraph} {trees : Search.Trees}
    (hrun : (Search.relevant store.graph settings.maxDistance
      (vertices settings index mentions)).outcome = .ok (some g))
    (hexplained : Search.Explained store.graph settings.maxDistance
      (vertices settings index mentions) g trees)
    (hclosed : store.Closed) {m : Mention} (hm : m ∈ mentions) {e : Entity}
    (he : e ∈ shortlist settings index m.surface)
    (hcontains : store.contains (vertex settings e) = true) :
    Answers settings index store mentions k
      (answer (scores settings index store mentions g k) mentions) := by
  have hloop := (hexplained.woven hclosed).loopless
  have hvertex : g.contains (vertex settings e) = true :=
    (hexplained.woven hclosed).candidates _ (candidate_vertices_iff.mpr ⟨m, hm, e, he, rfl⟩)
      hcontains
  have hpos : 0 < g.vertexCount := List.length_pos_of_mem (Subgraph.contains_iff.mp hvertex)
  have hmentions : (answer (scores settings index store mentions g k) mentions).mentions =
      Mention.inOrder (Mention.distinct mentions) := by
    rw [mentions_answer, map_fst_scores, ← Mention.distinct_append_distinct,
      Mention.distinct_append_self, Mention.distinct_distinct]
  refine ⟨hmentions, ?_, ?_⟩
  · intro hnone
    rw [hnone m hm e he] at hcontains
    exact absurd hcontains Bool.false_ne_true
  · intro _
    refine ⟨g, hrun, ?_⟩
    rw [hmentions, answer_scores_rows hloop]
    apply List.map_congr_left
    intro n hn
    have hrated : rated settings g n = fun e =>
        ⟨n, e, DegreeCentrality.share g (vertex settings e)⟩ := by
      funext e
      rw [rated, DegreeCentrality.score_eq_share hpos]
    rw [hrated]

/-- Over a store of triples the configured service always answers, as the settings demand. -/
theorem exists_answers (hclosed : store.Closed) (settings : Settings) (index : CandidateIndex)
    (mentions : List Mention) (hk : 0 < k) :
    ∃ table, ((configured settings index store).resolve mentions k).outcome = .ok table ∧
      Answers settings index store mentions k table := by
  have hcourse := resolve_course (configured settings index store) mentions k
  generalize calls ((configured settings index store).resolve mentions k) = cs at hcourse
  generalize ((configured settings index store).resolve mentions k).outcome = outcome at hcourse
  cases hcourse with
  | refused hzero => omega
  | unreachable hk parts reached unreached =>
      have hreached := outage?_lookup index
      rw [configured, hreached] at unreached
      simp at unreached
  | exhausted hk reached hnone =>
      refine ⟨_, rfl, answers_nil ?_⟩
      intro m hm e he
      have hempty : shortlist settings index m.surface = [] := by
        rw [← survivors_configured, hnone m hm]
      rw [hempty] at he
      simp at he
  | proceeding proceeds linking =>
      have hrelevant := Search.relevant_graph hclosed settings.maxDistance
        (vertices settings index mentions)
      cases linking with
      | unconstructed construction =>
          rw [construction_configured] at construction
          rcases hrelevant with ⟨hrun, -⟩ | ⟨g, trees, hrun, -⟩
          · simp [hrun] at construction
          · simp [hrun] at construction
      | unusable construction =>
          rw [construction_configured] at construction
          rcases hrelevant with ⟨-, hno⟩ | ⟨g, trees, hrun, -⟩
          · refine ⟨_, rfl, answers_nil ?_⟩
            intro m hm e he
            exact hno _ (candidate_vertices_iff.mpr ⟨m, hm, e, he, rfl⟩)
          · simp [hrun] at construction
      | unscored construction scoring => simp [configured, degreeScoring] at scoring
      | @scored g answered construction scoring =>
          rw [construction_configured] at construction
          obtain rfl : scores settings index store mentions g k = answered := Except.ok.inj scoring
          rcases hrelevant with ⟨hrun, -⟩ | ⟨g', trees, hrun, hexplained, u, hu, hcontains⟩
          · simp [hrun] at construction
          · obtain rfl : g' = g := by simpa [hrun] using construction
            obtain ⟨m, hm, e, he, rfl⟩ := candidate_vertices_iff.mp hu
            exact ⟨_, rfl, answers_scores hrun hexplained hclosed hm he hcontains⟩

/-- A service set up from settings over an index and some triples answers every request for at least
one candidate: each distinct mention, by offset, with the first of its filtered candidates by degree
in the subgraph of the request, and with none when no candidate is a vertex. -/
theorem resolve_answers (settings : Settings) (index : CandidateIndex) (triples : List Triple)
    (mentions : List Mention) (k : Nat) (hdistance : 0 < settings.maxDistance) (hk : 0 < k) :
    ∃ service table,
      (ofSettings settings index.lookup (TripleStore.ofTriples triples).graph).outcome =
        .ok service ∧
      (service.resolve mentions k).outcome = .ok table ∧
      Answers settings index (TripleStore.ofTriples triples) mentions k table := by
  obtain ⟨table, htable, hanswers⟩ :=
    exists_answers (TripleStore.closed_ofTriples triples) settings index mentions hk
  exact ⟨_, table, ofSettings_eq_ok hdistance index _, htable, hanswers⟩

/-- Two candidates for one form, of which only the second is in the triples, and that under its
decoded name. -/
def atlas : CandidateIndex :=
  ⟨[("Paris", [⟨"x", 0, .zero⟩, ⟨"p%61", 0, .zero⟩]), ("Seine", [⟨"s", 0, .zero⟩])]⟩

/-- The second candidate for Paris is written with an escape for its last letter. -/
theorem spelling_escaped : Decoder.Spelling "pa".toList "p%61".toList := by
  have hescaped : Decoder.Escaped (String.utf8EncodeChar 'a') ['%', '6', '1'] :=
    .cons (by decide) .nil
  exact .literal (by decide) (.escaped hescaped .nil)

theorem resolve_answers_atlas :
    ∃ service table,
      (ofSettings {} atlas.lookup
        (TripleStore.ofTriples [⟨"s", "flows", "pa"⟩]).graph).outcome = .ok service ∧
      (service.resolve [⟨"Seine", 9, ""⟩, ⟨"Paris", 0, ""⟩, ⟨"Seine", 9, "again"⟩] 1).outcome =
        .ok table ∧
      table.rows =
        [⟨⟨"Paris", 0, ""⟩, [⟨⟨"Paris", 0, ""⟩, ⟨"p%61", 0, .zero⟩, 1⟩]⟩,
          ⟨⟨"Seine", 9, ""⟩, [⟨⟨"Seine", 9, ""⟩, ⟨"s", 0, .zero⟩, 1⟩]⟩] := by
  obtain ⟨service, table, hservice, htable, hanswers⟩ :=
    resolve_answers {} atlas [⟨"s", "flows", "pa"⟩]
      [⟨"Seine", 9, ""⟩, ⟨"Paris", 0, ""⟩, ⟨"Seine", 9, "again"⟩] 1 (by decide) (by decide)
  have hs : vertex {} ⟨"s", 0, .zero⟩ = "s" :=
    Decoder.Spelling.decode_percent (.literal (by decide) .nil)
  have hx : vertex {} ⟨"x", 0, .zero⟩ = "x" :=
    Decoder.Spelling.decode_percent (.literal (by decide) .nil)
  have hpa : vertex {} ⟨"p%61", 0, .zero⟩ = "pa" := spelling_escaped.decode_percent
  have hmentions : table.mentions = [⟨"Paris", 0, ""⟩, ⟨"Seine", 9, ""⟩] := by
    rw [hanswers.mentions_eq]
    cbv
  have hseine : shortlist {} atlas "Seine" = [⟨"s", 0, .zero⟩] := rfl
  have hparis : shortlist {} atlas "Paris" = [⟨"x", 0, .zero⟩, ⟨"p%61", 0, .zero⟩] := rfl
  have hvertex : (TripleStore.ofTriples [⟨"s", "flows", "pa"⟩]).contains
      (vertex {} ⟨"s", 0, .zero⟩) = true := by
    rw [hs]
    decide
  obtain ⟨g, hg, hrows⟩ := hanswers.linked
    ⟨⟨"Seine", 9, ""⟩, List.mem_cons_self, _, hseine ▸ List.mem_cons_self, hvertex⟩
  have hvertices : vertices {} atlas [⟨"Seine", 9, ""⟩, ⟨"Paris", 0, ""⟩, ⟨"Seine", 9, "again"⟩] =
      [["s"], ["x", "pa"]] := by
    change [(shortlist {} atlas "Seine").map (vertex {}),
      (shortlist {} atlas "Paris").map (vertex {})] = _
    rw [hseine, hparis, List.map_singleton, List.map_cons, List.map_singleton, hs, hx, hpa]
  have hrun : (Search.relevant (TripleStore.ofTriples [⟨"s", "flows", "pa"⟩]).graph 2
      [["s"], ["x", "pa"]]).outcome = .ok (some ⟨["s", "pa"], [⟨"s", "flows", "pa"⟩]⟩) := by
    cbv
  have hgraph : g = ⟨["s", "pa"], [⟨"s", "flows", "pa"⟩]⟩ := by
    rw [hvertices] at hg
    simpa using hg.symm.trans hrun
  -- of the two candidates for Paris the first one is no vertex, so the second goes before it
  have hranked : ranking {} atlas g "Paris" = [⟨"p%61", 0, .zero⟩, ⟨"x", 0, .zero⟩] := by
    have habsent : g.degree "x" = 0 := by
      rw [hgraph]
      decide
    have hpresent : g.degree "pa" = 1 := by
      rw [hgraph]
      decide
    simp [ranking, hparis, List.mergeSort, hx, hpa, habsent, hpresent]
  have hsingle : ranking {} atlas g "Seine" = [⟨"s", 0, .zero⟩] := by
    rw [ranking, hseine, List.mergeSort_singleton]
  have hshare : DegreeCentrality.share g "s" = 1 ∧ DegreeCentrality.share g "pa" = 1 := by
    rw [hgraph]
    decide +kernel
  refine ⟨service, table, hservice, htable, ?_⟩
  rw [hrows, hmentions]
  simp [hranked, hsingle, hs, hpa, hshare]

end Service
end EntityLinking
