import EntityLinking.Proofs.Service.Course

/-!
# The leading candidates

A service with construction by paths and scoring by degree centrality answers a mention with the
first few of its survivors, in the order of the scores of their vertices.  The table sorts them
again, which changes nothing, and equal scores keep the order of the lookup.
-/

namespace EntityLinking

/-- The candidates that an index lists for a form. -/
def CandidateIndex.listed (index : CandidateIndex) (surface : String) : List Entity :=
  (index.find? surface).getD []

namespace Service

variable {decoder : Decoder} {g : Subgraph} {mentions : List Mention} {k : Nat}

/-- A service with construction by paths and scoring by degree centrality. -/
def pathService (lookup : Lookup) (filters : Pipeline) (decoder : Decoder) (kg : KnowledgeGraph)
    (maxDistance : Nat) : Service Rat where
  lookup := lookup
  filters := filters
  decoder := decoder
  construction := pathConstruction kg maxDistance
  scoring := degreeScoring

@[simp] theorem decoder_pathService (lookup : Lookup) (filters : Pipeline) (decoder : Decoder)
    (kg : KnowledgeGraph) (maxDistance : Nat) :
    (pathService lookup filters decoder kg maxDistance).decoder = decoder := rfl

/-- The service that settings describe over a lookup and a knowledge graph. -/
def described (settings : Settings) (lookup : Lookup) (kg : KnowledgeGraph) : Service Rat :=
  pathService lookup (Pipeline.ofSettings settings.filters) settings.decoder kg settings.maxDistance

theorem outcome_ofSettings {settings : Settings} (hdistance : 0 < settings.maxDistance)
    (lookup : Lookup) (kg : KnowledgeGraph) :
    (ofSettings settings lookup kg).outcome = .ok (described settings lookup kg) := by
  rw [ofSettings, if_neg (Nat.ne_of_gt hdistance)]
  rfl

/-! ## Lookups in an index -/

theorem outage?_lookup (index : CandidateIndex) (surface : String) :
    Gathering.outage? index.lookup surface = none := by
  rw [Gathering.outage?, CandidateIndex.lookup]
  cases index.find? surface <;> rfl

theorem survivors_pathService (index : CandidateIndex) (filters : Pipeline) (decoder : Decoder)
    (kg : KnowledgeGraph) (maxDistance : Nat) (surface : String) :
    (pathService index.lookup filters decoder kg maxDistance).survivors surface =
      filters.select (index.listed surface) := by
  rw [survivors, Gathering.found]
  simp only [pathService, CandidateIndex.lookup, CandidateIndex.listed]
  cases index.find? surface <;> rfl

/-! ## Rows by scores -/

/-- A candidate as a resolution of a mention, with the score of its vertex. -/
def assessed (decoder : Decoder) (g : Subgraph) (m : Mention) (e : Entity) : Resolution Rat :=
  ⟨m, e, DegreeCentrality.score g (decoder.decode e.uri)⟩

/-- The first `k` of some candidates by the scores of their vertices. -/
def leading (decoder : Decoder) (g : Subgraph) (k : Nat) (es : List Entity) : List Entity :=
  (Ranked.sortDescending (fun e => DegreeCentrality.score g (decoder.decode e.uri)) es).take k

/-- The best senses of a mention are its leading candidates. -/
theorem toResolution_take_scoreRow (decoder : Decoder) (g : Subgraph) (m : Mention) (k : Nat)
    (es : List Entity) :
    ((Ranked.sortDescending Scored.score
        (DegreeCentrality.scoreRow g m (es.map (Sense.ofEntity decoder)))).take k).map
        Sense.toResolution = (leading decoder g k es).map (assessed decoder g m) := by
  rw [DegreeCentrality.scoreRow, List.map_map, Ranked.sortDescending_map, ← List.map_take,
    List.map_map]
  rfl

/-- The leading candidates are in the order of their scores already, so assembling the table leaves
them alone. -/
theorem sortDescending_assessed (decoder : Decoder) (g : Subgraph) (m : Mention) (k : Nat)
    (es : List Entity) :
    Ranked.sortDescending Resolution.score ((leading decoder g k es).map (assessed decoder g m)) =
      (leading decoder g k es).map (assessed decoder g m) := by
  apply List.mergeSort_of_pairwise
  rw [List.pairwise_map]
  exact (Ranked.pairwise_sortDescending _ es).sublist (List.take_sublist k _)

theorem resolved_best (s : Service Rat) (mentions : List Mention) (g : Subgraph) (k : Nat) :
    resolved (DegreeCentrality.best (s.senses mentions) g k) =
      (Mention.distinct mentions).map fun m =>
        (m, (leading s.decoder g k (s.survivors m.surface)).map (assessed s.decoder g m)) := by
  rw [resolved, DegreeCentrality.best, senses, List.map_map, List.map_map]
  apply List.map_congr_left
  intro m hm
  exact congrArg (Prod.mk m) (toResolution_take_scoreRow s.decoder g m k (s.survivors m.surface))

theorem map_fst_best (s : Service Rat) (mentions : List Mention) (g : Subgraph) (k : Nat) :
    (DegreeCentrality.best (s.senses mentions) g k).map Prod.fst = Mention.distinct mentions := by
  rw [DegreeCentrality.best, List.map_map, ← map_fst_senses s mentions]
  rfl

/-- What the scores file under a mention of the request are its leading survivors. -/
theorem filed_best (s : Service Rat) (g : Subgraph) (k : Nat) {m : Mention}
    (hm : m ∈ Mention.distinct mentions) :
    Table.filed (resolved (DegreeCentrality.best (s.senses mentions) g k)) m =
      (leading s.decoder g k (s.survivors m.surface)).map (assessed s.decoder g m) := by
  have hkeys : (((resolved (DegreeCentrality.best (s.senses mentions) g k)).map Prod.fst).map
      Mention.key).Nodup := by
    rw [map_fst_resolved, map_fst_best]
    exact Mention.nodup_keys_distinct mentions
  have hrow : (m, (leading s.decoder g k (s.survivors m.surface)).map (assessed s.decoder g m)) ∈
      resolved (DegreeCentrality.best (s.senses mentions) g k) := by
    rw [resolved_best]
    exact List.mem_map_of_mem hm
  exact Table.filed_of_mem hkeys hrow

/-- A table of scores by degree gives each mention its leading survivors. -/
theorem rows_answer_best (s : Service Rat) (mentions : List Mention) (g : Subgraph) (k : Nat) :
    (answer (DegreeCentrality.best (s.senses mentions) g k) mentions).rows =
      (Mention.inOrder (Mention.distinct mentions)).map fun m =>
        ⟨m, (leading s.decoder g k (s.survivors m.surface)).map (assessed s.decoder g m)⟩ := by
  rw [← answer_distinct, answer, Table.tabulate, map_fst_best, Mention.distinct_append_self,
    Mention.distinct_distinct]
  apply List.map_congr_left
  intro m hm
  have hm := (Mention.inOrder_perm _).mem_iff.mp hm
  rw [filed_best s g k hm, sortDescending_assessed]

/-! ## Answers without scores -/

theorem mentions_answer (answered : MentionScores Rat) (mentions : List Mention) :
    (answer answered mentions).mentions =
      Mention.inOrder (Mention.distinct (answered.map Prod.fst ++ mentions)) := by
  rw [Table.mentions, answer, Table.tabulate, List.map_map]
  exact List.map_id _

theorem answer_nil_rows (mentions : List Mention) :
    (answer [] mentions : Table Rat).rows =
      (answer [] mentions : Table Rat).mentions.map fun m => ⟨m, []⟩ := by
  rw [mentions_answer, answer, Table.tabulate]
  apply List.map_congr_left
  intro m hm
  exact congrArg _ List.mergeSort_nil

end Service
end EntityLinking
