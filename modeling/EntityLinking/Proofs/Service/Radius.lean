import EntityLinking.Proofs.Search.Locality
import EntityLinking.Proofs.Service.Correspondence

/-!
# Requests over graphs that agree near by

A request sees of a knowledge graph whether its candidates are vertices, and the neighbours of what
lies within the radius of its searches.  Graphs that agree there give it the same subgraph, or the
same fault, and so the same answer; what is edited or out of order farther away is not noticed.
-/

namespace EntityLinking

/-- The graph with an outage at one vertex. -/
def KnowledgeGraph.outageAt (kg : KnowledgeGraph) (w : String) : KnowledgeGraph where
  contains u := if u = w then .error (.unavailable w) else kg.contains u
  neighbours u := if u = w then .error (.unavailable w) else kg.neighbours u

namespace Service

variable {σ : Type} {s : Service σ} {kg kg' : KnowledgeGraph} {maxDistance k : Nat}
variable {mentions : List Mention}

/-- A request fares the same with two constructions that end the same for its senses. -/
theorem resolve_withConstruction_eq [Ranked σ] {construction construction' : Construction}
    (h : (construction (s.senses mentions)).outcome = (construction' (s.senses mentions)).outcome)
    (k : Nat) : ((s.withConstruction construction).resolve mentions k).outcome =
      ((s.withConstruction construction').resolve mentions k).outcome := by
  have hcorresponds : Corresponds Eq (s.withConstruction construction)
      (s.withConstruction construction') mentions k := by
    refine ⟨fun _ => rfl, fun _ => Iff.rfl, h, rfl, ?_⟩
    intro g hg
    apply EndAlike.refl
    intro scores
    rfl
  exact hcorresponds.resolve.1.eq

/-- A mention whose survivors lend a candidate has survivors. -/
theorem exists_survivors_of_candidate {u : String}
    (hu : Search.Candidate (s.senses mentions).uris u) :
    ∃ m ∈ mentions, s.survivors m.surface ≠ [] := by
  obtain ⟨row, hrow, hmem⟩ := Search.candidate_iff.mp hu
  rw [SenseRows.uris, senses, List.map_map] at hrow
  obtain ⟨m, hm, rfl⟩ := List.mem_map.mp hrow
  refine ⟨m, Mention.mem_of_mem_distinct hm, ?_⟩
  intro hnil
  simp [hnil] at hmem

/-- A construction that fails fails every request with a candidate, unless that has failed
before. -/
theorem exists_resolve_withConstruction_eq_error [Ranked σ] {construction : Construction}
    {fault : GraphFault} {u : String} (hu : Search.Candidate (s.senses mentions).uris u)
    (hfailed : (construction (s.senses mentions)).outcome = .error fault) (k : Nat) :
    ∃ f, ((s.withConstruction construction).resolve mentions k).outcome = .error f ∧
      (0 < k → (∀ m ∈ mentions, Gathering.outage? s.lookup m.surface = none) →
        f = graphOutage fault) := by
  have hcourse := resolve_course (s.withConstruction construction) mentions k
  generalize ((s.withConstruction construction).resolve mentions k).outcome = outcome at hcourse ⊢
  generalize calls ((s.withConstruction construction).resolve mentions k) = cs at hcourse
  cases hcourse with
  | refused hk => exact ⟨_, rfl, fun hpos => by omega⟩
  | unreachable hk parts reached unreached =>
      exact ⟨_, rfl, fun _ hreached => absurd hreached (not_reached parts unreached)⟩
  | exhausted hk reached hnone =>
      obtain ⟨m, hm, hsome⟩ := exists_survivors_of_candidate hu
      exact absurd (hnone m hm) hsome
  | proceeding proceeds linking =>
      exact ⟨graphOutage fault, (linking.eq_of_error hfailed).2, fun _ _ => rfl⟩

/-- The construction of a subgraph is local.  Two graphs may be given, faults and all, that
agree on which candidates are vertices, and on the neighbours of what fewer steps than the
greatest distance lead to from a candidate, where no step leads on from a fault: then the
construction runs the same over both, and every request with these senses has the same outcome.
A fault in the question whether some candidate is a vertex ends the construction, and with it
every request with these senses. -/
theorem construction_local (kg kg' : KnowledgeGraph) (maxDistance : Nat) (rows : Search.Rows)
    (hcontains : ∀ u, Search.Candidate rows u → kg.contains u = kg'.contains u)
    (hneighbours : ∀ n < maxDistance, ∀ u, Search.Reach kg rows n u →
      kg.neighbours u = kg'.neighbours u) :
    Search.relevant kg maxDistance rows = Search.relevant kg' maxDistance rows ∧
      (∀ (s : Service Rat) mentions k, (s.senses mentions).uris = rows →
        ((s.withConstruction (pathConstruction kg maxDistance)).resolve mentions k).outcome =
          ((s.withConstruction (pathConstruction kg' maxDistance)).resolve mentions k).outcome) ∧
      ∀ u fault, Search.Candidate rows u → kg.contains u = .error fault →
        ∃ v fault', Search.Candidate rows v ∧ kg.contains v = .error fault' ∧
          (Search.relevant kg maxDistance rows).outcome = .error fault' ∧
          ∀ (s : Service Rat) mentions k, (s.senses mentions).uris = rows →
            ∃ f,
              ((s.withConstruction (pathConstruction kg maxDistance)).resolve mentions k).outcome =
                .error f ∧
              (0 < k → (∀ m ∈ mentions, Gathering.outage? s.lookup m.surface = none) →
                f = graphOutage fault') := by
  have hrun := Search.relevant_eq_of_agree hcontains hneighbours
  refine ⟨hrun, ?_, ?_⟩
  · intro s mentions k huris
    subst huris
    exact resolve_withConstruction_eq (congrArg Recorded.outcome hrun) k
  · intro u fault hu hfault
    obtain ⟨v, fault', hv, hfault', hends⟩ := Search.exists_relevant_eq_error hu hfault maxDistance
    refine ⟨v, fault', hv, hfault', hends, ?_⟩
    intro s mentions k huris
    subst huris
    exact exists_resolve_withConstruction_eq_error hu hends k

/-- A river with a mouth two steps from its source. -/
def river : TripleStore :=
  .ofTriples [⟨"s", "flows", "t"⟩, ⟨"t", "ends", "far"⟩]

theorem construction_local_river :
    Search.relevant (river.graph.outageAt "far") 1 [["s"], ["t"]] =
        Search.relevant river.graph 1 [["s"], ["t"]] ∧
      (Search.relevant river.graph 1 [["s"], ["t"]]).outcome =
        .ok (some ⟨["s", "t"], [⟨"s", "flows", "t"⟩]⟩) := by
  have hcandidate : ∀ u, Search.Candidate [["s"], ["t"]] u → u ≠ "far" := by
    rintro u hu rfl
    obtain ⟨row, hrow, hmem⟩ := Search.candidate_iff.mp hu
    simp at hrow
    rcases hrow with rfl | rfl <;> simp at hmem
  have hcontains : ∀ u, Search.Candidate [["s"], ["t"]] u →
      river.graph.contains u = (river.graph.outageAt "far").contains u :=
    fun u hu => (if_neg (hcandidate u hu)).symm
  have hneighbours : ∀ n < 1, ∀ u, Search.Reach river.graph [["s"], ["t"]] n u →
      river.graph.neighbours u = (river.graph.outageAt "far").neighbours u := by
    intro n hn u hreach
    cases hreach with
    | candidate hu => exact (if_neg (hcandidate u hu)).symm
    | step hu hstep => omega
  obtain ⟨hrun, -⟩ := construction_local river.graph (river.graph.outageAt "far") 1 [["s"], ["t"]]
    hcontains hneighbours
  refine ⟨hrun.symm, ?_⟩
  cbv

end Service
end EntityLinking
