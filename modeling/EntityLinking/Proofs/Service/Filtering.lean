import EntityLinking.Proofs.Candidate.Selection
import EntityLinking.Proofs.Service.Configured
import EntityLinking.Proofs.Service.Correspondence

/-!
# Filtering a request and filtering the index

A candidate that the filters drop might as well not be in the index.  A service looks up form by
form and filters mention by mention, so filtering every list of the index beforehand, with no
threshold left for the service, gives the same calls and the same outcome for every request; and so
do any two indexes that the filters cannot tell apart.
-/

namespace EntityLinking

/-- The settings with every threshold unset. -/
def FilterSettings.unset (s : FilterSettings) : FilterSettings :=
  { s with minSupport := none, bestSupport := none, bestPrior := none }

/-- The settings with every filter threshold unset. -/
def Settings.unfiltered (settings : Settings) : Settings :=
  { settings with filters := settings.filters.unset }

/-- The index with what a pipeline selects of each list. -/
def CandidateIndex.filtered (p : Pipeline) (index : CandidateIndex) : CandidateIndex :=
  ⟨index.rows.map fun row => (row.1, p.select row.2)⟩

theorem CandidateIndex.find?_filtered (p : Pipeline) (index : CandidateIndex) (surface : String) :
    (index.filtered p).find? surface = (index.find? surface).map p.select := by
  obtain ⟨rows⟩ := index
  simp only [filtered, find?]
  induction rows with
  | nil => rfl
  | cons row rest ih =>
      rw [List.map_cons, List.lookup_cons, List.lookup_cons, ih]
      cases surface == row.1 <;> rfl

theorem Pipeline.stages_unset (s : FilterSettings) : (ofSettings s.unset).stages = [] := by
  rw [ofSettings, List.filterMap_eq_nil_iff]
  intro kind hkind
  cases kind <;> rfl

namespace Service

variable {settings : Settings} {kg : KnowledgeGraph} {index other : CandidateIndex}

theorem shortlist_unfiltered (settings : Settings) (index : CandidateIndex) (surface : String) :
    shortlist settings.unfiltered (index.filtered (Pipeline.ofSettings settings.filters)) surface =
      shortlist settings index surface := by
  have hselect : ∀ es, (Pipeline.ofSettings settings.unfiltered.filters).select es = es := by
    intro es
    rw [Pipeline.select, Settings.unfiltered, Pipeline.stages_unset]
    rfl
  rw [shortlist, hselect, CandidateIndex.find?_filtered, shortlist]
  cases index.find? surface with
  | none => exact (Pipeline.select_nil _).symm
  | some es => rfl

section Exchange

variable {σ : Type} [Ranked σ] {s s' : Service σ}

/-- Services that differ in lookup and filters only, and find the same survivors,
answer every request alike. -/
theorem corresponds_of_survivors_eq
    (houtage : ∀ surface, Gathering.outage? s.lookup surface = Gathering.outage? s'.lookup surface)
    (hsurvivors : ∀ surface, s.survivors surface = s'.survivors surface)
    (hdecoder : s.decoder = s'.decoder) (hconstruction : s.construction = s'.construction)
    (hscoring : s.scoring = s'.scoring) (mentions : List Mention) (k : Nat) :
    Corresponds Eq s s' mentions k ∧ s.senses mentions = s'.senses mentions := by
  have hsenses : s.senses mentions = s'.senses mentions := by
    simp only [senses, hsurvivors, hdecoder]
  refine ⟨⟨houtage, ?_, ?_, rfl, ?_⟩, hsenses⟩
  · intro surface
    rw [hsurvivors]
  · rw [hsenses, hconstruction]
  · intro g hg
    rw [hsenses, hscoring]
    apply EndAlike.refl
    intro scores
    rfl

end Exchange

/-- Indexes that leave the same shortlists, each with settings of its own for the filters, give the
same calls and the same outcome. -/
theorem resolve_described_eq {settings' : Settings}
    (hdecoder : settings.decoder = settings'.decoder)
    (hdistance : settings.maxDistance = settings'.maxDistance)
    (hshortlist : ∀ surface, shortlist settings index surface = shortlist settings' other surface)
    (kg : KnowledgeGraph) (mentions : List Mention) (k : Nat) :
    calls ((described settings index.lookup kg).resolve mentions k) =
        calls ((described settings' other.lookup kg).resolve mentions k) ∧
      ((described settings index.lookup kg).resolve mentions k).outcome =
        ((described settings' other.lookup kg).resolve mentions k).outcome := by
  have houtage : ∀ surface, Gathering.outage? (described settings index.lookup kg).lookup surface =
      Gathering.outage? (described settings' other.lookup kg).lookup surface := by
    intro surface
    exact (outage?_lookup index surface).trans (outage?_lookup other surface).symm
  have hsurvivors : ∀ surface, (described settings index.lookup kg).survivors surface =
      (described settings' other.lookup kg).survivors surface := by
    intro surface
    rw [survivors_described, survivors_described, hshortlist]
  have hconstruction : (described settings index.lookup kg).construction =
      (described settings' other.lookup kg).construction :=
    congrArg (pathConstruction kg) hdistance
  obtain ⟨hcorresponds, hsenses⟩ :=
    corresponds_of_survivors_eq houtage hsurvivors hdecoder hconstruction rfl mentions k
  obtain ⟨houtcome, hcalls⟩ := hcorresponds.resolve
  exact ⟨hcalls hsenses, houtcome.eq⟩

/-- What the filters drop has no influence.  A service answers every request as the service does
that has no thresholds, over the index with its lists filtered beforehand: with the same calls, so
in the same subgraph, and with the same outcome.  And indexes for which the filters leave the same
lists are answered from alike. -/
theorem resolve_filtered (settings : Settings) (index : CandidateIndex) (kg : KnowledgeGraph)
    (hdistance : 0 < settings.maxDistance) :
    ∃ service service',
      (ofSettings settings index.lookup kg).outcome = .ok service ∧
      (ofSettings settings.unfiltered
        (index.filtered (Pipeline.ofSettings settings.filters)).lookup kg).outcome = .ok service' ∧
      (∀ mentions k, calls (service.resolve mentions k) = calls (service'.resolve mentions k) ∧
        (service.resolve mentions k).outcome = (service'.resolve mentions k).outcome) ∧
      ∀ other : CandidateIndex,
        (∀ surface, shortlist settings other surface = shortlist settings index surface) →
        ∃ service'', (ofSettings settings other.lookup kg).outcome = .ok service'' ∧
          ∀ mentions k, calls (service.resolve mentions k) = calls (service''.resolve mentions k) ∧
            (service.resolve mentions k).outcome = (service''.resolve mentions k).outcome := by
  have hdecoder : settings.decoder = settings.unfiltered.decoder := rfl
  have hsame : settings.maxDistance = settings.unfiltered.maxDistance := rfl
  refine ⟨_, _, outcome_ofSettings hdistance _ _, outcome_ofSettings (hsame ▸ hdistance) _ _,
    ?_, ?_⟩
  · intro mentions k
    have hshortlist := fun surface => (shortlist_unfiltered settings index surface).symm
    exact resolve_described_eq hdecoder hsame hshortlist kg mentions k
  · intro other hother
    refine ⟨_, outcome_ofSettings hdistance _ _, ?_⟩
    intro mentions k
    have hshortlist := fun surface => (hother surface).symm
    exact resolve_described_eq rfl rfl hshortlist kg mentions k

/-- A form with a candidate of too little support before one of enough. -/
def ambiguous : CandidateIndex :=
  ⟨[("Paris", [⟨"x", 1, .zero⟩, ⟨"pa", 7, .zero⟩]), ("Seine", [⟨"s", 3, .zero⟩])]⟩

/-- The same forms with the candidates of enough support. -/
def pruned : CandidateIndex :=
  ⟨[("Paris", [⟨"pa", 7, .zero⟩]), ("Seine", [⟨"s", 3, .zero⟩])]⟩

theorem shortlist_pruned (surface : String) :
    shortlist { filters := { minSupport := some 2 } } pruned surface =
      shortlist { filters := { minSupport := some 2 } } ambiguous surface := by
  by_cases hparis : surface = "Paris"
  · subst hparis
    rfl
  · by_cases hseine : surface = "Seine"
    · subst hseine
      rfl
    · have hunlisted : pruned.find? surface = none ∧ ambiguous.find? surface = none := by
        simp [CandidateIndex.find?, pruned, ambiguous, List.lookup_cons, beq_false_of_ne hparis,
          beq_false_of_ne hseine]
      rw [shortlist, shortlist, hunlisted.1, hunlisted.2]

theorem resolve_filtered_ambiguous :
    ∃ service service',
      (ofSettings { filters := { minSupport := some 2 } } ambiguous.lookup
        (TripleStore.ofTriples [⟨"s", "flows", "pa"⟩]).graph).outcome = .ok service ∧
      (ofSettings { filters := { minSupport := some 2 } } pruned.lookup
        (TripleStore.ofTriples [⟨"s", "flows", "pa"⟩]).graph).outcome = .ok service' ∧
      ∀ k, (service.resolve [⟨"Seine", 9, ""⟩, ⟨"Paris", 0, ""⟩] k).outcome =
        (service'.resolve [⟨"Seine", 9, ""⟩, ⟨"Paris", 0, ""⟩] k).outcome := by
  obtain ⟨service, -, hservice, -, -, hexchange⟩ :=
    resolve_filtered { filters := { minSupport := some 2 } } ambiguous
      (TripleStore.ofTriples [⟨"s", "flows", "pa"⟩]).graph (by decide)
  obtain ⟨service', hservice', halike⟩ := hexchange pruned shortlist_pruned
  exact ⟨service, service', hservice, hservice', fun k => (halike _ k).2⟩

end Service
end EntityLinking
