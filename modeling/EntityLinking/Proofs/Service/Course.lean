import EntityLinking.Proofs.Candidate.Gathering
import EntityLinking.Proofs.Service.Scores

/-!
# The course of a request

A request asks its collaborators one after the other: the lookup for each distinct mention,
then the construction, then the scoring.  However this ends, a course tells which calls were
made and what the outcome is.
-/

namespace EntityLinking
namespace Service

variable {σ : Type} {s : Service σ} {mentions : List Mention} {k : Nat}

/-- A question that a request puts to one of its collaborators. -/
inductive Call where
  | lookup (surface : String)
  | construct (senses : MentionSenses)
  | score (senses : MentionSenses) (g : Subgraph) (k : Nat)

/-- The call that an event records, if it records one. -/
def Event.call? : Event → Option Call
  | .gathering event => event.asked?.map Call.lookup
  | .construct senses => some (.construct senses)
  | .score senses g k => some (.score senses g k)
  | _ => none

/-- The calls that a computation makes, in order. -/
def calls {α : Type} (run : Recorded Event Fault α) : List Call :=
  run.events.filterMap Event.call?

/-- The lookups of some mentions, in order. -/
def lookups (ms : List Mention) : List Call :=
  ms.map fun m => .lookup m.surface

/-- What is left of the candidates of a surface form after filtering. -/
def survivors (s : Service σ) (surface : String) : List Entity :=
  s.filters.select (Gathering.found s.lookup surface)

/-- The senses of a request: its distinct mentions with the decoded survivors of each. -/
def senses (s : Service σ) (mentions : List Mention) : MentionSenses :=
  (Mention.distinct mentions).map fun m =>
    (m, (s.survivors m.surface).map (Sense.ofEntity s.decoder))

/-! ## Calls and outcomes of parts -/

/-- A computation makes the given calls and has the given outcome. -/
structure Ends {α : Type} (run : Recorded Event Fault α) (cs : List Call)
    (outcome : Except Fault α) : Prop where
  calls_eq : calls run = cs
  outcome_eq : run.outcome = outcome

theorem Ends.andThen_ok {α β : Type} {run : Recorded Event Fault α} {cs cs' : List Call} {a : α}
    {f : α → Recorded Event Fault β} {outcome : Except Fault β} (hrun : Ends run cs (.ok a))
    (hrest : Ends (f a) cs' outcome) : Ends (run.andThen f) (cs ++ cs') outcome := by
  obtain ⟨hcalls, houtcome⟩ := hrun
  rw [Recorded.andThen_of_ok houtcome]
  refine ⟨?_, hrest.outcome_eq⟩
  rw [calls] at hcalls
  rw [calls, List.filterMap_append, hcalls, ← calls, hrest.calls_eq]

theorem Ends.andThen_error {α β : Type} {run : Recorded Event Fault α} {cs : List Call}
    {fault : Fault} (hrun : Ends run cs (.error fault)) (f : α → Recorded Event Fault β) :
    Ends (run.andThen f) cs (.error fault) := by
  rw [Recorded.andThen_of_error hrun.outcome_eq]
  exact ⟨hrun.calls_eq, rfl⟩

theorem ends_note {event : Event} (hevent : event.call? = none) :
    Ends (Recorded.note event) [] (.ok ()) :=
  ⟨by simp [calls, Recorded.note, hevent], rfl⟩

theorem calls_gathering {α : Type} (run : Recorded Gathering.Event LookupFault α) :
    calls ((run.mapEvents Event.gathering).mapFault lookupOutage) =
      (Gathering.asked run).map Call.lookup := by
  rw [calls, Recorded.mapFault, Recorded.mapEvents, List.filterMap_map, Gathering.asked,
    List.map_filterMap]
  rfl

theorem ends_filtering (events : List FilterEvent) :
    Ends (Recorded.notes (events.map Event.filtering)) [] (.ok ()) := by
  refine ⟨?_, rfl⟩
  rw [calls, Recorded.notes, List.filterMap_map, List.filterMap_eq_nil_iff]
  intro event hevent
  rfl

theorem ends_pure {α : Type} (a : α) : Ends (pure a) [] (.ok a) :=
  ⟨rfl, rfl⟩

/-- How the candidates of a request are got together. -/
theorem candidates_ends (s : Service σ) (mentions : List Mention) :
    (∃ set, (∀ m ∈ mentions, Gathering.outage? s.lookup m.surface = none) ∧
      set.toList = (Mention.distinct mentions).map (fun m => ⟨m, s.survivors m.surface⟩) ∧
      Ends (s.candidates mentions) (lookups (Mention.distinct mentions)) (.ok set)) ∨
    (∃ before failed after fault, Mention.distinct mentions = before ++ failed :: after ∧
      (∀ m ∈ before, Gathering.outage? s.lookup m.surface = none) ∧
      Gathering.outage? s.lookup failed.surface = some fault ∧
      Ends (s.candidates mentions) (lookups (before ++ [failed]))
        (.error (lookupOutage fault))) := by
  have hcourse := Gathering.gather_course s.lookup mentions
  generalize hforms : Gathering.asked (Gathering.gather s.lookup mentions) = forms at hcourse
  generalize houtcome : (Gathering.gather s.lookup mentions).outcome = outcome at hcourse
  have hcalls := calls_gathering (Gathering.gather s.lookup mentions)
  rw [hforms] at hcalls
  simp only [candidates, Recorded.bind_eq]
  cases hcourse with
  | @completed set reached entries =>
      left
      rw [List.map_map] at hcalls
      have hgather : Ends (((Gathering.gather s.lookup mentions).mapEvents Event.gathering).mapFault
          lookupOutage) (lookups (Mention.distinct mentions)) (.ok set) :=
        ⟨hcalls, congrArg (Except.mapError lookupOutage) houtcome⟩
      refine ⟨s.filters.apply set, ?_, ?_, ?_⟩
      · exact (Mention.forall_surface_distinct_iff fun surface =>
          Gathering.outage? s.lookup surface = none).mp reached
      · rw [Pipeline.toList_apply, entries, List.nil_append, List.map_map]
        rfl
      · rw [← List.append_nil (lookups _)]
        exact hgather.andThen_ok ((ends_filtering _).andThen_ok (ends_pure _))
  | @interrupted before after failed fault parts reached unreached =>
      right
      rw [List.map_map] at hcalls
      have hgather : Ends (((Gathering.gather s.lookup mentions).mapEvents Event.gathering).mapFault
          lookupOutage) (lookups (before ++ [failed])) (.error (lookupOutage fault)) :=
        ⟨hcalls, congrArg (Except.mapError lookupOutage) houtcome⟩
      exact ⟨before, failed, after, fault, parts, reached, unreached, hgather.andThen_error _⟩

theorem ends_construct (s : Service σ) (senses : MentionSenses) :
    Ends (s.construct senses) [.construct senses]
      ((s.construction senses).outcome.mapError graphOutage) := by
  have hnote : Ends (Recorded.note (.construct senses) : Recorded Event Fault Unit)
      [.construct senses] (.ok ()) := ⟨rfl, rfl⟩
  have hsearch : Ends (((s.construction senses).mapEvents Event.searching).mapFault graphOutage) []
      ((s.construction senses).outcome.mapError graphOutage) := by
    refine ⟨?_, rfl⟩
    rw [calls, Recorded.mapFault, Recorded.mapEvents, List.filterMap_map,
      List.filterMap_eq_nil_iff]
    intro event hevent
    rfl
  rw [construct, Recorded.bind_eq, ← List.append_nil [Call.construct senses]]
  exact hnote.andThen_ok hsearch

theorem ends_score (s : Service σ) (senses : MentionSenses) (g : Subgraph) (k : Nat) :
    Ends (s.score senses g k) [.score senses g k]
      ((s.scoring.best senses g k).mapError graphOutage) :=
  ⟨rfl, rfl⟩

/-! ## The courses -/

/-- A request comes to the construction when every lookup is answered and some candidate
survives the filters. -/
structure Proceeds (s : Service σ) (mentions : List Mention) (k : Nat) : Prop where
  positive : 0 < k
  reached : ∀ m ∈ mentions, Gathering.outage? s.lookup m.surface = none
  surviving : ∃ m ∈ mentions, s.survivors m.surface ≠ []

/-- How a request goes after the construction was asked. -/
inductive Linking [Ranked σ] (s : Service σ) (mentions : List Mention) (k : Nat) :
    List Call → Except Fault (Table σ) → Prop
  | unconstructed {fault : GraphFault}
      (construction : (s.construction (s.senses mentions)).outcome = .error fault) :
      Linking s mentions k [] (.error (graphOutage fault))
  | unusable
      (construction : (s.construction (s.senses mentions)).outcome = .ok none) :
      Linking s mentions k [] (.ok (answer [] mentions))
  | unscored {g : Subgraph} {fault : GraphFault}
      (construction : (s.construction (s.senses mentions)).outcome = .ok (some g))
      (scoring : s.scoring.best (s.senses mentions) g k = .error fault) :
      Linking s mentions k [.score (s.senses mentions) g k] (.error (graphOutage fault))
  | scored {g : Subgraph} {scores : MentionScores σ}
      (construction : (s.construction (s.senses mentions)).outcome = .ok (some g))
      (scoring : s.scoring.best (s.senses mentions) g k = .ok scores) :
      Linking s mentions k [.score (s.senses mentions) g k] (.ok (answer scores mentions))

/-- How a request goes, as the calls that are made and the outcome. -/
inductive Course [Ranked σ] (s : Service σ) (mentions : List Mention) (k : Nat) :
    List Call → Except Fault (Table σ) → Prop
  | refused (hk : k = 0) : Course s mentions k [] (.error (.invalidInput "k must be at least 1"))
  | unreachable {before after : List Mention} {failed : Mention} {fault : LookupFault}
      (hk : 0 < k)
      (parts : Mention.distinct mentions = before ++ failed :: after)
      (reached : ∀ m ∈ before, Gathering.outage? s.lookup m.surface = none)
      (unreached : Gathering.outage? s.lookup failed.surface = some fault) :
      Course s mentions k (lookups (before ++ [failed])) (.error (lookupOutage fault))
  | exhausted
      (hk : 0 < k)
      (reached : ∀ m ∈ mentions, Gathering.outage? s.lookup m.surface = none)
      (hnone : ∀ m ∈ mentions, s.survivors m.surface = []) :
      Course s mentions k (lookups (Mention.distinct mentions)) (.ok (answer [] mentions))
  | proceeding {cs : List Call} {outcome : Except Fault (Table σ)}
      (proceeds : s.Proceeds mentions k)
      (linking : Linking s mentions k cs outcome) :
      Course s mentions k
        (lookups (Mention.distinct mentions) ++ .construct (s.senses mentions) :: cs) outcome

theorem map_fst_senses (s : Service σ) (mentions : List Mention) :
    (s.senses mentions).map Prod.fst = Mention.distinct mentions := by
  rw [senses, List.map_map]
  exact List.map_id _

/-! ## From the candidates on -/

section Exits

variable [Ranked σ] {set : Candidates}

theorem ends_exhausted (s : Service σ) (hnone : ¬ set.hasAny = true) (k : Nat) :
    Ends (s.resolveCandidates set k) [] (.ok (unresolved set)) := by
  have hexhausted : Event.exhausted.call? = none := rfl
  rw [Bool.not_eq_true] at hnone
  rw [resolveCandidates, hnone, if_pos Bool.not_false]
  exact (ends_note hexhausted).andThen_ok (ends_pure _)

/-- Some candidates that are the senses of a request are linked in one of the four ways. -/
theorem linking_ends (hsome : set.hasAny = true)
    (hmentions : set.mentions = Mention.distinct mentions)
    (hsenses : Sense.rows s.decoder set = s.senses mentions) (k : Nat) :
    ∃ cs outcome, Linking s mentions k cs outcome ∧
      Ends (s.resolveCandidates set k) (.construct (s.senses mentions) :: cs) outcome := by
  have hunresolved : unresolved set = answer ([] : MentionScores σ) mentions := by
    rw [unresolved_eq, hmentions, answer_distinct]
  have hconstruct := ends_construct s (s.senses mentions)
  rw [resolveCandidates, hsome, hsenses, hunresolved]
  cases hconstruction : (s.construction (s.senses mentions)).outcome with
  | error fault =>
      rw [hconstruction] at hconstruct
      exact ⟨_, _, .unconstructed hconstruction, hconstruct.andThen_error _⟩
  | ok constructed =>
      rw [hconstruction] at hconstruct
      cases constructed with
      | none =>
          exact ⟨_, _, .unusable hconstruction,
            hconstruct.andThen_ok ((ends_note rfl).andThen_ok (ends_pure _))⟩
      | some g =>
          have hscore := ends_score s (s.senses mentions) g k
          cases hscoring : s.scoring.best (s.senses mentions) g k with
          | error fault =>
              rw [hscoring] at hscore
              exact ⟨_, _, .unscored hconstruction hscoring,
                hconstruct.andThen_ok ((ends_note rfl).andThen_ok (hscore.andThen_error _))⟩
          | ok scores =>
              rw [hscoring] at hscore
              have hanswer : Sense.table (fillIn (s.senses mentions) scores) =
                  answer scores mentions := by
                rw [table_fillIn, map_fst_senses, answer_distinct]
              refine ⟨_, _, .scored hconstruction hscoring, ?_⟩
              rw [← hanswer]
              exact hconstruct.andThen_ok ((ends_note rfl).andThen_ok
                (hscore.andThen_ok ((ends_note rfl).andThen_ok (ends_pure _))))

end Exits

/-- Every request takes one of the courses. -/
theorem resolve_course [Ranked σ] (s : Service σ) (mentions : List Mention) (k : Nat) :
    Course s mentions k (calls (s.resolve mentions k)) (s.resolve mentions k).outcome := by
  by_cases hk : k = 0
  · rw [resolve, if_pos hk]
    exact .refused hk
  have hpos : 0 < k := Nat.pos_of_ne_zero hk
  have hresolving : Event.call? (.resolving mentions.length s.scoring.name k) = none := rfl
  obtain ⟨cs, outcome, hends, hcourse⟩ : ∃ cs outcome,
      Ends (s.resolve mentions k) cs outcome ∧ Course s mentions k cs outcome := by
    rw [resolve, if_neg hk]
    simp only [Recorded.bind_eq]
    rcases candidates_ends s mentions with
      ⟨set, reached, entries, hset⟩ |
      ⟨before, failed, after, fault, parts, reached, unreached, hset⟩
    · have hmentions : set.mentions = Mention.distinct mentions := by
        rw [MentionMap.mentions, entries, List.map_map]
        exact List.map_id _
      have hany_iff : set.hasAny = true ↔ ∃ m ∈ mentions, s.survivors m.surface ≠ [] := by
        rw [Candidates.hasAny_iff, entries,
          ← Mention.exists_surface_distinct_iff fun surface => s.survivors surface ≠ []]
        simp
      by_cases hany : set.hasAny = true
      · have hsenses : Sense.rows s.decoder set = s.senses mentions := by
          rw [Sense.rows, entries, List.map_map, senses]
          rfl
        obtain ⟨cs, outcome, hlinking, hrest⟩ := linking_ends hany hmentions hsenses k
        exact ⟨_, _, (ends_note hresolving).andThen_ok (hset.andThen_ok hrest),
          .proceeding ⟨hpos, reached, hany_iff.mp hany⟩ hlinking⟩
      · have hrest := ends_exhausted s hany k
        have hnone : ∀ m ∈ mentions, s.survivors m.surface = [] := by
          intro m hm
          by_contra hsome
          exact hany (hany_iff.mpr ⟨m, hm, hsome⟩)
        have hunresolved : unresolved set = answer ([] : MentionScores σ) mentions := by
          rw [unresolved_eq, hmentions, answer_distinct]
        rw [hunresolved] at hrest
        refine ⟨_, _, (ends_note hresolving).andThen_ok (hset.andThen_ok hrest), ?_⟩
        rw [List.append_nil]
        exact .exhausted hpos reached hnone
    · exact ⟨_, _, (ends_note hresolving).andThen_ok (hset.andThen_error _),
        .unreachable hpos parts reached unreached⟩
  rw [hends.calls_eq, hends.outcome_eq]
  exact hcourse

end Service
end EntityLinking
