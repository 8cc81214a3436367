import EntityLinking.Proofs.Candidate.Gathering
import EntityLinking.Service

/-!
# Gathering for a request

The mentions of a request are looked up in the order in which they first occur, each once, for
as long as the lookup can be reached.  A request whose lookups are all answered has the
candidates of each; the first lookup that cannot be reached ends it, and the fault of the
request tells the reason.
-/

namespace EntityLinking
namespace Gathering

variable {lookup : Lookup} {surface : String} {mentions : List Mention}

/-- The lookup answers for a surface form, be it that it does not know the form. -/
def Reached (lookup : Lookup) (surface : String) : Prop :=
  ∀ reason, lookup surface ≠ .error (.unavailable reason)

/-- The candidates that an answer of the lookup means. -/
inductive Gives (lookup : Lookup) (surface : String) : List Entity → Prop
  | known {entities : List Entity} (answer : lookup surface = .ok entities) :
      Gives lookup surface entities
  | unknown {form : String} (answer : lookup surface = .error (.notFound form)) :
      Gives lookup surface []

theorem outage?_eq_some_iff {fault : LookupFault} :
    outage? lookup surface = some fault ↔
      ∃ reason, fault = .unavailable reason ∧ lookup surface = .error (.unavailable reason) := by
  unfold outage?
  cases lookup surface with
  | ok entities => simp
  | error e =>
      cases e with
      | notFound form => simp
      | unavailable reason => simp [eq_comm]

theorem outage?_eq_none_iff : outage? lookup surface = none ↔ Reached lookup surface := by
  rw [Option.eq_none_iff_forall_ne_some]
  constructor
  · intro hnone reason hlookup
    exact hnone _ (outage?_eq_some_iff.mpr ⟨reason, rfl, hlookup⟩)
  · intro hreached fault hfault
    obtain ⟨reason, -, hlookup⟩ := outage?_eq_some_iff.mp hfault
    exact hreached reason hlookup

theorem gives_found (hreached : Reached lookup surface) :
    Gives lookup surface (found lookup surface) := by
  unfold found
  cases hanswer : lookup surface with
  | ok entities => exact .known hanswer
  | error e =>
      cases e with
      | notFound form => exact .unknown hanswer
      | unavailable reason => exact absurd hanswer (hreached reason)

/-- A gathering whose lookups are all answered asks for each distinct mention. -/
theorem completed_of_reached
    (hreached : ∀ m ∈ Mention.distinct mentions, Reached lookup m.surface) :
    asked (gather lookup mentions) = (Mention.distinct mentions).map (·.surface) ∧
      ∃ set, (gather lookup mentions).outcome = .ok set ∧
        set.toList = (Mention.distinct mentions).map (entry lookup) := by
  have hcourse := gather_course lookup mentions
  generalize asked (gather lookup mentions) = forms at hcourse ⊢
  generalize (gather lookup mentions).outcome = outcome at hcourse ⊢
  cases hcourse with
  | @completed set reached entries => exact ⟨rfl, set, rfl, entries⟩
  | @interrupted before after failed fault parts reached unreached =>
      have hfailed : failed ∈ Mention.distinct mentions := by simp [parts]
      rw [outage?_eq_none_iff.mpr (hreached failed hfailed)] at unreached
      simp at unreached

/-- A gathering asks no further than to the first lookup that cannot be reached. -/
theorem interrupted_of_unreached {before after : List Mention} {failed : Mention}
    {fault : LookupFault} (hparts : Mention.distinct mentions = before ++ failed :: after)
    (hreached : ∀ m ∈ before, outage? lookup m.surface = none)
    (hfault : outage? lookup failed.surface = some fault) :
    asked (gather lookup mentions) = (before ++ [failed]).map (·.surface) ∧
      (gather lookup mentions).outcome = .error fault := by
  have hcourse := gather_course lookup mentions
  generalize asked (gather lookup mentions) = forms at hcourse ⊢
  generalize (gather lookup mentions).outcome = outcome at hcourse ⊢
  cases hcourse with
  | completed reached entries =>
      have hnone := reached failed (by simp [hparts])
      rw [hfault] at hnone
      simp at hnone
  | @interrupted before' after' failed' fault' parts reached unreached =>
      obtain ⟨rfl, rfl⟩ :=
        first_failed_eq (hparts.symm.trans parts) hreached reached hfault unreached
      obtain rfl : fault = fault' := by simpa [hfault] using unreached
      exact ⟨rfl, rfl⟩

/-- What a gathering asks for and how it ends: with the candidates of each distinct mention, or with
the first lookup that cannot be reached. -/
theorem gather_lookups (lookup : Lookup) (mentions : List Mention) :
    ((∀ m ∈ Mention.distinct mentions, Reached lookup m.surface) →
      asked (gather lookup mentions) = (Mention.distinct mentions).map (·.surface) ∧
        ∃ set, ((gather lookup mentions).mapFault Service.lookupOutage).outcome = .ok set ∧
          List.Forall₂ (fun m row => row.mention = m ∧ Gives lookup m.surface row.value)
            (Mention.distinct mentions) set.toList) ∧
    ∀ before failed after reason, Mention.distinct mentions = before ++ failed :: after →
      (∀ m ∈ before, Reached lookup m.surface) →
      lookup failed.surface = .error (.unavailable reason) →
      asked (gather lookup mentions) = (before ++ [failed]).map (·.surface) ∧
        ∃ fault, ((gather lookup mentions).mapFault Service.lookupOutage).outcome = .error fault ∧
          fault = .searchInfrastructure (.lookup (.unavailable reason)) ∧
          fault.message =
            "Search infrastructure error: " ++ ("Candidate lookup unavailable: " ++ reason) := by
  refine ⟨?_, ?_⟩
  · intro hreached
    obtain ⟨hasked, set, hset, hentries⟩ := completed_of_reached hreached
    refine ⟨hasked, set, ?_, ?_⟩
    · rw [Recorded.mapFault, hset]
      rfl
    · rw [hentries, List.forall₂_map_right_iff, List.forall₂_same]
      intro m hm
      exact ⟨rfl, gives_found (hreached m hm)⟩
  · intro before failed after reason hparts hreached hlookup
    have hbefore : ∀ m ∈ before, outage? lookup m.surface = none := fun m hm =>
      outage?_eq_none_iff.mpr (hreached m hm)
    have hfault := outage?_eq_some_iff.mpr ⟨reason, rfl, hlookup⟩
    obtain ⟨hasked, houtcome⟩ := interrupted_of_unreached hparts hbefore hfault
    refine ⟨hasked, _, ?_, rfl, rfl⟩
    rw [Recorded.mapFault, houtcome]
    rfl

/-- A lookup that knows one form, is out of reach for another and knows no further one. -/
def faltering : Lookup := fun surface =>
  if surface = "Paris" then .ok [⟨"pa", 1, .zero⟩]
  else if surface = "Rome" then .error (.unavailable "offline")
  else .error (.notFound surface)

/-- A repeated mention is not looked up again, the same form at another offset is; an unknown form
has no candidates, and behind one that is out of reach nothing is asked. -/
theorem gather_lookups_faltering :
    asked (gather faltering
        [⟨"Paris", 0, "in"⟩, ⟨"Atlantis", 3, ""⟩, ⟨"Paris", 0, "to"⟩, ⟨"Paris", 9, ""⟩]) =
      ["Paris", "Atlantis", "Paris"] ∧
    (∃ set, ((gather faltering
        [⟨"Paris", 0, "in"⟩, ⟨"Atlantis", 3, ""⟩, ⟨"Paris", 0, "to"⟩, ⟨"Paris", 9, ""⟩]).mapFault
          Service.lookupOutage).outcome = .ok set ∧
      List.Forall₂ (fun m row => row.mention = m ∧ Gives faltering m.surface row.value)
        [⟨"Paris", 0, "in"⟩, ⟨"Atlantis", 3, ""⟩, ⟨"Paris", 9, ""⟩] set.toList) ∧
    asked (gather faltering
        [⟨"Paris", 0, ""⟩, ⟨"Paris", 0, "to"⟩, ⟨"Rome", 5, ""⟩, ⟨"Paris", 9, ""⟩]) =
      ["Paris", "Rome"] ∧
    ∃ fault, ((gather faltering
        [⟨"Paris", 0, ""⟩, ⟨"Paris", 0, "to"⟩, ⟨"Rome", 5, ""⟩, ⟨"Paris", 9, ""⟩]).mapFault
          Service.lookupOutage).outcome = .error fault ∧
      fault.message = "Search infrastructure error: Candidate lookup unavailable: offline" := by
  have hcompleted := (gather_lookups faltering
    [⟨"Paris", 0, "in"⟩, ⟨"Atlantis", 3, ""⟩, ⟨"Paris", 0, "to"⟩, ⟨"Paris", 9, ""⟩]).1
  have hinterrupted := (gather_lookups faltering
    [⟨"Paris", 0, ""⟩, ⟨"Paris", 0, "to"⟩, ⟨"Rome", 5, ""⟩, ⟨"Paris", 9, ""⟩]).2
  have hdistinct : Mention.distinct
      [⟨"Paris", 0, "in"⟩, ⟨"Atlantis", 3, ""⟩, ⟨"Paris", 0, "to"⟩, ⟨"Paris", 9, ""⟩] =
        [⟨"Paris", 0, "in"⟩, ⟨"Atlantis", 3, ""⟩, ⟨"Paris", 9, ""⟩] := by decide
  rw [hdistinct] at hcompleted
  obtain ⟨hasked, set, hset, hrows⟩ := hcompleted (by simp [Reached, faltering])
  obtain ⟨hstopped, fault, hfault, -, hmessage⟩ :=
    hinterrupted [⟨"Paris", 0, ""⟩] ⟨"Rome", 5, ""⟩ [⟨"Paris", 9, ""⟩] "offline" (by decide)
      (by simp [Reached, faltering]) rfl
  exact ⟨hasked, ⟨set, hset, hrows⟩, hstopped, fault, hfault, hmessage⟩

end Gathering
end EntityLinking
