import EntityLinking.Proofs.Service.Course

/-!
# The protocol of a request

Whatever the collaborators answer, a request keeps to a protocol: construction and scoring are asked
at most once, only when there is something to ask, and never after a failure; and a table that comes
out of it has every mention of the request and every resolution that the scoring returned.
-/

namespace EntityLinking
namespace Service

variable {σ : Type} {s : Service σ} {mentions : List Mention} {k : Nat}

namespace Call

def isLookup : Call → Bool
  | lookup _ => true
  | _ => false

def isConstruct : Call → Bool
  | construct _ => true
  | _ => false

def isScore : Call → Bool
  | score _ _ _ => true
  | _ => false

end Call

/-- The fault with which a call ends a request, if its answer is a failure.  It is none that a
surface form is not known. -/
def failure? (s : Service σ) : Call → Option Fault
  | .lookup surface => (Gathering.outage? s.lookup surface).map lookupOutage
  | .construct senses =>
    match (s.construction senses).outcome with
    | .error fault => some (graphOutage fault)
    | .ok _ => none
  | .score senses g k =>
    match s.scoring.best senses g k with
    | .error fault => some (graphOutage fault)
    | .ok _ => none

/-- The scores that a request has to work with after some calls: what the scoring answered, and none
when it was not asked. -/
def Obtains (s : Service σ) (k : Nat) (cs : List Call) (scores : MentionScores σ) : Prop :=
  ((∀ call ∈ cs, call.isScore = false) ∧ scores = []) ∨
    ∃ senses g, Call.score senses g k ∈ cs ∧ s.scoring.best senses g k = .ok scores

/-- What a run of a request does, whatever its collaborators answer.  A request for no candidate
does nothing at all, and one with a lookup that fails asks neither strategy.  The strategies are
asked for the senses of the request and nothing else, the scoring in the subgraph that the
construction returned; a run fails exactly when one of its calls does; and a table that comes out
lists every mention of the request and of the scores. -/
structure Protocol [Ranked σ] (s : Service σ) (mentions : List Mention) (k : Nat)
    (run : Recorded Event Fault (Table σ)) : Prop where
  constructs_once : (calls run).countP Call.isConstruct ≤ 1
  scores_once : (calls run).countP Call.isScore ≤ 1
  refused : k = 0 → run.events = [] ∧ run.outcome = .error (.invalidInput "k must be at least 1")
  looks_up : (calls run).filter Call.isLookup <+: lookups (Mention.distinct mentions)
  looks_up_all : 0 < k → (∀ m ∈ mentions, Gathering.outage? s.lookup m.surface = none) →
    (calls run).filter Call.isLookup = lookups (Mention.distinct mentions)
  unreachable : ∀ fault, 0 < k →
    mentions.findSome? (fun m => Gathering.outage? s.lookup m.surface) = some fault →
    run.outcome = .error (.searchInfrastructure (.lookup fault)) ∧
      ∀ call ∈ calls run, call.isLookup = true
  construct_iff : ∀ senses, Call.construct senses ∈ calls run ↔
    s.Proceeds mentions k ∧ senses = s.senses mentions
  score_iff : ∀ senses g k', Call.score senses g k' ∈ calls run ↔
    Call.construct senses ∈ calls run ∧ (s.construction senses).outcome = .ok (some g) ∧ k' = k
  error_iff : ∀ fault, run.outcome = .error fault ↔
    (k = 0 ∧ fault = .invalidInput "k must be at least 1") ∨
      ∃ call ∈ calls run, s.failure? call = some fault
  answered : ∀ table, run.outcome = .ok table →
    ∃ scores, s.Obtains k (calls run) scores ∧
      table.Lists (scores.map Prod.fst ++ mentions) (resolved scores)

/-! ## Calls of a course -/

@[simp] theorem construct_not_mem_lookups {senses : MentionSenses} {ms : List Mention} :
    Call.construct senses ∉ lookups ms := by
  simp [lookups]

@[simp] theorem score_not_mem_lookups {senses : MentionSenses} {g : Subgraph} {ms : List Mention} :
    Call.score senses g k ∉ lookups ms := by
  simp [lookups]

theorem isLookup_of_mem_lookups {ms : List Mention} {call : Call} (h : call ∈ lookups ms) :
    call.isLookup = true := by
  obtain ⟨m, -, rfl⟩ := List.mem_map.mp h
  rfl

@[simp] theorem filter_isLookup_lookups (ms : List Mention) :
    (lookups ms).filter Call.isLookup = lookups ms := by
  rw [List.filter_eq_self]
  intro call hcall
  exact isLookup_of_mem_lookups hcall

theorem countP_lookups (p : Call → Bool) (hp : ∀ surface, p (.lookup surface) = false)
    (ms : List Mention) : (lookups ms).countP p = 0 := by
  rw [List.countP_eq_zero]
  intro call hcall
  obtain ⟨m, -, rfl⟩ := List.mem_map.mp hcall
  rw [hp]
  exact Bool.false_ne_true

theorem not_reached {before after : List Mention} {failed : Mention} {fault : LookupFault}
    (parts : Mention.distinct mentions = before ++ failed :: after)
    (unreached : Gathering.outage? s.lookup failed.surface = some fault) :
    ¬ ∀ m ∈ mentions, Gathering.outage? s.lookup m.surface = none := by
  intro hreached
  have hfailed : failed ∈ mentions := Mention.mem_of_mem_distinct (by simp [parts])
  rw [hreached failed hfailed] at unreached
  simp at unreached

/-- Lookups that are answered end no request. -/
theorem exists_failure_append_iff {ms : List Mention} {cs : List Call} {fault : Fault}
    (hreached : ∀ m ∈ ms, Gathering.outage? s.lookup m.surface = none) :
    (∃ call ∈ lookups ms ++ cs, s.failure? call = some fault) ↔
      ∃ call ∈ cs, s.failure? call = some fault := by
  constructor
  · rintro ⟨call, hcall, hfailure⟩
    rcases List.mem_append.mp hcall with hcall | hcall
    · obtain ⟨m, hm, rfl⟩ := List.mem_map.mp hcall
      simp [failure?, hreached m hm] at hfailure
    · exact ⟨call, hcall, hfailure⟩
  · rintro ⟨call, hcall, hfailure⟩
    exact ⟨call, List.mem_append_right _ hcall, hfailure⟩

section Courses

variable [Ranked σ] {cs : List Call} {outcome : Except Fault (Table σ)}

/-- The only call after the construction is the scoring, and only when there is a subgraph. -/
theorem Linking.calls_cases (h : Linking s mentions k cs outcome) :
    (cs = [] ∧ ∀ g, (s.construction (s.senses mentions)).outcome ≠ .ok (some g)) ∨
      ∃ g, cs = [.score (s.senses mentions) g k] ∧
        (s.construction (s.senses mentions)).outcome = .ok (some g) := by
  cases h with
  | unconstructed construction => exact Or.inl ⟨rfl, by simp [construction]⟩
  | unusable construction => exact Or.inl ⟨rfl, by simp [construction]⟩
  | unscored construction scoring => exact Or.inr ⟨_, rfl, construction⟩
  | scored construction scoring => exact Or.inr ⟨_, rfl, construction⟩

theorem Course.countP_isConstruct (h : Course s mentions k cs outcome) :
    cs.countP Call.isConstruct ≤ 1 := by
  have hlookups := countP_lookups Call.isConstruct fun _ => rfl
  cases h with
  | refused hk => simp
  | unreachable hk parts reached unreached => simp [hlookups]
  | exhausted hk reached hnone => simp [hlookups]
  | proceeding proceeds linking =>
      rcases linking.calls_cases with ⟨rfl, -⟩ | ⟨g, rfl, -⟩
      · simp [hlookups, Call.isConstruct]
      · simp [hlookups, List.countP_cons, Call.isConstruct]

theorem Course.countP_isScore (h : Course s mentions k cs outcome) :
    cs.countP Call.isScore ≤ 1 := by
  have hlookups := countP_lookups Call.isScore fun _ => rfl
  cases h with
  | refused hk => simp
  | unreachable hk parts reached unreached => simp [hlookups]
  | exhausted hk reached hnone => simp [hlookups]
  | proceeding proceeds linking =>
      rcases linking.calls_cases with ⟨rfl, -⟩ | ⟨g, rfl, -⟩
      · simp [hlookups, Call.isScore]
      · simp [hlookups, Call.isScore]

theorem Course.filter_isLookup_prefix (h : Course s mentions k cs outcome) :
    cs.filter Call.isLookup <+: lookups (Mention.distinct mentions) := by
  cases h with
  | refused hk => exact List.nil_prefix
  | @unreachable before after failed fault hk parts reached unreached =>
      have hparts : before ++ failed :: after = (before ++ [failed]) ++ after := by simp
      rw [filter_isLookup_lookups, parts, hparts]
      exact (List.prefix_append (before ++ [failed]) after).map _
  | exhausted hk reached hnone => simp
  | proceeding proceeds linking =>
      rcases linking.calls_cases with ⟨rfl, -⟩ | ⟨g, rfl, -⟩
      · simp [Call.isLookup]
      · simp [Call.isLookup]

theorem Course.filter_isLookup (h : Course s mentions k cs outcome) (hk : 0 < k)
    (hreached : ∀ m ∈ mentions, Gathering.outage? s.lookup m.surface = none) :
    cs.filter Call.isLookup = lookups (Mention.distinct mentions) := by
  cases h with
  | refused hzero => omega
  | unreachable hk parts reached unreached => exact absurd hreached (not_reached parts unreached)
  | exhausted hk reached hnone => simp
  | proceeding proceeds linking =>
      rcases linking.calls_cases with ⟨rfl, -⟩ | ⟨g, rfl, -⟩
      · simp [Call.isLookup]
      · simp [Call.isLookup]

theorem Course.unreachable_of_findSome? (h : Course s mentions k cs outcome) (hk : 0 < k)
    {fault : LookupFault}
    (hfault : mentions.findSome? (fun m => Gathering.outage? s.lookup m.surface) = some fault) :
    outcome = .error (lookupOutage fault) ∧ ∀ call ∈ cs, call.isLookup = true := by
  have hnot : ¬ ∀ m ∈ mentions, Gathering.outage? s.lookup m.surface = none := by
    rw [← List.findSome?_eq_none_iff, hfault]
    simp
  cases h with
  | refused hzero => omega
  | unreachable hk parts reached unreached =>
      have hfound := List.findSome?_eq_some_iff.mpr ⟨_, _, _, parts, unreached, reached⟩
      rw [Mention.findSome?_surface_distinct, hfault, Option.some.injEq] at hfound
      rw [hfound]
      exact ⟨rfl, fun call hcall => isLookup_of_mem_lookups hcall⟩
  | exhausted hk reached hnone => exact absurd reached hnot
  | proceeding proceeds linking => exact absurd proceeds.reached hnot

theorem Course.construct_mem_iff (h : Course s mentions k cs outcome) (senses : MentionSenses) :
    Call.construct senses ∈ cs ↔ s.Proceeds mentions k ∧ senses = s.senses mentions := by
  cases h with
  | refused hzero =>
      constructor
      · simp
      · rintro ⟨⟨hpos, -, -⟩, -⟩
        omega
  | unreachable hk parts reached unreached =>
      constructor
      · simp
      · rintro ⟨⟨-, hreached, -⟩, -⟩
        exact absurd hreached (not_reached parts unreached)
  | exhausted hk reached hnone =>
      constructor
      · simp
      · rintro ⟨⟨-, -, m, hm, hsome⟩, -⟩
        exact absurd (hnone m hm) hsome
  | proceeding proceeds linking =>
      rcases linking.calls_cases with ⟨rfl, -⟩ | ⟨g, rfl, -⟩
      · simp [proceeds]
      · simp [proceeds]

theorem Course.score_mem_iff (h : Course s mentions k cs outcome) (senses : MentionSenses)
    (g : Subgraph) (k' : Nat) :
    Call.score senses g k' ∈ cs ↔
      Call.construct senses ∈ cs ∧ (s.construction senses).outcome = .ok (some g) ∧ k' = k := by
  cases h with
  | refused hzero => simp
  | unreachable hk parts reached unreached => simp
  | exhausted hk reached hnone => simp
  | proceeding proceeds linking =>
      rcases linking.calls_cases with ⟨rfl, hnone⟩ | ⟨g', rfl, hsome⟩
      · constructor
        · simp
        · rintro ⟨hsenses, hconstruction, -⟩
          obtain rfl : senses = s.senses mentions := by simpa using hsenses
          exact absurd hconstruction (hnone g)
      · constructor
        · intro hscore
          obtain ⟨rfl, rfl, rfl⟩ : senses = s.senses mentions ∧ g = g' ∧ k' = k := by
            simpa using hscore
          exact ⟨by simp, hsome, rfl⟩
        · rintro ⟨hsenses, hconstruction, rfl⟩
          obtain rfl : senses = s.senses mentions := by simpa using hsenses
          obtain rfl : g' = g := by simpa [hsome] using hconstruction
          simp

theorem Linking.error_iff (h : Linking s mentions k cs outcome) (fault : Fault) :
    outcome = .error fault ↔
      ∃ call ∈ Call.construct (s.senses mentions) :: cs, s.failure? call = some fault := by
  cases h with
  | unconstructed construction => simp [failure?, construction]
  | unusable construction => simp [failure?, construction]
  | unscored construction scoring => simp [failure?, construction, scoring]
  | scored construction scoring => simp [failure?, construction, scoring]

theorem Course.error_iff (h : Course s mentions k cs outcome) (fault : Fault) :
    outcome = .error fault ↔
      (k = 0 ∧ fault = .invalidInput "k must be at least 1") ∨
        ∃ call ∈ cs, s.failure? call = some fault := by
  cases h with
  | refused hzero => simp [hzero, eq_comm]
  | @unreachable before after failed unavailable hk parts reached unreached =>
      -- the lookups before the failed one are answered, so the failed one alone decides
      have hlookups : lookups (before ++ [failed]) =
          lookups before ++ [.lookup failed.surface] := List.map_append
      rw [hlookups, exists_failure_append_iff reached]
      simp [failure?, unreached, Nat.ne_of_gt hk]
  | exhausted hk reached hnone =>
      rw [← List.append_nil (lookups _), exists_failure_append_iff
        fun m hm => reached m (Mention.mem_of_mem_distinct hm)]
      simp [Nat.ne_of_gt hk]
  | proceeding proceeds linking =>
      rw [exists_failure_append_iff
        fun m hm => proceeds.reached m (Mention.mem_of_mem_distinct hm), ← linking.error_iff fault]
      simp [Nat.ne_of_gt proceeds.positive]

/-- A table that comes out is the answer to the scores that the request had to work with. -/
theorem Course.answered (h : Course s mentions k cs outcome) {table : Table σ}
    (htable : outcome = .ok table) :
    ∃ scores, s.Obtains k cs scores ∧ table = answer scores mentions := by
  cases h with
  | refused hzero => simp at htable
  | unreachable hk parts reached unreached => simp at htable
  | exhausted hk reached hnone =>
      obtain rfl : answer [] mentions = table := by simpa using htable
      refine ⟨[], Or.inl ⟨?_, rfl⟩, rfl⟩
      intro call hcall
      obtain ⟨m, -, rfl⟩ := List.mem_map.mp hcall
      rfl
  | proceeding proceeds linking =>
      cases linking with
      | unconstructed construction => simp at htable
      | unusable construction =>
          obtain rfl : answer [] mentions = table := by simpa using htable
          refine ⟨[], Or.inl ⟨?_, rfl⟩, rfl⟩
          intro call hcall
          rcases List.mem_append.mp hcall with hcall | hcall
          · obtain ⟨m, -, rfl⟩ := List.mem_map.mp hcall
            rfl
          · obtain rfl := List.mem_singleton.mp hcall
            rfl
      | unscored construction scoring => simp at htable
      | @scored g scores construction scoring =>
          obtain rfl : answer scores mentions = table := by simpa using htable
          exact ⟨scores, Or.inr ⟨s.senses mentions, g, by simp, scoring⟩, rfl⟩

end Courses

/-- Every request keeps to the protocol, whatever lookup, filters, construction and scoring are. -/
theorem resolve_protocol [Ranked σ] (s : Service σ) (mentions : List Mention) (k : Nat) :
    Protocol s mentions k (s.resolve mentions k) := by
  have hcourse := resolve_course s mentions k
  constructor
  · exact hcourse.countP_isConstruct
  · exact hcourse.countP_isScore
  · rintro rfl
    exact ⟨rfl, rfl⟩
  · exact hcourse.filter_isLookup_prefix
  · exact hcourse.filter_isLookup
  · intro fault hk hfault
    exact hcourse.unreachable_of_findSome? hk hfault
  · exact hcourse.construct_mem_iff
  · exact hcourse.score_mem_iff
  · exact hcourse.error_iff
  · intro table htable
    obtain ⟨scores, hscores, rfl⟩ := hcourse.answered htable
    refine ⟨scores, hscores, ?_⟩
    have hcovers : ∀ row ∈ resolved scores, row.1 ∈ scores.map Prod.fst ++ mentions := by
      intro row hrow
      rw [← map_fst_resolved]
      exact List.mem_append_left _ (List.mem_map_of_mem hrow)
    exact Table.lists_tabulate hcovers

end Service
end EntityLinking
