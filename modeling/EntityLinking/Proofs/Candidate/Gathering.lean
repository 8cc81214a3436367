import EntityLinking.Candidate.Filter
import EntityLinking.Candidate.Gathering
import EntityLinking.Proofs.Mention
import EntityLinking.Proofs.MentionMap

/-!
# What a request gathers

Each distinct mention is looked up once, in the order of first occurrences, until a lookup fails.  A
form that the lookup does not know is no failure: its mention stays, without candidates.  Filters
change the candidates of every mention and leave the mentions alone.
-/

namespace EntityLinking
namespace Gathering

variable {lookup : Lookup} {mention : Mention}

/-- The candidates of a surface form; a form that is not known has none. -/
def found (lookup : Lookup) (surface : String) : List Entity :=
  match lookup surface with
  | .ok entities => entities
  | .error _ => []

/-- The entry of a mention that has been looked up. -/
def entry (lookup : Lookup) (mention : Mention) : MentionMap.Entry (List Entity) :=
  ⟨mention, found lookup mention.surface⟩

/-- The fault by which the lookup of a surface form ends a request, if it does. -/
def outage? (lookup : Lookup) (surface : String) : Option LookupFault :=
  match lookup surface with
  | .error (.unavailable reason) => some (.unavailable reason)
  | _ => none

/-- The surface form of a question to the lookup. -/
def Event.asked? : Event → Option String
  | .asked surface => some surface
  | _ => none

/-- The surface forms that a computation asks the lookup for, in order. -/
def asked {α : Type} (run : Recorded Event LookupFault α) : List String :=
  run.events.filterMap Event.asked?

variable {earlier : List (MentionMap.Entry (List Entity))} {mentions : List Mention}
variable {forms : List String} {outcome : Except LookupFault Candidates}

/-- How the lookups of some mentions go, as the forms that are asked for and the outcome: all
of them succeed, and each mention gets an entry after those that were there, or the first
failure ends the matter. -/
inductive Course (lookup : Lookup) (earlier : List (MentionMap.Entry (List Entity)))
    (mentions : List Mention) : List String → Except LookupFault Candidates → Prop
  | completed {set : Candidates}
      (reached : ∀ m ∈ mentions, outage? lookup m.surface = none)
      (entries : set.toList = earlier ++ mentions.map (entry lookup)) :
      Course lookup earlier mentions (mentions.map (·.surface)) (.ok set)
  | interrupted {before after : List Mention} {failed : Mention} {fault : LookupFault}
      (parts : mentions = before ++ failed :: after)
      (reached : ∀ m ∈ before, outage? lookup m.surface = none)
      (unreached : outage? lookup failed.surface = some fault) :
      Course lookup earlier mentions ((before ++ [failed]).map (·.surface)) (.error fault)

/-- One lookup either fails as the lookup says or gives what the lookup knows. -/
theorem ask_cases (lookup : Lookup) (mention : Mention) :
    (∃ fault, outage? lookup mention.surface = some fault ∧
      (ask lookup mention).outcome = .error fault ∧
      asked (ask lookup mention) = [mention.surface]) ∨
    (outage? lookup mention.surface = none ∧
      (ask lookup mention).outcome = .ok (found lookup mention.surface) ∧
      asked (ask lookup mention) = [mention.surface]) := by
  unfold ask outage? found
  cases lookup mention.surface with
  | ok entities => exact Or.inr ⟨rfl, rfl, rfl⟩
  | error fault =>
      cases fault with
      | notFound surface => exact Or.inr ⟨rfl, rfl, rfl⟩
      | unavailable reason => exact Or.inl ⟨.unavailable reason, rfl, rfl, rfl⟩

theorem Course.of_outage {rest : List Mention} {fault : LookupFault}
    (hfault : outage? lookup mention.surface = some fault) :
    Course lookup earlier (mention :: rest) [mention.surface] (.error fault) := by
  have hparts : mention :: rest = [] ++ mention :: rest := rfl
  exact .interrupted hparts (by simp) hfault

theorem Course.cons {rest : List Mention} (hreached : outage? lookup mention.surface = none)
    (hrest : Course lookup (earlier ++ [entry lookup mention]) rest forms outcome) :
    Course lookup earlier (mention :: rest) (mention.surface :: forms) outcome := by
  cases hrest with
  | completed reached entries =>
      refine .completed ?_ ?_
      · intro m hm
        rcases List.mem_cons.mp hm with rfl | hm
        · exact hreached
        · exact reached m hm
      · rw [entries, List.append_assoc, List.map_cons, List.singleton_append]
  | @interrupted before after failed fault parts reached unreached =>
      have hparts : mention :: rest = (mention :: before) ++ failed :: after := by
        rw [parts, List.cons_append]
      refine .interrupted hparts ?_ unreached
      intro m hm
      rcases List.mem_cons.mp hm with rfl | hm
      · exact hreached
      · exact reached m hm

/-- The mentions that a set does not have yet are looked up one after the other. -/
theorem extend_course (lookup : Lookup) (mentions : List Mention) :
    ∀ set : Candidates, Course lookup set.toList (Mention.fresh set.mentions mentions)
      (asked (extend lookup mentions set)) (extend lookup mentions set).outcome := by
  induction mentions with
  | nil =>
      intro set
      exact .completed (by simp) (by simp)
  | cons mention rest ih =>
      intro set
      rw [extend]
      by_cases hknown : set.contains mention = true
      · rw [if_pos hknown, Mention.fresh_cons_of_mem (MentionMap.contains_iff.mp hknown)]
        exact ih set
      · rw [if_neg hknown,
          Mention.fresh_cons_of_not_mem (mt MentionMap.contains_iff.mpr hknown), Recorded.bind_eq]
        rcases ask_cases lookup mention with
          ⟨fault, hfault, houtcome, hasked⟩ | ⟨hreached, houtcome, hasked⟩
        · rw [asked] at hasked
          rw [Recorded.andThen_of_error houtcome, asked, hasked]
          exact .of_outage hfault
        · have hcourse := ih (set.insert mention (found lookup mention.surface))
          rw [MentionMap.toList_insert_of_not_contains hknown,
            MentionMap.mentions_insert_of_not_contains hknown] at hcourse
          rw [asked] at hasked
          rw [Recorded.andThen_of_ok houtcome, asked, List.filterMap_append, hasked]
          exact .cons hreached hcourse

/-- The distinct mentions of a request are looked up one after the other. -/
theorem gather_course (lookup : Lookup) (mentions : List Mention) :
    Course lookup [] (Mention.distinct mentions) (asked (gather lookup mentions))
      (gather lookup mentions).outcome := by
  have hcourse := extend_course lookup mentions .empty
  rw [MentionMap.mentions_empty, Mention.fresh_of_nil] at hcourse
  rw [gather, Recorded.bind_eq]
  cases hrun : (extend lookup mentions .empty).outcome with
  | error fault =>
      rw [hrun] at hcourse
      rw [Recorded.andThen_of_error hrun]
      exact hcourse
  | ok set =>
      rw [hrun] at hcourse
      rw [Recorded.andThen_of_ok hrun, asked, List.filterMap_append]
      simpa [asked, Recorded.note, List.filterMap_cons, Event.asked?] using hcourse

/-- A list has only one first member at which a lookup fails. -/
theorem first_failed_eq {before after before' after' : List Mention}
    {failed failed' : Mention} {fault fault' : LookupFault}
    (parts : before ++ failed :: after = before' ++ failed' :: after')
    (reached : ∀ m ∈ before, outage? lookup m.surface = none)
    (reached' : ∀ m ∈ before', outage? lookup m.surface = none)
    (unreached : outage? lookup failed.surface = some fault)
    (unreached' : outage? lookup failed'.surface = some fault') :
    before = before' ∧ failed = failed' := by
  -- what comes before the first failure is what `takeWhile` keeps, whatever the split
  have hfirst : ∀ {front : List Mention} (back : List Mention) {m : Mention} {f : LookupFault},
      (∀ n ∈ front, outage? lookup n.surface = none) →
      outage? lookup m.surface = some f →
        (front ++ m :: back).takeWhile (fun n => (outage? lookup n.surface).isNone) =
          front := by
    intro front back m f hfront hm
    rw [List.takeWhile_append_of_pos fun n hn => by rw [hfront n hn]; rfl,
      List.takeWhile_cons_of_neg (by simp [hm]), List.append_nil]
  have hbefore : before = before' := by
    rw [← hfirst after reached unreached, parts, hfirst after' reached' unreached']
  subst hbefore
  exact ⟨rfl, (List.cons.inj (List.append_cancel_left parts)).1⟩

end Gathering

/-! ## Filters -/

theorem Candidates.hasAny_iff {set : Candidates} :
    set.hasAny = true ↔ ∃ e ∈ set.toList, e.value ≠ [] := by
  simp [Candidates.hasAny]

@[simp] theorem Stage.select_nil (s : Stage) : s.select [] = [] := by
  cases s <;> rfl

/-- Filters find nothing where there is nothing. -/
@[simp] theorem Pipeline.select_nil (p : Pipeline) : p.select [] = [] := by
  obtain ⟨stages⟩ := p
  simp only [Pipeline.select]
  induction stages with
  | nil => rfl
  | cons stage rest ih => rw [List.foldl_cons, Stage.select_nil, ih]

/-- A pipeline does to each mention's candidates what its stages do to a list, one after the
other. -/
theorem Pipeline.apply_eq_map (p : Pipeline) (set : Candidates) :
    p.apply set = set.map fun e => p.select e.value := by
  obtain ⟨stages⟩ := p
  simp only [Pipeline.apply, Pipeline.select]
  induction stages generalizing set with
  | nil => exact (MentionMap.map_value set).symm
  | cons stage rest ih =>
      simp only [List.foldl_cons]
      rw [ih, Stage.apply, MentionMap.map_map]

theorem Pipeline.toList_apply (p : Pipeline) (set : Candidates) :
    (p.apply set).toList = set.toList.map fun e => ⟨e.mention, p.select e.value⟩ := by
  rw [Pipeline.apply_eq_map, MentionMap.toList_map]

end EntityLinking
