import EntityLinking.Proofs.Service.Protocol

/-!
# Two services beside each other

Two services whose collaborators answer a request alike take it the same course: both fail with the
same fault, or both return tables, and how these are related is decided by what the scorings return.
What the collaborators do with other requests plays no part.
-/

namespace EntityLinking

/-- Two outcomes of one kind: the same fault, or values that are related. -/
inductive EndAlike {ε α β : Type} (R : α → β → Prop) : Except ε α → Except ε β → Prop
  | fault (e : ε) : EndAlike R (.error e) (.error e)
  | value {a : α} {b : β} (h : R a b) : EndAlike R (.ok a) (.ok b)

theorem EndAlike.eq {ε α : Type} {x y : Except ε α} (h : EndAlike Eq x y) : x = y := by
  cases h with
  | fault e => rfl
  | value h => rw [h]

theorem EndAlike.refl {ε α : Type} {R : α → α → Prop} (hR : ∀ a, R a a) (x : Except ε α) :
    EndAlike R x x := by
  cases x with
  | error e => exact .fault e
  | ok a => exact .value (hR a)

namespace Service

variable {σ : Type} [Ranked σ] {R : Table σ → Table σ → Prop} {s s' : Service σ}
variable {mentions : List Mention} {k : Nat} {cs cs' : List Call}
variable {outcome outcome' : Except Fault (Table σ)}

/-- The collaborators of two services answer a request alike: the lookups fail for the same forms,
the filters leave some candidate of the same forms, the constructions end the same, and the scorings
return scores whose tables are related. -/
structure Corresponds (R : Table σ → Table σ → Prop) (s s' : Service σ) (mentions : List Mention)
    (k : Nat) : Prop where
  outage_eq : ∀ surface, Gathering.outage? s.lookup surface = Gathering.outage? s'.lookup surface
  survivors_iff : ∀ surface, s.survivors surface = [] ↔ s'.survivors surface = []
  construction_eq : (s.construction (s.senses mentions)).outcome =
    (s'.construction (s'.senses mentions)).outcome
  unresolved : R (answer [] mentions) (answer [] mentions)
  scored : ∀ g, (s.construction (s.senses mentions)).outcome = .ok (some g) →
    EndAlike (fun scores scores' => R (answer scores mentions) (answer scores' mentions))
      (s.scoring.best (s.senses mentions) g k) (s'.scoring.best (s'.senses mentions) g k)

/-! ## What decides a course -/

section Inversions

variable {fault : GraphFault} {g : Subgraph}

theorem Linking.eq_of_error (h : Linking s mentions k cs outcome)
    (hfailed : (s.construction (s.senses mentions)).outcome = .error fault) :
    cs = [] ∧ outcome = .error (graphOutage fault) := by
  cases h with
  | unconstructed construction =>
      rw [hfailed, Except.error.injEq] at construction
      subst construction
      exact ⟨rfl, rfl⟩
  | unusable construction => simp [hfailed] at construction
  | unscored construction scoring => simp [hfailed] at construction
  | scored construction scoring => simp [hfailed] at construction

theorem Linking.eq_of_none (h : Linking s mentions k cs outcome)
    (hnone : (s.construction (s.senses mentions)).outcome = .ok none) :
    cs = [] ∧ outcome = .ok (answer [] mentions) := by
  cases h with
  | unconstructed construction => simp [hnone] at construction
  | unusable construction => exact ⟨rfl, rfl⟩
  | unscored construction scoring => simp [hnone] at construction
  | scored construction scoring => simp [hnone] at construction

theorem Linking.eq_of_some (h : Linking s mentions k cs outcome)
    (hsome : (s.construction (s.senses mentions)).outcome = .ok (some g)) :
    cs = [.score (s.senses mentions) g k] ∧
      outcome = ((s.scoring.best (s.senses mentions) g k).mapError graphOutage).map
        fun scores => answer scores mentions := by
  cases h with
  | unconstructed construction => simp [hsome] at construction
  | unusable construction => simp [hsome] at construction
  | @unscored g' fault construction scoring =>
      obtain rfl : g = g' := by simpa [hsome] using construction
      rw [scoring]
      exact ⟨rfl, rfl⟩
  | @scored g' scores construction scoring =>
      obtain rfl : g = g' := by simpa [hsome] using construction
      rw [scoring]
      exact ⟨rfl, rfl⟩

theorem Course.eq_of_zero (h : Course s mentions k cs outcome) (hk : k = 0) :
    cs = [] ∧ outcome = .error (.invalidInput "k must be at least 1") := by
  cases h with
  | refused _ => exact ⟨rfl, rfl⟩
  | unreachable hpos parts reached unreached => omega
  | exhausted hpos reached hnone => omega
  | proceeding proceeds linking => exact absurd proceeds.positive (by omega)

theorem Course.eq_of_failed (h : Course s mentions k cs outcome) (hk : 0 < k)
    {before after : List Mention} {failed : Mention} {fault : LookupFault}
    (parts : Mention.distinct mentions = before ++ failed :: after)
    (reached : ∀ m ∈ before, Gathering.outage? s.lookup m.surface = none)
    (unreached : Gathering.outage? s.lookup failed.surface = some fault) :
    cs = lookups (before ++ [failed]) ∧ outcome = .error (lookupOutage fault) := by
  cases h with
  | refused hzero => omega
  | @unreachable before' after' failed' fault' _ parts' reached' unreached' =>
      obtain ⟨rfl, rfl⟩ :=
        Gathering.first_failed_eq (parts.symm.trans parts') reached reached' unreached unreached'
      obtain rfl : fault = fault' := by simpa [unreached] using unreached'
      exact ⟨rfl, rfl⟩
  | exhausted _ reached hnone => exact absurd reached (not_reached parts unreached)
  | proceeding proceeds linking => exact absurd proceeds.reached (not_reached parts unreached)

theorem Course.eq_of_exhausted (h : Course s mentions k cs outcome) (hk : 0 < k)
    (hreached : ∀ m ∈ mentions, Gathering.outage? s.lookup m.surface = none)
    (hnone : ∀ m ∈ mentions, s.survivors m.surface = []) :
    cs = lookups (Mention.distinct mentions) ∧ outcome = .ok (answer [] mentions) := by
  cases h with
  | refused hzero => omega
  | unreachable _ parts reached unreached => exact absurd hreached (not_reached parts unreached)
  | exhausted _ reached hnone => exact ⟨rfl, rfl⟩
  | proceeding proceeds linking =>
      obtain ⟨m, hm, hsome⟩ := proceeds.surviving
      exact absurd (hnone m hm) hsome

theorem Course.exists_linking (h : Course s mentions k cs outcome)
    (hproceeds : s.Proceeds mentions k) :
    ∃ cs', Linking s mentions k cs' outcome ∧
      cs = lookups (Mention.distinct mentions) ++ .construct (s.senses mentions) :: cs' := by
  cases h with
  | refused hzero => exact absurd hproceeds.positive (by omega)
  | unreachable _ parts reached unreached =>
      exact absurd hproceeds.reached (not_reached parts unreached)
  | exhausted _ reached hnone =>
      obtain ⟨m, hm, hsome⟩ := hproceeds.surviving
      exact absurd (hnone m hm) hsome
  | proceeding proceeds linking => exact ⟨_, linking, rfl⟩

end Inversions

/-! ## Courses beside each other -/

theorem Linking.endAlike (h : Corresponds R s s' mentions k)
    (hleft : Linking s mentions k cs outcome) (hright : Linking s' mentions k cs' outcome') :
    EndAlike R outcome outcome' ∧ (s.senses mentions = s'.senses mentions → cs = cs') := by
  have hconstruction := h.construction_eq
  cases hleft with
  | unconstructed construction =>
      obtain ⟨rfl, rfl⟩ := hright.eq_of_error (hconstruction.symm.trans construction)
      exact ⟨.fault _, fun _ => rfl⟩
  | unusable construction =>
      obtain ⟨rfl, rfl⟩ := hright.eq_of_none (hconstruction.symm.trans construction)
      exact ⟨.value h.unresolved, fun _ => rfl⟩
  | @unscored g fault construction scoring =>
      obtain ⟨rfl, rfl⟩ := hright.eq_of_some (hconstruction.symm.trans construction)
      have hscored := h.scored g construction
      rw [scoring] at hscored
      generalize s'.scoring.best (s'.senses mentions) g k = scored at hscored
      cases hscored with
      | fault _ => exact ⟨.fault _, fun hsenses => by rw [hsenses]⟩
  | @scored g scores construction scoring =>
      obtain ⟨rfl, rfl⟩ := hright.eq_of_some (hconstruction.symm.trans construction)
      have hscored := h.scored g construction
      rw [scoring] at hscored
      generalize s'.scoring.best (s'.senses mentions) g k = scored at hscored
      cases hscored with
      | value hrelated => exact ⟨.value hrelated, fun hsenses => by rw [hsenses]⟩

theorem Course.endAlike (h : Corresponds R s s' mentions k)
    (hleft : Course s mentions k cs outcome) (hright : Course s' mentions k cs' outcome') :
    EndAlike R outcome outcome' ∧ (s.senses mentions = s'.senses mentions → cs = cs') := by
  cases hleft with
  | refused hk =>
      obtain ⟨rfl, rfl⟩ := hright.eq_of_zero hk
      exact ⟨.fault _, fun _ => rfl⟩
  | unreachable hk parts reached unreached =>
      simp only [h.outage_eq] at reached unreached
      obtain ⟨rfl, rfl⟩ := hright.eq_of_failed hk parts reached unreached
      exact ⟨.fault _, fun _ => rfl⟩
  | exhausted hk reached hnone =>
      simp only [h.outage_eq] at reached
      obtain ⟨rfl, rfl⟩ := hright.eq_of_exhausted hk reached fun m hm =>
        (h.survivors_iff m.surface).mp (hnone m hm)
      exact ⟨.value h.unresolved, fun _ => rfl⟩
  | proceeding proceeds linking =>
      obtain ⟨hk, reached, m, hm, hsome⟩ := proceeds
      simp only [h.outage_eq] at reached
      have hproceeds : s'.Proceeds mentions k :=
        ⟨hk, reached, m, hm, mt (h.survivors_iff m.surface).mpr hsome⟩
      obtain ⟨cs'', hlinking, rfl⟩ := hright.exists_linking hproceeds
      obtain ⟨halike, hcalls⟩ := linking.endAlike h hlinking
      exact ⟨halike, fun hsenses => by rw [hcalls hsenses, hsenses]⟩

/-- Two services that answer a request alike end it alike, and make the same calls if the request
has the same senses for both. -/
theorem Corresponds.resolve (h : Corresponds R s s' mentions k) :
    EndAlike R (s.resolve mentions k).outcome (s'.resolve mentions k).outcome ∧
      (s.senses mentions = s'.senses mentions →
        calls (s.resolve mentions k) = calls (s'.resolve mentions k)) :=
  (resolve_course s mentions k).endAlike h (resolve_course s' mentions k)

end Service
end EntityLinking
