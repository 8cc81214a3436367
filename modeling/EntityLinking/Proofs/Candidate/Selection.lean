import Mathlib.Data.List.Forall2
import Mathlib.Data.List.Nodup
import EntityLinking.Proofs.Candidate.Gathering

/-!
# What filters keep

The best few of a list are its members at the positions that lead the ranking, in the order of the
list.  So every stage keeps a part of a candidate list as it stands, and what a stage demands of a
list still holds of every part that later stages keep.  The result of a pipeline therefore meets the
demands of all its stages, in whatever order they run.
-/

namespace EntityLinking

section Best

variable {α σ : Type} [Ranked σ] {key : α → σ} {k : Nat} {xs : List α}

/-- The members of a list with their positions, by descending key; equal keys keep their order. -/
def standings (key : α → σ) (xs : List α) : List (α × Nat) :=
  Ranked.sortDescending (fun x => key x.1) xs.zipIdx

/-- The positions of the first `k` members in the standings. -/
def leaders (key : α → σ) (k : Nat) (xs : List α) : List Nat :=
  ((standings key xs).take k).map Prod.snd

theorem standings_perm (key : α → σ) (xs : List α) : (standings key xs).Perm xs.zipIdx :=
  List.mergeSort_perm xs.zipIdx _

theorem length_standings (key : α → σ) (xs : List α) : (standings key xs).length = xs.length := by
  rw [(standings_perm key xs).length_eq, List.length_zipIdx]

theorem nodup_positions (xs : List α) : (xs.zipIdx.map Prod.snd).Nodup := by
  rw [List.zipIdx_map_snd]
  exact List.nodup_range'

/-- A member of a list is known by its position. -/
theorem eq_of_position_eq {a b : α × Nat} (ha : a ∈ xs.zipIdx) (hb : b ∈ xs.zipIdx)
    (h : a.2 = b.2) : a = b :=
  List.inj_on_of_nodup_map (nodup_positions xs) ha hb h

theorem mem_take_standings_iff {a : α × Nat} (ha : a ∈ xs.zipIdx) :
    a ∈ (standings key xs).take k ↔ a.2 ∈ leaders key k xs := by
  constructor
  · intro h
    exact List.mem_map_of_mem h
  · intro h
    obtain ⟨b, hb, hposition⟩ := List.mem_map.mp h
    have hmem : b ∈ xs.zipIdx := (standings_perm key xs).mem_iff.mp (List.mem_of_mem_take hb)
    exact eq_of_position_eq hmem ha hposition ▸ hb

theorem pairwise_position_lt (xs : List α) : xs.zipIdx.Pairwise fun a b => a.2 < b.2 := by
  have hrange : (xs.zipIdx.map Prod.snd).Pairwise (· < ·) := by
    rw [List.zipIdx_map_snd]
    exact List.pairwise_lt_range'
  exact List.pairwise_map.mp hrange

/-- The leaders brought back into the order of the list are the members at their positions. -/
theorem mergeSort_take_standings (key : α → σ) (k : Nat) (xs : List α) :
    ((standings key xs).take k).mergeSort (fun a b => decide (a.2 ≤ b.2)) =
      xs.zipIdx.filter fun a => a.2 ∈ leaders key k xs := by
  have hnodup : xs.zipIdx.Nodup := List.Nodup.of_map _ (nodup_positions xs)
  have htaken : ((standings key xs).take k).Nodup :=
    ((standings_perm key xs).nodup_iff.mpr hnodup).sublist (List.take_sublist k _)
  have hmem : ∀ a, a ∈ (standings key xs).take k ↔
      a ∈ xs.zipIdx.filter fun a => a.2 ∈ leaders key k xs := by
    intro a
    rw [List.mem_filter, decide_eq_true_eq]
    constructor
    · intro h
      have ha : a ∈ xs.zipIdx := (standings_perm key xs).mem_iff.mp (List.mem_of_mem_take h)
      exact ⟨ha, (mem_take_standings_iff ha).mp h⟩
    · rintro ⟨ha, h⟩
      exact (mem_take_standings_iff ha).mpr h
  have hperm :=
    (List.mergeSort_perm ((standings key xs).take k) fun a b => decide (a.2 ≤ b.2)).trans
      ((List.perm_ext_iff_of_nodup htaken (hnodup.filter _)).mpr hmem)
  have hsorted : (((standings key xs).take k).mergeSort fun a b => decide (a.2 ≤ b.2)).Pairwise
      fun a b => a.2 ≤ b.2 := by
    refine (List.pairwise_mergeSort ?_ ?_ _).imp of_decide_eq_true
    · intro a b c hab hbc
      exact decide_eq_true (Nat.le_trans (of_decide_eq_true hab) (of_decide_eq_true hbc))
    · intro a b
      simpa using Nat.le_total a.2 b.2
  -- two lists with the same members, both in the order of positions
  have hpositions : xs.zipIdx.Pairwise fun a b => a.2 ≤ b.2 :=
    (pairwise_position_lt xs).imp Nat.le_of_lt
  refine hperm.eq_of_pairwise ?_ hsorted (hpositions.filter _)
  intro a b ha hb hab hba
  exact eq_of_position_eq (List.mem_of_mem_filter (hperm.mem_iff.mp ha)) (List.mem_of_mem_filter hb)
    (Nat.le_antisymm hab hba)

/-- The best of a list are its members at the positions that lead the ranking. -/
theorem keepBest_eq_filter (key : α → σ) (k : Nat) (xs : List α) :
    keepBest key k xs = (xs.zipIdx.filter fun a => a.2 ∈ leaders key k xs).map Prod.fst := by
  rw [← mergeSort_take_standings]
  unfold keepBest
  split
  next hshort =>
    have hall : (standings key xs).take k = standings key xs :=
      List.take_of_length_le (by rwa [length_standings])
    have hleaders : ∀ a ∈ xs.zipIdx, decide (a.2 ∈ leaders key k xs) = true := by
      intro a ha
      apply decide_eq_true
      rw [← mem_take_standings_iff ha, hall]
      exact (standings_perm key xs).mem_iff.mpr ha
    rw [mergeSort_take_standings, List.filter_eq_self.mpr hleaders, List.zipIdx_map_fst]
  next => rfl

theorem keepBest_sublist (key : α → σ) (k : Nat) (xs : List α) :
    (keepBest key k xs).Sublist xs := by
  have hpart := (List.filter_sublist (p := fun a => decide (a.2 ∈ leaders key k xs))
    (l := xs.zipIdx)).map Prod.fst
  rwa [← keepBest_eq_filter, List.zipIdx_map_fst] at hpart

/-- The best are chosen by their keys and places alone. -/
theorem keepBest_map {β : Type} (key : β → σ) (f : α → β) (k : Nat) (xs : List α) :
    keepBest key k (xs.map f) = (keepBest (fun x => key (f x)) k xs).map f := by
  have hplaces : ∀ ys : List (α × Nat),
      (ys.map (Prod.map f id)).mergeSort (fun x y => decide (x.2 ≤ y.2)) =
        (ys.mergeSort fun x y => decide (x.2 ≤ y.2)).map (Prod.map f id) := by
    intro ys
    symm
    apply List.map_mergeSort
    intro a ha b hb
    rfl
  simp only [keepBest, List.length_map]
  split
  next => rfl
  next =>
    rw [List.zipIdx_map, Ranked.sortDescending_map, ← List.map_take, hplaces, List.map_map,
      List.map_map]
    rfl

theorem length_keepBest (key : α → σ) (k : Nat) (xs : List α) :
    (keepBest key k xs).length = min k xs.length := by
  rw [keepBest_eq_filter, ← mergeSort_take_standings, List.length_map, List.length_mergeSort,
    List.length_take, length_standings]

theorem length_keepBest_le (key : α → σ) (k : Nat) (xs : List α) :
    (keepBest key k xs).length ≤ k := by
  rw [length_keepBest]
  exact Nat.min_le_left k xs.length

end Best

namespace Stage

/-- What a stage demands of a candidate list. -/
def Meets : Stage → List Entity → Prop
  | minSupport least, es => ∀ e ∈ es, least ≤ e.support
  | bestSupport k, es => es.length ≤ k
  | bestPrior k, es => es.length ≤ k

variable {s : Stage} {es kept : List Entity}

theorem select_sublist (s : Stage) (es : List Entity) : (s.select es).Sublist es := by
  cases s with
  | minSupport least => exact List.filter_sublist
  | bestSupport k => exact keepBest_sublist Entity.support k es
  | bestPrior k => exact keepBest_sublist Entity.prior k es

/-- A stage meets its own demand. -/
theorem meets_select (s : Stage) (es : List Entity) : s.Meets (s.select es) := by
  cases s with
  | minSupport least =>
      intro e he
      exact of_decide_eq_true (List.mem_filter.mp he).2
  | bestSupport k => exact length_keepBest_le Entity.support k es
  | bestPrior k => exact length_keepBest_le Entity.prior k es

/-- A stage leaves a list alone that meets its demand already. -/
theorem select_eq_self (h : s.Meets es) : s.select es = es := by
  cases s with
  | minSupport least => exact List.filter_eq_self.mpr fun e he => decide_eq_true (h e he)
  | bestSupport k => exact if_pos h
  | bestPrior k => exact if_pos h

/-- What a list meets, every part of it meets. -/
theorem Meets.sublist (h : s.Meets es) (hkept : kept.Sublist es) : s.Meets kept := by
  cases s with
  | minSupport least => exact fun e he => h e (hkept.subset he)
  | bestSupport k => exact Nat.le_trans hkept.length_le h
  | bestPrior k => exact Nat.le_trans hkept.length_le h

end Stage

namespace Pipeline

variable {p : Pipeline} {stage : Stage}

theorem select_sublist (p : Pipeline) (es : List Entity) : (p.select es).Sublist es := by
  obtain ⟨stages⟩ := p
  simp only [select]
  induction stages generalizing es with
  | nil => exact List.Sublist.refl es
  | cons stage rest ih =>
      rw [List.foldl_cons]
      exact (ih (stage.select es)).trans (stage.select_sublist es)

/-- The result of a pipeline meets the demands of all its stages. -/
theorem meets_select (h : stage ∈ p.stages) (es : List Entity) : stage.Meets (p.select es) := by
  obtain ⟨stages⟩ := p
  simp only [select]
  induction stages generalizing es with
  | nil => simp at h
  | cons first rest ih =>
      rw [List.foldl_cons]
      rcases List.mem_cons.mp h with rfl | h
      · exact (stage.meets_select es).sublist (select_sublist ⟨rest⟩ (stage.select es))
      · exact ih (first.select es) h

theorem select_eq_self {es : List Entity} (h : ∀ stage ∈ p.stages, stage.Meets es) :
    p.select es = es := by
  obtain ⟨stages⟩ := p
  simp only [select]
  induction stages with
  | nil => rfl
  | cons first rest ih =>
      rw [List.foldl_cons, Stage.select_eq_self (h first List.mem_cons_self)]
      exact ih fun stage hstage => h stage (List.mem_cons_of_mem _ hstage)

/-- A mention has in the result what the stages select of its candidates. -/
theorem find?_apply (p : Pipeline) (set : Candidates) (m : Mention) :
    (p.apply set).find? m = (set.find? m).map p.select := by
  rw [apply_eq_map, MentionMap.find?_map]

/-! ## Pipelines from settings -/

section Settings

variable {s : FilterSettings} {kind : FilterKind}

theorem threshold_eq_some {n : Int} (hstated : s.stated kind = some n) (hpos : 0 < n) :
    s.threshold kind = some n.toNat := by
  have hkept : (some n).filter (0 < ·) = some n := Option.filter_some_pos (decide_eq_true hpos)
  rw [FilterSettings.threshold, hstated, hkept]
  rfl

theorem threshold_eq_none (h : ∀ n, s.stated kind = some n → n ≤ 0) : s.threshold kind = none := by
  rw [FilterSettings.threshold, Option.map_eq_none_iff, Option.filter_eq_none_iff]
  intro n hn hpos
  exact absurd (of_decide_eq_true hpos) (Int.not_lt.mpr (h n hn))

theorem ofKind_mem_stages {n : Nat} (hlisted : kind ∈ s.order) (h : s.threshold kind = some n) :
    Stage.ofKind kind n ∈ (ofSettings s).stages :=
  List.mem_filterMap.mpr ⟨kind, hlisted, by rw [h]; rfl⟩

/-- Only the thresholds of listed kinds are looked at. -/
theorem ofSettings_congr {other : FilterSettings} (horder : other.order = s.order)
    (hstated : ∀ kind ∈ s.order, other.stated kind = s.stated kind) :
    ofSettings other = ofSettings s := by
  rw [ofSettings, ofSettings, horder]
  refine congrArg _ (List.filterMap_congr ?_)
  intro kind hkind
  rw [FilterSettings.threshold, hstated kind hkind, FilterSettings.threshold]

/-- The places where a kind is listed that is switched off do not matter. -/
theorem stages_ofSettings_filter (h : s.threshold kind = none) :
    (ofSettings s).stages = (s.order.filter (· ≠ kind)).filterMap fun listed =>
      (s.threshold listed).map (Stage.ofKind listed) := by
  rw [List.filterMap_filter]
  apply List.filterMap_congr
  intro listed hlisted
  by_cases hkind : listed = kind
  · simp [hkind, h]
  · simp [hkind]

/-- A set that comes out of the pipeline of some settings, held against the set that goes in.
Mentions stay where they are, and of the candidates of each a part stays, in the order of the
lookup; all of them stay if they meet what the stages demand.  A kind that is switched on and
listed has its bound kept, wherever in the order it stands; one that is not listed, or switched
off, has no part in the result. -/
structure Thins (s : FilterSettings) (set result : Candidates) : Prop where
  entries : List.Forall₂ (fun before after =>
    after.mention = before.mention ∧ after.value.Sublist before.value) set.toList result.toList
  found : ∀ m, result.find? m = (set.find? m).map (ofSettings s).select
  untouched : ∀ entry ∈ set.toList,
    (∀ stage ∈ (ofSettings s).stages, stage.Meets entry.value) → entry ∈ result.toList
  minSupport : ∀ least, s.minSupport = some least → 0 < least → .minSupport ∈ s.order →
    ∀ entry ∈ result.toList, ∀ e ∈ entry.value, least ≤ e.support
  bestSupport : ∀ k, s.bestSupport = some k → 0 < k → .bestSupport ∈ s.order →
    ∀ entry ∈ result.toList, entry.value.length ≤ k
  bestPrior : ∀ k, s.bestPrior = some k → 0 < k → .bestPrior ∈ s.order →
    ∀ entry ∈ result.toList, entry.value.length ≤ k
  unlisted : ∀ other : FilterSettings, other.order = s.order →
    (∀ kind ∈ s.order, other.stated kind = s.stated kind) → (ofSettings other).apply set = result
  disabled : ∀ kind order, (∀ n, s.stated kind = some n → n ≤ 0) →
    order.filter (· ≠ kind) = s.order.filter (· ≠ kind) →
      (ofSettings { s with order := order }).apply set = result

/-- What a kind demands that is switched on and listed, every list of the result meets. -/
theorem meets_of_stated (kind : FilterKind) {n : Int} {set : Candidates}
    {entry : MentionMap.Entry (List Entity)} (hstated : s.stated kind = some n) (hpos : 0 < n)
    (hlisted : kind ∈ s.order) (hentry : entry ∈ ((ofSettings s).apply set).toList) :
    (Stage.ofKind kind n.toNat).Meets entry.value := by
  rw [toList_apply] at hentry
  obtain ⟨before, -, rfl⟩ := List.mem_map.mp hentry
  exact meets_select (ofKind_mem_stages hlisted (threshold_eq_some hstated hpos)) before.value

/-- The pipeline of any settings thins out any set as the settings say. -/
theorem apply_thins (s : FilterSettings) (set : Candidates) :
    Thins s set ((ofSettings s).apply set) := by
  have hvalues := toList_apply (ofSettings s) set
  constructor
  · rw [hvalues, List.forall₂_map_right_iff, List.forall₂_same]
    intro entry hentry
    exact ⟨rfl, select_sublist (ofSettings s) entry.value⟩
  · exact find?_apply (ofSettings s) set
  · intro entry hentry hmeets
    rw [hvalues]
    exact List.mem_map.mpr ⟨entry, hentry, by rw [select_eq_self hmeets]⟩
  · intro least hstated hpos hlisted entry hentry e he
    have hmeets : (Stage.minSupport least.toNat).Meets entry.value :=
      meets_of_stated .minSupport hstated hpos hlisted hentry
    exact Int.toNat_le.mp (hmeets e he)
  · intro k hstated hpos hlisted entry hentry
    have hmeets : (Stage.bestSupport k.toNat).Meets entry.value :=
      meets_of_stated .bestSupport hstated hpos hlisted hentry
    exact (Int.le_toNat (Int.le_of_lt hpos)).mp hmeets
  · intro k hstated hpos hlisted entry hentry
    have hmeets : (Stage.bestPrior k.toNat).Meets entry.value :=
      meets_of_stated .bestPrior hstated hpos hlisted hentry
    exact (Int.le_toNat (Int.le_of_lt hpos)).mp hmeets
  · intro other horder hstated
    rw [ofSettings_congr horder hstated]
  · intro kind order hoff horder
    have hnone := threshold_eq_none hoff
    have hstages : (ofSettings { s with order := order }).stages = (ofSettings s).stages := by
      calc (ofSettings { s with order := order }).stages
          = (order.filter (· ≠ kind)).filterMap fun listed =>
              (s.threshold listed).map (Stage.ofKind listed) := stages_ofSettings_filter hnone
        _ = (ofSettings s).stages := by rw [horder, stages_ofSettings_filter hnone]
    rw [apply, hstages, apply]

end Settings

end Pipeline
end EntityLinking
