import Mathlib.Data.Fintype.Basic
import Mathlib.Data.List.FinRange
import EntityLinking.Proofs.Binary64.Order
import EntityLinking.Proofs.Candidate.Selection

/-!
# Which candidates are the best

A member of a list goes before another one if it ranks higher, or as high and stands further to the
front.  The standings list every member after exactly those that go before it, so the best `k` are
the members that fewer than `k` others go before.  In this form the choice can be read off any part
of a list whose members keep their positions, and it stays the same there as long as the part holds,
with a member, all that go before it.
-/

namespace EntityLinking

section Members

variable {α σ : Type} [Ranked σ] {key : α → σ} {k : Nat} {xs : List α} {ys : List (α × Nat)}
variable {a b c : α × Nat}

/-- Whether the first of two members, each with its position, goes before the second: it ranks at
least as high, and it ranks higher or stands further to the front. -/
def goesBefore (key : α → σ) (b a : α × Nat) : Bool :=
  Ranked.le (key a.1) (key b.1) && (!Ranked.le (key b.1) (key a.1) || decide (b.2 < a.2))

/-- How many members of a list go before a member. -/
def ahead (key : α → σ) (ys : List (α × Nat)) (a : α × Nat) : Nat :=
  ys.countP fun b => goesBefore key b a

theorem goesBefore_iff : goesBefore key b a = true ↔
    Ranked.le (key a.1) (key b.1) = true ∧
      (Ranked.le (key b.1) (key a.1) = false ∨ b.2 < a.2) := by
  simp [goesBefore]

/-- Where only equal keys rank the same, those that go before a member have a higher key, or the
same key and an earlier position. -/
theorem goesBefore_iff_of_antisymm {below : σ → σ → Prop}
    (hbelow : ∀ x y, below x y ↔ Ranked.le y x = false)
    (htie : ∀ x y : σ, Ranked.le x y = true → Ranked.le y x = true → x = y) :
    goesBefore key b a = true ↔ below (key a.1) (key b.1) ∨ key a.1 = key b.1 ∧ b.2 < a.2 := by
  rw [goesBefore_iff, hbelow]
  have htotal := Ranked.le_total (key a.1) (key b.1)
  rw [Bool.or_eq_true] at htotal
  constructor
  · rintro ⟨hab, hba | hplace⟩
    · exact Or.inl hba
    · cases hba : Ranked.le (key b.1) (key a.1) with
      | false => exact Or.inl rfl
      | true => exact Or.inr ⟨htie _ _ hab hba, hplace⟩
  · rintro (hba | ⟨heq, hplace⟩)
    · exact ⟨htotal.resolve_right (by simp [hba]), Or.inl hba⟩
    · rw [heq, or_self] at htotal
      exact ⟨heq ▸ htotal, Or.inr hplace⟩

theorem goesBefore_asymm (h : goesBefore key b a = true) : goesBefore key a b = false := by
  rw [goesBefore_iff] at h
  obtain ⟨hab, hstrict⟩ := h
  rw [Bool.eq_false_iff, ne_eq, goesBefore_iff]
  rintro ⟨hba, hstrict'⟩
  simp only [hab, hba, Bool.true_eq_false, false_or] at hstrict hstrict'
  omega

theorem goesBefore_self (key : α → σ) (a : α × Nat) : goesBefore key a a = false := by
  cases h : goesBefore key a a with
  | false => rfl
  | true => exact h.symm.trans (goesBefore_asymm h)

theorem goesBefore_trans (hcb : goesBefore key c b = true) (hba : goesBefore key b a = true) :
    goesBefore key c a = true := by
  rw [goesBefore_iff] at *
  obtain ⟨hbc, hstrict⟩ := hcb
  obtain ⟨hab, hstrict'⟩ := hba
  refine ⟨Ranked.le_trans _ _ _ hab hbc, ?_⟩
  cases hca : Ranked.le (key c.1) (key a.1) with
  | false => exact Or.inl rfl
  | true =>
      -- all three rank the same, so positions decide
      have hcb := Ranked.le_trans _ _ _ hca hab
      have hba := Ranked.le_trans _ _ _ hbc hca
      simp only [hcb, hba, Bool.true_eq_false, false_or] at hstrict hstrict'
      exact Or.inr (by omega)

/-! ## Standings -/

/-- In the standings every member goes before the later ones. -/
theorem pairwise_goesBefore_standings (key : α → σ) (xs : List α) :
    (standings key xs).Pairwise fun a b => goesBefore key a b = true := by
  rw [List.pairwise_iff_forall_sublist]
  intro a b hab
  have hle : Ranked.le (key b.1) (key a.1) = true :=
    List.pairwise_iff_forall_sublist.mp
      (Ranked.pairwise_sortDescending (fun x : α × Nat => key x.1) xs.zipIdx) hab
  refine goesBefore_iff.mpr ⟨hle, ?_⟩
  cases htie : Ranked.le (key a.1) (key b.1) with
  | false => exact Or.inl rfl
  | true =>
      -- the members that rank the same keep their order
      let tied : α × Nat → Bool := fun x =>
        Ranked.le (key a.1) (key x.1) && Ranked.le (key x.1) (key a.1)
      have hkept : (standings key xs).filter tied = xs.zipIdx.filter tied := by
        apply Ranked.filter_sortDescending
        intro x y hx hy
        simp only [tied, Bool.and_eq_true] at hx hy
        exact Ranked.le_trans _ _ _ hy.2 hx.1
      have hself : Ranked.le (key a.1) (key a.1) = true := by
        simpa using Ranked.le_total (key a.1) (key a.1)
      have hpair : [a, b].filter tied = [a, b] := by
        simp [tied, hself, htie, hle]
      have hsub : [a, b].Sublist (xs.zipIdx.filter tied) := by
        rw [← hkept, ← hpair]
        exact hab.filter tied
      exact Or.inr (List.pairwise_iff_forall_sublist.mp (pairwise_position_lt xs)
        (hsub.trans List.filter_sublist))

/-- In a list whose members all go before the later ones, the members at the front are those that
only few members go before. -/
theorem mem_take_iff_ahead_lt (h : ys.Pairwise fun a b => goesBefore key a b = true) (ha : a ∈ ys) :
    a ∈ ys.take k ↔ ahead key ys a < k := by
  obtain ⟨front, back, rfl⟩ := List.append_of_mem ha
  rw [List.pairwise_append, List.pairwise_cons] at h
  obtain ⟨-, ⟨hback, -⟩, hcross⟩ := h
  have hfront : ∀ b ∈ front, goesBefore key b a = true :=
    fun b hb => hcross b hb a List.mem_cons_self
  have hnot : ¬ a ∈ front := by
    intro hmem
    simpa [goesBefore_self] using hfront a hmem
  have hahead : ahead key (front ++ a :: back) a = front.length := by
    have hnone : ∀ b ∈ a :: back, ¬ goesBefore key b a = true := by
      intro b hb
      rcases List.mem_cons.mp hb with rfl | hb
      · simp [goesBefore_self]
      · simp [goesBefore_asymm (hback b hb)]
    rw [ahead, List.countP_append, List.countP_eq_length.mpr hfront, List.countP_eq_zero.mpr hnone,
      Nat.add_zero]
  rw [hahead, List.take_append, List.mem_append]
  rcases Nat.lt_or_ge front.length k with hlt | hge
  · obtain ⟨n, hn⟩ := Nat.exists_eq_succ_of_ne_zero (Nat.sub_ne_zero_of_lt hlt)
    simp [hn, hlt]
  · have hzero : k - front.length = 0 := Nat.sub_eq_zero_of_le hge
    rw [hzero]
    constructor
    · rintro (hmem | hmem)
      · exact absurd (List.mem_of_mem_take hmem) hnot
      · simp at hmem
    · intro hlt
      omega

theorem ahead_standings (key : α → σ) (xs : List α) (a : α × Nat) :
    ahead key (standings key xs) a = ahead key xs.zipIdx a :=
  (standings_perm key xs).countP_eq _

/-- The best `k` of a list are the members that fewer than `k` others go before. -/
theorem keepBest_eq_filter_ahead (key : α → σ) (k : Nat) (xs : List α) :
    keepBest key k xs =
      (xs.zipIdx.filter fun a => decide (ahead key xs.zipIdx a < k)).map Prod.fst := by
  rw [keepBest_eq_filter]
  congr 1
  apply List.filter_congr
  intro a ha
  rw [decide_eq_decide, ← mem_take_standings_iff ha, ← ahead_standings]
  exact mem_take_iff_ahead_lt (pairwise_goesBefore_standings key xs)
    ((standings_perm key xs).mem_iff.mpr ha)

/-! ## Parts of a list -/

theorem position_lt_iff (h : ys.Pairwise fun a b => a.2 < b.2) {a b : (α × Nat) × Nat}
    (ha : a ∈ ys.zipIdx) (hb : b ∈ ys.zipIdx) : a.2 < b.2 ↔ a.1.2 < b.1.2 := by
  have hrises : ∀ {a b : (α × Nat) × Nat}, a ∈ ys.zipIdx → b ∈ ys.zipIdx → a.2 < b.2 →
      a.1.2 < b.1.2 := by
    rintro ⟨a, i⟩ ⟨b, j⟩ ha hb hlt
    obtain ⟨hi, hai⟩ := List.mem_zipIdx' ha
    obtain ⟨hj, hbj⟩ := List.mem_zipIdx' hb
    have hpair := List.pairwise_iff_getElem.mp h i j hi hj hlt
    rwa [← hai, ← hbj] at hpair
  refine ⟨hrises ha hb, ?_⟩
  intro hlt
  rcases Nat.lt_trichotomy a.2 b.2 with hless | heq | hmore
  · exact hless
  · rw [eq_of_position_eq ha hb heq] at hlt
    exact absurd hlt (Nat.lt_irrefl _)
  · exact absurd (hrises hb ha hmore) (Nat.lt_asymm hlt)

/-- In a list whose members carry rising positions, the best can be told by these positions. -/
theorem keepBest_placed (h : ys.Pairwise fun a b => a.2 < b.2) :
    keepBest (fun y => key y.1) k ys = ys.filter fun a => decide (ahead key ys a < k) := by
  have hahead : ∀ a ∈ ys.zipIdx, ahead (fun y => key y.1) ys.zipIdx a = ahead key ys a.1 := by
    intro a ha
    calc ahead (fun y => key y.1) ys.zipIdx a
        = ys.zipIdx.countP ((fun b => goesBefore key b a.1) ∘ Prod.fst) := by
          apply List.countP_congr
          intro b hb
          rw [Function.comp_apply, goesBefore_iff, goesBefore_iff, position_lt_iff h hb ha]
      _ = ahead key ys a.1 := by
          rw [← List.countP_map, List.zipIdx_map_fst]
          rfl
  have hchosen : (ys.zipIdx.filter fun a => decide (ahead (fun y => key y.1) ys.zipIdx a < k)) =
      ys.zipIdx.filter ((fun a => decide (ahead key ys a < k)) ∘ Prod.fst) := by
    apply List.filter_congr
    intro a ha
    rw [Function.comp_apply, hahead a ha]
  rw [keepBest_eq_filter_ahead, hchosen, ← List.filter_map, List.zipIdx_map_fst]

/-- A part of a list that holds, with a member, all that go before it has the same best ones. -/
theorem keepBest_filter (h : ys.Pairwise fun a b => a.2 < b.2) {p : α × Nat → Bool}
    (hp : ∀ a b, goesBefore key b a = true → p a = true → p b = true) :
    keepBest (fun y => key y.1) k (ys.filter p) = (keepBest (fun y => key y.1) k ys).filter p := by
  rw [keepBest_placed (h.filter p), keepBest_placed h, List.filter_filter, List.filter_filter]
  apply List.filter_congr
  intro a _
  cases hpa : p a with
  | false => simp
  | true =>
      have hahead : ahead key (ys.filter p) a = ahead key ys a := by
        rw [ahead, List.countP_filter]
        apply List.countP_congr
        intro b _
        rw [Bool.and_eq_true]
        exact and_iff_left_of_imp fun hba => hp a b hba hpa
      simp [hahead]

theorem ahead_mono (h : goesBefore key b a = true) (ys : List (α × Nat)) :
    ahead key ys b ≤ ahead key ys a :=
  List.countP_mono_left fun _ _ hcb => goesBefore_trans hcb h

/-- Lists are chosen from as if each member carried its position. -/
theorem keepBest_eq_map_placed (key : α → σ) (k : Nat) (xs : List α) :
    keepBest key k xs = (keepBest (fun y : α × Nat => key y.1) k xs.zipIdx).map Prod.fst := by
  rw [← keepBest_map, List.zipIdx_map_fst]

/-- Choosing the best from the best is choosing the best at once. -/
theorem keepBest_keepBest (key : α → σ) (k k' : Nat) (xs : List α) :
    keepBest key k' (keepBest key k xs) = keepBest key (min k k') xs := by
  have hplaced := pairwise_position_lt xs
  have hchosen : keepBest (fun y : α × Nat => key y.1) k'
      (keepBest (fun y : α × Nat => key y.1) k xs.zipIdx) =
        keepBest (fun y : α × Nat => key y.1) (min k k') xs.zipIdx := by
    rw [keepBest_placed (k := k) hplaced, keepBest_filter hplaced, keepBest_placed hplaced,
      keepBest_placed hplaced, List.filter_filter]
    · simp only [Nat.lt_min, Bool.decide_and]
    · intro a b hba ha
      exact decide_eq_true (Nat.lt_of_le_of_lt (ahead_mono hba xs.zipIdx) (of_decide_eq_true ha))
  rw [keepBest_eq_map_placed key k, keepBest_map, hchosen, ← keepBest_eq_map_placed]

/-- What a list keeps by a demand on ranks that higher ranks meet as well, and the best of a list,
may be chosen in either order. -/
theorem keepBest_filter_comm {p : α → Bool}
    (hp : ∀ x y, Ranked.le (key x) (key y) = true → p x = true → p y = true) (k : Nat)
    (xs : List α) : keepBest key k (xs.filter p) = (keepBest key k xs).filter p := by
  have hparts : xs.filter p = (xs.zipIdx.filter (p ∘ Prod.fst)).map Prod.fst := by
    rw [← List.filter_map, List.zipIdx_map_fst]
  have hclosed : ∀ a b : α × Nat, goesBefore key b a = true → (p ∘ Prod.fst) a = true →
      (p ∘ Prod.fst) b = true :=
    fun a b hba ha => hp a.1 b.1 (goesBefore_iff.mp hba).1 ha
  rw [hparts, keepBest_map, keepBest_filter (pairwise_position_lt xs) hclosed, ← List.filter_map,
    ← keepBest_eq_map_placed]

end Members

/-! ## The places of the best candidates -/

section Places

variable {σ : Type} [DecidableEq σ] (below : σ → σ → Prop) [DecidableRel below]

/-- How many places of a list hold a candidate that is preferred to the one at place `i`: the key of
that one is below its own, or the keys are the same and it stands further to the front. -/
def placesAhead (key : Entity → σ) (es : List Entity) (i : Fin es.length) : Nat :=
  (Finset.univ.filter fun j : Fin es.length =>
    below (key es[i]) (key es[j]) ∨ key es[i] = key es[j] ∧ j < i).card

/-- Of a candidate list those have been kept that fewer than `k` others are preferred to, in the
order in which they stood; these are `k` of them, or all if there are no more. -/
structure KeepsBest (key : Entity → σ) (k : Nat) (es kept : List Entity) : Prop where
  kept_eq : kept = ((List.finRange es.length).filter fun i =>
    decide (placesAhead below key es i < k)).map es.get
  length_eq : kept.length = min es.length k

theorem zipIdx_eq_map_finRange (es : List Entity) :
    es.zipIdx = (List.finRange es.length).map fun i => (es.get i, i.val) := by
  apply List.ext_getElem
  · simp
  · intro n _ _
    simp

theorem card_filter_univ_eq_countP {n : Nat} (P : Fin n → Prop) [DecidablePred P] :
    (Finset.univ.filter P).card = (List.finRange n).countP fun i => decide (P i) := by
  rw [Fin.univ_def, List.countP_eq_length_filter]
  rfl

variable {below}

theorem keepsBest_keepBest [Ranked σ] (hbelow : ∀ x y : σ, below x y ↔ Ranked.le y x = false)
    (htie : ∀ x y : σ, Ranked.le x y = true → Ranked.le y x = true → x = y) (key : Entity → σ)
    (k : Nat) (es : List Entity) : KeepsBest below key k es (keepBest key k es) := by
  constructor
  · have hahead : ∀ i : Fin es.length,
        ahead key es.zipIdx (es.get i, i.val) = placesAhead below key es i := by
      intro i
      rw [ahead, zipIdx_eq_map_finRange, List.countP_map, placesAhead, card_filter_univ_eq_countP]
      apply List.countP_congr
      intro j _
      rw [Function.comp_apply, goesBefore_iff_of_antisymm hbelow htie, decide_eq_true_eq]
      rfl
    have hchosen : (List.finRange es.length).filter
        ((fun a => decide (ahead key es.zipIdx a < k)) ∘ fun i => (es.get i, i.val)) =
          (List.finRange es.length).filter fun i => decide (placesAhead below key es i < k) := by
      apply List.filter_congr
      intro i _
      rw [Function.comp_apply, hahead i]
    calc keepBest key k es
        = (((List.finRange es.length).map fun i => (es.get i, i.val)).filter fun a =>
            decide (ahead key es.zipIdx a < k)).map Prod.fst := by
          rw [← zipIdx_eq_map_finRange, keepBest_eq_filter_ahead]
      _ = ((List.finRange es.length).filter fun i =>
            decide (placesAhead below key es i < k)).map es.get := by
          rw [List.filter_map, hchosen, List.map_map]
          rfl
  · rw [length_keepBest, Nat.min_comm]

end Places

namespace Stage

theorem toList_apply (s : Stage) (set : Candidates) :
    (s.apply set).toList = set.toList.map fun e => ⟨e.mention, s.select e.value⟩ :=
  MentionMap.toList_map _ set

/-- Each best-k stage chooses from every mention's candidates by itself: those of highest support,
and those of highest prior in the total order of words. -/
theorem apply_keepsBest (k : Nat) (set : Candidates) :
    List.Forall₂ (fun before after => after.mention = before.mention ∧
        KeepsBest (· < ·) Entity.support k before.value after.value)
      set.toList ((bestSupport k).apply set).toList ∧
    List.Forall₂ (fun before after => after.mention = before.mention ∧
        KeepsBest Binary64.Below Entity.prior k before.value after.value)
      set.toList ((bestPrior k).apply set).toList := by
  rw [toList_apply, toList_apply, List.forall₂_map_right_iff, List.forall₂_map_right_iff,
    List.forall₂_same, List.forall₂_same]
  constructor
  · intro entry _
    refine ⟨rfl, keepsBest_keepBest ?_ ?_ Entity.support k entry.value⟩
    · intro x y
      exact (decide_eq_false_iff_not.trans Nat.not_le).symm
    · intro x y hxy hyx
      exact Nat.le_antisymm (of_decide_eq_true hxy) (of_decide_eq_true hyx)
  · intro entry _
    refine ⟨rfl, keepsBest_keepBest ?_ ?_ Entity.prior k entry.value⟩
    · intro x y
      exact Binary64.rank_lt_rank_iff.symm.trans (decide_eq_false_iff_not.trans Int.not_le).symm
    · intro x y hxy hyx
      exact Binary64.rank_injective
        (Int.le_antisymm (of_decide_eq_true hxy) (of_decide_eq_true hyx))

end Stage
end EntityLinking
