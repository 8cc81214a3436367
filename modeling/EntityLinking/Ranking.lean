/-!
# Ranked values

Scores are compared only through a decided total preorder.  Two kinds of score occur: exact
rationals, which the built-in scoring computes, and binary64 words, which any other scoring may
return.  Sorting is stable throughout, so values of equal rank keep the order they came in.
-/

namespace EntityLinking

/-- A type whose values are ranked by a decided total preorder. -/
class Ranked (σ : Type) where
  /-- `le a b` holds when `b` ranks at least as high as `a`. -/
  le : σ → σ → Bool
  le_trans : ∀ a b c, le a b = true → le b c = true → le a c = true
  le_total : ∀ a b, (le a b || le b a) = true

instance : Ranked Nat where
  le a b := decide (a ≤ b)
  le_trans a b c := by
    simpa using fun (h : a ≤ b) (h' : b ≤ c) => Nat.le_trans h h'
  le_total a b := by
    simpa using Nat.le_total a b

instance : Ranked Rat where
  le a b := decide (a ≤ b)
  le_trans a b c := by
    simpa using fun (h : a ≤ b) (h' : b ≤ c) => Rat.le_trans h h'
  le_total a b := by
    simpa using Rat.le_total (a := a) (b := b)

/-- A stable sort keeps the order among values that all tie. -/
theorem filter_mergeSort {α : Type} {le : α → α → Bool}
    (htrans : ∀ a b c, le a b = true → le b c = true → le a c = true)
    (htotal : ∀ a b, (le a b || le b a) = true) {p : α → Bool}
    (htie : ∀ a b, p a = true → p b = true → le a b = true) (xs : List α) :
    (xs.mergeSort le).filter p = xs.filter p := by
  have htied : (xs.filter p).Pairwise fun a b => le a b = true := by
    rw [List.pairwise_iff_forall_sublist]
    intro a b hab
    have hmem : ∀ x ∈ [a, b], p x = true := fun x hx => (List.mem_filter.mp (hab.subset hx)).2
    exact htie a b (hmem a (by simp)) (hmem b (by simp))
  have hpart : (xs.filter p).Sublist (xs.mergeSort le) :=
    List.sublist_mergeSort htrans htotal htied List.filter_sublist
  have hfiltered : (xs.filter p).Sublist ((xs.mergeSort le).filter p) := by
    simpa using hpart.filter p
  have hperm : (xs.mergeSort le).Perm xs := List.mergeSort_perm xs le
  exact (hfiltered.eq_of_length (hperm.filter p).length_eq.symm).symm

namespace Ranked

variable {α σ : Type} [Ranked σ]

/-- Whether the second value ranks no higher than the first: the order of a list of best first. -/
def noHigher (key : α → σ) (a b : α) : Bool :=
  le (key b) (key a)

/-- The values sorted by descending rank; equal ranks keep their order. -/
def sortDescending (key : α → σ) (xs : List α) : List α :=
  xs.mergeSort (noHigher key)

theorem noHigher_trans (key : α → σ) (a b c : α) (hab : noHigher key a b = true)
    (hbc : noHigher key b c = true) : noHigher key a c = true :=
  le_trans _ _ _ hbc hab

theorem noHigher_total (key : α → σ) (a b : α) :
    (noHigher key a b || noHigher key b a) = true :=
  le_total _ _

/-- Sorting the images of values is sorting the values by the keys of their images. -/
theorem sortDescending_map {β : Type} (key : β → σ) (f : α → β) (xs : List α) :
    sortDescending key (xs.map f) = (sortDescending (fun x => key (f x)) xs).map f := by
  symm
  apply List.map_mergeSort
  intro a ha b hb
  rfl

theorem pairwise_sortDescending (key : α → σ) (xs : List α) :
    (sortDescending key xs).Pairwise fun a b => noHigher key a b = true :=
  List.pairwise_mergeSort (noHigher_trans key) (noHigher_total key) xs

/-- Sorting keeps the order among values that all rank the same. -/
theorem filter_sortDescending {p : α → Bool} {key : α → σ}
    (htie : ∀ a b, p a = true → p b = true → noHigher key a b = true) (xs : List α) :
    (sortDescending key xs).filter p = xs.filter p :=
  filter_mergeSort (noHigher_trans key) (noHigher_total key) htie xs

end Ranked
end EntityLinking
