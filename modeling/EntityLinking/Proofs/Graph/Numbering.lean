import Mathlib.Algebra.BigOperators.Group.Finset.Basic
import Mathlib.Algebra.Order.Ring.Nat
import Mathlib.Data.List.Induction

/-!
# Vertices in the order of their first mention

Triple stores and subgraphs number their vertices alike: a vertex gets the next free number when it
is first mentioned, and keeps it.  What has been mentioned so far decides the numbers, so the
vertices are the list of all mentions without repetitions.  As no vertex has two numbers, whatever
the edges say about their ends can be counted vertex by vertex or edge by edge.
-/

namespace EntityLinking

/-- Vertices that are numbered from zero in the order of their first mention: each has one number,
which counts the different vertices mentioned before it. -/
structure Numbered (mentions vertices : List String) (position? : String → Option Nat) : Prop where
  once : vertices.Nodup
  mem_iff : ∀ {u : String}, u ∈ vertices ↔ u ∈ mentions
  getElem?_iff : ∀ {u : String} {i : Nat}, position? u = some i ↔ vertices[i]? = some u
  first : ∀ {before after : List String} {u : String}, mentions = before ++ u :: after →
    u ∉ before → position? u = some before.toFinset.card

theorem eraseDups_concat (us : List String) (u : String) :
    (us ++ [u]).eraseDups =
      if us.eraseDups.contains u then us.eraseDups else us.eraseDups ++ [u] := by
  rw [List.eraseDups_append]
  by_cases hu : u ∈ us
  · simp [List.removeAll, hu]
  · simp [List.removeAll, hu, List.eraseDups_cons]

theorem nodup_eraseDups (us : List String) : us.eraseDups.Nodup := by
  induction us using List.reverseRecOn with
  | nil => exact List.nodup_nil
  | append_singleton us u ih =>
      rw [eraseDups_concat]
      split
      next => exact ih
      next hu => exact List.nodup_append_comm.mp (List.nodup_cons.mpr ⟨by simpa using hu, ih⟩)

theorem length_eraseDups (us : List String) : us.eraseDups.length = us.toFinset.card := by
  rw [← List.toFinset_card_of_nodup (nodup_eraseDups us)]
  congr 1
  ext u
  simp

theorem idxOf?_eq_some_iff_of_nodup {us : List String} (hus : us.Nodup) {u : String} {i : Nat} :
    us.idxOf? u = some i ↔ us[i]? = some u := by
  rw [List.idxOf?_eq_some_iff, List.getElem?_eq_some_iff]
  constructor
  · rintro ⟨hi, hu, -⟩
    exact ⟨hi, hu⟩
  · rintro ⟨hi, hu⟩
    refine ⟨hi, hu, ?_⟩
    intro j hj hsame
    have hij : j = i := hus.getElem_inj_iff.mp (hsame.trans hu.symm)
    omega

theorem numbered_eraseDups (mentions : List String) :
    Numbered mentions mentions.eraseDups mentions.eraseDups.idxOf? where
  once := nodup_eraseDups mentions
  mem_iff := List.mem_eraseDups
  getElem?_iff := idxOf?_eq_some_iff_of_nodup (nodup_eraseDups mentions)
  first := by
    rintro before after u rfl hu
    rw [idxOf?_eq_some_iff_of_nodup (nodup_eraseDups _), ← length_eraseDups]
    -- what is mentioned before `u` comes first, and `u` is the next to be new
    rw [List.eraseDups_append, List.cons_removeAll, if_pos (by simpa using hu), List.eraseDups_cons]
    simp

/-! ## Ends of edges -/

theorem countP_or_add_countP_and {α : Type} (p q : α → Bool) (edges : List α) :
    (edges.countP fun e => p e || q e) + (edges.countP fun e => p e && q e) =
      edges.countP p + edges.countP q := by
  induction edges with
  | nil => rfl
  | cons e edges ih =>
      simp only [List.countP_cons]
      cases hp : p e <;> cases hq : q e
      all_goals
        simp
        omega

/-- Counted vertex by vertex, every edge is met once at its one end. -/
theorem sum_countP_eq_length {α : Type} {vertices : List String} (hvertices : vertices.Nodup)
    (place : α → String) {edges : List α} (hplaces : ∀ e ∈ edges, place e ∈ vertices) :
    (vertices.map fun u => edges.countP fun e => place e = u).sum = edges.length := by
  have hcount : ∀ u, (edges.countP fun e => place e = u) = Multiset.count u ↑(edges.map place) := by
    intro u
    rw [Multiset.coe_count, List.count, List.countP_map]
    rfl
  have hinside : ∀ u ∈ (↑(edges.map place) : Multiset String), u ∈ vertices.toFinset := by
    intro u hu
    obtain ⟨e, he, rfl⟩ := List.mem_map.mp hu
    exact List.mem_toFinset.mpr (hplaces e he)
  simp only [hcount]
  rw [← List.sum_toFinset _ hvertices, Multiset.sum_count_eq_card hinside, Multiset.coe_card,
    List.length_map]

end EntityLinking
