import Mathlib.Data.List.Perm.Basic
import EntityLinking.Proofs.Mention
import EntityLinking.Proofs.MentionMap
import EntityLinking.Resolution

/-!
# Tables as sorted lists

Assembling rows into a table comes to this: the distinct mentions of the rows in the order of their
offsets, each with all resolutions that any row files under it, the best first.
-/

namespace EntityLinking
namespace Table

variable {σ : Type} {rows : List (Mention × List (Resolution σ))} {m : Mention}

/-- What some rows file under a mention, row by row. -/
def filed (rows : List (Mention × List (Resolution σ))) (m : Mention) : List (Resolution σ) :=
  (rows.filter fun row => row.1.key = m.key).flatMap (·.2)

/-- The table of some mentions, repetitions left out, with the given resolutions of each. -/
def tabulate [Ranked σ] (mentions : List Mention) (resolutions : Mention → List (Resolution σ)) :
    Table σ :=
  ⟨(Mention.inOrder (Mention.distinct mentions)).map fun m =>
    ⟨m, Ranked.sortDescending Resolution.score (resolutions m)⟩⟩

theorem filed_cons_of_eq {row : Mention × List (Resolution σ)} (h : m.key = row.1.key) :
    filed (row :: rows) m = row.2 ++ filed rows m := by
  simp [filed, h]

theorem filed_cons_of_ne {row : Mention × List (Resolution σ)} (h : m.key ≠ row.1.key) :
    filed (row :: rows) m = filed rows m := by
  simp [filed, h.symm]

theorem filed_append (rows rows' : List (Mention × List (Resolution σ))) (m : Mention) :
    filed (rows ++ rows') m = filed rows m ++ filed rows' m := by
  simp [filed]

@[simp] theorem filed_map_nil (ms : List Mention) (m : Mention) :
    filed (ms.map fun m => (m, ([] : List (Resolution σ)))) m = [] := by
  simp [filed]

theorem filed_eq_nil (h : m.key ∉ (rows.map Prod.fst).map Mention.key) : filed rows m = [] := by
  have hnone : (rows.filter fun row => row.1.key = m.key) = [] := by
    rw [List.filter_eq_nil_iff]
    intro row hrow hkey
    rw [← of_decide_eq_true hkey] at h
    exact h (List.mem_map_of_mem (List.mem_map_of_mem hrow))
  rw [filed, hnone, List.flatMap_nil]

/-- Where no mention has two rows, a row is all that is filed under its mention. -/
theorem filed_of_mem (hnodup : ((rows.map Prod.fst).map Mention.key).Nodup)
    {row : Mention × List (Resolution σ)} (hrow : row ∈ rows) : filed rows row.1 = row.2 := by
  induction rows with
  | nil => simp at hrow
  | cons first rest ih =>
      rw [List.map_cons, List.map_cons, List.nodup_cons] at hnodup
      rcases List.mem_cons.mp hrow with rfl | hrow
      · rw [filed_cons_of_eq rfl, filed_eq_nil hnodup.1, List.append_nil]
      · have hkey : row.1.key ≠ first.1.key := by
          intro hkey
          rw [← hkey] at hnodup
          exact hnodup.1 (List.mem_map_of_mem (List.mem_map_of_mem hrow))
        rw [filed_cons_of_ne hkey, ih hnodup.2 hrow]

/-! ## Reading a table -/

/-- The entities that a table gives a mention, each with its score; which occurrence of the mention
they were found for is left out. -/
def scored? (t : Table σ) (m : Mention) : Option (List (Entity × σ)) :=
  (t.find? m).map fun rs => rs.map fun r => (r.entity, r.score)

/-- In a table whose rows are made from their mentions, the row of a mention is made from one of the
same key. -/
theorem exists_find?_eq {t : Table σ} {ms : List Mention} {f : Mention → List (Resolution σ)}
    (hrows : t.rows = ms.map fun n => ⟨n, f n⟩) (hm : m.key ∈ ms.map Mention.key) :
    ∃ n, n.key = m.key ∧ t.find? m = some (f n) := by
  obtain ⟨n, hn, hkey⟩ := List.mem_map.mp hm
  have hrow : (⟨n, f n⟩ : MentionMap.Entry _) ∈ t.rows := hrows ▸ List.mem_map_of_mem hn
  obtain ⟨row, hfind⟩ : ∃ row, t.rows.find? (fun row => row.key = m.key) = some row :=
    Option.isSome_iff_exists.mp (List.find?_isSome.mpr ⟨_, hrow, decide_eq_true hkey⟩)
  have hrowKey : row.key = m.key := by simpa using List.find?_some hfind
  have hmem := List.mem_of_find?_eq_some hfind
  rw [hrows] at hmem
  obtain ⟨n', -, rfl⟩ := List.mem_map.mp hmem
  refine ⟨n', hrowKey, ?_⟩
  rw [find?, hfind]
  rfl

/-- The table with at most `k` resolutions of each mention, the first ones. -/
def firsts (t : Table σ) (k : Nat) : Table σ :=
  ⟨t.rows.map fun row => ⟨row.mention, row.value.take k⟩⟩

/-- The best resolutions are the same however many are wanted. -/
theorem best_firsts (t : Table σ) {k : Nat} (hk : 0 < k) : (t.firsts k).best = t.best := by
  rw [best, firsts, List.filterMap_map, best]
  apply List.filterMap_congr
  intro row hrow
  rw [Function.comp_apply, List.head?_take, if_neg (Nat.ne_of_gt hk)]

/-! ## Merging -/

/-- Files one row under its mention, after what is there. -/
abbrev file (m : MentionMap (List (Resolution σ))) (row : Mention × List (Resolution σ)) :
    MentionMap (List (Resolution σ)) :=
  m.alter row.1 fun earlier => earlier.getD [] ++ row.2

theorem mentions_foldl_file (rows : List (Mention × List (Resolution σ))) :
    ∀ start : MentionMap (List (Resolution σ)),
      (rows.foldl file start).mentions =
        start.mentions ++ Mention.fresh start.mentions (rows.map Prod.fst) := by
  induction rows with
  | nil => simp
  | cons row rest ih =>
      intro start
      rw [List.foldl_cons, ih, List.map_cons]
      by_cases hknown : start.contains row.1 = true
      · rw [MentionMap.mentions_alter_of_contains hknown,
          Mention.fresh_cons_of_mem (MentionMap.contains_iff.mp hknown)]
      · rw [MentionMap.mentions_alter_of_not_contains hknown,
          Mention.fresh_cons_of_not_mem (mt MentionMap.contains_iff.mpr hknown),
          List.append_assoc, List.singleton_append]

theorem find?_foldl_file (rows : List (Mention × List (Resolution σ))) (m : Mention) :
    ∀ start : MentionMap (List (Resolution σ)),
      ((rows.foldl file start).find? m).getD [] = (start.find? m).getD [] ++ filed rows m := by
  induction rows with
  | nil => simp [filed]
  | cons row rest ih =>
      intro start
      rw [List.foldl_cons, ih]
      by_cases hkey : m.key = row.1.key
      · rw [MentionMap.find?_alter_self start _ hkey, filed_cons_of_eq hkey, Option.getD_some,
          List.append_assoc]
      · rw [MentionMap.find?_alter_of_ne start _ hkey, filed_cons_of_ne hkey]

theorem merge_eq_foldl (rows : List (Mention × List (Resolution σ))) :
    merge rows = rows.foldl file .empty := rfl

/-- Merged rows are their distinct mentions, each with all that is filed under it. -/
theorem toList_merge (rows : List (Mention × List (Resolution σ))) :
    (merge rows).toList =
      (Mention.distinct (rows.map Prod.fst)).map fun m => ⟨m, filed rows m⟩ := by
  have hmentions : (merge rows).mentions = Mention.distinct (rows.map Prod.fst) := by
    simpa [merge_eq_foldl] using mentions_foldl_file rows .empty
  have hvalue : ∀ m, ((merge rows).find? m).getD [] = filed rows m := by
    intro m
    simpa [merge_eq_foldl] using find?_foldl_file rows m .empty
  rw [MentionMap.toList_eq_map_mentions (merge rows) [], hmentions]
  simp only [hvalue]

/-- Taken together, the mentions of a list with distinct keys have all that is filed under them. -/
theorem flatMap_filed_perm (rows : List (Mention × List (Resolution σ))) {ms : List Mention}
    (hnodup : (ms.map Mention.key).Nodup)
    (hcovers : ∀ row ∈ rows, ∃ m ∈ ms, m.key = row.1.key) :
    (ms.flatMap (filed rows)).Perm (rows.flatMap (·.2)) := by
  induction rows with
  | nil => simp [filed]
  | cons row rest ih =>
      obtain ⟨m, hm, hkey⟩ := hcovers row List.mem_cons_self
      have hrest := ih fun row hrow => hcovers row (List.mem_cons_of_mem _ hrow)
      obtain ⟨before, after, rfl⟩ := List.append_of_mem hm
      rw [List.map_append, List.map_cons, List.nodup_middle, List.nodup_cons, List.mem_append,
        not_or] at hnodup
      have hothers : ∀ ns : List Mention, m.key ∉ ns.map Mention.key →
          ns.flatMap (filed (row :: rest)) = ns.flatMap (filed rest) := by
        intro ns hns
        apply List.flatMap_congr
        intro n hn
        apply filed_cons_of_ne
        intro hn'
        exact hns (hkey ▸ hn' ▸ List.mem_map_of_mem hn)
      rw [List.flatMap_append, List.flatMap_cons, hothers before hnodup.1.1,
        hothers after hnodup.1.2, filed_cons_of_eq hkey, List.flatMap_cons]
      rw [List.flatMap_append, List.flatMap_cons] at hrest
      rw [List.append_assoc]
      exact (List.perm_append_comm_assoc _ _ _).trans (hrest.append_left row.2)

variable [Ranked σ]

theorem assemble_eq_tabulate (rows : List (Mention × List (Resolution σ))) :
    assemble rows = tabulate (rows.map Prod.fst) (filed rows) := by
  have hsort : ((Mention.distinct (rows.map Prod.fst)).map fun m =>
        (⟨m, filed rows m⟩ : MentionMap.Entry (List (Resolution σ)))).mergeSort
          (fun a b => decide (a.mention.offset ≤ b.mention.offset)) =
      (Mention.inOrder (Mention.distinct (rows.map Prod.fst))).map fun m => ⟨m, filed rows m⟩ := by
    symm
    apply List.map_mergeSort
    intro a ha b hb
    rfl
  rw [assemble, toList_merge, hsort, tabulate, List.map_map]
  rfl

/-! ## What a table holds -/

/-- A table that lists some mentions once each, by offset, with all resolutions of some rows, each
mention with those filed under it and no other. -/
structure Lists (t : Table σ) (mentions : List Mention)
    (rows : List (Mention × List (Resolution σ))) : Prop where
  mentions_eq : t.mentions = Mention.inOrder (Mention.distinct mentions)
  values : ∀ row ∈ t.rows,
    row.value = Ranked.sortDescending Resolution.score (filed rows row.mention)
  covers : ∀ m ∈ mentions, ∃ row ∈ t.rows, row.key = m.key
  nodup : (t.rows.map MentionMap.Entry.key).Nodup
  ascending : t.rows.Pairwise fun a b => a.mention.offset ≤ b.mention.offset
  descending : ∀ row ∈ t.rows, row.value.Pairwise fun a b => Ranked.le b.score a.score = true
  resolutions : (t.rows.flatMap (·.value)).Perm (rows.flatMap (·.2))
  unfiled : ∀ row ∈ t.rows, row.key ∉ (rows.map Prod.fst).map Mention.key → row.value = []

/-- What is tabulated is listed. -/
theorem lists_tabulate {mentions : List Mention} {rows : List (Mention × List (Resolution σ))}
    (hcovers : ∀ row ∈ rows, row.1 ∈ mentions) :
    Lists (tabulate mentions (filed rows)) mentions rows := by
  have hkeys : ((tabulate mentions (filed rows)).rows.map MentionMap.Entry.key) =
      (Mention.inOrder (Mention.distinct mentions)).map Mention.key := by
    rw [tabulate, List.map_map]
    rfl
  have hperm := Mention.inOrder_perm (Mention.distinct mentions)
  constructor
  · rw [Table.mentions, tabulate, List.map_map]
    exact List.map_id _
  · intro row hrow
    obtain ⟨m, -, rfl⟩ := List.mem_map.mp hrow
    rfl
  · intro m hm
    obtain ⟨n, hn, hkey⟩ := Mention.exists_mem_distinct hm
    exact ⟨_, List.mem_map_of_mem (hperm.mem_iff.mpr hn), hkey⟩
  · rw [hkeys]
    exact (hperm.map Mention.key).nodup_iff.mpr (Mention.nodup_keys_distinct mentions)
  · exact List.pairwise_map.mpr (Mention.pairwise_inOrder _)
  · intro row hrow
    obtain ⟨m, -, rfl⟩ := List.mem_map.mp hrow
    exact List.pairwise_mergeSort (Ranked.noHigher_trans _) (Ranked.noHigher_total _) _
  · have hsorted : ((tabulate mentions (filed rows)).rows.flatMap (·.value)).Perm
        ((Mention.inOrder (Mention.distinct mentions)).flatMap (filed rows)) := by
      rw [tabulate, List.flatMap_map]
      exact List.Perm.flatMap_left _ fun m hm => List.mergeSort_perm _ _
    have hplaces := hperm.flatMap_right (filed rows)
    have hfiled := flatMap_filed_perm rows (Mention.nodup_keys_distinct mentions)
      fun row hrow => Mention.exists_mem_distinct (hcovers row hrow)
    exact (hsorted.trans hplaces).trans hfiled
  · intro row hrow hkey
    obtain ⟨m, -, rfl⟩ := List.mem_map.mp hrow
    rw [filed_eq_nil hkey]
    exact List.mergeSort_nil

end Table
end EntityLinking
