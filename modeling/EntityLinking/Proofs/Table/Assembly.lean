import EntityLinking.Proofs.Binary64.Order
import EntityLinking.Proofs.Table

/-!
# Assembled tables

A table is assembled from rows in any order, several of which may be about one mention.  It lists
every mention once, by offset, with the resolutions of all its rows, by score in the total order of
words.  Both sorts are stable, so a table that is assembled from the rows of a table is that table.
-/

namespace EntityLinking

/-- A list sorted by a key: no value stands behind one that comes before it, and values of equal
keys stand in the order in which they were given. -/
structure StablySorted {α κ : Type} [DecidableEq κ] (before : κ → κ → Prop) (key : α → κ)
    (given sorted : List α) : Prop where
  ordered : sorted.Pairwise fun a b => ¬ before (key b) (key a)
  perm : sorted.Perm given
  stable : ∀ k, (sorted.filter fun a => key a = k) = given.filter fun a => key a = k

theorem stablySorted_mergeSort {α κ : Type} [DecidableEq κ] {before : κ → κ → Prop}
    (le : κ → κ → Bool) (htrans : ∀ x y z, le x y = true → le y z = true → le x z = true)
    (htotal : ∀ x y, (le x y || le y x) = true) (hbefore : ∀ x y, before x y → le y x = false)
    (key : α → κ) (given : List α) :
    StablySorted before key given (given.mergeSort fun a b => le (key a) (key b)) := by
  have hkeysTrans := fun a b c : α => htrans (key a) (key b) (key c)
  have hkeysTotal := fun a b : α => htotal (key a) (key b)
  constructor
  · refine (List.pairwise_mergeSort hkeysTrans hkeysTotal given).imp ?_
    intro a b hle hlt
    rw [hbefore _ _ hlt] at hle
    exact Bool.false_ne_true hle
  · exact List.mergeSort_perm given _
  · intro k
    apply filter_mergeSort hkeysTrans hkeysTotal
    intro a b ha hb
    rw [of_decide_eq_true ha, of_decide_eq_true hb]
    simpa using htotal k k

theorem Mention.stablySorted_inOrder (ms : List Mention) :
    StablySorted (· < ·) Mention.offset ms (inOrder ms) := by
  refine stablySorted_mergeSort (fun x y => decide (x ≤ y)) ?_ ?_ ?_ offset ms
  · intro x y z hxy hyz
    exact decide_eq_true (Nat.le_trans (of_decide_eq_true hxy) (of_decide_eq_true hyz))
  · intro x y
    simpa using Nat.le_total x y
  · intro x y hlt
    exact decide_eq_false (Nat.not_le_of_lt hlt)

theorem Ranked.stablySorted_sortDescending {α σ : Type} [Ranked σ] [DecidableEq σ]
    {above : σ → σ → Prop} (habove : ∀ x y, above x y → le x y = false) (key : α → σ)
    (given : List α) : StablySorted above key given (sortDescending key given) := by
  refine stablySorted_mergeSort (fun x y => le y x) ?_ ?_ habove key given
  · intro x y z hxy hyz
    exact le_trans _ _ _ hyz hxy
  · intro x y
    exact le_total y x

theorem Binary64.stablySorted_sortDescending {α : Type} (key : α → Binary64) (given : List α) :
    StablySorted (fun x y => Below y x) key given (Ranked.sortDescending key given) := by
  apply Ranked.stablySorted_sortDescending
  intro x y hbelow
  exact decide_eq_false (Int.not_le.mpr (rank_lt_rank_iff.mpr hbelow))

namespace Table

variable {σ : Type} [Ranked σ]

/-- The rows from which a table would be assembled. -/
def entries (t : Table σ) : List (Mention × List (Resolution σ)) :=
  t.rows.map fun row => (row.mention, row.value)

/-- A table that is in order is what its own rows are assembled to. -/
theorem assemble_entries {t : Table σ} (hnodup : (t.rows.map MentionMap.Entry.key).Nodup)
    (hascending : t.rows.Pairwise fun a b => a.mention.offset ≤ b.mention.offset)
    (hdescending : ∀ row ∈ t.rows, row.value.Pairwise fun a b => Ranked.le b.score a.score = true) :
    assemble t.entries = t := by
  have hfirst : t.entries.map Prod.fst = t.mentions := by
    rw [entries, List.map_map]
    rfl
  have hkeys : (t.mentions.map Mention.key).Nodup := by
    rw [mentions, List.map_map]
    exact hnodup
  have hinOrder : Mention.inOrder t.mentions = t.mentions := by
    apply List.mergeSort_of_pairwise
    rw [mentions, List.pairwise_map]
    exact hascending.imp decide_eq_true
  have hvalue : ∀ row ∈ t.rows,
      Ranked.sortDescending Resolution.score (filed t.entries row.mention) = row.value := by
    intro row hrow
    have hmem : (row.mention, row.value) ∈ t.entries := List.mem_map_of_mem hrow
    rw [filed_of_mem (hfirst ▸ hkeys) hmem]
    exact List.mergeSort_of_pairwise (hdescending row hrow)
  have hrows : (t.rows.map fun row => (⟨row.mention,
      Ranked.sortDescending Resolution.score (filed t.entries row.mention)⟩ :
        MentionMap.Entry (List (Resolution σ)))) = t.rows.map id := by
    apply List.map_congr_left
    intro row hrow
    rw [hvalue row hrow]
    rfl
  rw [assemble_eq_tabulate, tabulate, hfirst, Mention.distinct_eq_self hkeys, hinOrder, mentions,
    List.map_map]
  exact congrArg Table.mk (hrows.trans (List.map_id _))

theorem lists_assemble (rows : List (Mention × List (Resolution σ))) :
    Lists (assemble rows) (rows.map Prod.fst) rows := by
  rw [assemble_eq_tabulate]
  exact lists_tabulate fun row hrow => List.mem_map_of_mem hrow

/-- The table of some rows: every mention once and by offset, with all resolutions of its rows by
score; nothing is lost, added or changed. -/
structure Assembled (rows : List (Mention × List (Resolution Binary64))) (t : Table Binary64) :
    Prop where
  mentions_sorted :
    StablySorted (· < ·) Mention.offset (Mention.distinct (rows.map Prod.fst)) t.mentions
  once : t.mentions.Pairwise fun m n => m.key ≠ n.key
  covers : ∀ row ∈ rows, ∃ entry ∈ t.rows, entry.key = row.1.key
  value_sorted : ∀ entry ∈ t.rows, StablySorted (fun x y => Binary64.Below y x) Resolution.score
    ((rows.filter fun row => row.1.key = entry.key).flatMap Prod.snd) entry.value
  resolutions : (t.rows.flatMap (·.value)).Perm (rows.flatMap Prod.snd)

/-- Whatever rows it is given, the assembler sorts them into a table, and leaves a table as it
is. -/
theorem assemble_assembled (rows : List (Mention × List (Resolution Binary64))) :
    Assembled rows (assemble rows) ∧ assemble (assemble rows).entries = assemble rows := by
  have hlists := lists_assemble rows
  refine ⟨?_, assemble_entries hlists.nodup hlists.ascending hlists.descending⟩
  constructor
  case mentions_sorted =>
    rw [hlists.mentions_eq]
    exact Mention.stablySorted_inOrder _
  case once =>
    rw [mentions, List.pairwise_map]
    exact List.pairwise_map.mp hlists.nodup
  case covers =>
    intro row hrow
    exact hlists.covers row.1 (List.mem_map_of_mem hrow)
  case value_sorted =>
    intro entry hentry
    rw [hlists.values entry hentry]
    exact Binary64.stablySorted_sortDescending Resolution.score (filed rows entry.mention)
  case resolutions => exact hlists.resolutions

end Table
end EntityLinking
