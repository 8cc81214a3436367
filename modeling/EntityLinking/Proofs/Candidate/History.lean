import EntityLinking.Candidate.Set
import EntityLinking.Proofs.MentionMap

/-!
# The history of a candidate set

A candidate set comes about by filing candidates under one mention and by changing the
candidates of all mentions.  Whatever its history, it answers as the plain list does to which
the same is done: a mention that is new to the list goes to its end, and one that is known keeps
its place and its context.
-/

namespace EntityLinking
namespace MentionMap

variable {α : Type} {m : MentionMap α} {mention : Mention} {rows : List (Entry α)}

/-- One change of a map. -/
inductive Change (α : Type) where
  | insert (mention : Mention) (value : α)
  | map (f : Entry α → α)

/-- A value filed in a list of entries: in the entry of the same key, or at the end. -/
def put (mention : Mention) (value : α) : List (Entry α) → List (Entry α)
  | [] => [⟨mention, value⟩]
  | row :: rest =>
    if row.key = mention.key then { row with value } :: rest else row :: put mention value rest

namespace Change

/-- The map after a change. -/
def apply (m : MentionMap α) : Change α → MentionMap α
  | insert mention value => (m.enter mention value).2
  | map f => m.map f

/-- The list of entries after a change. -/
def list (rows : List (Entry α)) : Change α → List (Entry α)
  | insert mention value => put mention value rows
  | map f => rows.map fun row => { row with value := f row }

end Change

/-- The map that comes about by some changes. -/
def replay (history : List (Change α)) : MentionMap α :=
  history.foldl Change.apply empty

/-- The list of entries that comes about by some changes. -/
def listed (history : List (Change α)) : List (Entry α) :=
  history.foldl Change.list []

/-! ## Filing in a list -/

theorem put_of_new (value : α) (hnew : mention.key ∉ rows.map Entry.key) :
    put mention value rows = rows ++ [⟨mention, value⟩] := by
  induction rows with
  | nil => rfl
  | cons row rest ih =>
      rw [List.map_cons, List.mem_cons, not_or] at hnew
      rw [put, if_neg (Ne.symm hnew.1), ih hnew.2, List.cons_append]

theorem put_of_getElem? (value : α) (hnodup : (rows.map Entry.key).Nodup) {i : Nat} {row : Entry α}
    (hrow : rows[i]? = some row) (hkey : row.key = mention.key) :
    put mention value rows = rows.set i { row with value } := by
  induction rows generalizing i with
  | nil => simp at hrow
  | cons first rest ih =>
      rw [List.map_cons, List.nodup_cons] at hnodup
      cases i with
      | zero =>
          obtain rfl : first = row := by simpa using hrow
          rw [put, if_pos hkey, List.set_cons_zero]
      | succ i =>
          rw [List.getElem?_cons_succ] at hrow
          have hother : first.key ≠ mention.key := by
            intro hfirst
            apply hnodup.1
            rw [hfirst, ← hkey]
            exact List.mem_map_of_mem (List.mem_of_getElem? hrow)
          rw [put, if_neg hother, ih hnodup.2 hrow, List.set_cons_succ]

/-- Where keys are distinct, changing the one entry of a key is changing every entry of it. -/
theorem put_of_known (value : α) (hnodup : (rows.map Entry.key).Nodup)
    (hknown : mention.key ∈ rows.map Entry.key) :
    put mention value rows =
      rows.map fun row => if row.key = mention.key then { row with value } else row := by
  induction rows with
  | nil => simp at hknown
  | cons row rest ih =>
      rw [List.map_cons, List.nodup_cons] at hnodup
      by_cases hkey : row.key = mention.key
      · have hrest :
            rest.map (fun row => if row.key = mention.key then { row with value } else row) =
              rest.map id := by
          apply List.map_congr_left
          intro later hlater
          refine if_neg fun hsame => hnodup.1 ?_
          rw [hkey, ← hsame]
          exact List.mem_map_of_mem hlater
        rw [put, if_pos hkey, List.map_cons, if_pos hkey, hrest, List.map_id]
      · have hlater : mention.key ∈ rest.map Entry.key :=
          (List.mem_cons.mp hknown).resolve_left (Ne.symm hkey)
        rw [put, if_neg hkey, List.map_cons, if_neg hkey, ih hnodup.2 hlater]

/-! ## Histories -/

theorem mem_keys_iff_contains :
    mention.key ∈ m.toList.map Entry.key ↔ m.contains mention = true := by
  rw [contains_iff, keys_eq_map_mentions]

theorem toList_insert (m : MentionMap α) (mention : Mention) (value : α) :
    (m.insert mention value).toList = put mention value m.toList := by
  by_cases hknown : m.contains mention = true
  · rw [put_of_known value m.nodup_keys (mem_keys_iff_contains.mpr hknown), insert,
      toList_alter_of_contains hknown]
  · rw [put_of_new value (mt mem_keys_iff_contains.mp hknown), toList_insert_of_not_contains hknown]

/-- A change does to the entries of a map what it does to a list. -/
theorem toList_apply (m : MentionMap α) (change : Change α) :
    (change.apply m).toList = change.list m.toList := by
  cases change with
  | insert mention value => exact toList_insert m mention value
  | map f => exact toList_map f m

theorem toList_foldl_apply (history : List (Change α)) :
    ∀ start : MentionMap α,
      (history.foldl Change.apply start).toList = history.foldl Change.list start.toList := by
  induction history with
  | nil => simp
  | cons change rest ih =>
      intro start
      rw [List.foldl_cons, List.foldl_cons, ih, toList_apply]

theorem toList_replay (history : List (Change α)) : (replay history).toList = listed history :=
  toList_foldl_apply history empty

/-! ## Answers -/

theorem contains_eq_any (m : MentionMap α) (mention : Mention) :
    m.contains mention = m.toList.any fun row => row.key = mention.key := by
  rw [Bool.eq_iff_iff, ← mem_keys_iff_contains]
  simp

theorem find?_eq_find? (m : MentionMap α) (mention : Mention) :
    m.find? mention = (m.toList.find? fun row => row.key = mention.key).map (·.value) := by
  cases hfound : m.toList.find? fun row => row.key = mention.key with
  | none =>
      rw [Option.map_none, find?_eq_none_iff, contains_eq_any, Bool.not_eq_true, List.any_eq_false]
      simpa using hfound
  | some row =>
      have hkey : row.key = mention.key := by simpa using List.find?_some hfound
      exact find?_eq_some_iff.mpr ⟨row, List.mem_of_find?_eq_some hfound, hkey, rfl⟩

theorem position?_eq_findIdx? (m : MentionMap α) (mention : Mention) :
    m.position? mention = m.toList.findIdx? fun row => row.key = mention.key := by
  cases hfound : m.toList.findIdx? fun row => row.key = mention.key with
  | none =>
      rw [List.findIdx?_eq_none_iff] at hfound
      rw [← Option.not_isSome_iff_eq_none]
      intro hknown
      obtain ⟨row, hrow, hkey⟩ := List.mem_map.mp (mem_keys_iff_contains.mpr hknown)
      simpa [hkey] using hfound row hrow
  | some i =>
      obtain ⟨hi, hkey, -⟩ := List.findIdx?_eq_some_iff_getElem.mp hfound
      rw [position?, index_eq_some_iff, List.getElem?_map, List.getElem?_eq_getElem hi]
      exact congrArg some (of_decide_eq_true hkey)

end MentionMap

namespace Candidates

open MentionMap

/-- A set agrees with a list of entries: in what it holds, in its answer to every question, and in
what the next change makes of it. -/
structure Mirrors (set : Candidates) (rows : List (Entry (List Entity))) : Prop where
  entries : set.toList = rows
  distinct : rows.Pairwise fun a b => a.key ≠ b.key
  index : ∀ (key : Mention.Key) (i : Nat),
    set.index[key]? = some i ↔ ∃ row, rows[i]? = some row ∧ row.key = key
  position : ∀ n, set.position? n = rows.findIdx? fun row => row.key = n.key
  contains : ∀ n, set.contains n = rows.any fun row => row.key = n.key
  found : ∀ n, set.find? n = (rows.find? fun row => row.key = n.key).map (·.value)
  size : set.size = rows.length
  mentions : set.mentions = rows.map (·.mention)
  total : Candidates.total set = rows.foldr (fun row n => row.value.length + n) 0
  hasAny : Candidates.hasAny set = true ↔ ∃ row ∈ rows, row.value ≠ []
  entered_new : ∀ n es, (∀ row ∈ rows, row.key ≠ n.key) →
    (set.enter n es).1 = true ∧ (set.enter n es).2.toList = rows ++ [⟨n, es⟩]
  entered_known : ∀ n es (i : Nat) row, rows[i]? = some row → row.key = n.key →
    (set.enter n es).1 = false ∧
      (set.enter n es).2.toList = rows.set i { row with value := es }
  mapped : ∀ f : Entry (List Entity) → List Entity,
    (set.map f).toList = rows.map fun row => { row with value := f row }

theorem mirrors_toList (set : Candidates) : Mirrors set set.toList := by
  have hnodup := set.nodup_keys
  constructor
  case entries => rfl
  case distinct => exact List.pairwise_map.mp hnodup
  case index =>
    intro key i
    rw [index_eq_some_iff, List.getElem?_map, Option.map_eq_some_iff]
  case position => exact position?_eq_findIdx? set
  case contains => exact contains_eq_any set
  case found => exact find?_eq_find? set
  case size => exact Array.length_toList.symm
  case mentions => rfl
  case total => rw [Candidates.total, List.length_flatMap, List.sum, List.foldr_map]
  case hasAny => simp [Candidates.hasAny]
  case entered_new =>
    intro n es hnew
    have hnot : n.key ∉ set.toList.map Entry.key := by
      rintro hmem
      obtain ⟨row, hrow, hkey⟩ := List.mem_map.mp hmem
      exact hnew row hrow hkey
    refine ⟨?_, ?_⟩
    · rw [enter, Bool.not_eq_true', ← Bool.not_eq_true]
      exact mt mem_keys_iff_contains.mpr hnot
    · rw [enter, toList_insert, put_of_new es hnot]
  case entered_known =>
    intro n es i row hrow hkey
    have hmem : n.key ∈ set.toList.map Entry.key :=
      hkey ▸ List.mem_map_of_mem (List.mem_of_getElem? hrow)
    refine ⟨?_, ?_⟩
    · rw [enter, Bool.not_eq_false', mem_keys_iff_contains.mp hmem]
    · rw [enter, toList_insert, put_of_getElem? es hnodup hrow hkey]
  case mapped =>
    intro f
    exact toList_map f set

/-- Whatever was filed in a set and however its candidates were changed, it is the list to which the
same was done. -/
theorem replay_mirrors (history : List (Change (List Entity))) :
    Mirrors (replay history) (listed history) := by
  rw [← toList_replay]
  exact mirrors_toList (replay history)

end Candidates
end EntityLinking
