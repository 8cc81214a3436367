import Mathlib.Data.List.Nodup
import EntityLinking.MentionMap

/-!
# Maps from mentions as lists of entries

Whatever is done to a map is read off its list of entries; the hash index never shows.  A mention
that is new to a map gets the last place, and one that is known has its entry changed in place.
-/

namespace EntityLinking
namespace MentionMap

variable {α β : Type} {m : MentionMap α} {mention : Mention}

@[simp] theorem toList_empty : (empty : MentionMap α).toList = [] := rfl

@[simp] theorem toList_map (f : Entry α → β) (m : MentionMap α) :
    (m.map f).toList = m.toList.map fun e => ⟨e.mention, f e⟩ := by
  simp [map, toList]

theorem map_map {γ : Type} (f : Entry α → β) (g : Entry β → γ) (m : MentionMap α) :
    (m.map f).map g = m.map fun e => g ⟨e.mention, f e⟩ := by
  simp [map, Function.comp_def]

theorem map_value (m : MentionMap α) : m.map Entry.value = m := by
  simp [map]

theorem index_eq_some_iff {key : Mention.Key} {i : Nat} :
    m.index[key]? = some i ↔ (m.toList.map Entry.key)[i]? = some key := by
  rw [m.index_spec, toList, List.getElem?_map, Array.getElem?_toList]

theorem keys_eq_map_mentions (m : MentionMap α) :
    m.toList.map Entry.key = m.mentions.map Mention.key := by
  rw [mentions, List.map_map]
  rfl

theorem contains_iff : m.contains mention = true ↔ mention.key ∈ m.mentions.map Mention.key := by
  rw [contains, position?, Option.isSome_iff_exists, ← keys_eq_map_mentions, List.mem_iff_getElem?]
  simp only [index_eq_some_iff]

theorem nodup_keys (m : MentionMap α) : (m.toList.map Entry.key).Nodup := by
  rw [List.nodup_iff_getElem?_ne_getElem?]
  intro i j hlt hj hsame
  -- both places would be the one position that the index has for the key
  obtain ⟨key, hkey⟩ : ∃ key, (m.toList.map Entry.key)[j]? = some key :=
    ⟨_, List.getElem?_eq_getElem hj⟩
  have hright := index_eq_some_iff.mpr hkey
  have hleft := index_eq_some_iff.mpr (hsame.trans hkey)
  rw [hright, Option.some.injEq] at hleft
  omega

theorem toList_alter_of_not_contains (h : ¬ m.contains mention = true) (f : Option α → α) :
    (m.alter mention f).toList = m.toList ++ [⟨mention, f none⟩] := by
  have hnone : m.index[mention.key]? = none := by
    simpa [contains, position?] using h
  unfold alter
  split
  next i hi => simp [hnone] at hi
  next => simp [toList]

theorem toList_alter_of_contains (h : m.contains mention = true) (f : Option α → α) :
    (m.alter mention f).toList =
      m.toList.map fun e =>
        if e.key = mention.key then { e with value := f (some e.value) } else e := by
  have hsome : (m.index[mention.key]?).isSome = true := h
  unfold alter
  split
  next i hi =>
    apply List.ext_getElem?
    intro j
    simp only [toList, Array.getElem?_toList, Array.getElem?_modify, List.getElem?_map]
    cases hj : m.entries[j]? with
    | none => simp
    | some e =>
        have hposition : i = j ↔ e.key = mention.key := by
          constructor
          · rintro rfl
            have hkey := (m.index_spec mention.key i).mp hi
            simpa [hj] using hkey
          · intro hkey
            have hindex := (m.index_spec mention.key j).mpr (by simp [hj, hkey])
            rw [hi, Option.some.injEq] at hindex
            exact hindex
        by_cases hkey : e.key = mention.key
        · simp [hposition.mpr hkey, hkey]
        · simp [mt hposition.mp hkey, hkey]
  next hnone => simp [hnone] at hsome

theorem toList_insert_of_not_contains (h : ¬ m.contains mention = true) (value : α) :
    (m.insert mention value).toList = m.toList ++ [⟨mention, value⟩] :=
  toList_alter_of_not_contains h _

/-! ## Mentions and their values -/

@[simp] theorem mentions_empty : (empty : MentionMap α).mentions = [] := rfl

@[simp] theorem find?_empty (mention : Mention) : (empty : MentionMap α).find? mention = none := by
  simp [find?, position?, empty]

theorem mentions_alter_of_contains (h : m.contains mention = true) (f : Option α → α) :
    (m.alter mention f).mentions = m.mentions := by
  rw [mentions, toList_alter_of_contains h, List.map_map, mentions]
  apply List.map_congr_left
  intro e he
  by_cases hkey : e.key = mention.key
  · simp [hkey]
  · simp [hkey]

theorem mentions_alter_of_not_contains (h : ¬ m.contains mention = true) (f : Option α → α) :
    (m.alter mention f).mentions = m.mentions ++ [mention] := by
  rw [mentions, toList_alter_of_not_contains h, List.map_append]
  rfl

theorem mentions_insert_of_not_contains (h : ¬ m.contains mention = true) (value : α) :
    (m.insert mention value).mentions = m.mentions ++ [mention] :=
  mentions_alter_of_not_contains h _

theorem find?_eq_some_iff {a : α} :
    m.find? mention = some a ↔ ∃ e ∈ m.toList, e.key = mention.key ∧ e.value = a := by
  simp only [find?, position?, Option.bind_eq_some_iff, Option.map_eq_some_iff]
  constructor
  · rintro ⟨i, hi, e, he, rfl⟩
    have hkey := (m.index_spec mention.key i).mp hi
    rw [he, Option.map_some, Option.some.injEq] at hkey
    rw [← Array.getElem?_toList] at he
    exact ⟨e, List.mem_of_getElem? he, hkey, rfl⟩
  · rintro ⟨e, he, hkey, rfl⟩
    obtain ⟨i, hi⟩ := List.mem_iff_getElem?.mp he
    rw [toList, Array.getElem?_toList] at hi
    exact ⟨i, (m.index_spec mention.key i).mpr (by simp [hi, hkey]), e, hi, rfl⟩

theorem find?_eq_none_iff : m.find? mention = none ↔ ¬ m.contains mention = true := by
  rw [Option.eq_none_iff_forall_ne_some, contains_iff, ← keys_eq_map_mentions]
  constructor
  · intro hnone hmem
    obtain ⟨e, he, hkey⟩ := List.mem_map.mp hmem
    exact hnone e.value (find?_eq_some_iff.mpr ⟨e, he, hkey, rfl⟩)
  · intro hnot a ha
    obtain ⟨e, he, hkey, -⟩ := find?_eq_some_iff.mp ha
    exact hnot (hkey ▸ List.mem_map_of_mem he)

theorem find?_map (f : α → β) (m : MentionMap α) (mention : Mention) :
    (m.map fun e => f e.value).find? mention = (m.find? mention).map f := by
  simp [find?, position?, map, Option.map_bind, Function.comp_def]

theorem find?_alter_self (m : MentionMap α) (f : Option α → α) {n : Mention}
    (hkey : n.key = mention.key) : (m.alter mention f).find? n = some (f (m.find? n)) := by
  rw [find?_eq_some_iff]
  by_cases h : m.contains mention = true
  · have hmem := contains_iff.mp h
    rw [← keys_eq_map_mentions] at hmem
    obtain ⟨e, he, hemention⟩ := List.mem_map.mp hmem
    have hfound : m.find? n = some e.value :=
      find?_eq_some_iff.mpr ⟨e, he, hemention.trans hkey.symm, rfl⟩
    rw [toList_alter_of_contains h, hfound]
    refine ⟨{ e with value := f (some e.value) }, ?_, hemention.trans hkey.symm, rfl⟩
    exact List.mem_map.mpr ⟨e, he, if_pos hemention⟩
  · have hnone : m.find? n = none := by
      rw [find?_eq_none_iff, contains_iff, hkey, ← contains_iff]
      exact h
    rw [toList_alter_of_not_contains h, hnone]
    exact ⟨⟨mention, f none⟩, by simp, hkey.symm, rfl⟩

theorem find?_alter_of_ne (m : MentionMap α) (f : Option α → α) {n : Mention}
    (hkey : n.key ≠ mention.key) : (m.alter mention f).find? n = m.find? n := by
  apply Option.ext
  intro a
  rw [find?_eq_some_iff, find?_eq_some_iff]
  by_cases h : m.contains mention = true
  · rw [toList_alter_of_contains h]
    constructor
    · rintro ⟨changed, hchanged, hn, rfl⟩
      obtain ⟨e, he, rfl⟩ := List.mem_map.mp hchanged
      by_cases hemention : e.key = mention.key
      · rw [if_pos hemention] at hn
        exact absurd (hn.symm.trans hemention) hkey
      · rw [if_neg hemention] at hn ⊢
        exact ⟨e, he, hn, rfl⟩
    · rintro ⟨e, he, hn, rfl⟩
      have hemention : e.key ≠ mention.key := hn ▸ hkey
      exact ⟨e, List.mem_map.mpr ⟨e, he, if_neg hemention⟩, hn, rfl⟩
  · rw [toList_alter_of_not_contains h]
    constructor
    · rintro ⟨e, he, hn, rfl⟩
      rcases List.mem_append.mp he with he | he
      · exact ⟨e, he, hn, rfl⟩
      · obtain rfl := List.mem_singleton.mp he
        exact absurd hn.symm hkey
    · rintro ⟨e, he, hn, rfl⟩
      exact ⟨e, List.mem_append_left _ he, hn, rfl⟩

/-- A map is its mentions, each with the value that is found for it. -/
theorem toList_eq_map_mentions (m : MentionMap α) (default : α) :
    m.toList = m.mentions.map fun n => ⟨n, (m.find? n).getD default⟩ := by
  have hsame : m.toList.map (fun e => ⟨e.mention, (m.find? e.mention).getD default⟩) =
      m.toList.map id := by
    apply List.map_congr_left
    intro e he
    have hfound : m.find? e.mention = some e.value := find?_eq_some_iff.mpr ⟨e, he, rfl, rfl⟩
    rw [hfound]
    rfl
  rw [mentions, List.map_map]
  exact (hsame.trans (List.map_id _)).symm

end MentionMap
end EntityLinking
