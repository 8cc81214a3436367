import Mathlib.Data.List.Nodup
import EntityLinking.Mention

/-!
# Distinct mentions

A request may name a mention more than once.  What is answered is each distinct mention, at the
place of its first occurrence and with the context it had there.
-/

namespace EntityLinking
namespace Mention

variable {m n : Mention} {ms ns : List Mention}

/-- The first occurrence of each mention, in order. -/
def distinct (ms : List Mention) : List Mention :=
  ms.eraseDupsBy fun later earlier => decide (later.key = earlier.key)

@[simp] theorem distinct_nil : distinct [] = [] := rfl

theorem distinct_cons (m : Mention) (rest : List Mention) :
    distinct (m :: rest) = m :: distinct (rest.filter fun n => n.key ≠ m.key) := by
  simp [distinct, List.eraseDupsBy_cons]

/-- Induction along the mentions that are kept: the later occurrences of the first
one are out of the way. -/
theorem distinct_induction {motive : List Mention → Prop} (hnil : motive [])
    (hcons : ∀ m rest, motive (rest.filter fun n => n.key ≠ m.key) → motive (m :: rest)) :
    ∀ ms, motive ms
  | [] => hnil
  | m :: rest => hcons m rest (distinct_induction hnil hcons _)
termination_by ms => ms.length
decreasing_by
  have hle := List.length_filter_le (fun n => decide (n.key ≠ m.key)) rest
  rw [List.length_cons]
  omega

theorem mem_of_mem_distinct (h : m ∈ distinct ms) : m ∈ ms := by
  induction ms using distinct_induction with
  | hnil => exact h
  | hcons n rest ih =>
      rw [distinct_cons, List.mem_cons] at h
      rcases h with rfl | h
      · exact List.mem_cons_self
      · exact List.mem_cons_of_mem n (List.mem_of_mem_filter (ih h))

theorem exists_mem_distinct (h : m ∈ ms) : ∃ n ∈ distinct ms, n.key = m.key := by
  induction ms using distinct_induction with
  | hnil => simp at h
  | hcons n rest ih =>
      rw [distinct_cons]
      by_cases hkey : m.key = n.key
      · exact ⟨n, List.mem_cons_self, hkey.symm⟩
      · have hrest : m ∈ rest.filter fun m => m.key ≠ n.key := by
          rcases List.mem_cons.mp h with rfl | h
          · exact absurd rfl hkey
          · exact List.mem_filter.mpr ⟨h, decide_eq_true hkey⟩
        obtain ⟨k, hk, hkm⟩ := ih hrest
        exact ⟨k, List.mem_cons_of_mem n hk, hkm⟩

theorem exists_surface_distinct_iff (p : String → Prop) :
    (∃ m ∈ distinct ms, p m.surface) ↔ ∃ m ∈ ms, p m.surface := by
  constructor
  · rintro ⟨m, hm, hp⟩
    exact ⟨m, mem_of_mem_distinct hm, hp⟩
  · rintro ⟨m, hm, hp⟩
    obtain ⟨n, hn, hkey⟩ := exists_mem_distinct hm
    have hsurface : n.surface = m.surface := congrArg Key.surface hkey
    exact ⟨n, hn, hsurface ▸ hp⟩

theorem forall_surface_distinct_iff (p : String → Prop) :
    (∀ m ∈ distinct ms, p m.surface) ↔ ∀ m ∈ ms, p m.surface := by
  constructor
  · intro h m hm
    obtain ⟨n, hn, hkey⟩ := exists_mem_distinct hm
    have hsurface : n.surface = m.surface := congrArg Key.surface hkey
    exact hsurface ▸ h n hn
  · intro h m hm
    exact h m (mem_of_mem_distinct hm)

theorem findSome?_filter {β : Type} {f : Mention → Option β} {p : Mention → Bool}
    (h : ∀ m ∈ ms, ¬ p m = true → f m = none) : (ms.filter p).findSome? f = ms.findSome? f := by
  induction ms with
  | nil => rfl
  | cons m rest ih =>
      have hrest := ih fun n hn => h n (List.mem_cons_of_mem m hn)
      by_cases hm : p m = true
      · rw [List.filter_cons_of_pos hm, List.findSome?_cons, List.findSome?_cons, hrest]
      · rw [List.filter_cons_of_neg hm, List.findSome?_cons, h m List.mem_cons_self hm, hrest]

/-- What is found by surface forms is found among the distinct mentions first. -/
theorem findSome?_surface_distinct {β : Type} (f : String → Option β) (ms : List Mention) :
    (distinct ms).findSome? (fun m => f m.surface) = ms.findSome? fun m => f m.surface := by
  induction ms using distinct_induction with
  | hnil => rfl
  | hcons m rest ih =>
      rw [distinct_cons, List.findSome?_cons, List.findSome?_cons, ih]
      cases hm : f m.surface with
      | some b => rfl
      | none =>
          apply findSome?_filter
          intro n hn hdropped
          have hsurface : n.surface = m.surface := congrArg Key.surface (by simpa using hdropped)
          rw [hsurface, hm]

theorem nodup_keys_distinct (ms : List Mention) : ((distinct ms).map key).Nodup := by
  induction ms using distinct_induction with
  | hnil => exact List.nodup_nil
  | hcons m rest ih =>
      rw [distinct_cons, List.map_cons, List.nodup_cons]
      refine ⟨?_, ih⟩
      intro hmem
      obtain ⟨n, hn, hkey⟩ := List.mem_map.mp hmem
      have hne := (List.mem_filter.mp (mem_of_mem_distinct hn)).2
      exact of_decide_eq_true hne hkey

theorem distinct_eq_self (hnodup : (ms.map key).Nodup) : distinct ms = ms := by
  induction ms with
  | nil => rfl
  | cons m rest ih =>
      rw [List.map_cons, List.nodup_cons] at hnodup
      obtain ⟨hnew, hrest⟩ := hnodup
      have hkeep : (rest.filter fun n => n.key ≠ m.key) = rest := by
        rw [List.filter_eq_self]
        intro n hn
        refine decide_eq_true ?_
        intro hkey
        exact hnew (hkey ▸ List.mem_map_of_mem hn)
      rw [distinct_cons, hkeep, ih hrest]

theorem distinct_distinct (ms : List Mention) : distinct (distinct ms) = distinct ms :=
  distinct_eq_self (nodup_keys_distinct ms)

/-- What is decided by keys may be decided before or after the repetitions are dropped. -/
theorem filter_distinct (p : Key → Bool) (ms : List Mention) :
    ((distinct ms).filter fun n => p n.key) = distinct (ms.filter fun n => p n.key) := by
  induction ms using distinct_induction with
  | hnil => rfl
  | hcons m rest ih =>
      rw [distinct_cons]
      cases hm : p m.key with
      | true =>
          rw [List.filter_cons_of_pos (by exact hm), List.filter_cons_of_pos (by exact hm),
            distinct_cons, ih, List.filter_filter, List.filter_filter]
          simp only [Bool.and_comm]
      | false =>
          have hkeep : (rest.filter fun n => p n.key) =
              (rest.filter fun n => n.key ≠ m.key).filter fun n => p n.key := by
            rw [List.filter_filter]
            apply List.filter_congr
            intro n hn
            by_cases hkey : n.key = m.key
            · simp [hkey, hm]
            · simp [hkey]
          rw [List.filter_cons_of_neg (by simp [hm]), List.filter_cons_of_neg (by simp [hm]), ih,
            hkeep]

/-! ## New mentions -/

/-- The mentions of a list that are new to some known ones, each once. -/
def fresh (known ms : List Mention) : List Mention :=
  distinct (ms.filter fun m => m.key ∉ known.map key)

@[simp] theorem fresh_nil (known : List Mention) : fresh known [] = [] := rfl

@[simp] theorem fresh_of_nil (ms : List Mention) : fresh [] ms = distinct ms := by
  simp [fresh]

theorem fresh_cons_of_mem {known rest : List Mention} (h : m.key ∈ known.map key) :
    fresh known (m :: rest) = fresh known rest := by
  rw [fresh, List.filter_cons_of_neg (by simpa using h), fresh]

theorem fresh_cons_of_not_mem {known rest : List Mention} (h : m.key ∉ known.map key) :
    fresh known (m :: rest) = m :: fresh (known ++ [m]) rest := by
  have hfilter : ((rest.filter fun n => n.key ∉ known.map key).filter fun n => n.key ≠ m.key) =
      rest.filter fun n => n.key ∉ (known ++ [m]).map key := by
    rw [List.filter_filter]
    apply List.filter_congr
    intro n hn
    simp [Bool.and_comm]
  rw [fresh, List.filter_cons_of_pos (by simpa using h), distinct_cons, hfilter, fresh]

/-- What is new depends on the keys that are known and on nothing else. -/
theorem fresh_congr {known known' : List Mention} (ms : List Mention)
    (h : ∀ k, k ∈ known.map key ↔ k ∈ known'.map key) : fresh known ms = fresh known' ms := by
  simp only [fresh, h]

theorem fresh_append (ms ns : List Mention) :
    ∀ known, fresh known (ms ++ ns) = fresh known ms ++ fresh (known ++ ms) ns := by
  induction ms with
  | nil => simp
  | cons m rest ih =>
      intro known
      rw [List.cons_append]
      by_cases hmem : m.key ∈ known.map key
      · have hsame : fresh (known ++ rest) ns = fresh (known ++ m :: rest) ns := by
          apply fresh_congr
          intro k
          simp only [List.map_append, List.map_cons, List.mem_append, List.mem_cons]
          constructor
          · rintro (hk | hk)
            · exact Or.inl hk
            · exact Or.inr (Or.inr hk)
          · rintro (hk | rfl | hk)
            · exact Or.inl hk
            · exact Or.inl hmem
            · exact Or.inr hk
        rw [fresh_cons_of_mem hmem, fresh_cons_of_mem hmem, ih, hsame]
      · rw [fresh_cons_of_not_mem hmem, fresh_cons_of_not_mem hmem, ih, List.append_assoc,
          List.singleton_append, List.cons_append]

theorem distinct_append (ms ns : List Mention) :
    distinct (ms ++ ns) = distinct ms ++ fresh ms ns := by
  simpa using fresh_append ms ns []

theorem fresh_distinct (known ms : List Mention) : fresh known (distinct ms) = fresh known ms := by
  rw [fresh, filter_distinct fun k => decide (k ∉ known.map key), distinct_distinct, fresh]

/-- Repetitions within a later part may be dropped first. -/
theorem distinct_append_distinct (ms ns : List Mention) :
    distinct (ms ++ distinct ns) = distinct (ms ++ ns) := by
  rw [distinct_append, fresh_distinct, distinct_append]

theorem fresh_self (ms : List Mention) : fresh ms ms = [] := by
  have hnone : (ms.filter fun m => m.key ∉ ms.map key) = [] := by
    rw [List.filter_eq_nil_iff]
    intro m hm hkey
    exact of_decide_eq_true hkey (List.mem_map_of_mem hm)
  rw [fresh, hnone, distinct_nil]

theorem distinct_append_self (ms : List Mention) : distinct (ms ++ ms) = distinct ms := by
  rw [distinct_append, fresh_self, List.append_nil]

/-- Of a later part only what is new matters. -/
theorem distinct_append_fresh (ms ns : List Mention) :
    distinct (ms ++ fresh ms ns) = distinct (ms ++ ns) := by
  have hfresh : fresh ms (ns.filter fun n => n.key ∉ ms.map key) = fresh ms ns := by
    rw [fresh, List.filter_filter]
    simp only [Bool.and_self, fresh]
  rw [fresh, distinct_append_distinct, distinct_append, hfresh, distinct_append]

/-! ## By offset -/

/-- Mentions sorted by ascending offset; equal offsets keep their order. -/
def inOrder (ms : List Mention) : List Mention :=
  ms.mergeSort fun a b => decide (a.offset ≤ b.offset)

theorem inOrder_perm (ms : List Mention) : (inOrder ms).Perm ms :=
  List.mergeSort_perm ms _

theorem pairwise_inOrder (ms : List Mention) :
    (inOrder ms).Pairwise fun a b => a.offset ≤ b.offset := by
  have htrans : ∀ a b c : Mention, decide (a.offset ≤ b.offset) = true →
      decide (b.offset ≤ c.offset) = true → decide (a.offset ≤ c.offset) = true := by
    intro a b c hab hbc
    exact decide_eq_true (Nat.le_trans (of_decide_eq_true hab) (of_decide_eq_true hbc))
  have htotal : ∀ a b : Mention,
      (decide (a.offset ≤ b.offset) || decide (b.offset ≤ a.offset)) = true := by
    intro a b
    simpa using Nat.le_total a.offset b.offset
  exact (List.pairwise_mergeSort htrans htotal ms).imp of_decide_eq_true

end Mention
end EntityLinking
