import Mathlib.Data.List.TakeWhile
import EntityLinking.Text.Blank

/-!
# Trimming

A text is blanks, what is left of it, and blanks again; trimming finds the one middle part that
neither begins nor ends with a blank.
-/

namespace EntityLinking
namespace Text

/-- What is left of a text without the blanks at both ends. -/
structure Trimmed (text core : List Char) : Prop where
  whole : ∃ front back, text = front ++ (core ++ back) ∧ (∀ c ∈ front, isBlank c) ∧
    ∀ c ∈ back, isBlank c
  first : ∀ c ∈ core.head?, isBlank c = false
  last : ∀ c ∈ core.getLast?, isBlank c = false

variable {text core : List Char}

theorem dropWhile_append {p : Char → Bool} {front cs : List Char} (hfront : ∀ c ∈ front, p c)
    (hfirst : ∀ c ∈ cs.head?, p c = false) : (front ++ cs).dropWhile p = cs := by
  rw [List.dropWhile_append_of_pos hfront]
  cases cs with
  | nil => rfl
  | cons c rest => rw [List.dropWhile_cons_of_neg (by simp [hfirst c rfl])]

theorem first_dropWhile {p : Char → Bool} {cs : List Char} :
    ∀ c ∈ (cs.dropWhile p).head?, p c = false := by
  intro c hc
  have hfirst := List.head?_dropWhile_not p cs
  rw [hc] at hfirst
  exact hfirst

theorem trimCharsEnd_append {back : List Char} (hback : ∀ c ∈ back, isBlank c)
    (hlast : ∀ c ∈ core.getLast?, isBlank c = false) : trimCharsEnd (core ++ back) = core := by
  rw [trimCharsEnd, List.reverse_append, dropWhile_append, List.reverse_reverse]
  · simpa using hback
  · simpa using hlast

theorem exists_trimCharsEnd_append (cs : List Char) :
    ∃ back, cs = trimCharsEnd cs ++ back ∧ (∀ c ∈ back, isBlank c) ∧
      ∀ c ∈ (trimCharsEnd cs).getLast?, isBlank c = false := by
  refine ⟨(cs.reverse.takeWhile isBlank).reverse, ?_, ?_, ?_⟩
  · rw [trimCharsEnd, ← List.reverse_append, List.takeWhile_append_dropWhile, List.reverse_reverse]
  · intro c hc
    exact List.mem_takeWhile_imp (List.mem_reverse.mp hc)
  · rw [trimCharsEnd, List.getLast?_reverse]
    exact first_dropWhile

theorem Trimmed.trimChars_eq (h : Trimmed text core) : trimChars text = core := by
  obtain ⟨front, back, rfl, hfront, hback⟩ := h.whole
  by_cases hcore : core = []
  · subst hcore
    have hall : ∀ c ∈ front ++ ([] ++ back), isBlank c := by
      simpa [or_imp, forall_and] using ⟨hfront, hback⟩
    rw [trimChars, List.dropWhile_eq_nil_iff.mpr hall]
    rfl
  · obtain ⟨c, rest, rfl⟩ := List.exists_cons_of_ne_nil hcore
    have hfirst : ∀ d ∈ (c :: rest ++ back).head?, isBlank d = false := h.first
    rw [trimChars, dropWhile_append hfront hfirst, trimCharsEnd_append hback h.last]

theorem trimmed_trimChars (text : List Char) : Trimmed text (trimChars text) := by
  obtain ⟨back, hwhole, hback, hlast⟩ := exists_trimCharsEnd_append (text.dropWhile isBlank)
  refine ⟨⟨text.takeWhile isBlank, back, ?_, fun c hc => List.mem_takeWhile_imp hc, hback⟩,
    ?_, hlast⟩
  · rw [trimChars, ← hwhole, List.takeWhile_append_dropWhile]
  · intro c hc
    -- the first character that is kept is the first one behind the blanks
    have hfirst : c ∈ (text.dropWhile isBlank).head? := by
      rw [hwhole, List.head?_append, Option.mem_def]
      rw [Option.mem_def, trimChars] at hc
      rw [hc, Option.some_or]
    exact first_dropWhile c hfirst

theorem trimmed_iff : Trimmed text core ↔ trimChars text = core :=
  ⟨Trimmed.trimChars_eq, fun h => h ▸ trimmed_trimChars text⟩

theorem Trimmed.unique {core' : List Char} (h : Trimmed text core) (h' : Trimmed text core') :
    core = core' :=
  (trimmed_iff.mp h).symm.trans (trimmed_iff.mp h')

theorem trim_eq_iff {s t : String} : trim s = t ↔ Trimmed s.toList t.toList := by
  rw [trimmed_iff, trim, ← String.toList_inj, String.toList_ofList]

end Text
end EntityLinking
