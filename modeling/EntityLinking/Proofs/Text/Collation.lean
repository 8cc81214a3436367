import Mathlib.Data.Char
import Mathlib.Data.List.Lex
import Mathlib.Tactic.SplitIfs
import EntityLinking.Text.Utf8

/-!
# The order of texts

Texts are compared character by character.  UTF-8 is made so that comparing the octets they are
written with, one by one, comes to the same.
-/

namespace EntityLinking
namespace Text

/-- The smaller of two characters is told by its octets already, whatever follows. -/
theorem utf8EncodeChar_append_lt {c d : Char} (h : c < d) (xs ys : List UInt8) :
    String.utf8EncodeChar c ++ xs < String.utf8EncodeChar d ++ ys := by
  have hless : c.val.toNat < d.val.toNat := h
  have hlast : d.val.toNat < 0x110000 := by
    rcases d.valid with hlow | hhigh
    · exact Nat.lt_trans hlow (by decide)
    · exact hhigh.2
  simp only [String.utf8EncodeChar]
  generalize c.val.toNat = m at hless
  generalize d.val.toNat = n at hless hlast
  have hdigits : ∀ k : Nat, k / 4096 = k / 64 / 64 ∧ k / 262144 = k / 64 / 64 / 64 := by omega
  -- a longer form starts with a greater octet, and forms of one length are numerals to the base 64
  split_ifs
  all_goals
    simp only [hdigits, List.cons_append, List.nil_append, List.cons_lt_cons_iff,
      UInt8.lt_iff_toNat_lt, ← UInt8.toNat_inj, UInt8.toNat_ofNat']
    omega

theorem encode_lt_encode {cs ds : List Char} (h : cs < ds) : encode cs < encode ds := by
  induction List.lex_lt.mpr h with
  | @nil d ds =>
      have hne : encode (d :: ds) ≠ [] := mt encode_eq_nil_iff.mp (List.cons_ne_nil d ds)
      obtain ⟨b, bs, hds⟩ := List.exists_cons_of_ne_nil hne
      rw [hds]
      exact List.nil_lt_cons b bs
  | @rel c cs d ds hcd => exact utf8EncodeChar_append_lt hcd _ _
  | @cons c cs ds htail ih =>
      rw [encode_cons, encode_cons]
      exact List.append_left_lt (ih (List.lex_lt.mp htail))

theorem encode_lt_encode_iff {cs ds : List Char} : encode cs < encode ds ↔ cs < ds := by
  constructor
  · intro hless
    rcases lt_trichotomy cs ds with hcs | rfl | hds
    · exact hcs
    · exact absurd hless (List.lt_irrefl _)
    · exact absurd hless (List.lt_asymm (encode_lt_encode hds))
  · exact encode_lt_encode

theorem encode_le_encode_iff {s t : String} : encode s.toList ≤ encode t.toList ↔ s ≤ t :=
  not_congr encode_lt_encode_iff

end Text
end EntityLinking
