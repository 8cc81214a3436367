import EntityLinking.Number.Integer

/-!
# Decimal numerals

Integers are read from a sign, which may be missing, and decimal digits; leading zeros do not
matter.  The value has to fit a signed word.
-/

namespace EntityLinking
namespace Integer

/-- A decimal numeral: at least one digit, behind a sign or without one. -/
inductive Numeral : List Char → Int → Prop
  | bare {digits : List Char} (nonempty : digits ≠ []) (decimal : ∀ c ∈ digits, c.isDigit) :
      Numeral digits (Nat.ofDigitChars 10 digits 0)
  | plus {digits : List Char} (nonempty : digits ≠ []) (decimal : ∀ c ∈ digits, c.isDigit) :
      Numeral ('+' :: digits) (Nat.ofDigitChars 10 digits 0)
  | minus {digits : List Char} (nonempty : digits ≠ []) (decimal : ∀ c ∈ digits, c.isDigit) :
      Numeral ('-' :: digits) (-(Nat.ofDigitChars 10 digits 0 : Nat))

theorem digitValue?_eq_some_iff {c : Char} {d : Nat} :
    digitValue? 10 c = some d ↔ c.isDigit ∧ c.toNat - '0'.toNat = d := by
  have hdigit : c.isDigit ↔ 0x30 ≤ c.toNat ∧ c.toNat ≤ 0x39 := by
    simp [Char.isDigit, UInt32.le_iff_toNat_le]
  have hzero : '0'.toNat = 0x30 := rfl
  rw [hdigit, hzero, digitValue?, Text.hexValue?, Text.hexCode?]
  grind

theorem foldlM_digits_eq_some_iff {cs : List Char} {start n : Nat} :
    cs.foldlM (fun n c => (digitValue? 10 c).map (n * 10 + ·)) start = some n ↔
      (∀ c ∈ cs, c.isDigit) ∧ Nat.ofDigitChars 10 cs start = n := by
  induction cs generalizing start with
  | nil => simp
  | cons c cs ih =>
      rw [List.foldlM_cons, Nat.ofDigitChars_cons, List.forall_mem_cons]
      cases hdigit : digitValue? 10 c with
      | none =>
          have hnone : ¬ c.isDigit := by
            intro hc
            have hsome := digitValue?_eq_some_iff.mpr ⟨hc, rfl⟩
            rw [hdigit] at hsome
            simp at hsome
          simp [hnone]
      | some d =>
          obtain ⟨hc, rfl⟩ := digitValue?_eq_some_iff.mp hdigit
          simpa [hc, Nat.mul_comm 10] using ih

theorem natural?_eq_some_iff {cs : List Char} {n : Nat} :
    natural? 10 cs = some n ↔
      cs ≠ [] ∧ (∀ c ∈ cs, c.isDigit) ∧ Nat.ofDigitChars 10 cs 0 = n := by
  rw [natural?]
  split
  next hempty => simp [List.isEmpty_iff.mp hempty]
  next hsome =>
      have hne : cs ≠ [] := by simpa using hsome
      rw [foldlM_digits_eq_some_iff]
      simp [hne]

/-- The numerals that fit a signed word are read, and nothing else is. -/
theorem signed?_eq_some_iff {cs : List Char} {n : Int} :
    signed? 10 cs = some n ↔ Numeral cs n ∧ -0x8000000000000000 ≤ n ∧ n < 0x8000000000000000 := by
  have hfits : fitsSigned n ↔ -0x8000000000000000 ≤ n ∧ n < 0x8000000000000000 := by
    simp [fitsSigned]
  have hminus : ¬ '-'.isDigit := by decide
  have hplus : ¬ '+'.isDigit := by decide
  unfold signed?
  rw [Option.filter_eq_some_iff, hfits]
  refine and_congr_left fun _ => ?_
  split
  all_goals
    simp only [Option.map_eq_some_iff, Option.bind_eq_bind, Option.bind_eq_some_iff,
      Option.pure_def, Option.some.injEq, natural?_eq_some_iff]
  next rest =>
      constructor
      · rintro ⟨_, ⟨_, ⟨hne, hdecimal, rfl⟩, rfl⟩, rfl⟩
        exact .minus hne hdecimal
      · intro h
        cases h with
        | bare hne hdecimal => exact absurd (hdecimal '-' List.mem_cons_self) hminus
        | minus hne hdecimal => exact ⟨_, ⟨_, ⟨hne, hdecimal, rfl⟩, rfl⟩, rfl⟩
  next rest =>
      constructor
      · rintro ⟨_, ⟨_, ⟨hne, hdecimal, rfl⟩, rfl⟩, rfl⟩
        exact .plus hne hdecimal
      · intro h
        cases h with
        | bare hne hdecimal => exact absurd (hdecimal '+' List.mem_cons_self) hplus
        | plus hne hdecimal => exact ⟨_, ⟨_, ⟨hne, hdecimal, rfl⟩, rfl⟩, rfl⟩
  next hnotMinus hnotPlus =>
      constructor
      · rintro ⟨_, ⟨_, ⟨hne, hdecimal, rfl⟩, rfl⟩, rfl⟩
        exact .bare hne hdecimal
      · intro h
        cases h with
        | bare hne hdecimal => exact ⟨_, ⟨_, ⟨hne, hdecimal, rfl⟩, rfl⟩, rfl⟩
        | plus hne hdecimal => exact absurd rfl (hnotPlus _)
        | minus hne hdecimal => exact absurd rfl (hnotMinus _)

end Integer

end EntityLinking
