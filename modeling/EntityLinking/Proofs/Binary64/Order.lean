import Mathlib.Algebra.Order.Field.Rat
import Mathlib.Algebra.Order.Field.Power
import Mathlib.Order.WithBot
import Mathlib.Tactic.Linarith
import Mathlib.Tactic.Positivity
import Mathlib.Tactic.Ring
import EntityLinking.Binary64.Basic

/-!
# The order of words

The IEEE 754 standard orders all words: numbers by their values, the negative zero before the
positive one, NaNs outside the numbers on the side of their sign, and among themselves by their
payloads.  The place that a word has in the ranking says the same, because the magnitude bits of
finite words grow with the values they stand for.
-/

namespace EntityLinking
namespace Binary64

variable {a b x : Binary64}

/-! ## Values -/

/-- The value of a word that is neither infinite nor a NaN, its sign apart. -/
def absolute (x : Binary64) : ℚ :=
  (x.significand : ℚ) * 2 ^ x.exponent

/-- The value of a finite word. -/
def signed (x : Binary64) : ℚ :=
  if x.isNegative then -x.absolute else x.absolute

/-- The number that a word other than a NaN stands for; the two zeros stand for the same. -/
def value (x : Binary64) : WithBot (WithTop ℚ) :=
  if x.isInfinite then if x.isNegative then ⊥ else ⊤
  else (x.signed : WithTop ℚ)

/-- The value of magnitude bits in units of the smallest positive word. -/
def units (m : Nat) : Nat :=
  if m < exponentWeight then m
  else (exponentWeight + m % exponentWeight) * 2 ^ (m / exponentWeight - 1)

theorem absolute_mul_eq_units (x : Binary64) : x.absolute * 2 ^ 1074 = units x.magnitude := by
  unfold absolute significand exponent units
  split
  next hsmall =>
    rw [mul_assoc, zpow_neg, zpow_ofNat, inv_mul_cancel₀ (by positivity), mul_one]
  next hlarge =>
    have hexponent : 1 ≤ x.magnitude / exponentWeight :=
      (Nat.one_le_div_iff (by decide)).mpr (Nat.not_lt.mp hlarge)
    have hpower : (2 : ℚ) ^ ((x.magnitude / exponentWeight : Nat) - 1075 : Int) * 2 ^ 1074 =
        2 ^ (x.magnitude / exponentWeight - 1) := by
      rw [← zpow_natCast, ← zpow_natCast, ← zpow_add₀ two_ne_zero]
      congr 1
      push_cast [Nat.cast_sub hexponent]
      ring
    rw [mul_assoc, hpower]
    push_cast
    ring

/-- Counting up the magnitude bits runs through the significands of an exponent and then goes on
with the least significand of the next one. -/
theorem units_lt_units_succ (m : Nat) : units m < units (m + 1) := by
  unfold units exponentWeight
  rcases Nat.lt_trichotomy (m + 1) 0x10000000000000 with hlt | heq | hgt
  · rw [if_pos (by omega), if_pos hlt]
    exact Nat.lt_succ_self m
  · rw [if_pos (by omega), if_neg (by omega), heq]
    omega
  · rw [if_neg (by omega), if_neg (by omega)]
    by_cases hlast : m % 0x10000000000000 + 1 = 0x10000000000000
    · have hmod : (m + 1) % 0x10000000000000 = 0 := by omega
      have hdiv : (m + 1) / 0x10000000000000 - 1 = (m / 0x10000000000000 - 1) + 1 := by omega
      rw [hmod, hdiv, Nat.pow_succ']
      calc (0x10000000000000 + m % 0x10000000000000) * 2 ^ (m / 0x10000000000000 - 1)
          < (0x10000000000000 * 2) * 2 ^ (m / 0x10000000000000 - 1) :=
            Nat.mul_lt_mul_of_pos_right (by omega) (by positivity)
        _ = (0x10000000000000 + 0) * (2 * 2 ^ (m / 0x10000000000000 - 1)) := by ring
    · have hmod : (m + 1) % 0x10000000000000 = m % 0x10000000000000 + 1 := by omega
      have hdiv : (m + 1) / 0x10000000000000 = m / 0x10000000000000 := by omega
      rw [hmod, hdiv]
      exact Nat.mul_lt_mul_of_pos_right (by omega) (by positivity)

theorem units_strictMono : StrictMono units :=
  strictMono_nat_of_lt_succ units_lt_units_succ

theorem absolute_lt_absolute_iff : a.absolute < b.absolute ↔ a.magnitude < b.magnitude := by
  have hscale : (0 : ℚ) < 2 ^ 1074 := by positivity
  rw [← mul_lt_mul_iff_of_pos_right hscale, absolute_mul_eq_units, absolute_mul_eq_units,
    Nat.cast_lt, units_strictMono.lt_iff_lt]

theorem absolute_nonneg (x : Binary64) : 0 ≤ x.absolute := by
  unfold absolute
  positivity

theorem absolute_eq_zero_iff : x.absolute = 0 ↔ x.magnitude = 0 := by
  have hzero : (zero : Binary64).absolute = 0 := by
    simp [absolute, significand, magnitude, zero, exponentWeight]
  have hmagnitude : (zero : Binary64).magnitude = 0 := rfl
  rw [← (absolute_nonneg x).not_lt_iff_eq', ← hzero, absolute_lt_absolute_iff, hmagnitude,
    Nat.not_lt, Nat.le_zero]

/-! ## The standard's order -/

/-- The strict total order of the IEEE 754 standard, clause by clause. -/
inductive Below (a b : Binary64) : Prop
  | number (ha : a.isNaN = false) (hb : b.isNaN = false) (h : a.value < b.value)
  | zero (ha : a.magnitude = 0) (hb : b.magnitude = 0) (hleft : a.isNegative = true)
      (hright : b.isNegative = false)
  /-- A negative NaN comes before everything else. -/
  | negativeNaN (ha : a.isNaN = true) (hleft : a.isNegative = true)
      (hb : ¬ (b.isNaN = true ∧ b.isNegative = true))
  /-- A positive NaN comes after everything else. -/
  | positiveNaN (hb : b.isNaN = true) (hright : b.isNegative = false)
      (ha : ¬ (a.isNaN = true ∧ a.isNegative = false))
  /-- Positive NaNs are ordered by their payloads, whose first bit tells the quiet ones. -/
  | payload (ha : a.isNaN = true) (hb : b.isNaN = true) (hleft : a.isNegative = false)
      (hright : b.isNegative = false) (h : a.magnitude < b.magnitude)
  /-- Negative NaNs are ordered the other way round. -/
  | negativePayload (ha : a.isNaN = true) (hb : b.isNaN = true) (hleft : a.isNegative = true)
      (hright : b.isNegative = true) (h : b.magnitude < a.magnitude)

theorem isNaN_iff : x.isNaN = true ↔ infiniteMagnitude < x.magnitude := by
  simp [isNaN]

theorem isNaN_eq_false_iff : x.isNaN = false ↔ x.magnitude ≤ infiniteMagnitude := by
  simp [isNaN]

theorem isInfinite_iff : x.isInfinite = true ↔ x.magnitude = infiniteMagnitude := by
  simp [isInfinite]

theorem rank_of_negative (h : x.isNegative = true) : x.rank = -1 - (x.magnitude : Int) :=
  if_pos h

theorem rank_of_not_negative (h : x.isNegative = false) : x.rank = x.magnitude := by
  rw [rank, h]
  exact if_neg Bool.false_ne_true

theorem rank_cases (x : Binary64) : x.isNegative = true ∧ x.rank = -1 - (x.magnitude : Int) ∨
    x.isNegative = false ∧ x.rank = x.magnitude := by
  cases h : x.isNegative with
  | false => exact Or.inr ⟨rfl, rank_of_not_negative h⟩
  | true => exact Or.inl ⟨rfl, rank_of_negative h⟩

theorem toNat_bits (x : Binary64) :
    x.bits.toNat = x.magnitude + if x.isNegative then signWeight else 0 := by
  have hlt : x.bits.toNat < 2 ^ 64 := x.bits.toNat_lt
  cases hneg : x.isNegative with
  | false =>
      have hsmall : x.bits.toNat < signWeight := Nat.not_le.mp (of_decide_eq_false hneg)
      rw [magnitude, Nat.mod_eq_of_lt hsmall]
      rfl
  | true =>
      have hlarge : signWeight ≤ x.bits.toNat := of_decide_eq_true hneg
      rw [if_pos rfl, magnitude]
      unfold signWeight at hlarge ⊢
      omega

/-- Words of the same rank are the same word. -/
theorem rank_injective : Function.Injective rank := by
  intro a b h
  have hbits : a.bits.toNat = b.bits.toNat := by
    rw [toNat_bits, toNat_bits]
    cases ha : a.isNegative <;> cases hb : b.isNegative <;>
      simp [rank, ha, hb] at h ⊢ <;> omega
  cases a
  cases b
  exact congrArg mk (UInt64.toNat_inj.mp hbits)

/-- Finite words are ranked by their values, but for the two zeros. -/
theorem signed_lt_signed_iff :
    a.signed < b.signed ↔ a.rank < b.rank ∧ ¬ (a.magnitude = 0 ∧ b.magnitude = 0) := by
  have hleft := absolute_nonneg a
  have hright := absolute_nonneg b
  unfold signed
  cases ha : a.isNegative with
  | false =>
      rw [rank_of_not_negative ha]
      cases hb : b.isNegative with
      | false =>
          rw [rank_of_not_negative hb]
          simp only [Bool.false_eq_true, if_false, absolute_lt_absolute_iff]
          omega
      | true =>
          rw [rank_of_negative hb]
          refine iff_of_false ?_ (by omega)
          simp only [Bool.false_eq_true, if_false, if_true]
          linarith
  | true =>
      rw [rank_of_negative ha]
      cases hb : b.isNegative with
      | false =>
          rw [rank_of_not_negative hb, ← absolute_eq_zero_iff, ← absolute_eq_zero_iff]
          simp only [Bool.false_eq_true, if_false, if_true]
          constructor
          · intro hlt
            refine ⟨by omega, ?_⟩
            rintro ⟨hza, hzb⟩
            simp [hza, hzb] at hlt
          · rintro ⟨-, hnot⟩
            rcases hleft.lt_or_eq with hpos | hzero
            · linarith
            · have hpos := hright.lt_of_ne' fun h => hnot ⟨hzero.symm, h⟩
              linarith
      | true =>
          rw [rank_of_negative hb]
          simp only [if_true, neg_lt_neg_iff, absolute_lt_absolute_iff]
          omega

theorem value_of_finite (h : x.isInfinite = false) : x.value = (x.signed : WithTop ℚ) := by
  simp [value, h]

theorem value_of_infinite (h : x.isInfinite = true) :
    x.value = if x.isNegative then ⊥ else ⊤ := by
  simp [value, h]

/-- Numbers are ranked by their values, but for the two zeros. -/
theorem value_lt_value_iff (ha : a.isNaN = false) (hb : b.isNaN = false) :
    a.value < b.value ↔ a.rank < b.rank ∧ ¬ (a.magnitude = 0 ∧ b.magnitude = 0) := by
  rw [isNaN_eq_false_iff] at ha hb
  have hpos : 0 < infiniteMagnitude := by decide
  cases hia : a.isInfinite with
  | false =>
      have hfinite : a.magnitude ≠ infiniteMagnitude := by simpa [isInfinite] using hia
      rw [value_of_finite hia]
      cases hib : b.isInfinite with
      | false =>
          rw [value_of_finite hib, WithBot.coe_lt_coe, WithTop.coe_lt_coe, signed_lt_signed_iff]
      | true =>
          have htop : ((a.signed : WithTop ℚ) : WithBot (WithTop ℚ)) < ⊤ :=
            WithBot.coe_lt_coe.mpr (WithTop.coe_lt_top a.signed)
          rw [value_of_infinite hib]
          rw [isInfinite_iff] at hib
          cases hsign : b.isNegative <;> cases hother : a.isNegative <;>
            simp [rank, hsign, hother, htop] <;> omega
  | true =>
      rw [value_of_infinite hia]
      rw [isInfinite_iff] at hia
      cases hib : b.isInfinite with
      | false =>
          have hfinite : b.magnitude ≠ infiniteMagnitude := by simpa [isInfinite] using hib
          rw [value_of_finite hib]
          cases hsign : a.isNegative <;> cases hother : b.isNegative <;>
            simp [rank, hsign, hother] <;> omega
      | true =>
          rw [value_of_infinite hib]
          rw [isInfinite_iff] at hib
          cases hsign : a.isNegative <;> cases hother : b.isNegative <;>
            simp [rank, hsign, hother] <;> omega

theorem rank_lt_rank_of_below (h : Below a b) : a.rank < b.rank := by
  have hpos : 0 < infiniteMagnitude := by decide
  cases h with
  | number ha hb h => exact ((value_lt_value_iff ha hb).mp h).1
  | zero ha hb hleft hright =>
      rw [rank_of_negative hleft, rank_of_not_negative hright]
      omega
  | negativeNaN ha hleft hb =>
      rw [isNaN_iff] at ha hb
      rw [rank_of_negative hleft]
      cases hsign : b.isNegative with
      | false =>
          rw [rank_of_not_negative hsign]
          omega
      | true =>
          have hnumber : b.magnitude ≤ infiniteMagnitude := Nat.not_lt.mp fun h => hb ⟨h, hsign⟩
          rw [rank_of_negative hsign]
          omega
  | positiveNaN hb hright ha =>
      rw [isNaN_iff] at ha hb
      rw [rank_of_not_negative hright]
      cases hsign : a.isNegative with
      | false =>
          have hnumber : a.magnitude ≤ infiniteMagnitude := Nat.not_lt.mp fun h => ha ⟨h, hsign⟩
          rw [rank_of_not_negative hsign]
          omega
      | true =>
          rw [rank_of_negative hsign]
          omega
  | payload ha hb hleft hright h =>
      rw [rank_of_not_negative hleft, rank_of_not_negative hright]
      omega
  | negativePayload ha hb hleft hright h =>
      rw [rank_of_negative hleft, rank_of_negative hright]
      omega

theorem below_of_rank_lt_rank (h : a.rank < b.rank) : Below a b := by
  have hleft := rank_cases a
  have hright := rank_cases b
  cases ha : a.isNaN with
  | false =>
      have hsmall := isNaN_eq_false_iff.mp ha
      cases hb : b.isNaN with
      | false =>
          by_cases hzeros : a.magnitude = 0 ∧ b.magnitude = 0
          · rcases hleft with ⟨hleft, hranka⟩ | ⟨-, hranka⟩
            · rcases hright with ⟨-, hrankb⟩ | ⟨hright, -⟩
              · omega
              · exact .zero hzeros.1 hzeros.2 hleft hright
            · omega
          · exact .number ha hb ((value_lt_value_iff ha hb).mpr ⟨h, hzeros⟩)
      | true =>
          have hlarge := isNaN_iff.mp hb
          rcases hright with ⟨-, hrankb⟩ | ⟨hright, -⟩
          · omega
          · exact .positiveNaN hb hright (by simp [ha])
  | true =>
      have hlarge := isNaN_iff.mp ha
      cases hb : b.isNaN with
      | false =>
          have hsmall := isNaN_eq_false_iff.mp hb
          rcases hleft with ⟨hleft, -⟩ | ⟨-, hranka⟩
          · exact .negativeNaN ha hleft (by simp [hb])
          · omega
      | true =>
          rcases hleft with ⟨hleft, hranka⟩ | ⟨hleft, hranka⟩
          · rcases hright with ⟨hright, hrankb⟩ | ⟨hright, -⟩
            · exact .negativePayload ha hb hleft hright (by omega)
            · exact .negativeNaN ha hleft (by simp [hright])
          · rcases hright with ⟨-, hrankb⟩ | ⟨hright, hrankb⟩
            · omega
            · exact .payload ha hb hleft hright (by omega)

/-- The ranking of words is the standard's order. -/
theorem rank_lt_rank_iff : a.rank < b.rank ↔ Below a b :=
  ⟨below_of_rank_lt_rank, rank_lt_rank_of_below⟩

instance (a b : Binary64) : Decidable (Below a b) :=
  decidable_of_iff _ rank_lt_rank_iff

/-- The negative zero is below the positive one, and infinity below the NaN without a sign. -/
example : Below ⟨0x8000000000000000⟩ zero ∧ Below ⟨0x7FF0000000000000⟩ positiveNaN := by decide

end Binary64
end EntityLinking
