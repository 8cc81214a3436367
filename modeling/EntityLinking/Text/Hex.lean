/-!
# Hexadecimal digits

Both casings are read; digits are written in lower case.
-/

namespace EntityLinking
namespace Text

/-- The value of the hexadecimal digit with a given code, of either casing. -/
def hexCode? (n : Nat) : Option Nat :=
  if 0x30 ≤ n ∧ n ≤ 0x39 then some (n - 0x30)
  else if 0x41 ≤ n ∧ n ≤ 0x46 then some (n - 0x41 + 10)
  else if 0x61 ≤ n ∧ n ≤ 0x66 then some (n - 0x61 + 10)
  else none

/-- The byte that the digits with two codes name. -/
def hexByte? (high low : Nat) : Option Nat :=
  match hexCode? high, hexCode? low with
  | some h, some l => some (h * 16 + l)
  | _, _ => none

def hexValue? (c : Char) : Option Nat :=
  hexCode? c.toNat

/-- The byte that two hexadecimal digits name. -/
def hexPair? (a b : Char) : Option Nat :=
  hexByte? a.toNat b.toNat

/-- The byte that the first two characters of a text name, if they are digits. -/
def leadingByte? : List Char → Option Nat
  | a :: b :: _ => hexPair? a b
  | _ => none

/-- The code of a letter in upper case, and any other code as it is. -/
def upperCode (n : Nat) : Nat :=
  if 0x61 ≤ n ∧ n ≤ 0x7A then n - 0x20 else n

/-- The number that a run of hexadecimal digits names; `none` if one of them is no digit. -/
def hexNumber? (cs : List Char) : Option Nat :=
  cs.foldlM (fun n c => (hexValue? c).map (n * 16 + ·)) 0

/-- The lower-case digit of a value below sixteen. -/
def hexDigit (n : Nat) : Char :=
  Char.ofNat (if n < 10 then 0x30 + n else 0x61 + (n - 10))

/-- The last `width` hexadecimal digits of `n`, in lower case. -/
def hexText : Nat → Nat → List Char
  | 0, _ => []
  | width + 1, n => hexText width (n / 16) ++ [hexDigit (n % 16)]

theorem lt_of_hexCode? {n v : Nat} (h : hexCode? n = some v) : n < 0x80 ∧ v < 16 := by
  unfold hexCode? at h
  grind

/-- The casing of a digit does not matter to its value. -/
theorem hexCode?_upperCode (n : Nat) : hexCode? (upperCode n) = hexCode? n := by
  unfold upperCode
  split
  · unfold hexCode?
    grind
  · rfl

/-- The value of a digit and its casing are all there is to it. -/
theorem upperCode_eq_of_hexCode? {m n v : Nat} (hm : hexCode? m = some v)
    (hn : hexCode? n = some v) : upperCode m = upperCode n := by
  unfold hexCode? at hm hn
  unfold upperCode
  grind

theorem hexByte?_eq_some_iff {high low n : Nat} :
    hexByte? high low = some n ↔
      ∃ h l, hexCode? high = some h ∧ hexCode? low = some l ∧ h * 16 + l = n := by
  unfold hexByte?
  cases hexCode? high with
  | none => simp
  | some h =>
      cases hexCode? low with
      | none => simp
      | some l => simp

/-- Two leading digits are a leading digit and the leading digit of what follows. -/
theorem leadingByte?_cons (c : Char) (cs : List Char) :
    leadingByte? (c :: cs) =
      (hexValue? c).bind fun high => (cs.head?.bind hexValue?).map (high * 16 + ·) := by
  cases cs with
  | nil => cases hexValue? c <;> rfl
  | cons d rest =>
      simp only [leadingByte?, hexPair?, hexByte?, hexValue?, List.head?_cons, Option.bind_some]
      cases hexCode? c.toNat <;> cases hexCode? d.toNat <;> rfl

theorem leadingByte?_eq_some_iff {cs : List Char} {n : Nat} :
    leadingByte? cs = some n ↔
      ∃ high low rest, cs = high :: low :: rest ∧ hexPair? high low = some n := by
  unfold leadingByte?
  split
  next a b rest => simp [and_assoc]
  next hshort => simpa using fun high low rest heq => absurd heq (hshort high low rest)

theorem leadingByte?_eq_none {cs : List Char} (h : ∀ high low rest, cs ≠ high :: low :: rest) :
    leadingByte? cs = none := by
  rw [Option.eq_none_iff_forall_ne_some]
  intro n hleading
  obtain ⟨high, low, rest, hcs, -⟩ := leadingByte?_eq_some_iff.mp hleading
  exact h high low rest hcs

/-- Digits are ASCII characters. -/
theorem lt_of_hexByte? {high low n : Nat} (h : hexByte? high low = some n) :
    high < 0x80 ∧ low < 0x80 := by
  obtain ⟨v, w, hv, hw, -⟩ := hexByte?_eq_some_iff.mp h
  exact ⟨(lt_of_hexCode? hv).1, (lt_of_hexCode? hw).1⟩

theorem hexByte?_upperCode (high low : Nat) :
    hexByte? (upperCode high) (upperCode low) = hexByte? high low := by
  rw [hexByte?, hexCode?_upperCode, hexCode?_upperCode, hexByte?]

/-- Digits that name one byte differ in casing only. -/
theorem upperCode_eq_of_hexByte? {a b c d n : Nat} (hab : hexByte? a b = some n)
    (hcd : hexByte? c d = some n) : upperCode a = upperCode c ∧ upperCode b = upperCode d := by
  obtain ⟨h, l, ha, hb, hn⟩ := hexByte?_eq_some_iff.mp hab
  obtain ⟨h', l', hc, hd, hn'⟩ := hexByte?_eq_some_iff.mp hcd
  have hl := (lt_of_hexCode? hb).2
  have hl' := (lt_of_hexCode? hd).2
  obtain rfl : h = h' := by omega
  obtain rfl : l = l' := by omega
  exact ⟨upperCode_eq_of_hexCode? ha hc, upperCode_eq_of_hexCode? hb hd⟩

end Text
end EntityLinking
