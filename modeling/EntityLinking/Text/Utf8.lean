/-!
# UTF-8 octets

`Text.encode` writes a text as UTF-8 and `Text.decode?` reads one.  `Text.decodeLossy` reads any
octets: valid parts are read as UTF-8, and each maximal part that starts like a character but does
not finish as one is read as a single U+FFFD.  What `Text.encode` wrote is read as it was.
-/

namespace EntityLinking
namespace Text

/-- The character that stands for octets that are not UTF-8. -/
def replacement : Char := Char.ofNat 0xFFFD

def encode (cs : List Char) : List UInt8 :=
  cs.flatMap String.utf8EncodeChar

@[simp] theorem encode_nil : encode [] = [] := rfl

@[simp] theorem encode_cons (c : Char) (cs : List Char) :
    encode (c :: cs) = String.utf8EncodeChar c ++ encode cs := rfl

theorem encode_eq_nil_iff {cs : List Char} : encode cs = [] ↔ cs = [] := by
  cases cs with
  | nil => simp
  | cons c rest => simp

/-- An ASCII character is written as its code. -/
theorem utf8EncodeChar_of_lt {c : Char} (h : c.toNat < 0x80) :
    String.utf8EncodeChar c = [UInt8.ofNat c.toNat] := by
  have hcode : c.val.toNat ≤ 127 := Nat.le_of_lt_succ h
  simp only [String.utf8EncodeChar, if_pos hcode]
  rfl

theorem utf8EncodeChar_ofNat {n : Nat} (h : n < 0x80) :
    String.utf8EncodeChar (Char.ofNat n) = [UInt8.ofNat n] := by
  have hcode : (Char.ofNat n).toNat = n := by
    rw [Char.ofNat, dif_pos (Or.inl (by omega))]
    rfl
  rw [utf8EncodeChar_of_lt (hcode.symm ▸ h), hcode]

/-- Any other character is written without octets of ASCII characters. -/
theorem le_of_mem_utf8EncodeChar {c : Char} (h : 0x80 ≤ c.toNat) {b : UInt8}
    (hb : b ∈ String.utf8EncodeChar c) : 0x80 ≤ b.toNat := by
  have hcode : 127 < c.val.toNat := h
  have htop : ∀ {n : Nat}, 0x80 ≤ n → n < 0x100 → b = UInt8.ofNat n → 0x80 ≤ b.toNat := by
    rintro n hlow hhigh rfl
    rw [UInt8.toNat_ofNat', Nat.mod_eq_of_lt hhigh]
    exact hlow
  simp only [String.utf8EncodeChar, if_neg (Nat.not_le.mpr hcode)] at hb
  split at hb
  next =>
    simp only [List.mem_cons, List.not_mem_nil, or_false] at hb
    rcases hb with hb | hb
    all_goals exact htop (by omega) (by omega) hb
  next =>
    split at hb
    next =>
      simp only [List.mem_cons, List.not_mem_nil, or_false] at hb
      rcases hb with hb | hb | hb
      all_goals exact htop (by omega) (by omega) hb
    next =>
      simp only [List.mem_cons, List.not_mem_nil, or_false] at hb
      rcases hb with hb | hb | hb | hb
      all_goals exact htop (by omega) (by omega) hb

/-- The first octet of a text, if it is an ASCII character, is the first character of the text. -/
theorem eq_cons_of_encode {cs : List Char} {b : UInt8} {tail : List UInt8}
    (h : encode cs = b :: tail) (hb : b.toNat < 0x80) :
    ∃ c rest, cs = c :: rest ∧ c.toNat = b.toNat ∧ encode rest = tail := by
  cases cs with
  | nil => simp at h
  | cons c rest =>
      rw [encode_cons] at h
      rcases Nat.lt_or_ge c.toNat 0x80 with hc | hc
      · rw [utf8EncodeChar_of_lt hc, List.singleton_append, List.cons.injEq] at h
        obtain ⟨rfl, htail⟩ := h
        refine ⟨c, rest, rfl, ?_, htail⟩
        rw [UInt8.toNat_ofNat', Nat.mod_eq_of_lt (by omega)]
      · have hmem : b ∈ String.utf8EncodeChar c := by
          obtain ⟨b', rest', hb'⟩ :=
            List.exists_cons_of_ne_nil (String.utf8EncodeChar_ne_nil (c := c))
          rw [hb', List.cons_append, List.cons.injEq] at h
          rw [hb', h.1]
          exact List.mem_cons_self
        have hge := le_of_mem_utf8EncodeChar hc hmem
        omega

/-- The text that some octets are; `none` if they are not UTF-8. -/
def decode? (octets : List UInt8) : Option String :=
  String.fromUTF8? ⟨octets.toArray⟩

/-- What a first octet announces: the bits it contributes, and the range in which each of the octets
that must follow lies.  `none` for an octet that starts no character. -/
def lead? (b : UInt8) : Option (Nat × List (Nat × Nat)) :=
  let n := b.toNat
  let tail := (0x80, 0xBF)
  if n < 0x80 then some (n, [])
  else if 0xC2 ≤ n ∧ n ≤ 0xDF then some (n - 0xC0, [tail])
  else if n = 0xE0 then some (0, [(0xA0, 0xBF), tail])
  else if n = 0xED then some (0xD, [(0x80, 0x9F), tail])
  else if 0xE1 ≤ n ∧ n ≤ 0xEF then some (n - 0xE0, [tail, tail])
  else if n = 0xF0 then some (0, [(0x90, 0xBF), tail, tail])
  else if 0xF1 ≤ n ∧ n ≤ 0xF3 then some (n - 0xF0, [tail, tail, tail])
  else if n = 0xF4 then some (4, [(0x80, 0x8F), tail, tail])
  else none

/-- Reads the announced octets after a first one.  The first component is the number spelled by all
of them, `none` if one is missing or out of its range; the second is what was not read. -/
def follow (acc : Nat) : List (Nat × Nat) → List UInt8 → Option Nat × List UInt8
  | [], rest => (some acc, rest)
  | _ :: _, [] => (none, [])
  | (low, high) :: ranges, b :: rest =>
    if low ≤ b.toNat ∧ b.toNat ≤ high then follow (acc * 64 + (b.toNat - 0x80)) ranges rest
    else (none, b :: rest)

theorem follow_length_le (acc : Nat) (ranges : List (Nat × Nat)) (bs : List UInt8) :
    (follow acc ranges bs).2.length ≤ bs.length := by
  fun_induction follow acc ranges bs with
  | case1 => exact Nat.le_refl _
  | case2 => exact Nat.le_refl _
  | case3 acc low high ranges b rest h ih => exact Nat.le_trans ih (Nat.le_succ _)
  | case4 => exact Nat.le_refl _

/-- Reads octets as text, one U+FFFD for each maximal part that is not UTF-8. -/
def decodeLossy : List UInt8 → List Char
  | [] => []
  | b :: rest =>
    match lead? b with
    | none => replacement :: decodeLossy rest
    | some (bits, ranges) =>
      ((follow bits ranges rest).1.map Char.ofNat).getD replacement ::
        decodeLossy (follow bits ranges rest).2
termination_by bs => bs.length
decreasing_by
  · simp
  · have := follow_length_le bits ranges rest
    simp only [List.length_cons]
    omega

/-! ## Reading undoes writing -/

theorem lead?_one {n : Nat} (h : n < 0x80) : lead? (UInt8.ofNat n) = some (n, []) := by
  have hn : (UInt8.ofNat n).toNat = n := by rw [UInt8.toNat_ofNat', Nat.mod_eq_of_lt (by omega)]
  rw [lead?, hn, if_pos h]

theorem lead?_two {n : Nat} (h : 0xC2 ≤ n ∧ n ≤ 0xDF) :
    lead? (UInt8.ofNat n) = some (n - 0xC0, [(0x80, 0xBF)]) := by
  have hn : (UInt8.ofNat n).toNat = n := by rw [UInt8.toNat_ofNat', Nat.mod_eq_of_lt (by omega)]
  rw [lead?, hn, if_neg (by omega), if_pos h]

theorem lead?_three {n : Nat} (h : 0xE0 ≤ n ∧ n ≤ 0xEF) :
    lead? (UInt8.ofNat n) = some (n - 0xE0,
      [(if n = 0xE0 then 0xA0 else 0x80, if n = 0xED then 0x9F else 0xBF), (0x80, 0xBF)]) := by
  have hn : (UInt8.ofNat n).toNat = n := by rw [UInt8.toNat_ofNat', Nat.mod_eq_of_lt (by omega)]
  simp only [lead?, hn]
  grind

theorem lead?_four {n : Nat} (h : 0xF0 ≤ n ∧ n ≤ 0xF4) :
    lead? (UInt8.ofNat n) = some (n - 0xF0,
      [(if n = 0xF0 then 0x90 else 0x80, if n = 0xF4 then 0x8F else 0xBF), (0x80, 0xBF),
        (0x80, 0xBF)]) := by
  have hn : (UInt8.ofNat n).toNat = n := by rw [UInt8.toNat_ofNat', Nat.mod_eq_of_lt (by omega)]
  simp only [lead?, hn]
  grind

theorem follow_cons {acc n low high : Nat} {ranges : List (Nat × Nat)} {rest : List UInt8}
    (h : low ≤ n ∧ n ≤ high) (hn : n < 0x100) :
    follow acc ((low, high) :: ranges) (UInt8.ofNat n :: rest) =
      follow (acc * 64 + (n - 0x80)) ranges rest := by
  have hoctet : (UInt8.ofNat n).toNat = n := by rw [UInt8.toNat_ofNat', Nat.mod_eq_of_lt hn]
  rw [follow, hoctet, if_pos h]

theorem decodeLossy_cons {b : UInt8} {bits n : Nat} {ranges : List (Nat × Nat)}
    {rest later : List UInt8} (hlead : lead? b = some (bits, ranges))
    (hfollow : follow bits ranges rest = (some n, later)) :
    decodeLossy (b :: rest) = Char.ofNat n :: decodeLossy later := by
  rw [decodeLossy, hlead]
  simp only [hfollow, Option.map_some, Option.getD_some]

theorem decodeLossy_two {v : Nat} (h : 0x80 ≤ v ∧ v ≤ 0x7FF) (rest : List UInt8) :
    decodeLossy (UInt8.ofNat (v / 64 % 32 + 0xC0) :: UInt8.ofNat (v % 64 + 0x80) :: rest) =
      Char.ofNat v :: decodeLossy rest := by
  have hspelled : (v / 64 % 32 + 0xC0 - 0xC0) * 64 + (v % 64 + 0x80 - 0x80) = v := by omega
  refine decodeLossy_cons (lead?_two (by omega)) ?_
  rw [follow_cons (by omega) (by omega), hspelled, follow]

/-- Of three octets, the second one tells the numbers from those that two octets spell and from the
surrogates. -/
theorem decodeLossy_three {v : Nat} (h : 0x800 ≤ v ∧ v ≤ 0xFFFF) (hvalid : v < 0xD800 ∨ 0xDFFF < v)
    (rest : List UInt8) :
    decodeLossy (UInt8.ofNat (v / 4096 % 16 + 0xE0) :: UInt8.ofNat (v / 64 % 64 + 0x80) ::
        UInt8.ofNat (v % 64 + 0x80) :: rest) = Char.ofNat v :: decodeLossy rest := by
  have hspelled : ((v / 4096 % 16 + 0xE0 - 0xE0) * 64 + (v / 64 % 64 + 0x80 - 0x80)) * 64 +
      (v % 64 + 0x80 - 0x80) = v := by omega
  have hsecond : (if v / 4096 % 16 + 0xE0 = 0xE0 then 0xA0 else 0x80) ≤ v / 64 % 64 + 0x80 ∧
      v / 64 % 64 + 0x80 ≤ if v / 4096 % 16 + 0xE0 = 0xED then 0x9F else 0xBF := by
    constructor
    · split <;> omega
    · split <;> omega
  refine decodeLossy_cons (lead?_three (by omega)) ?_
  rw [follow_cons hsecond (by omega), follow_cons (by omega) (by omega), hspelled, follow]

/-- Of four octets, the second one tells the numbers from those that three octets spell and from
those that are too great. -/
theorem decodeLossy_four {v : Nat} (h : 0x10000 ≤ v ∧ v < 0x110000) (rest : List UInt8) :
    decodeLossy (UInt8.ofNat (v / 262144 % 8 + 0xF0) :: UInt8.ofNat (v / 4096 % 64 + 0x80) ::
        UInt8.ofNat (v / 64 % 64 + 0x80) :: UInt8.ofNat (v % 64 + 0x80) :: rest) =
      Char.ofNat v :: decodeLossy rest := by
  have hspelled : (((v / 262144 % 8 + 0xF0 - 0xF0) * 64 + (v / 4096 % 64 + 0x80 - 0x80)) * 64 +
      (v / 64 % 64 + 0x80 - 0x80)) * 64 + (v % 64 + 0x80 - 0x80) = v := by omega
  have hsecond : (if v / 262144 % 8 + 0xF0 = 0xF0 then 0x90 else 0x80) ≤ v / 4096 % 64 + 0x80 ∧
      v / 4096 % 64 + 0x80 ≤ if v / 262144 % 8 + 0xF0 = 0xF4 then 0x8F else 0xBF := by
    constructor
    · split <;> omega
    · split <;> omega
  refine decodeLossy_cons (lead?_four (by omega)) ?_
  rw [follow_cons hsecond (by omega), follow_cons (by omega) (by omega),
    follow_cons (by omega) (by omega), hspelled, follow]

theorem decodeLossy_utf8EncodeChar_append (c : Char) (rest : List UInt8) :
    decodeLossy (String.utf8EncodeChar c ++ rest) = c :: decodeLossy rest := by
  have hvalid : c.toNat < 0xD800 ∨ 0xDFFF < c.toNat ∧ c.toNat < 0x110000 := c.valid
  have hchar : Char.ofNat c.toNat = c := c.ofNat_toNat
  have hcode : c.val.toNat = c.toNat := rfl
  simp only [String.utf8EncodeChar, hcode]
  split
  next hone => exact (decodeLossy_cons (lead?_one (by omega)) rfl).trans (by rw [hchar]; rfl)
  next hone =>
    split
    next htwo => exact (decodeLossy_two (by omega) rest).trans (by rw [hchar])
    next htwo =>
      split
      next hthree => exact (decodeLossy_three (by omega) (by omega) rest).trans (by rw [hchar])
      next hthree => exact (decodeLossy_four (by omega) rest).trans (by rw [hchar])

/-- The octets of a text are read as that text, without any U+FFFD put in. -/
theorem decodeLossy_encode (cs : List Char) : decodeLossy (encode cs) = cs := by
  induction cs with
  | nil => rw [encode_nil, decodeLossy]
  | cons c cs ih => rw [encode_cons, decodeLossy_utf8EncodeChar_append, ih]

end Text
end EntityLinking
