import EntityLinking.Proofs.Uri.Tokens

/-!
# Selective beside full decoding

Both rules read a URI once from left to right.  They come to the same where every escape of the URI
is one of the listed, and full decoding does not notice that selective decoding went before it,
provided that no character put in is a percent sign or a digit: then no escape is made out of the
characters on both sides of a replaced one.
-/

namespace EntityLinking
namespace Decoder

variable {escapes : List String} {cs : List Char}

/-- An escape of a code stands somewhere in a text. -/
def Occurs (n : Nat) (cs : List Char) : Prop :=
  ∃ front high low behind, cs = front ++ '%' :: high :: low :: behind ∧
    Text.hexPair? high low = some n

/-- No escape of the list stands for a percent sign or a hexadecimal digit. -/
def Inert (escapes : List String) : Prop :=
  ∀ n, Names escapes n → Char.ofNat n ≠ '%' ∧ Text.hexValue? (Char.ofNat n) = none

/-! ## Escapes in a text -/

theorem not_occurs_nil (n : Nat) : ¬ Occurs n [] := by
  rintro ⟨front, high, low, behind, hcs, -⟩
  simp at hcs

theorem occurs_cons_iff {n : Nat} {c : Char} :
    Occurs n (c :: cs) ↔ c = '%' ∧ Text.leadingByte? cs = some n ∨ Occurs n cs := by
  constructor
  · rintro ⟨front, high, low, behind, hcs, hdigits⟩
    cases front with
    | nil =>
        obtain ⟨rfl, rfl⟩ := List.cons.inj hcs
        exact Or.inl ⟨rfl, hdigits⟩
    | cons _ front =>
        obtain ⟨rfl, rfl⟩ := List.cons.inj hcs
        exact Or.inr ⟨front, high, low, behind, rfl, hdigits⟩
  · rintro (⟨rfl, hleading⟩ | ⟨front, high, low, behind, rfl, hdigits⟩)
    · obtain ⟨high, low, behind, rfl, hdigits⟩ := Text.leadingByte?_eq_some_iff.mp hleading
      exact ⟨[], high, low, behind, rfl, hdigits⟩
    · exact ⟨c :: front, high, low, behind, rfl, hdigits⟩

/-- The codes of all escapes in a text. -/
def codes : List Char → List Nat
  | [] => []
  | c :: cs => if c = '%' then (Text.leadingByte? cs).toList ++ codes cs else codes cs

theorem occurs_iff {n : Nat} : Occurs n cs ↔ n ∈ codes cs := by
  induction cs with
  | nil => simp [codes, not_occurs_nil]
  | cons c cs ih =>
      rw [occurs_cons_iff, ih, codes]
      split
      next hc => simp [hc]
      next hc => simp [hc]

/-! ## What is replaced -/

theorem not_names_of_find? {a b : Char} {n : Nat}
    (h : (Replacements.ofEscapes escapes).find? a.toNat b.toNat = none)
    (hdigits : Text.hexPair? a b = some n) : ¬ Names escapes n := by
  intro hnamed
  rw [Replacements.find?_ofEscapes_iff.mpr ⟨n, hdigits, hnamed, rfl⟩] at h
  simp at h

/-- A text without listed escapes stays. -/
theorem replaced_eq_self (h : ∀ n, Occurs n cs → ¬ Names escapes n) :
    (Replacements.ofEscapes escapes).replaced cs = cs := by
  fun_induction Replacements.replaced (Replacements.ofEscapes escapes) cs with
  | case1 a b rest c hfound ih =>
      obtain ⟨n, hdigits, hnamed, -⟩ := Replacements.find?_ofEscapes_iff.mp hfound
      exact absurd hnamed (h n (occurs_cons_iff.mpr (Or.inl ⟨rfl, hdigits⟩)))
  | case2 a b rest hnone ih => rw [ih fun n hn => h n (occurs_cons_iff.mpr (Or.inr hn))]
  | case3 c rest hplain ih => rw [ih fun n hn => h n (occurs_cons_iff.mpr (Or.inr hn))]
  | case4 => rfl

/-- Where every escape is listed, what is written for a text has the octets that full decoding
gives. -/
theorem percentOctets_eq_encode_replaced (h : ∀ n, Occurs n cs → Names escapes n) :
    percentOctets (Text.encode cs) =
      Text.encode ((Replacements.ofEscapes escapes).replaced cs) := by
  fun_induction Replacements.replaced (Replacements.ofEscapes escapes) cs with
  | case1 a b rest c hfound ih =>
      obtain ⟨n, hdigits, hnamed, rfl⟩ := Replacements.find?_ofEscapes_iff.mp hfound
      have hrest := ih fun m hm => h m (by simp [occurs_cons_iff, hm])
      rw [percentOctets_encode_escape hdigits, Text.encode_cons, Text.utf8EncodeChar_ofNat hnamed.1,
        hrest, List.singleton_append]
  | case2 a b rest hnone ih =>
      have hrest := ih fun m hm => h m (occurs_cons_iff.mpr (Or.inr hm))
      have hplain : Text.leadingByte? (a :: b :: rest) = none := by
        rw [Option.eq_none_iff_forall_ne_some]
        intro n hdigits
        exact not_names_of_find? hnone hdigits (h n (occurs_cons_iff.mpr (Or.inl ⟨rfl, hdigits⟩)))
      rw [percentOctets_encode_cons fun _ => hplain, hrest, Text.encode_cons]
  | case3 c rest hplain ih =>
      have hrest := ih fun m hm => h m (occurs_cons_iff.mpr (Or.inr hm))
      have hshort : c = '%' → Text.leadingByte? rest = none := fun hc =>
        Text.leadingByte?_eq_none fun a b behind => hplain a b behind hc
      rw [percentOctets_encode_cons hshort, hrest, Text.encode_cons]
  | case4 => rfl

/-! ## No escape is made -/

theorem Inert.of_find? (h : Inert escapes) {a b c : Char}
    (hfound : (Replacements.ofEscapes escapes).find? a.toNat b.toNat = some c) :
    c ≠ '%' ∧ Text.hexValue? c = none := by
  obtain ⟨n, -, hnamed, rfl⟩ := Replacements.find?_ofEscapes_iff.mp hfound
  exact h n hnamed

/-- What is written begins with a digit just when the text does, and with the same one. -/
theorem Inert.head?_replaced (h : Inert escapes) (cs : List Char) :
    ((Replacements.ofEscapes escapes).replaced cs).head?.bind Text.hexValue? =
      cs.head?.bind Text.hexValue? := by
  fun_cases Replacements.replaced (Replacements.ofEscapes escapes) cs with
  | case1 a b rest c hfound => exact (h.of_find? hfound).2
  | case2 a b rest hnone => rfl
  | case3 c rest hplain => rfl
  | case4 => rfl

theorem Inert.leadingByte?_replaced (h : Inert escapes) (cs : List Char) :
    Text.leadingByte? ((Replacements.ofEscapes escapes).replaced cs) = Text.leadingByte? cs := by
  have hsign : Text.hexValue? '%' = none := by decide
  fun_cases Replacements.replaced (Replacements.ofEscapes escapes) cs with
  | case1 a b rest c hfound =>
      rw [Text.leadingByte?_cons, Text.leadingByte?_cons, (h.of_find? hfound).2, hsign]
      rfl
  | case2 a b rest hnone => rw [Text.leadingByte?_cons, Text.leadingByte?_cons, hsign]; rfl
  | case3 c rest hplain => rw [Text.leadingByte?_cons, Text.leadingByte?_cons, h.head?_replaced]
  | case4 => rfl

/-- No listed escape is left over or comes about. -/
theorem Inert.not_names_of_occurs (h : Inert escapes) {n : Nat}
    (hn : Occurs n ((Replacements.ofEscapes escapes).replaced cs)) : ¬ Names escapes n := by
  fun_induction Replacements.replaced (Replacements.ofEscapes escapes) cs with
  | case1 a b rest c hfound ih =>
      rcases occurs_cons_iff.mp hn with ⟨hc, -⟩ | hrest
      · exact absurd hc (h.of_find? hfound).1
      · exact ih hrest
  | case2 a b rest hnone ih =>
      rcases occurs_cons_iff.mp hn with ⟨-, hleading⟩ | hrest
      · rw [h.leadingByte?_replaced] at hleading
        exact not_names_of_find? hnone hleading
      · exact ih hrest
  | case3 c rest hplain ih =>
      rcases occurs_cons_iff.mp hn with ⟨hc, hleading⟩ | hrest
      · rw [h.leadingByte?_replaced] at hleading
        obtain ⟨a, b, behind, heq, -⟩ := Text.leadingByte?_eq_some_iff.mp hleading
        exact absurd heq (hplain a b behind hc)
      · exact ih hrest
  | case4 => exact absurd hn (not_occurs_nil n)

/-- Full decoding gives the same octets whether or not the listed escapes were replaced before. -/
theorem Inert.percentOctets_replaced (h : Inert escapes) (cs : List Char) :
    percentOctets (Text.encode ((Replacements.ofEscapes escapes).replaced cs)) =
      percentOctets (Text.encode cs) := by
  fun_induction Replacements.replaced (Replacements.ofEscapes escapes) cs with
  | case1 a b rest c hfound ih =>
      have hc := (h.of_find? hfound).1
      obtain ⟨n, hdigits, hnamed, rfl⟩ := Replacements.find?_ofEscapes_iff.mp hfound
      rw [percentOctets_encode_cons fun hsign => absurd hsign hc, ih,
        percentOctets_encode_escape hdigits, Text.utf8EncodeChar_ofNat hnamed.1,
        List.singleton_append]
  | case2 a b rest hnone ih =>
      cases hdigits : Text.hexPair? a b with
      | none =>
          have hleading : Text.leadingByte?
              ((Replacements.ofEscapes escapes).replaced (a :: b :: rest)) = none :=
            (h.leadingByte?_replaced _).trans hdigits
          have hleading' : Text.leadingByte? (a :: b :: rest) = none := hdigits
          rw [percentOctets_encode_cons fun _ => hleading, ih,
            percentOctets_encode_cons fun _ => hleading']
      | some n =>
          -- an escape that stays keeps its digits, and the induction reaches behind them
          obtain ⟨ha, hb⟩ := ne_percent_of_hexPair? hdigits
          rw [Replacements.replaced_cons _ ha, Replacements.replaced_cons _ hb] at ih ⊢
          rw [percentOctets_encode_cons fun hsign => absurd hsign ha,
            percentOctets_encode_cons fun hsign => absurd hsign hb,
            percentOctets_encode_cons fun hsign => absurd hsign ha,
            percentOctets_encode_cons fun hsign => absurd hsign hb, List.append_cancel_left_eq,
            List.append_cancel_left_eq] at ih
          rw [percentOctets_encode_escape hdigits, ih, percentOctets_encode_escape hdigits]
  | case3 c rest hplain ih =>
      have hshort : c = '%' → Text.leadingByte? rest = none := fun hc =>
        Text.leadingByte?_eq_none fun a b behind => hplain a b behind hc
      rw [percentOctets_encode_cons fun hc => (h.leadingByte?_replaced rest).trans (hshort hc), ih,
        percentOctets_encode_cons hshort]
  | case4 => rfl

/-! ## The two rules beside each other -/

theorem decode_selective_eq (escapes : List String) (uri : String) :
    (selective escapes).decode uri =
      String.ofList ((Replacements.ofEscapes escapes).replaced uri.toList) := by
  rw [decode, Replacements.rewrite_eq]

theorem decode_percent_eq (uri : String) :
    percent.decode uri =
      String.ofList (Text.decodeLossy (percentOctets (Text.encode uri.toList))) :=
  rfl

theorem inert_iff : Inert escapes ↔
    ∀ n ∈ escapes.filterMap fun escape => (Replacements.listed? escape).map Prod.snd,
      Char.ofNat n ≠ '%' ∧ Text.hexValue? (Char.ofNat n) = none :=
  forall_congr' fun _ => imp_congr_left Replacements.names_iff

instance (escapes : List String) : Decidable (Inert escapes) :=
  decidable_of_iff _ inert_iff.symm

/-- With escapes of characters that are neither percent signs nor digits, as the standard ones are,
selective decoding leaves no listed escape in either casing, has nothing left to do a second time,
and may go before full decoding. -/
theorem decode_selective_inert :
    Inert standardEscapes ∧ ∀ escapes, Inert escapes → ∀ uri : String,
      (∀ n, Occurs n ((selective escapes).decode uri).toList → ¬ Names escapes n) ∧
      (selective escapes).decode ((selective escapes).decode uri) =
        (selective escapes).decode uri ∧
      percent.decode ((selective escapes).decode uri) = percent.decode uri := by
  refine ⟨by decide, fun escapes hinert uri => ?_⟩
  rw [decode_selective_eq escapes uri]
  refine ⟨?_, ?_, ?_⟩
  · intro n hn
    rw [String.toList_ofList] at hn
    exact hinert.not_names_of_occurs hn
  · rw [decode_selective_eq, String.toList_ofList,
      replaced_eq_self fun n hn => hinert.not_names_of_occurs hn]
  · rw [decode_percent_eq, decode_percent_eq, String.toList_ofList, hinert.percentOctets_replaced]

/-- Stray percent signs stand before the escapes, a digit behind one, and an
escape of a digit stays. -/
theorem decode_selective_inert_stray :
    Inert ["%28", "%2c"] ∧ (∀ n, Occurs n "%2(,8%(%41%2".toList → ¬ Names ["%28", "%2c"] n) ∧
      (selective ["%28", "%2c"]).decode "%2(,8%(%41%2" = "%2(,8%(%41%2" ∧
      percent.decode "%2(,8%(%41%2" = percent.decode "%2%28%2C8%%28%41%2" := by
  have hinert : Inert ["%28", "%2c"] := by decide
  have hdecoded : (selective ["%28", "%2c"]).decode "%2%28%2C8%%28%41%2" = "%2(,8%(%41%2" := by
    decide
  obtain ⟨hnone, hagain, hfull⟩ :=
    decode_selective_inert.2 ["%28", "%2c"] hinert "%2%28%2C8%%28%41%2"
  rw [hdecoded] at hnone hagain hfull
  exact ⟨hinert, hnone, hagain, hfull⟩

/-- Where every escape of a URI is listed, whatever it stands for, selective and full decoding give
the same name.  Percent signs that start no escape are left alone by both. -/
theorem decode_selective_eq_percent {escapes : List String} {uri : String}
    (hlisted : ∀ n, Occurs n uri.toList → Names escapes n) :
    (selective escapes).decode uri = percent.decode uri := by
  rw [decode_selective_eq, decode_percent_eq, percentOctets_eq_encode_replaced hlisted,
    Text.decodeLossy_encode]

/-- Escapes of a percent sign and of a letter that is a digit, broken ones, and
one cut off at the end. -/
theorem decode_selective_eq_percent_broken :
    (∀ n, Occurs n "São%2541%%61%g1%4%2".toList → Names ["%25", "x", "%61"] n) ∧
      (selective ["%25", "x", "%61"]).decode "São%2541%%61%g1%4%2" =
        percent.decode "São%2541%%61%g1%4%2" := by
  have hcodes : ∀ n ∈ codes "São%2541%%61%g1%4%2".toList, Names ["%25", "x", "%61"] n := by decide
  have hlisted : ∀ n, Occurs n "São%2541%%61%g1%4%2".toList → Names ["%25", "x", "%61"] n :=
    fun n hn => hcodes n (occurs_iff.mp hn)
  exact ⟨hlisted, decode_selective_eq_percent hlisted⟩

end Decoder
end EntityLinking
