import EntityLinking.Uri.Decoder

/-!
# Selective decoding by tokens

A URI is cut from left to right into the escapes that are to be replaced and single characters.
What selective decoding writes is read off the tokens one by one, so nothing that is written is read
again, and of the list of escapes only the codes that it names matter.
-/

namespace EntityLinking
namespace Decoder

variable {listed : Nat → Prop} {cs : List Char}

/-- The list has an escape of an ASCII code: a percent sign with two digits, in either casing. -/
def Names (escapes : List String) (n : Nat) : Prop :=
  n < 0x80 ∧ ∃ a b, String.ofList ['%', a, b] ∈ escapes ∧ Text.hexPair? a b = some n

/-- A token of a URI. -/
inductive Token where
  | escape (high low : Char) (code : Nat)
  | plain (c : Char)
deriving DecidableEq

/-- What a token stands for. -/
def Token.char : Token → Char
  | escape _ _ code => Char.ofNat code
  | plain c => c

/-- A text cut from left to right: an escape of a listed code is one token, and any other
character is one by itself. -/
inductive Cut (listed : Nat → Prop) : List Char → List Token → Prop
  | nil : Cut listed [] []
  | escape {high low : Char} {n : Nat} {rest : List Char} {tokens : List Token}
      (digits : Text.hexPair? high low = some n) (code : listed n)
      (later : Cut listed rest tokens) :
      Cut listed ('%' :: high :: low :: rest) (.escape high low n :: tokens)
  | plain {c : Char} {rest : List Char} {tokens : List Token}
      (other : ∀ high low n behind, c = '%' → rest = high :: low :: behind →
        Text.hexPair? high low = some n → ¬ listed n)
      (later : Cut listed rest tokens) : Cut listed (c :: rest) (.plain c :: tokens)

/-- There is only one way to cut a text. -/
theorem Cut.unique {tokens tokens' : List Token} (h : Cut listed cs tokens)
    (h' : Cut listed cs tokens') : tokens' = tokens := by
  induction h generalizing tokens' with
  | nil =>
      cases h' with
      | nil => rfl
  | @escape high low n rest tokens digits code later ih =>
      cases h' with
      | @escape _ _ n' _ tokens' digits' code' later' =>
          obtain rfl : n = n' := by simpa [digits] using digits'
          rw [ih later']
      | plain other' later' => exact absurd code (other' high low n rest rfl rfl digits)
  | @plain c rest tokens other later ih =>
      cases h' with
      | @escape high low n behind tokens' digits' code' later' =>
          exact absurd code' (other high low n behind rfl rfl digits')
      | plain other' later' => rw [ih later']

/-- A percent sign is no digit, so escapes do not overlap. -/
theorem ne_percent_of_hexPair? {a b : Char} {n : Nat} (h : Text.hexPair? a b = some n) :
    a ≠ '%' ∧ b ≠ '%' := by
  obtain ⟨v, w, hv, hw, -⟩ := Text.hexByte?_eq_some_iff.mp h
  constructor
  · rintro rfl
    simp [Text.hexCode?] at hv
  · rintro rfl
    simp [Text.hexCode?] at hw

/-- A listed escape at the end of a text is its last token. -/
theorem Cut.getLast_escape {front : List Char} {high low : Char} {n : Nat} {tokens : List Token}
    (h : Cut listed (front ++ ['%', high, low]) tokens) (hdigits : Text.hexPair? high low = some n)
    (hlisted : listed n) : ∃ earlier, tokens = earlier ++ [.escape high low n] := by
  generalize hcs : front ++ ['%', high, low] = cs at h
  induction h generalizing front with
  | nil => simp at hcs
  | @escape a b m rest tokens digits code later ih =>
      -- an escape one or two characters earlier would have the percent sign for a digit
      match front, hcs with
      | [], hcs =>
          obtain ⟨rfl, rfl, rfl⟩ := by simpa using hcs
          obtain rfl : n = m := by simpa [hdigits] using digits
          cases later with
          | nil => exact ⟨[], rfl⟩
      | [_], hcs =>
          obtain ⟨-, rfl, -⟩ := by simpa using hcs
          exact absurd rfl (ne_percent_of_hexPair? digits).1
      | [_, _], hcs =>
          obtain ⟨-, -, rfl, -⟩ := by simpa using hcs
          exact absurd rfl (ne_percent_of_hexPair? digits).2
      | _ :: _ :: _ :: front, hcs =>
          obtain ⟨-, -, -, hrest⟩ := by simpa using hcs
          obtain ⟨earlier, rfl⟩ := ih hrest
          exact ⟨_ :: earlier, rfl⟩
  | @plain c rest tokens other later ih =>
      cases front with
      | nil =>
          obtain ⟨rfl, rfl⟩ := by simpa using hcs
          exact absurd hlisted (other high low n [] rfl rfl hdigits)
      | cons first front =>
          obtain ⟨-, hrest⟩ := by simpa using hcs
          obtain ⟨earlier, rfl⟩ := ih hrest
          exact ⟨_ :: earlier, rfl⟩

end Decoder

namespace Replacements

open Decoder

variable {t : Replacements} {escapes : List String}

/-! ## The table of a list of escapes -/

/-- Listed are the escapes of ASCII codes. -/
theorem listed?_eq_some_iff {escape : String} {digits : Nat × Nat} {n : Nat} :
    listed? escape = some (digits, n) ↔
      ∃ a b, escape = String.ofList ['%', a, b] ∧ Text.hexPair? a b = some n ∧ n < 0x80 ∧
        digits = (Text.upperCode a.toNat, Text.upperCode b.toNat) := by
  constructor
  · intro h
    unfold listed? at h
    split at h
    next sign high low hoctets =>
      split at h
      next hsign =>
        obtain ⟨m, hm, heq⟩ := Option.map_eq_some_iff.mp h
        obtain ⟨hbyte, hascii⟩ := Option.filter_eq_some_iff.mp hm
        obtain ⟨rfl, rfl⟩ := Prod.mk.inj heq
        rw [hsign] at hoctets
        obtain ⟨a, b, rest, hchars, ha, hb, hrest⟩ :=
          eq_escape_of_encode hoctets (Text.lt_of_hexByte? hbyte).1 (Text.lt_of_hexByte? hbyte).2
        rw [Text.encode_eq_nil_iff.mp hrest] at hchars
        refine ⟨a, b, ?_, ?_, of_decide_eq_true hascii, by rw [ha, hb]⟩
        · rw [← hchars, String.ofList_toList]
        · rw [Text.hexPair?, ha, hb, hbyte]
      next => simp at h
    next => simp at h
  · rintro ⟨a, b, rfl, hdigits, hascii, rfl⟩
    obtain ⟨ha, hb⟩ := Text.lt_of_hexByte? hdigits
    rw [Text.hexPair?] at hdigits
    rw [listed?, String.toList_ofList, encode_escape ha hb, Text.encode_nil]
    simp only [if_true, UInt8.toNat_ofNat', Nat.mod_eq_of_lt (show a.toNat < 2 ^ 8 by omega),
      Nat.mod_eq_of_lt (show b.toNat < 2 ^ 8 by omega), hdigits, Option.filter_some, hascii,
      decide_true, Option.map_some]

/-- The codes that a list of escapes names. -/
theorem names_iff {n : Nat} :
    Names escapes n ↔ n ∈ escapes.filterMap fun escape => (listed? escape).map Prod.snd := by
  simp only [Names, List.mem_filterMap, Option.map_eq_some_iff, Prod.exists, exists_eq_right,
    listed?_eq_some_iff]
  grind

instance (escapes : List String) (n : Nat) : Decidable (Names escapes n) :=
  decidable_of_iff _ names_iff.symm

theorem isSome_lookup_add {escape : String} {digits : Nat × Nat} :
    ((t.add escape).rows.lookup digits).isSome ↔
      (t.rows.lookup digits).isSome ∨ ∃ n, listed? escape = some (digits, n) := by
  unfold add
  split
  next hnone => simp [hnone]
  next filed n hlisted =>
    have hentry : (∃ m, listed? escape = some (digits, m)) ↔ digits = filed := by
      simp [hlisted, eq_comm]
    rw [hentry]
    split
    next hknown =>
      refine ⟨Or.inl, ?_⟩
      rintro (h | rfl)
      · exact h
      · exact hknown
    next =>
      rw [List.lookup_append, Option.isSome_or, Bool.or_eq_true]
      by_cases hsame : digits = filed
      · simp [hsame]
      · simp [hsame, List.lookup_cons, beq_false_of_ne hsame]

/-- The digits under which a list of escapes has a replacement. -/
theorem isSome_lookup_ofEscapes {digits : Nat × Nat} :
    ((ofEscapes escapes).rows.lookup digits).isSome ↔
      ∃ escape ∈ escapes, ∃ n, listed? escape = some (digits, n) := by
  have hfold : ∀ t : Replacements, ((escapes.foldl add t).rows.lookup digits).isSome ↔
      (t.rows.lookup digits).isSome ∨
        ∃ escape ∈ escapes, ∃ n, listed? escape = some (digits, n) := by
    induction escapes with
    | nil => simp
    | cons escape escapes ih =>
        intro t
        simp only [List.foldl_cons, ih, isSome_lookup_add, List.mem_cons, exists_eq_or_imp,
          or_assoc]
  exact (hfold {}).trans (by simp)

/-- An escape is replaced just when its code is named, whatever the casing of its digits. -/
theorem find?_ofEscapes_iff {high low : Nat} {c : Char} :
    (ofEscapes escapes).find? high low = some c ↔
      ∃ n, Text.hexByte? high low = some n ∧ Names escapes n ∧ c = Char.ofNat n := by
  constructor
  · intro hfound
    obtain ⟨n, hascii, hbyte, rfl⟩ := find?_eq_some hfound
    obtain ⟨escape, hmem, m, hlisted⟩ :=
      isSome_lookup_ofEscapes.mp (Option.isSome_of_eq_some hfound)
    obtain ⟨a, b, rfl, hdigits, -, -⟩ := listed?_eq_some_iff.mp hlisted
    have hm := (listed?_spec hlisted).2
    rw [Text.hexByte?_upperCode, hbyte, Option.some.injEq] at hm
    exact ⟨n, hbyte, ⟨hascii, a, b, hmem, hm ▸ hdigits⟩, rfl⟩
  · rintro ⟨n, hbyte, ⟨hascii, a, b, hmem, hdigits⟩, rfl⟩
    obtain ⟨hhigh, hlow⟩ := Text.upperCode_eq_of_hexByte? hbyte hdigits
    have hlisted : listed? (String.ofList ['%', a, b]) =
        some ((Text.upperCode high, Text.upperCode low), n) :=
      listed?_eq_some_iff.mpr ⟨a, b, rfl, hdigits, hascii, by rw [hhigh, hlow]⟩
    obtain ⟨c, hfound⟩ :=
      Option.isSome_iff_exists.mp (isSome_lookup_ofEscapes.mpr ⟨_, hmem, n, hlisted⟩)
    -- whichever escape was filed under these digits, it names the same code
    obtain ⟨m, -, hm, rfl⟩ := find?_eq_some hfound
    rw [hbyte, Option.some.injEq] at hm
    rw [find?, hfound, hm]

/-! ## What is written -/

/-- What is written for a text stands in the tokens into which it is cut. -/
theorem exists_cut {listed : Nat → Prop}
    (ht : ∀ high low c, t.find? high low = some c ↔
      ∃ n, Text.hexByte? high low = some n ∧ listed n ∧ c = Char.ofNat n) (cs : List Char) :
    ∃ tokens, Cut listed cs tokens ∧ t.replaced cs = tokens.map Token.char := by
  fun_induction replaced t cs with
  | case1 a b rest c hfound ih =>
      obtain ⟨tokens, hcut, hwritten⟩ := ih
      obtain ⟨n, hdigits, hlisted, rfl⟩ := (ht _ _ _).mp hfound
      exact ⟨_, .escape hdigits hlisted hcut, by rw [hwritten]; rfl⟩
  | case2 a b rest hnone ih =>
      obtain ⟨tokens, hcut, hwritten⟩ := ih
      refine ⟨_, .plain ?_ hcut, by rw [hwritten]; rfl⟩
      intro high low n behind _ heq hdigits hlisted
      obtain ⟨rfl, rfl, rfl⟩ := by simpa using heq
      rw [(ht _ _ _).mpr ⟨n, hdigits, hlisted, rfl⟩] at hnone
      simp at hnone
  | case3 c rest hplain ih =>
      obtain ⟨tokens, hcut, hwritten⟩ := ih
      refine ⟨_, .plain ?_ hcut, by rw [hwritten]; rfl⟩
      intro high low n behind hc heq
      exact absurd heq (hplain high low behind hc)
  | case4 => exact ⟨[], .nil, rfl⟩

end Replacements

namespace Decoder

/-- The scan by octets comes to an end, with what the tokens of the URI stand for. -/
theorem exists_cut_decode (escapes : List String) (uri : String) :
    ∃ tokens, Cut (Names escapes) uri.toList tokens ∧
      (Replacements.ofEscapes escapes).rewrite? uri.toList = some (tokens.map Token.char) ∧
      (selective escapes).decode uri = String.ofList (tokens.map Token.char) := by
  obtain ⟨tokens, hcut, hwritten⟩ :=
    Replacements.exists_cut (fun _ _ _ => Replacements.find?_ofEscapes_iff) uri.toList
  have hrewrite := (Replacements.ofEscapes escapes).rewrite?_eq uri.toList
  rw [hwritten] at hrewrite
  refine ⟨tokens, hcut, hrewrite, ?_⟩
  rw [decode, Replacements.rewrite]
  simp only [hrewrite, Option.get_some]

/-- Selective decoding writes what the tokens of a URI stand for, and there is one way to cut it
into them.  No stretch is cut out within a character, escapes count up to the last character, and
the list of escapes counts for the codes that it names. -/
theorem decode_selective (escapes : List String) (uri : String) :
    ∃ tokens, Cut (Names escapes) uri.toList tokens ∧
      (∀ tokens', Cut (Names escapes) uri.toList tokens' → tokens' = tokens) ∧
      (Replacements.ofEscapes escapes).rewrite? uri.toList = some (tokens.map Token.char) ∧
      (selective escapes).decode uri = String.ofList (tokens.map Token.char) ∧
      (∀ front high low n, uri.toList = front ++ ['%', high, low] →
        Text.hexPair? high low = some n → Names escapes n →
          ∃ earlier, tokens = earlier ++ [.escape high low n]) ∧
      ∀ escapes', (∀ n, Names escapes' n ↔ Names escapes n) →
        (selective escapes').decode uri = (selective escapes).decode uri := by
  obtain ⟨tokens, hcut, hrewrite, hdecode⟩ := exists_cut_decode escapes uri
  refine ⟨tokens, hcut, fun _ hcut' => hcut.unique hcut', hrewrite, hdecode, ?_, ?_⟩
  · intro front high low n huri hdigits hnamed
    rw [huri] at hcut
    exact hcut.getLast_escape hdigits hnamed
  · intro escapes' hsame
    obtain ⟨tokens', hcut', -, hdecode'⟩ := exists_cut_decode escapes' uri
    rw [funext fun n => propext (hsame n)] at hcut'
    rw [hdecode', hdecode, hcut.unique hcut']

/-- A list with the other casing, repetitions, an escape of half a character and a word that
is no escape decodes a URI just as well.  The escape that comes out of `%2528` stays, and the
last three octets count. -/
theorem decode_selective_respelled :
    (∃ tokens, Cut (Names ["%28", "%2c", "%25"]) "São_%2528%2C%28".toList tokens ∧
      ∃ earlier, tokens = earlier ++ [.escape '2' '8' 0x28]) ∧
    (selective ["%2C", "x", "%25", "%28", "%28", "%C3"]).decode "São_%2528%2C%28" =
      "São_%28,(" := by
  obtain ⟨tokens, hcut, -, -, -, hlast, hsame⟩ :=
    decode_selective ["%28", "%2c", "%25"] "São_%2528%2C%28"
  have hnames : ∀ n, Names ["%28", "%2c", "%25"] n ↔ n ∈ [0x28, 0x2C, 0x25] := by
    intro n
    rw [Replacements.names_iff]
    rfl
  have hnames' : ∀ n, Names ["%2C", "x", "%25", "%28", "%28", "%C3"] n ↔
      n ∈ [0x2C, 0x25, 0x28, 0x28] := by
    intro n
    rw [Replacements.names_iff]
    rfl
  refine ⟨⟨tokens, hcut, ?_⟩, ?_⟩
  · exact hlast "São_%2528%2C".toList '2' '8' 0x28 (by decide) (by decide) (by decide)
  · rw [hsame]
    · decide
    · intro n
      rw [hnames, hnames']
      grind

end Decoder
end EntityLinking
