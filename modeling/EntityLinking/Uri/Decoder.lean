import EntityLinking.Text.Hex
import EntityLinking.Text.Utf8
import EntityLinking.Uri.Replacements

/-!
# Decoding of entity URIs

A lookup returns URIs as its index stores them, often percent-encoded, while the knowledge graph is
keyed by the decoded form.  Three rules bring the one to the other: undo every escape, undo a chosen
set of ASCII escapes, or leave the URI alone.  Every rule is one scan from left to right; what a
scan has written is never read again.
-/

namespace EntityLinking

/-- A rule by which a candidate's URI becomes the name of a vertex. -/
inductive Decoder where
  /-- Every escape becomes its octet; the octets are read as UTF-8. -/
  | percent
  /-- Only the listed escapes, such as `%28`, become their ASCII characters. -/
  | selective (escapes : List String)
  /-- The URI is left as it is. -/
  | verbatim
deriving DecidableEq

namespace Decoder

/-- The byte that the escape in a window of three octets names; `none` if it is no escape. -/
def window? (sign high low : UInt8) : Option Nat :=
  if sign = Replacements.percentSign then Text.hexByte? high.toNat low.toNat else none

/-- Octets in which every escape, a percent sign with two hexadecimal digits, has become the octet
it names.  A percent sign that starts no escape stands for itself. -/
def percentOctets : List UInt8 → List UInt8
  | sign :: high :: low :: rest =>
    match window? sign high low with
    | some n => UInt8.ofNat n :: percentOctets rest
    | none => sign :: percentOctets (high :: low :: rest)
  | octets => octets

/-- Undoes every escape of a URI. -/
def percentChars (cs : List Char) : List Char :=
  Text.decodeLossy (percentOctets (Text.encode cs))

/-- The escapes that are undone when none are chosen: parentheses, apostrophe, exclamation mark and
comma. -/
def standardEscapes : List String :=
  ["%28", "%29", "%27", "%21", "%2C"]

/-- The name under which the graph knows a URI. -/
def decode : Decoder → String → String
  | percent, uri => String.ofList (percentChars uri.toList)
  | selective escapes, uri =>
    String.ofList ((Replacements.ofEscapes escapes).rewrite uri.toList)
  | verbatim, uri => uri

/-! ## Escapes are told by characters

A percent sign and digits are single octets of their own, so the octets of a URI are read the
way its characters are. -/

variable {sign : UInt8} {octets tail : List UInt8} {rest : List Char}

theorem percentOctets_cons (h : ∀ high low later, tail = high :: low :: later →
    window? sign high low = none) : percentOctets (sign :: tail) = sign :: percentOctets tail := by
  match tail with
  | [] => rfl
  | [_] => rfl
  | high :: low :: later => rw [percentOctets, h high low later rfl]

/-- Octets without a percent sign stay. -/
theorem percentOctets_append (h : ∀ b ∈ octets, b ≠ Replacements.percentSign) (tail : List UInt8) :
    percentOctets (octets ++ tail) = octets ++ percentOctets tail := by
  induction octets with
  | nil => rfl
  | cons b later ih =>
      have hb : ∀ high low behind,
          later ++ tail = high :: low :: behind → window? b high low = none :=
        fun _ _ _ _ => if_neg (h b List.mem_cons_self)
      rw [List.cons_append, percentOctets_cons hb, ih fun b hb => h b (List.mem_cons_of_mem _ hb),
        List.cons_append]

/-- An escape becomes the octet it names. -/
theorem percentOctets_encode_escape {a b : Char} {n : Nat} (h : Text.hexPair? a b = some n)
    (rest : List Char) :
    percentOctets (Text.encode ('%' :: a :: b :: rest)) =
      UInt8.ofNat n :: percentOctets (Text.encode rest) := by
  obtain ⟨ha, hb⟩ := Text.lt_of_hexByte? h
  have hwindow : window? Replacements.percentSign (UInt8.ofNat a.toNat) (UInt8.ofNat b.toNat) =
      some n := by
    rw [window?, if_pos rfl, UInt8.toNat_ofNat', UInt8.toNat_ofNat', Nat.mod_eq_of_lt (by omega),
      Nat.mod_eq_of_lt (by omega)]
    exact h
  rw [Replacements.encode_escape ha hb, percentOctets, hwindow]

/-- A character that begins no escape stays. -/
theorem percentOctets_encode_cons {c : Char} (h : c = '%' → Text.leadingByte? rest = none) :
    percentOctets (Text.encode (c :: rest)) =
      String.utf8EncodeChar c ++ percentOctets (Text.encode rest) := by
  by_cases hc : c = '%'
  · subst hc
    have hkept : ∀ high low later, Text.encode rest = high :: low :: later →
        window? Replacements.percentSign high low = none := by
      intro high low later htail
      rw [window?, if_pos rfl]
      cases hbyte : Text.hexByte? high.toNat low.toNat with
      | none => rfl
      | some n =>
          -- digits are ASCII characters, hence the first characters of the rest
          obtain ⟨hhigh, hlow⟩ := Text.lt_of_hexByte? hbyte
          have hwhole :
              Text.encode ('%' :: rest) = Replacements.percentSign :: high :: low :: later :=
            congrArg (Replacements.percentSign :: ·) htail
          obtain ⟨a, b, behind, heq, ha, hb, -⟩ :=
            Replacements.eq_escape_of_encode hwhole hhigh hlow
          obtain rfl : rest = a :: b :: behind := (List.cons.inj heq).2
          have hnone := h rfl
          rw [Text.leadingByte?, Text.hexPair?, ha, hb, hbyte] at hnone
          simp at hnone
    exact percentOctets_cons hkept
  · rw [Text.encode_cons, percentOctets_append fun b hb => Replacements.ne_percentSign hc hb]

end Decoder
end EntityLinking
