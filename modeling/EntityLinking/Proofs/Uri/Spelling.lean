import EntityLinking.Graph.TripleStore
import EntityLinking.Sense

/-!
# Spellings of a URI

A URI can be written in many ways: any of its characters may stand for itself, but for the percent
sign, or be written by one escape for each of its octets, every digit in the casing that the writer
likes.  Full decoding reads all of them as the same URI, hence as the same vertex.
-/

namespace EntityLinking
namespace Decoder

/-- Octets written as escapes, one after the other, with digits of either casing. -/
inductive Escaped : List UInt8 → List Char → Prop
  | nil : Escaped [] []
  | cons {octet : UInt8} {octets : List UInt8} {high low : Char} {written : List Char}
      (digits : Text.hexPair? high low = some octet.toNat) (later : Escaped octets written) :
      Escaped (octet :: octets) ('%' :: high :: low :: written)

/-- A spelling of a text: each character stands for itself, or all its octets are written as
escapes.  A percent sign never stands for itself. -/
inductive Spelling : List Char → List Char → Prop
  | nil : Spelling [] []
  | literal {c : Char} {cs written : List Char} (plain : c ≠ '%') (later : Spelling cs written) :
      Spelling (c :: cs) (c :: written)
  | escaped {c : Char} {cs front written : List Char}
      (octets : Escaped (String.utf8EncodeChar c) front) (later : Spelling cs written) :
      Spelling (c :: cs) (front ++ written)

variable {octets : List UInt8} {cs written : List Char}

theorem Escaped.percentOctets_encode_append (h : Escaped octets written) (rest : List Char) :
    percentOctets (Text.encode (written ++ rest)) = octets ++ percentOctets (Text.encode rest) := by
  induction h with
  | nil => rfl
  | @cons octet octets high low written digits later ih =>
      rw [List.cons_append, List.cons_append, List.cons_append, percentOctets_encode_escape digits,
        ih, UInt8.ofNat_toNat, List.cons_append]

/-- The octets that full decoding gives are those of the text that is spelled. -/
theorem Spelling.percentOctets_encode (h : Spelling cs written) :
    percentOctets (Text.encode written) = Text.encode cs := by
  induction h with
  | nil => rfl
  | literal plain later ih =>
      rw [percentOctets_encode_cons fun hsign => absurd hsign plain, ih, Text.encode_cons]
  | escaped octets later ih => rw [octets.percentOctets_encode_append, ih, Text.encode_cons]

theorem Spelling.decode_percent {uri spelled : String}
    (h : Spelling uri.toList spelled.toList) : percent.decode spelled = uri := by
  rw [decode, percentChars, h.percentOctets_encode, Text.decodeLossy_encode, String.ofList_toList]

/-- Full decoding reads every spelling of a URI as that URI, so candidates under two spellings of it
are senses of one vertex. -/
theorem decode_percent_spelled (uri : String) :
    (∀ spelled : String, Spelling uri.toList spelled.toList → percent.decode spelled = uri) ∧
    ∀ entity entity' : Entity, Spelling uri.toList entity.uri.toList →
      Spelling uri.toList entity'.uri.toList →
        (Sense.ofEntity percent entity).uri = (Sense.ofEntity percent entity').uri ∧
        ∀ store : TripleStore, store.position? (Sense.ofEntity percent entity).uri =
          store.position? (Sense.ofEntity percent entity').uri := by
  refine ⟨fun spelled h => h.decode_percent, fun entity entity' h h' => ?_⟩
  have hsame : (Sense.ofEntity percent entity).uri = (Sense.ofEntity percent entity').uri :=
    h.decode_percent.trans h'.decode_percent.symm
  exact ⟨hsame, fun store => congrArg store.position? hsame⟩

/-- A character of two octets is escaped in mixed casing, a literal digit stands behind an escape,
and a digit and the percent sign are escaped themselves. -/
theorem decode_percent_spelled_twice :
    Spelling "ã50%".toList "%c3%A350%25".toList ∧ Spelling "ã50%".toList "ã%35%30%25".toList ∧
      (Sense.ofEntity percent ⟨"%c3%A350%25", 3, .zero⟩).uri =
        (Sense.ofEntity percent ⟨"ã%35%30%25", 1, .zero⟩).uri := by
  have htilde : Escaped (String.utf8EncodeChar 'ã') ['%', 'c', '3', '%', 'A', '3'] :=
    .cons (by decide) (.cons (by decide) .nil)
  have hfive : Escaped (String.utf8EncodeChar '5') ['%', '3', '5'] := .cons (by decide) .nil
  have hzero : Escaped (String.utf8EncodeChar '0') ['%', '3', '0'] := .cons (by decide) .nil
  have hpercent : Escaped (String.utf8EncodeChar '%') ['%', '2', '5'] := .cons (by decide) .nil
  have hfirst : Spelling "ã50%".toList "%c3%A350%25".toList :=
    .escaped htilde (.literal (by decide) (.literal (by decide) (.escaped hpercent .nil)))
  have hsecond : Spelling "ã50%".toList "ã%35%30%25".toList :=
    .literal (by decide) (.escaped hfive (.escaped hzero (.escaped hpercent .nil)))
  exact ⟨hfirst, hsecond, ((decode_percent_spelled "ã50%").2 _ _ hfirst hsecond).1⟩

end Decoder
end EntityLinking
