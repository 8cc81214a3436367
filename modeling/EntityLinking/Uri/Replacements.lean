import EntityLinking.Text.Hex
import EntityLinking.Text.Octets
import EntityLinking.Text.Utf8

/-!
# Replacing chosen escapes

A table says which escapes of a URI are replaced, and by which character each.  The octets of a URI
are read once, through a window of three.  What stands between the escapes that are replaced is cut
out of the URI by its places, counted in octets; such a stretch always begins and ends with a
character, so that every URI has an answer.
-/

namespace EntityLinking

/-- The characters that replace escapes, filed under the codes of the two digits in upper case. -/
structure Replacements where
  rows : List ((Nat × Nat) × Char) := []
  /-- Each character is the ASCII character of the octet that its digits name. -/
  rows_spec : ∀ row ∈ rows, ∃ n < 0x80,
    Text.hexByte? row.1.1 row.1.2 = some n ∧ row.2 = Char.ofNat n := by simp

namespace Replacements

/-- The octet of a percent sign. -/
def percentSign : UInt8 := 0x25

/-- The digits in upper case of a listed escape and the octet that it names.  Anything but one
percent sign with two hexadecimal digits is ignored, and so is an escape of an octet that is
no character by itself. -/
def listed? (escape : String) : Option ((Nat × Nat) × Nat) :=
  match Text.encode escape.toList with
  | [sign, high, low] =>
    if sign = percentSign then
      ((Text.hexByte? high.toNat low.toNat).filter (· < 0x80)).map fun n =>
        ((Text.upperCode high.toNat, Text.upperCode low.toNat), n)
    else none
  | _ => none

theorem listed?_spec {escape : String} {digits : Nat × Nat} {n : Nat}
    (h : listed? escape = some (digits, n)) :
    n < 0x80 ∧ Text.hexByte? digits.1 digits.2 = some n := by
  unfold listed? at h
  split at h
  next sign high low hoctets =>
    split at h
    next =>
      obtain ⟨m, hm, heq⟩ := Option.map_eq_some_iff.mp h
      obtain ⟨hbyte, hlt⟩ := Option.filter_eq_some_iff.mp hm
      obtain ⟨rfl, rfl⟩ := Prod.mk.inj heq
      exact ⟨of_decide_eq_true hlt, (Text.hexByte?_upperCode _ _).trans hbyte⟩
    next => simp at h
  next => simp at h

/-- Adds a listed escape, unless the table has one with the same digits. -/
def add (t : Replacements) (escape : String) : Replacements :=
  match h : listed? escape with
  | none => t
  | some (digits, n) =>
    if (t.rows.lookup digits).isSome then t
    else
      { rows := t.rows ++ [(digits, Char.ofNat n)]
        rows_spec := by
          intro row hrow
          rcases List.mem_append.mp hrow with hrow | hrow
          · exact t.rows_spec row hrow
          · obtain rfl := List.mem_singleton.mp hrow
            exact ⟨n, (listed?_spec h).1, (listed?_spec h).2, rfl⟩ }

def ofEscapes (escapes : List String) : Replacements :=
  escapes.foldl add {}

/-- The character that replaces the escape with two digits of given codes, in either casing. -/
def find? (t : Replacements) (high low : Nat) : Option Char :=
  t.rows.lookup (Text.upperCode high, Text.upperCode low)

/-- The character that replaces the escape in a window of three octets. -/
def window? (t : Replacements) (sign high low : UInt8) : Option Char :=
  if sign = percentSign then t.find? high.toNat low.toNat else none

/-- How far a URI is rewritten. -/
structure Progress where
  /-- What is written; `none` as long as nothing had to be replaced. -/
  written : Option (List Char) := none
  /-- The place up to which the URI is written. -/
  pending : Nat := 0

/-- Rewrites a URI from a place on, behind which it has the given octets.  There is no answer if the
URI would have to be cut within a character. -/
def rewriteFrom (t : Replacements) (uri : List Char) :
    List UInt8 → Nat → Progress → Option (List Char)
  | sign :: high :: low :: rest, place, done =>
    match t.window? sign high low with
    | some c =>
      match Text.slice? done.pending place uri with
      | some stretch =>
        rewriteFrom t uri rest (place + 3)
          { written := some (done.written.getD [] ++ stretch ++ [c]), pending := place + 3 }
      | none => none
    | none => rewriteFrom t uri (high :: low :: rest) (place + 1) done
  | _, _, done =>
    match done.written with
    | none => some uri
    | some written => (Text.dropOctets? done.pending uri).map (written ++ ·)

def rewrite? (t : Replacements) (uri : List Char) : Option (List Char) :=
  t.rewriteFrom uri (Text.encode uri) 0 {}

/-- What is written for a text, character by character. -/
def replaced (t : Replacements) : List Char → List Char
  | '%' :: a :: b :: rest =>
    match t.find? a.toNat b.toNat with
    | some c => c :: replaced t rest
    | none => '%' :: replaced t (a :: b :: rest)
  | c :: rest => c :: replaced t rest
  | [] => []

theorem replaced_cons (t : Replacements) {c : Char} (hc : c ≠ '%') (rest : List Char) :
    t.replaced (c :: rest) = c :: t.replaced rest := by
  rw [replaced]
  intro a b behind hsign
  exact absurd hsign hc

/-! ## Cuts fall between characters -/

variable {t : Replacements} {uri : List Char} {done : Progress}

theorem find?_eq_some {high low : Nat} {c : Char} (h : t.find? high low = some c) :
    ∃ n < 0x80, Text.hexByte? high low = some n ∧ c = Char.ofNat n := by
  obtain ⟨before, after, hrows, -⟩ := List.lookup_eq_some_iff.mp h
  have hmem : ((Text.upperCode high, Text.upperCode low), c) ∈ t.rows := by simp [hrows]
  obtain ⟨n, hlt, hbyte, hc⟩ := t.rows_spec _ hmem
  exact ⟨n, hlt, (Text.hexByte?_upperCode _ _).symm.trans hbyte, hc⟩

/-- Only hexadecimal digits stand in an escape that is replaced. -/
theorem lt_of_find? {high low : Nat} {c : Char} (h : t.find? high low = some c) :
    high < 0x80 ∧ low < 0x80 := by
  obtain ⟨n, -, hbyte, -⟩ := find?_eq_some h
  exact Text.lt_of_hexByte? hbyte

/-- The octets of a text that begins with a percent sign and two ASCII characters. -/
theorem encode_escape {a b : Char} (ha : a.toNat < 0x80) (hb : b.toNat < 0x80) (rest : List Char) :
    Text.encode ('%' :: a :: b :: rest) =
      percentSign :: UInt8.ofNat a.toNat :: UInt8.ofNat b.toNat :: Text.encode rest := by
  rw [Text.encode_cons, Text.encode_cons, Text.encode_cons, Text.utf8EncodeChar_of_lt ha,
    Text.utf8EncodeChar_of_lt hb]
  rfl

/-- Octets of that kind come from such a text only. -/
theorem eq_escape_of_encode {cs : List Char} {high low : UInt8} {tail : List UInt8}
    (h : Text.encode cs = percentSign :: high :: low :: tail) (hhigh : high.toNat < 0x80)
    (hlow : low.toNat < 0x80) :
    ∃ a b rest, cs = '%' :: a :: b :: rest ∧ a.toNat = high.toNat ∧ b.toNat = low.toNat ∧
      Text.encode rest = tail := by
  obtain ⟨sign, cs', rfl, hsign, h'⟩ := Text.eq_cons_of_encode h (by decide)
  obtain ⟨a, cs'', rfl, ha, h''⟩ := Text.eq_cons_of_encode h' hhigh
  obtain ⟨b, rest, rfl, hb, hrest⟩ := Text.eq_cons_of_encode h'' hlow
  obtain rfl : sign = '%' := Char.toNat_inj.mp hsign
  exact ⟨a, b, rest, rfl, ha, hb, hrest⟩

/-- An octet that begins no escape to be replaced is passed over. -/
theorem rewriteFrom_cons {sign : UInt8} {tail : List UInt8} {place : Nat}
    (h : ∀ high low rest, tail = high :: low :: rest → t.window? sign high low = none) :
    t.rewriteFrom uri (sign :: tail) place done = t.rewriteFrom uri tail (place + 1) done := by
  match tail with
  | [] => rfl
  | [_] => rfl
  | high :: low :: rest => rw [rewriteFrom, h high low rest rfl]

theorem rewriteFrom_append {octets : List UInt8} (h : ∀ b ∈ octets, b ≠ percentSign)
    (tail : List UInt8) (place : Nat) :
    t.rewriteFrom uri (octets ++ tail) place done =
      t.rewriteFrom uri tail (place + octets.length) done := by
  induction octets generalizing place with
  | nil => rfl
  | cons b rest ih =>
      have hb : ∀ high low later, rest ++ tail = high :: low :: later →
          t.window? b high low = none := by
        intro high low later _
        exact if_neg (h b List.mem_cons_self)
      rw [List.cons_append, rewriteFrom_cons hb, ih fun b hb => h b (List.mem_cons_of_mem _ hb),
        List.length_cons, Nat.add_assoc, Nat.add_comm 1]

/-- No octet of another character is taken for a percent sign. -/
theorem ne_percentSign {c : Char} (hc : c ≠ '%') {b : UInt8} (hb : b ∈ String.utf8EncodeChar c) :
    b ≠ percentSign := by
  rintro rfl
  rcases Nat.lt_or_ge c.toNat 0x80 with hlt | hge
  · rw [Text.utf8EncodeChar_of_lt hlt, List.mem_singleton] at hb
    have hcode := congrArg UInt8.toNat hb
    rw [UInt8.toNat_ofNat', Nat.mod_eq_of_lt (by omega)] at hcode
    exact hc (Char.toNat_inj.mp hcode.symm)
  · exact absurd (Text.le_of_mem_utf8EncodeChar hge hb) (by decide)

/-- A character that begins no escape to be replaced is passed over as a whole. -/
theorem rewriteFrom_encode_cons {c : Char} {rest : List Char}
    (h : ∀ a b behind, c = '%' → rest = a :: b :: behind → t.find? a.toNat b.toNat = none)
    (place : Nat) :
    t.rewriteFrom uri (Text.encode (c :: rest)) place done =
      t.rewriteFrom uri (Text.encode rest) (place + c.utf8Size) done := by
  by_cases hc : c = '%'
  · subst hc
    have hkept : ∀ high low later, Text.encode rest = high :: low :: later →
        t.window? percentSign high low = none := by
      intro high low later htail
      cases hfound : t.find? high.toNat low.toNat with
      | none => rw [window?, if_pos rfl, hfound]
      | some c =>
          -- the digits are ASCII characters, hence characters of the rest
          obtain ⟨hhigh, hlow⟩ := lt_of_find? hfound
          have hwhole : Text.encode ('%' :: rest) = percentSign :: high :: low :: later :=
            congrArg (percentSign :: ·) htail
          obtain ⟨a, b, behind, heq, ha, hb, -⟩ := eq_escape_of_encode hwhole hhigh hlow
          have hnone := h a b behind rfl (List.cons.inj heq).2
          rw [ha, hb, hfound] at hnone
          simp at hnone
    exact rewriteFrom_cons hkept
  · rw [Text.encode_cons, rewriteFrom_append fun b hb => ne_percentSign hc hb,
      String.length_utf8EncodeChar]

/-- An escape that is replaced ends a stretch, which is cut out as it is. -/
theorem rewriteFrom_encode_escape {a b c : Char} (hfound : t.find? a.toNat b.toNat = some c)
    (copied stretch rest : List Char) (hdone : done.pending = Text.octets copied) :
    t.rewriteFrom (copied ++ stretch ++ '%' :: a :: b :: rest) (Text.encode ('%' :: a :: b :: rest))
        (Text.octets (copied ++ stretch)) done =
      t.rewriteFrom (copied ++ stretch ++ '%' :: a :: b :: rest) (Text.encode rest)
        (Text.octets (copied ++ stretch ++ ['%', a, b]))
        { written := some (done.written.getD [] ++ stretch ++ [c])
          pending := Text.octets (copied ++ stretch ++ ['%', a, b]) } := by
  obtain ⟨ha, hb⟩ := lt_of_find? hfound
  have hsize : ∀ {d : Char}, d.toNat < 0x80 → d.utf8Size = 1 := by
    intro d hd
    rw [← String.length_utf8EncodeChar, Text.utf8EncodeChar_of_lt hd, List.length_singleton]
  have hoctets : Text.octets (copied ++ stretch ++ ['%', a, b]) =
      Text.octets (copied ++ stretch) + 3 := by
    rw [Text.octets_append]
    simp [Text.octets, hsize ha, hsize hb, hsize (show '%'.toNat < 0x80 by decide)]
  have hwindow : t.window? percentSign (UInt8.ofNat a.toNat) (UInt8.ofNat b.toNat) = some c := by
    rw [window?, if_pos rfl, UInt8.toNat_ofNat', UInt8.toNat_ofNat', Nat.mod_eq_of_lt (by omega),
      Nat.mod_eq_of_lt (by omega), hfound]
  rw [encode_escape ha hb, rewriteFrom, hwindow, hdone, Text.slice?_octets_append, hoctets]

/-- Behind a part that is copied and a stretch that is not copied yet, the rest of a URI is
rewritten character by character. -/
theorem rewriteFrom_eq (t : Replacements) (rest : List Char) :
    ∀ (copied stretch : List Char) (done : Progress), done.pending = Text.octets copied →
      (done.written = none → copied = []) →
      t.rewriteFrom (copied ++ stretch ++ rest) (Text.encode rest)
          (Text.octets (copied ++ stretch)) done =
        some (done.written.getD [] ++ stretch ++ t.replaced rest) := by
  -- an escape moves the stretch to what is copied; any other character makes the stretch longer
  fun_induction replaced t rest with
  | case1 a b rest c hfound ih =>
      intro copied stretch done hpending hwritten
      rw [rewriteFrom_encode_escape hfound copied stretch rest hpending]
      have hrest := ih (copied ++ stretch ++ ['%', a, b]) []
        { written := some (done.written.getD [] ++ stretch ++ [c])
          pending := Text.octets (copied ++ stretch ++ ['%', a, b]) } rfl (by simp)
      simpa using hrest
  | case2 a b rest hnone ih =>
      intro copied stretch done hpending hwritten
      have hrest := ih copied (stretch ++ ['%']) done hpending hwritten
      rw [rewriteFrom_encode_cons]
      · simpa [Text.octets, Nat.add_assoc] using hrest
      · rintro a' b' behind - heq
        obtain ⟨rfl, rfl, rfl⟩ := by simpa using heq
        exact hnone
  | case3 c rest hplain ih =>
      intro copied stretch done hpending hwritten
      have hrest := ih copied (stretch ++ [c]) done hpending hwritten
      rw [rewriteFrom_encode_cons]
      · simpa [Text.octets, Nat.add_assoc] using hrest
      · intro a b behind hc heq
        exact absurd heq (hplain a b behind hc)
  | case4 =>
      intro copied stretch done hpending hwritten
      rw [Text.encode_nil, rewriteFrom, List.append_nil, List.append_nil]
      · cases hdone : done.written with
        | none => simp [hwritten hdone]
        | some written => simp [hpending]
      · simp

theorem rewrite?_eq (t : Replacements) (uri : List Char) : t.rewrite? uri = some (t.replaced uri) :=
  rewriteFrom_eq t uri [] [] {} rfl fun _ => rfl

/-- The URI with all escapes replaced that the table has. -/
def rewrite (t : Replacements) (uri : List Char) : List Char :=
  (t.rewrite? uri).get (by rw [rewrite?_eq]; rfl)

theorem rewrite_eq (t : Replacements) (uri : List Char) : t.rewrite uri = t.replaced uri := by
  simp only [rewrite, rewrite?_eq, Option.get_some]

end Replacements
end EntityLinking
