/-!
# Places in a text by octets

A place in a text is told by the number of octets before it in the text's UTF-8 form.  A text can be
cut only where a character ends: `dropOctets?` and `takeOctets?` have no answer within a character,
and cut a text that was put together where it was put together.
-/

namespace EntityLinking
namespace Text

/-- The number of octets of a text. -/
def octets : List Char → Nat
  | [] => 0
  | c :: cs => c.utf8Size + octets cs

/-- What is left of a text behind so many octets. -/
def dropOctets? : Nat → List Char → Option (List Char)
  | 0, cs => some cs
  | _ + 1, [] => none
  | n + 1, c :: cs => if c.utf8Size ≤ n + 1 then dropOctets? (n + 1 - c.utf8Size) cs else none

/-- So many octets at the beginning of a text. -/
def takeOctets? : Nat → List Char → Option (List Char)
  | 0, _ => some []
  | _ + 1, [] => none
  | n + 1, c :: cs =>
    if c.utf8Size ≤ n + 1 then (takeOctets? (n + 1 - c.utf8Size) cs).map (c :: ·) else none

/-- The part of a text between two places, the first of which does not lie behind the second. -/
def slice? (start stop : Nat) (cs : List Char) : Option (List Char) :=
  (takeOctets? stop cs).bind (dropOctets? start)

@[simp]
theorem dropOctets?_octets_append (cs ds : List Char) :
    dropOctets? (octets cs) (cs ++ ds) = some ds := by
  induction cs with
  | nil => simp [octets, dropOctets?]
  | cons c cs ih =>
    obtain ⟨n, hn⟩ : ∃ n, c.utf8Size + octets cs = n + 1 :=
      Nat.exists_eq_succ_of_ne_zero (by have := c.utf8Size_pos; omega)
    simp only [octets, List.cons_append, hn, dropOctets?]
    rw [if_pos (by omega), ← hn, Nat.add_sub_cancel_left, ih]

@[simp]
theorem takeOctets?_octets_append (cs ds : List Char) :
    takeOctets? (octets cs) (cs ++ ds) = some cs := by
  induction cs with
  | nil => simp [octets, takeOctets?]
  | cons c cs ih =>
    obtain ⟨n, hn⟩ : ∃ n, c.utf8Size + octets cs = n + 1 :=
      Nat.exists_eq_succ_of_ne_zero (by have := c.utf8Size_pos; omega)
    simp only [octets, List.cons_append, hn, takeOctets?]
    rw [if_pos (by omega), ← hn, Nat.add_sub_cancel_left, ih]
    rfl

@[simp]
theorem octets_append (cs ds : List Char) : octets (cs ++ ds) = octets cs + octets ds := by
  induction cs with
  | nil => simp [octets]
  | cons c cs ih => simp [octets, ih, Nat.add_assoc]

/-- A text that was put together of three parts has the middle one between its places. -/
theorem slice?_octets_append (bs cs ds : List Char) :
    slice? (octets bs) (octets (bs ++ cs)) (bs ++ cs ++ ds) = some cs := by
  rw [slice?, takeOctets?_octets_append, Option.bind_some, dropOctets?_octets_append]

end Text
end EntityLinking
