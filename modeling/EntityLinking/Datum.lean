import EntityLinking.Binary64.Basic

/-!
# Data seen through what a reader asks of it

Records are read from two data formats.  The formats differ in what they accept for a number, a
record or a name, and agree in what a reader wants to know; `Datum` lists these questions.  Every
answer is `none` if a value does not fit the question.
-/

namespace EntityLinking

/-- Values of a data format. -/
class Datum (ν : Type) where
  text? : ν → Option String
  /-- The value as an unsigned word. -/
  natural? : ν → Option Nat
  /-- The value as a signed word. -/
  integer? : ν → Option Int
  real? : ν → Option Binary64
  /-- Whether the value says that there is none. -/
  isUnset : ν → Bool
  /-- The value as one of several names. -/
  choice? : ν → Option String
  items? : ν → Option (List ν)
  /-- The members of a map from texts. -/
  members? : ν → Option (List (String × ν))
  /-- The fields of a record with the given names, in declared order.  Members under other names are
  left out, and no name may occur twice. -/
  fields? : List String → ν → Option (List (String × ν))

namespace Datum

variable {ν α : Type}

/-- The members under some names; `none` if one of these names occurs twice. -/
def known? (names : List String) (members : List (String × ν)) : Option (List (String × ν)) :=
  let known := members.filter fun member => names.contains member.1
  if (known.map (·.1)).Nodup then some known else none

/-- Reads a field that must be there. -/
def required (fields : List (String × ν)) (name : String) (read : ν → Option α) : Option α :=
  (fields.lookup name).bind read

/-- Reads a field that has a value of its own when it is missing. -/
def optional (fields : List (String × ν)) (name : String) (read : ν → Option α) (missing : α) :
    Option α :=
  match fields.lookup name with
  | none => some missing
  | some v => read v

variable [Datum ν]

/-- Reads a value that may be unset. -/
def unset? (read : ν → Option α) (v : ν) : Option (Option α) :=
  if isUnset v then some none else (read v).map some

/-- Reads every item of a list. -/
def list? (read : ν → Option α) (v : ν) : Option (List α) := do
  (← items? v).mapM read

end Datum
end EntityLinking
