import EntityLinking.Json.Token

/-!
# Reading JSON values

The tokens of a text are taken in one after the other.  What is still open is kept as a stack of
frames, innermost first, together with what the next token may be.
-/

namespace EntityLinking
namespace Json

/-- The members of an object that have been read, last one first; `none` if one of their names is no
text. -/
abbrev Members := Option (List (String × Value))

/-- An array or object of which the end has not been read; items are kept last one first. -/
inductive Frame where
  | array (items : List Value)
  | object (members : Members)
  /-- An object in which a member's name has been read; `none` if the name is no text. -/
  | member (members : Members) (name : Option String)

/-- What may come next. -/
inductive Expected where
  | value
  /-- A value, or the end of the array that has just begun. -/
  | firstItem
  | name
  /-- A name, or the end of the object that has just begun. -/
  | firstName
  | colon
  /-- A comma, or the end of the innermost array or object. -/
  | comma
  /-- Nothing: the value is complete. -/
  | nothing (v : Value)

structure Reading where
  stack : List Frame
  expected : Expected

namespace Reading

def start : Reading :=
  ⟨[], .value⟩

/-- Takes in a complete value. -/
def deliver (v : Value) : List Frame → Option Reading
  | [] => some ⟨[], .nothing v⟩
  | .array items :: stack => some ⟨.array (v :: items) :: stack, .comma⟩
  | .member members name :: stack =>
    some ⟨.object (do return (← name, v) :: (← members)) :: stack, .comma⟩
  | .object _ :: _ => none

/-- Takes in the beginning of a value. -/
def beginValue (stack : List Frame) : Token → Option Reading
  | .scalar v => deliver v stack
  | .punctuation '[' => some ⟨.array [] :: stack, .firstItem⟩
  | .punctuation '\x7b' => some ⟨.object (some []) :: stack, .firstName⟩
  | .punctuation _ => none

/-- Takes in the end of the innermost array or object. -/
def close (c : Char) : List Frame → Option Reading
  | .array items :: stack => if c = ']' then deliver (.array items.reverse) stack else none
  | .object members :: stack =>
    if c = '\x7d' then
      deliver ((members.map fun ms => Value.object ms.reverse).getD .unpaired) stack
    else none
  | _ => none

/-- The name that a token writes, `none` within if it is no text. -/
def name? : Token → Option (Option String)
  | .scalar (.text name) => some (some name)
  | .scalar .unpaired => some none
  | _ => none

/-- Takes in a member's name. -/
def takeName (stack : List Frame) (t : Token) : Option Reading :=
  match stack with
  | .object members :: outer =>
    (name? t).map fun name => ⟨.member members name :: outer, .colon⟩
  | _ => none

def step (r : Reading) (t : Token) : Option Reading :=
  match r.expected with
  | .value => beginValue r.stack t
  | .firstItem =>
    match t with
    | .punctuation ']' => close ']' r.stack
    | _ => beginValue r.stack t
  | .name => takeName r.stack t
  | .firstName =>
    match t with
    | .punctuation '\x7d' => close '\x7d' r.stack
    | _ => takeName r.stack t
  | .colon =>
    match t with
    | .punctuation ':' => some ⟨r.stack, .value⟩
    | _ => none
  | .comma =>
    match t with
    | .punctuation ',' =>
      match r.stack with
      | .array _ :: _ => some ⟨r.stack, .value⟩
      | .object _ :: _ => some ⟨r.stack, .name⟩
      | _ => none
    | .punctuation c => close c r.stack
    | .scalar _ => none
  | .nothing _ => none

/-- The value that has been read, if it is complete. -/
def result? (r : Reading) : Option Value :=
  match r.expected with
  | .nothing v => some v
  | _ => none

end Reading

def Value.ofTokens? (ts : List Token) : Option Value :=
  (ts.foldlM Reading.step Reading.start).bind Reading.result?

def Value.read? (s : String) : Option Value :=
  (Token.ofText? s.toList).bind Value.ofTokens?

end Json
end EntityLinking
