import EntityLinking.Yaml.Scalar
import EntityLinking.Yaml.Token.Layout

/-!
# Reading YAML tokens

The text is read from left to right, one token after the other.  Anchors, aliases, tags, directives
and block scalars are not part of the format that is read here.
-/

namespace EntityLinking
namespace Yaml
namespace Layout

def readDocumentMarker (l : Layout) (t : Token) : Option Layout :=
  (l.closeBlocks (-1)).dropKey.map fun l' => { l'.take 3 t with keyAllowed := false }

def readFlowStart (l : Layout) (t : Token) : Option Layout :=
  l.markKey.map fun l' => (l'.take 1 t).enter

def readFlowEnd (l : Layout) (t : Token) : Option Layout :=
  l.dropKey.map fun l' => (l'.take 1 t).leave

def readFlowEntry (l : Layout) : Option Layout :=
  l.dropKey.map fun l' => { l'.take 1 .flowEntry with keyAllowed := true }

/-- Reads the hyphen of an item.  Outside brackets it stands where a key could. -/
def readBlockEntry (l : Layout) : Option Layout :=
  if l.inFlow || l.keyAllowed then
    (l.openBlockHere .blockSequenceStart).dropKey.map fun l' =>
      { l'.take 1 .blockEntry with keyAllowed := true }
  else none

/-- Reads the question mark before a key. -/
def readKeyMark (l : Layout) : Option Layout :=
  if l.inFlow || l.keyAllowed then
    (l.openBlockHere .blockMappingStart).dropKey.map fun l' =>
      { l'.take 1 .key with keyAllowed := !l.inFlow }
  else none

/-- Reads the colon of a value.  If a key may have begun before it, that was one; it is announced
where it began, and so is its mapping. -/
def readValueMark (l : Layout) : Option Layout :=
  match l.possible with
  | some key =>
    let announced := (l.emitAt key.position .key).openBlock key.column key.position
      .blockMappingStart
    some { announced.take 1 .value with possible := none, keyAllowed := false }
  | none =>
    if l.inFlow || l.keyAllowed then
      some { (l.openBlockHere .blockMappingStart).take 1 .value with keyAllowed := !l.inFlow }
    else none

/-- Reads a scalar in quotation marks, which may be a key. -/
def readQuoted (l : Layout)
    (read : Partial → Nat → Nat → Nat → List Char → Option (Partial × Cursor)) :
    Option Layout := do
  let l' ← l.markKey
  let p := l.place.skip
  let (s, place) ← read {} p.index p.line p.column p.rest
  return { l'.emit (.scalar s.whole false) with place, keyAllowed := false }

/-- Reads a plain scalar, which may be a key.  A key may begin after one that ran over several
lines. -/
def readPlainScalar (l : Layout) : Option Layout := do
  let l' ← l.markKey
  let (s, place) ← readPlain ⟨l.inFlow, l.indent + 1⟩ {} l.place
  return { l'.emit (.scalar s.trimmed true) with place, keyAllowed := s.pending.brokeLine }

/-- The characters that have a meaning of their own at the beginning of a scalar. -/
def isIndicator (c : Char) : Bool :=
  isFlowIndicator c || c == '#' || c == '&' || c == '*' || c == '!' || c == '|' || c == '>' ||
    c == '\'' || c == '"' || c == '%' || c == '@' || c.toNat == 0x60

/-- Whether a plain scalar may begin with a character.  Hyphen, question mark and colon begin one
only if what follows rules out their other meaning. -/
def beginsPlain (inFlow : Bool) (c : Char) (rest : List Char) : Bool :=
  if c = '-' then !(rest.head?.any isBlank)
  else if c = '?' ∨ c = ':' then !inFlow && !atSpace rest
  else !isBlank c && !isBreak c && !isIndicator c

/-- Reads the token that begins with a character which is neither space nor line end. -/
def readToken (l : Layout) (c : Char) (rest : List Char) : Option Layout :=
  if l.place.column = 0 ∧ isMarker '-' (c :: rest) then l.readDocumentMarker .documentStart
  else if l.place.column = 0 ∧ isMarker '.' (c :: rest) then l.readDocumentMarker .documentEnd
  else if c = '[' then l.readFlowStart .flowSequenceStart
  else if c = '\x7b' then l.readFlowStart .flowMappingStart
  else if c = ']' then l.readFlowEnd .flowSequenceEnd
  else if c = '\x7d' then l.readFlowEnd .flowMappingEnd
  else if c = ',' then l.readFlowEntry
  else if c = '-' ∧ atSpace rest then l.readBlockEntry
  else if c = '?' ∧ (l.inFlow ∨ atSpace rest) then l.readKeyMark
  else if c = ':' ∧ (l.inFlow ∨ atSpace rest) then l.readValueMark
  else if c = '\'' then l.readQuoted readSingleQuoted
  else if c = '"' then l.readQuoted readDoubleQuoted
  else if beginsPlain l.inFlow c rest then l.readPlainScalar
  else none

/-- Ends the text: everything that is open is closed, and no key may be owed. -/
def finish (l : Layout) : Option (List Token) :=
  (l.closeBlocks (-1)).dropKey.map fun l' => l'.tokens.toList

/-- Reads all tokens of the rest of a text of so many octets. -/
def readAll (size : Nat) (l : Layout) : Option (List Token) :=
  match l.skipSpace.expireKeys with
  | none => none
  | some here =>
    let here := here.closeBlocks here.place.column
    match here.place.rest with
    | [] => here.finish
    | c :: rest =>
      match here.readToken c rest with
      | none => none
      | some next =>
        if l.place.index < next.place.index ∧ next.place.index ≤ size then readAll size next
        else none
termination_by size - l.place.index

end Layout

def Token.ofText? (cs : List Char) : Option (List Token) :=
  if cs.all isAllowed then
    Layout.readAll (cs.foldl (fun size c => size + c.utf8Size) 0) { place := { rest := cs } }
  else none

end Yaml
end EntityLinking
