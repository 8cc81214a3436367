import EntityLinking.Yaml.Cursor
import EntityLinking.Yaml.Token

/-!
# Layout of a YAML text

What the meaning of the next character depends on: the columns of the open block collections, the
depth of brackets, and the places where a key may have begun.  A key is recognised only when its
colon is read, so the tokens that announce it are put in afterwards, at the place where it began.
-/

namespace EntityLinking
namespace Yaml

/-- Tokens, last one first, with their number at hand. -/
structure TokenRun where
  latest : List Token := []
  count : Nat := 0
  count_eq : count = latest.length := by rfl

namespace TokenRun

def push (r : TokenRun) (t : Token) : TokenRun where
  latest := t :: r.latest
  count := r.count + 1
  count_eq := by simp [r.count_eq]

/-- Puts a token behind the first `position` ones. -/
def insert (r : TokenRun) (position : Nat) (t : Token) : TokenRun where
  latest := r.latest.insertIdx (r.count - position) t
  count := r.count + 1
  count_eq := by
    rw [r.count_eq, List.length_insertIdx, if_pos (Nat.sub_le _ _)]

/-- Enters a token so many times. -/
def pushMany (r : TokenRun) (n : Nat) (t : Token) : TokenRun where
  latest := List.replicate n t ++ r.latest
  count := n + r.count
  count_eq := by simp [r.count_eq]

def toList (r : TokenRun) : List Token :=
  r.latest.reverse

end TokenRun

/-- A place where a key may have begun. -/
structure PossibleKey where
  /-- How many tokens come before it. -/
  position : Nat
  index : Nat
  line : Nat
  column : Nat
  /-- Whether only a key can stand there. -/
  required : Bool
deriving DecidableEq

/-- The most octets between the beginning of a key and its colon. -/
def keyReach : Nat := 1024

/-- Whether a key that began at a place can still have its colon at another: on the same line,
and not too far behind. -/
def PossibleKey.reaches (key : PossibleKey) (p : Cursor) : Bool :=
  decide (p.line ≤ key.line) && decide (p.index ≤ key.index + keyReach)

/-- A text that has been read up to some place. -/
structure Layout where
  place : Cursor
  /-- The tokens read so far. -/
  tokens : TokenRun := {}
  /-- The columns of the open block collections, innermost first. -/
  columns : List Nat := []
  /-- Where a key may have begun within the innermost brackets. -/
  possible : Option PossibleKey := none
  /-- Where keys may have begun within the enclosing brackets and outside them, innermost first. -/
  enclosing : List (Option PossibleKey) := []
  /-- Whether a key may begin here. -/
  keyAllowed : Bool := true

namespace Layout

/-- The column of the innermost block collection. -/
def indent (l : Layout) : Int :=
  match l.columns with
  | [] => -1
  | column :: _ => column

def inFlow (l : Layout) : Bool :=
  !l.enclosing.isEmpty

def emit (l : Layout) (t : Token) : Layout :=
  { l with tokens := l.tokens.push t }

/-- Passes so many characters of a line and enters the token that they spell. -/
def take (l : Layout) (width : Nat) (t : Token) : Layout :=
  { l.emit t with place := l.place.skipMany width }

/-- Enters a token behind the first `position` ones. -/
def emitAt (l : Layout) (position : Nat) (t : Token) : Layout :=
  { l with tokens := l.tokens.insert position t }

/-- Opens a block collection at a column further in than the innermost one.  Brackets know no block
collections. -/
def openBlock (l : Layout) (column position : Nat) (t : Token) : Layout :=
  if !l.inFlow && decide (l.indent < column) then
    { l.emitAt position t with columns := column :: l.columns }
  else l

/-- Opens a block collection at the current place. -/
def openBlockHere (l : Layout) (t : Token) : Layout :=
  l.openBlock l.place.column l.tokens.count t

/-- Closes the block collections whose columns are not reached. -/
def closeBlocks (l : Layout) (reached : Int) : Layout :=
  if l.inFlow then l
  else
    let closed := l.columns.takeWhile fun (column : Nat) => decide (reached < column)
    { l with
      tokens := l.tokens.pushMany closed.length .blockEnd
      columns := l.columns.drop closed.length }

/-- Gives up a possible key; `none` if only a key could stand there. -/
def giveUpKey (key : Option PossibleKey) : Option (Option PossibleKey) :=
  match key with
  | some k => if k.required then none else some none
  | none => some none

/-- Gives up the possible key within the innermost brackets. -/
def dropKey (l : Layout) : Option Layout :=
  (giveUpKey l.possible).map fun possible => { l with possible }

/-- Gives up the possible keys that the current place is out of reach of. -/
def expireKeys (l : Layout) : Option Layout := do
  let keep (key : Option PossibleKey) : Option (Option PossibleKey) :=
    if key.any (!·.reaches l.place) then giveUpKey key else some key
  let possible ← keep l.possible
  let enclosing ← l.enclosing.mapM keep
  return { l with possible, enclosing }

/-- Remembers that a key may begin here.  A key is required where only the next key of the innermost
block mapping can stand. -/
def markKey (l : Layout) : Option Layout :=
  if l.keyAllowed then
    let p := l.place
    let required := !l.inFlow && decide (l.indent = p.column)
    l.dropKey.map fun l' =>
      { l' with possible := some ⟨l.tokens.count, p.index, p.line, p.column, required⟩ }
  else some l

/-- Goes inside an opening bracket. -/
def enter (l : Layout) : Layout :=
  { l with possible := none, enclosing := l.possible :: l.enclosing, keyAllowed := true }

/-- Goes outside a closing bracket. -/
def leave (l : Layout) : Layout :=
  match l.enclosing with
  | [] => { l with keyAllowed := false }
  | possible :: enclosing => { l with possible, enclosing, keyAllowed := false }

/-- Passes spaces, comments and line ends.  A tab counts as a space where no key may
begin, and a byte order mark at the beginning of a line does so too; what follows it
stands in the second column. -/
def skipSpace (l : Layout) : Layout :=
  let p := l.place
  go l.keyAllowed false p.index p.line p.column p.rest
where
  /-- Passes on, within a comment or outside one. -/
  go (keyAllowed comment : Bool) (index line column : Nat) : List Char → Layout
    | '\r' :: '\n' :: rest => go (keyAllowed || !l.inFlow) false (index + 2) (line + 1) 0 rest
    | c :: rest =>
      if isBreak c then go (keyAllowed || !l.inFlow) false (index + c.utf8Size) (line + 1) 0 rest
      else if comment || c == '#' then
        go keyAllowed true (index + c.utf8Size) line (column + 1) rest
      else if c == ' ' || (c == '\t' && (l.inFlow || !keyAllowed)) ||
          (column == 0 && isByteOrderMark c) then
        go keyAllowed false (index + c.utf8Size) line (column + 1) rest
      else { l with place := ⟨c :: rest, index, line, column⟩, keyAllowed }
    | [] => { l with place := ⟨[], index, line, column⟩, keyAllowed }

end Layout
end Yaml
end EntityLinking
