import EntityLinking.Settings.EnvironmentFile.Statement
import EntityLinking.Settings.Override
import EntityLinking.Text.Alphanumeric

/-!
# Environment files

A file of settings, one to a statement, that fills up an environment: what is set already stays.  A
value may be written in quotation marks, with escapes, and may name variables that are set by then.
The first malformed statement ends the file; those before it count.
-/

namespace EntityLinking
namespace EnvironmentFile

/-- The key in the name of a variable: what comes before an equality sign. -/
def keyOf (name : List Char) : String :=
  String.ofList (name.takeWhile (· ≠ '='))

/-- The value that a name stands for, empty if there is none.  A variable is kept as its key,
an equality sign and its value in one text, and a name is sought as the beginning of that
text before an equality sign: a name that goes on behind its key reaches into the value, and
stands for what is left. -/
def valueOf (env : Environment) (name : List Char) : List Char :=
  match env (keyOf name), name.dropWhile (· ≠ '=') with
  | none, _ => []
  | some value, [] => value.toList
  | some value, _ :: begun =>
    let passed := begun ++ ['=']
    if passed.isPrefixOf value.toList then value.toList.drop passed.length else []

/-- How a variable is named in a value. -/
inductive Naming where
  /-- By the letters and digits after a dollar sign. -/
  | bare
  /-- By what stands in braces after a dollar sign. -/
  | braced
deriving DecidableEq

/-- A value under way; text and names are kept last character first. -/
structure Scan where
  text : List Char := []
  quote : Option Char := none
  /-- Whether the last character was a backslash that escapes the next one. -/
  escaped : Bool := false
  /-- The name of a variable under way. -/
  naming : Option (Naming × List Char) := none
  /-- Whether a blank has ended the value. -/
  ended : Bool := false
  /-- Whether a comment has begun. -/
  comment : Bool := false

namespace Scan

/-- Puts the value of the variable named so far into the text. -/
def expand (env : Environment) (s : Scan) (name : List Char) : Scan :=
  { s with text := (valueOf env name.reverse).reverse ++ s.text, naming := none }

/-- Takes in an escaped character. -/
def takeEscaped (s : Scan) (c : Char) : Option Scan :=
  if c = 'n' then some { s with text := '\n' :: s.text, escaped := false }
  else if c = '\\' ∨ c = '\'' ∨ c = '"' ∨ c = '$' ∨ c = ' ' then
    some { s with text := c :: s.text, escaped := false }
  else none

/-- Takes in a character while a variable is being named. -/
def takeNaming (env : Environment) (s : Scan) (naming : Naming) (name : List Char) (c : Char) :
    Scan :=
  if Text.isAlphanumeric c then { s with naming := some (naming, c :: name) }
  else
    match naming with
    | .bare =>
      if c = '\x7b' ∧ name.isEmpty then { s with naming := some (.braced, []) }
      else
        let s' := s.expand env name
        if c = '$' then { s' with naming := some (.bare, []) } else { s' with text := c :: s'.text }
    | .braced =>
      if c = '\x7d' then s.expand env name else { s with naming := some (.braced, c :: name) }

def step (env : Environment) (s : Scan) (c : Char) : Option Scan :=
  if s.comment then some s
  else if s.ended then
    if c = ' ' ∨ c = '\t' then some s
    else if c = '#' then some { s with comment := true }
    else none
  else if s.escaped then s.takeEscaped c
  else if s.quote = some '\'' then
    some (if c = '\'' then { s with quote := none } else { s with text := c :: s.text })
  else
    match s.naming with
    | some (naming, name) => some (s.takeNaming env naming name c)
    | none =>
      if c = '$' then some { s with naming := some (.bare, []) }
      else if c = '\\' then some { s with escaped := true }
      else if s.quote = some c then some { s with quote := none }
      else if s.quote.isSome then some { s with text := c :: s.text }
      else if c = '\'' ∨ c = '"' then some { s with quote := some c }
      else if c = ' ' ∨ c = '\t' then some { s with ended := true }
      else some { s with text := c :: s.text }

/-- The value, if nothing is left open. -/
def value? (env : Environment) (s : Scan) : Option String :=
  if s.quote.isSome then none
  else
    match s.naming with
    | some (.braced, _) => none
    | some (.bare, name) => some (String.ofList (s.expand env name).text.reverse)
    | none => some (String.ofList s.text.reverse)

end Scan

def readValue? (env : Environment) (cs : List Char) : Option String :=
  (cs.foldlM (Scan.step env) {}).bind (Scan.value? env)

def isKeyChar (c : Char) : Bool :=
  c.isAlphanum || c == '_' || c == '.'

/-- Splits off a key, which begins with a letter or an underscore. -/
def readKey? (cs : List Char) : Option (List Char × List Char) :=
  if cs.head?.any fun c => c.isAlpha || c == '_' then
    some (cs.takeWhile isKeyChar, (cs.dropWhile isKeyChar).dropWhile Text.isBlank)
  else none

/-- Splits off a key and the equality sign after it; the word `export` before a key is passed
over. -/
def readKeyAndSign? (cs : List Char) : Option (List Char × List Char) := do
  match ← readKey? cs with
  | (key, '=' :: rest) => some (key, rest)
  | (key, rest) =>
    if key = "export".toList then
      match ← readKey? rest with
      | (key', '=' :: rest') => some (key', rest')
      | _ => none
    else none

/-- What a statement says. -/
inductive Statement where
  | blank
  | setting (key value : String)
  | malformed

/-- Whether nothing but a comment is left. -/
def isOver (cs : List Char) : Bool :=
  cs.head?.all (· == '#')

/-- Reads one statement; blanks at its ends count for nothing. -/
def readStatement (env : Environment) (cs : List Char) : Statement :=
  let body := Text.trimChars cs
  if isOver body then .blank
  else
    match readKeyAndSign? body with
    | none => .malformed
    | some (key, rest) =>
      let written := rest.dropWhile Text.isBlank
      if isOver written then .setting (String.ofList key) ""
      else
        match readValue? env written with
        | some value => .setting (String.ofList key) value
        | none => .malformed

def define (env : Environment) (key value : String) : Environment := fun k =>
  if k = key then some value else env k

/-- Whether an environment can hold a value: the character NUL ends a value there. -/
def isStorable (value : String) : Bool :=
  value.toList.all (· ≠ '\x00')

/-- Fills up an environment with the settings of some statements; `none` if a
value cannot be held. -/
def applyStatements : List (Option (List Char)) → Environment → Option Environment
  | [], env => some env
  | none :: _, env => some env
  | some cs :: rest, env =>
    match readStatement env cs with
    | .blank => applyStatements rest env
    | .malformed => some env
    | .setting key value =>
      if (env key).isSome then applyStatements rest env
      else if isStorable value then applyStatements rest (define env key value)
      else none

/-- The keys in the names that follow dollar signs.  Every key that a value names is among them. -/
def keysIn : List Char → List String
  | [] => []
  | '$' :: '\x7b' :: rest => keyOf (rest.takeWhile (· ≠ '\x7d')) :: keysIn rest
  | '$' :: rest => keyOf (rest.takeWhile Text.isAlphanumeric) :: keysIn rest
  | _ :: rest => keysIn rest

/-- Fills up an environment with the settings of a file; `none` if a value cannot be held. -/
def apply (octets : List UInt8) (env : Environment) : Option Environment :=
  applyStatements (statementsOf octets) env

end EnvironmentFile
end EntityLinking
