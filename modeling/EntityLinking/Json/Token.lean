import EntityLinking.Json.Value
import EntityLinking.Text.Hex

/-!
# JSON tokens

A JSON text is cut into punctuation, strings, numerals and the three literal names.  Between tokens
spaces, tabs and line ends are skipped.
-/

namespace EntityLinking
namespace Json

inductive Token where
  /-- One of the six structural characters. -/
  | punctuation (c : Char)
  | scalar (v : Value)

namespace Token

/-- What a string literal spells: characters, and code units from `\u` escapes. -/
inductive Piece where
  | char (c : Char)
  | unit (n : Nat)

/-- The character that a one-letter escape stands for. -/
def escaped? : Char → Option Char
  | '"' => some '"'
  | '\\' => some '\\'
  | '/' => some '/'
  | 'b' => some '\x08'
  | 'f' => some '\x0c'
  | 'n' => some '\n'
  | 'r' => some '\r'
  | 't' => some '\t'
  | _ => none

/-- Reads a string after its opening quote, up to and with the closing one. -/
def readPieces (acc : List Piece) : List Char → Option (List Piece × List Char)
  | [] => none
  | '"' :: rest => some (acc.reverse, rest)
  | '\\' :: 'u' :: a :: b :: c :: d :: rest =>
    match Text.hexNumber? [a, b, c, d] with
    | some n => readPieces (.unit n :: acc) rest
    | none => none
  | '\\' :: e :: rest =>
    match escaped? e with
    | some c => readPieces (.char c :: acc) rest
    | none => none
  | c :: rest => if c.toNat < 0x20 ∨ c = '\\' then none else readPieces (.char c :: acc) rest

theorem readPieces_length_lt (acc : List Piece) (cs : List Char) (ps : List Piece)
    (rest : List Char) (h : readPieces acc cs = some (ps, rest)) : rest.length < cs.length := by
  fun_induction readPieces acc cs with
  | case1 => simp at h
  | case2 acc rest' =>
    simp only [Option.some.injEq, Prod.mk.injEq] at h
    simp [← h.2]
  | case3 acc a b c d rest' n _ ih =>
    have := ih h
    simp only [List.length_cons]
    omega
  | case4 => simp at h
  | case5 acc e rest' _ c _ ih =>
    have := ih h
    simp only [List.length_cons]
    omega
  | case6 => simp at h
  | case7 => simp at h
  | case8 acc c rest' _ _ _ _ ih =>
    have := ih h
    simp only [List.length_cons]
    omega

/-- Joins surrogate pairs; `none` if half of a pair stands alone. -/
def join : List Piece → Option (List Char)
  | [] => some []
  | .char c :: rest => (join rest).map (c :: ·)
  | .unit high :: .unit low :: rest =>
    if 0xD800 ≤ high ∧ high < 0xDC00 then
      if 0xDC00 ≤ low ∧ low < 0xE000 then
        (join rest).map (Char.ofNat (0x10000 + (high - 0xD800) * 0x400 + (low - 0xDC00)) :: ·)
      else none
    else if 0xDC00 ≤ high ∧ high < 0xE000 then none
    else (join (.unit low :: rest)).map (Char.ofNat high :: ·)
  | .unit n :: rest =>
    if 0xD800 ≤ n ∧ n < 0xE000 then none else (join rest).map (Char.ofNat n :: ·)

/-- The value of a string literal. -/
def textValue (ps : List Piece) : Value :=
  match join ps with
  | some cs => .text (String.ofList cs)
  | none => .unpaired

/-- Whether a run of characters is an unsigned integer numeral: no leading zero. -/
def isWhole : List Char → Bool
  | [] => false
  | ['0'] => true
  | c :: rest => c.isDigit && c != '0' && rest.all Char.isDigit

/-- Whether the rest of a numeral is an exponent or nothing. -/
def isExponentPart : List Char → Bool
  | [] => true
  | c :: rest =>
    (c == 'e' || c == 'E') &&
      match rest with
      | '+' :: ds => !ds.isEmpty && ds.all Char.isDigit
      | '-' :: ds => !ds.isEmpty && ds.all Char.isDigit
      | ds => !ds.isEmpty && ds.all Char.isDigit

/-- Whether a run of characters is a JSON numeral. -/
def isNumeral (cs : List Char) : Bool :=
  let unsigned := match cs with
    | '-' :: rest => rest
    | rest => rest
  let whole := unsigned.takeWhile Char.isDigit
  isWhole whole &&
    match unsigned.dropWhile Char.isDigit with
    | '.' :: rest =>
      !(rest.takeWhile Char.isDigit).isEmpty && isExponentPart (rest.dropWhile Char.isDigit)
    | rest => isExponentPart rest

/-- The value of a word: a literal name or a numeral. -/
def wordValue? (cs : List Char) : Option Value :=
  if cs = ['n', 'u', 'l', 'l'] then some .null
  else if cs = ['t', 'r', 'u', 'e'] then some (.boolean true)
  else if cs = ['f', 'a', 'l', 's', 'e'] then some (.boolean false)
  else if isNumeral cs then some (.number cs)
  else none

def isSpace (c : Char) : Bool :=
  c == ' ' || c == '\t' || c == '\n' || c == '\r'

/-- The characters that words consist of. -/
def isWordChar (c : Char) : Bool :=
  c.isAlphanum || c == '+' || c == '-' || c == '.'

def isPunctuation (c : Char) : Bool :=
  c == '[' || c == ']' || c == '\x7b' || c == '\x7d' || c == ',' || c == ':'

theorem length_dropWhile_le (p : Char → Bool) (cs : List Char) :
    (cs.dropWhile p).length ≤ cs.length :=
  (List.dropWhile_suffix p).length_le

/-- Cuts a text into tokens, which are collected with the last one first. -/
def cut (acc : List Token) (cs : List Char) : Option (List Token) :=
  match cs with
  | [] => some acc.reverse
  | c :: rest =>
    if isSpace c then cut acc rest
    else if isPunctuation c then cut (.punctuation c :: acc) rest
    else if c = '"' then
      match _h : readPieces [] rest with
      | some (ps, rest') => cut (.scalar (textValue ps) :: acc) rest'
      | none => none
    else if isWordChar c then
      match wordValue? (c :: rest.takeWhile isWordChar) with
      | some v => cut (.scalar v :: acc) (rest.dropWhile isWordChar)
      | none => none
    else none
termination_by cs.length
decreasing_by
  · simp
  · simp
  · have := readPieces_length_lt _ _ _ _ ‹_›
    simp only [List.length_cons]
    omega
  · have := length_dropWhile_le isWordChar rest
    simp only [List.length_cons]
    omega

def ofText? (cs : List Char) : Option (List Token) :=
  cut [] cs

end Token
end Json
end EntityLinking
