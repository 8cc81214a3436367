import EntityLinking.Log
import EntityLinking.Log.Pattern
import EntityLinking.Number.Decimal
import EntityLinking.Number.Integer
import EntityLinking.Text.Alphanumeric
import EntityLinking.Text.Blank
import EntityLinking.Text.Octets

/-!
# Directives on the log

An operator chooses by directives which lines are shown.  A directive holds for the sources
whose names begin with its target, and sets how grave a line must be.  Of the directives
that hold for a source the most specific one decides.  Directives are written one after the
other with commas between them, such as `collective_linker=debug,warn`; one that cannot be
read is told of and left out.

The parts of a directive are found without the blanks around it, but cut at the same places of the
text with the blanks.  A reading breaks off where such a place lies within a character.
-/

namespace EntityLinking
namespace Log

inductive Threshold where
  | off
  | error
  | warn
  | info
  | debug
  | trace
deriving DecidableEq

namespace Threshold

/-- All thresholds, each with its name, in ascending order. -/
def all : List (String × Threshold) :=
  [("off", off), ("error", error), ("warn", warn), ("info", info), ("debug", debug),
    ("trace", trace)]

/-- The threshold of a number or a name of any casing. -/
def read? (cs : List Char) : Option Threshold :=
  let digits := match cs with
    | '+' :: rest => rest
    | _ => cs
  match Integer.unsigned? 10 digits with
  | some n => all[n]?.map (·.2)
  | none => all.lookup (String.ofList (cs.map Char.toLower))

/-- The threshold at which lines of a level begin to be shown. -/
def ofLevel : Level → Threshold
  | .debug => debug
  | .info => info
  | .warn => warn

def rank : Threshold → Nat
  | off => 0
  | error => 1
  | warn => 2
  | info => 3
  | debug => 4
  | trace => 5

def shows (t : Threshold) (level : Level) : Bool :=
  (ofLevel level).rank ≤ t.rank

end Threshold

/-- A directive that can hold for a line. -/
structure Directive where
  /-- What the names of the sources begin with; without it the directive holds for all of them. -/
  target : Option String := none
  /-- Whether the directive asks for lines with a message, which all of them are. -/
  asksMessage : Bool := false
  threshold : Threshold
deriving DecidableEq

/-- Why a directive cannot be read. -/
inductive DirectiveFault where
  | malformed
  | unknownThreshold
  | pattern (fault : Pattern.Fault)
deriving DecidableEq

def DirectiveFault.message : DirectiveFault → String
  | .malformed => "invalid filter directive"
  | .unknownThreshold =>
    "error parsing level filter: expected one of \"off\", \"error\", \"warn\", \"info\", " ++
      "\"debug\", \"trace\", or a number 0-5"
  | .pattern fault => "invalid field filter: " ++ fault.message

/-- The parts of a written directive, as in `target[span{field}]=threshold`. -/
structure DirectiveForm where
  target : List Char := []
  /-- What stands in brackets, and in braces there. -/
  bracket : Option (List Char × Option (List Char)) := none
  threshold : Option (List Char) := none
deriving DecidableEq

/-- A reading of a directive.  It has no outcome at all, not even a fault, where the directive would
have to be cut within a character. -/
abbrev DirectiveReader (α : Type) : Type :=
  ExceptT DirectiveFault Option α

/-- Whether some characters are a number or one of the names of what is no finite number. -/
def isNumber (cs : List Char) : Bool :=
  let unsigned := String.ofList ((Decimal.spanSign cs).2.map Char.toLower)
  (Decimal.read? cs).isSome || ["inf", "infinity", "nan"].contains unsigned

/-- What is wrong with a field.  The value that it asks for stands behind an equality sign, and is a
number or else a pattern. -/
def fieldFault? (field : List Char) : Option Pattern.Fault :=
  match field.splitOn '=' with
  | _ :: value :: _ => if isNumber value then none else Pattern.fault? value
  | _ => none

namespace DirectiveForm

/-- Whether a target may begin with a character. -/
def begins (c : Char) : Bool :=
  c = '-' || c = ':' || c = '_' || Text.isAlphanumeric c

/-- Reads what may follow brackets, an equality sign and a threshold, at a place of a whole text. -/
def readThreshold (whole : List Char) (place : Nat) (cs : List Char) :
    DirectiveReader (Option (List Char)) :=
  match cs with
  | [] => return none
  | '=' :: _ => some <$> (Text.dropOctets? (place + 1) whole : Option (List Char))
  | _ => throw .malformed

/-- Reads what follows an opening bracket at a place of a whole text. -/
def readBracket (whole target : List Char) (place : Nat) (cs : List Char) :
    DirectiveReader DirectiveForm := do
  let inSpan (c : Char) : Bool := c ≠ ']' && c ≠ '\x7b'
  let spanEnd := place + Text.octets (cs.takeWhile inSpan)
  match cs.dropWhile inSpan with
  | ']' :: rest =>
    let span ← Text.slice? place spanEnd whole
    let threshold ← readThreshold whole (spanEnd + 1) rest
    return { target, bracket := some (span, none), threshold }
  | '\x7b' :: rest =>
    let span ← Text.slice? place spanEnd whole
    let fieldEnd := spanEnd + 1 + Text.octets (rest.takeWhile (· ≠ '\x7d'))
    match rest.dropWhile (· ≠ '\x7d') with
    | [] => throw .malformed
    | _ :: behind =>
      let field ← Text.slice? (spanEnd + 1) fieldEnd whole
      if field.isEmpty then throw .malformed
      match fieldFault? field, behind with
      | some fault, _ => throw (.pattern fault)
      | none, ']' :: rest =>
        let threshold ← readThreshold whole (fieldEnd + 2) rest
        return { target, bracket := some (span, some field), threshold }
      | none, _ => throw .malformed
  | _ => throw .malformed

/-- Reads the parts of a directive.  Where they begin and end is found without the blanks around the
directive, but told of the whole text with its blanks. -/
def read (whole : List Char) : DirectiveReader DirectiveForm := do
  let bare := Text.trimChars whole
  let inTarget (c : Char) : Bool := c ≠ '=' && c ≠ '['
  let place := Text.octets (bare.takeWhile inTarget)
  if !bare.head?.any fun c => c = '[' || begins c then throw .malformed
  match bare.dropWhile inTarget with
  | '[' :: rest =>
    let target ← Text.takeOctets? place whole
    readBracket whole target (place + 1) rest
  | _ :: _ =>
    let target ← Text.takeOctets? place whole
    let threshold ← Text.dropOctets? (place + 1) whole
    return { target, threshold := some threshold }
  | [] => return { target := whole }

end DirectiveForm

namespace Directive

/-- Reads a written threshold; everything is shown if it is empty or left out. -/
def readThreshold (written : Option (List Char)) : Except DirectiveFault Threshold :=
  match written with
  | none | some [] => .ok .trace
  | some cs =>
    match Threshold.read? cs with
    | some threshold => .ok threshold
    | none => .error .unknownThreshold

/-- What a written directive says; `none` if it holds for no line.  A word alone is a threshold, or
else a target.  No line lies within a span, and no line has a field but its message. -/
def ofForm (form : DirectiveForm) : Except DirectiveFault (Option Directive) := do
  let target := if form.target.isEmpty then none else some (String.ofList form.target)
  match form.bracket, form.threshold, Threshold.read? form.target with
  | none, none, some threshold => return some { threshold }
  | none, _, _ => return some { target, threshold := ← readThreshold form.threshold }
  | some (span, field), _, _ =>
    let threshold ← readThreshold form.threshold
    if span.isEmpty ∧ field = some "message".toList then
      return some { target, asksMessage := true, threshold }
    else return none

def read (cs : List Char) : DirectiveReader (Option Directive) := do
  ofForm (← DirectiveForm.read cs)

def holdsFor (d : Directive) (source : Source) : Bool :=
  d.target.all fun target => source.name.startsWith target

/-- How specific a directive is.  The longer target counts more, and any target more than none; of
directives with targets of one length, those count more that ask for a message. -/
def specificity (d : Directive) : Nat :=
  2 * (d.target.map fun target => target.length + 1).getD 0 + d.asksMessage.toNat

/-- The most specific of some directives; of equally specific ones, the last. -/
def mostSpecific? (ds : List Directive) : Option Directive :=
  ds.foldl (fun best? d =>
    if best?.all (·.specificity ≤ d.specificity) then some d else best?) none

end Directive

def isShown (ds : List Directive) (line : Line) : Bool :=
  (Directive.mostSpecific? (ds.filter (·.holdsFor line.source))).any (·.threshold.shows line.level)

/-- The key of an environment under which directives stand. -/
def directivesKey : String :=
  "RUST_LOG"

/-- What a text says of directives. -/
structure DirectiveList where
  directives : List Directive := []
  /-- What is told of directives that cannot be read. -/
  remarks : List String := []
  /-- Whether the text was read to its end: no directive had to be cut within a character. -/
  finished : Bool := true
deriving DecidableEq

def DirectiveList.ofWritten : List (List Char) → DirectiveList
  | [] => {}
  | cs :: rest =>
    match Directive.read cs with
    | none => { finished := false }
    | some (.ok directive?) =>
      let list := ofWritten rest
      { list with directives := directive?.toList ++ list.directives }
    | some (.error fault) =>
      let list := ofWritten rest
      let remark := "ignoring `" ++ String.ofList cs ++ "`: " ++ fault.message
      { list with remarks := remark :: list.remarks }

/-- Reads the directives in a text.  The last one is none of the text's: warnings are shown where no
other one has a target that holds. -/
def readDirectives (text : String) : DirectiveList :=
  let list := DirectiveList.ofWritten ((text.toList.splitOn ',').filter (!·.isEmpty))
  { list with directives := list.directives ++ [{ threshold := .warn }] }

end Log
end EntityLinking
