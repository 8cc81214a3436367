import EntityLinking.Fault
import EntityLinking.Text.Blank
import EntityLinking.Uri.Decoder

/-!
# Settings

Which filters run, in which order and with which thresholds, how candidate URIs are decoded, and how
far the graph is searched.  A threshold that is unset, zero or negative switches its filter off.
-/

namespace EntityLinking

inductive FilterKind where
  | minSupport
  | bestSupport
  | bestPrior
deriving DecidableEq

namespace FilterKind

/-- All kinds, in the order in which their thresholds are declared. -/
def all : List FilterKind :=
  [.minSupport, .bestSupport, .bestPrior]

def name : FilterKind → String
  | .minSupport => "min_support"
  | .bestSupport => "best_k_support"
  | .bestPrior => "best_k_prior"

def ofName? (s : String) : Option FilterKind :=
  all.find? (·.name == s)

/-- Reads a kind by its name, with blanks around it allowed. -/
def read (s : String) : Except ConfigFault FilterKind :=
  match ofName? (Text.trim s) with
  | some kind => .ok kind
  | none => .error (.unknownStage (Text.trim s))

end FilterKind

/-- The rules for decoding URIs that can be chosen. -/
inductive Decoding where
  | percent
  | selective
  | verbatim
deriving DecidableEq

namespace Decoding

def all : List Decoding :=
  [.percent, .selective, .verbatim]

def name : Decoding → String
  | .percent => "percent"
  | .selective => "selective"
  | .verbatim => "none"

/-- The name under which a rule is logged. -/
def title : Decoding → String
  | .percent => "Percent"
  | .selective => "Selective"
  | .verbatim => "Verbatim"

def ofName? (s : String) : Option Decoding :=
  all.find? (·.name == s)

/-- Reads a rule by its name, with blanks around it allowed. -/
def read (s : String) : Except ConfigFault Decoding :=
  match ofName? (Text.trim s) with
  | some decoding => .ok decoding
  | none => .error (.unknownDecoding (Text.trim s))

end Decoding

/-- Thresholds of the filters and the order in which they run. -/
structure FilterSettings where
  /-- Candidates with less support are dropped. -/
  minSupport : Option Int := none
  /-- At most so many candidates of a mention are kept, by support. -/
  bestSupport : Option Int := none
  /-- At most so many candidates of a mention are kept, by prior. -/
  bestPrior : Option Int := none
  order : List FilterKind := [.minSupport, .bestPrior, .bestSupport]
deriving DecidableEq

namespace FilterSettings

def stated (s : FilterSettings) : FilterKind → Option Int
  | .minSupport => s.minSupport
  | .bestSupport => s.bestSupport
  | .bestPrior => s.bestPrior

/-- The threshold that a kind runs with; `none` when it is switched off. -/
def threshold (s : FilterSettings) (kind : FilterKind) : Option Nat :=
  ((s.stated kind).filter (0 < ·)).map Int.toNat

end FilterSettings

structure Settings where
  filters : FilterSettings := {}
  decoding : Decoding := .percent
  /-- The escapes that selective decoding undoes; none chosen means the standard ones. -/
  escapes : List String := []
  /-- The most edges a path between two senses may have. -/
  maxDistance : Nat := 2
deriving DecidableEq

namespace Settings

def decoder (s : Settings) : Decoder :=
  match s.decoding with
  | .percent => .percent
  | .selective => .selective (if s.escapes.isEmpty then Decoder.standardEscapes else s.escapes)
  | .verbatim => .verbatim

end Settings
end EntityLinking
