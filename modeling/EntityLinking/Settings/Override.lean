import EntityLinking.Number.Integer
import EntityLinking.Settings

/-!
# Overrides from an environment

Five keys of an environment override settings.  They are applied in a fixed order; the first key
whose value cannot be read ends the run, and the settings made before it stay.
-/

namespace EntityLinking

/-- An environment: the value of a key, if the key is set. -/
abbrev Environment := String → Option String

inductive Override where
  | minSupport
  | bestSupport
  | bestPrior
  | filterOrder
  | decoding
deriving DecidableEq

namespace Override

/-- The overrides in the order in which they are applied. -/
def all : List Override :=
  [.minSupport, .bestSupport, .bestPrior, .filterOrder, .decoding]

def key : Override → String
  | .minSupport => "COLLECTIVE_MIN_SUPPORT"
  | .bestSupport => "COLLECTIVE_BEST_K_SUPPORT"
  | .bestPrior => "COLLECTIVE_BEST_K_PRIOR"
  | .filterOrder => "COLLECTIVE_FILTER_ORDER"
  | .decoding => "COLLECTIVE_URI_DECODING"

/-- Reads a threshold: a signed word with blanks around it allowed. -/
def readThreshold (key value : String) : Except ConfigFault Int :=
  match Integer.signed? 10 (Text.trimChars value.toList) with
  | some n => .ok n
  | none => .error (.invalidOverride key value)

/-- The pieces between commas, but for blank ones. -/
def orderPieces (value : String) : List String :=
  ((value.toList.splitOn ',').filter fun piece => !(Text.trimChars piece).isEmpty).map String.ofList

/-- Reads a stage order: names between commas; blank pieces are skipped. -/
def readOrder (value : String) : Except ConfigFault (List FilterKind) :=
  (orderPieces value).mapM FilterKind.read

/-- The settings with the value of one override in place. -/
def assign (o : Override) (value : String) (s : Settings) : Except ConfigFault Settings :=
  match o with
  | .minSupport =>
    (readThreshold o.key value).map fun n =>
      { s with filters := { s.filters with minSupport := some n } }
  | .bestSupport =>
    (readThreshold o.key value).map fun n =>
      { s with filters := { s.filters with bestSupport := some n } }
  | .bestPrior =>
    (readThreshold o.key value).map fun n =>
      { s with filters := { s.filters with bestPrior := some n } }
  | .filterOrder =>
    (readOrder value).map fun order => { s with filters := { s.filters with order := order } }
  | .decoding => (Decoding.read value).map fun decoding => { s with decoding := decoding }

/-- Applies overrides one after the other up to the first that fails.  The settings reached are
returned in either case. -/
def applyList (env : Environment) : List Override → Settings → Settings × Except ConfigFault Unit
  | [], s => (s, .ok ())
  | o :: rest, s =>
    match env o.key with
    | none => applyList env rest s
    | some value =>
      match o.assign value s with
      | .ok s' => applyList env rest s'
      | .error fault => (s, .error fault)

end Override

def Settings.override (s : Settings) (env : Environment) : Settings × Except ConfigFault Unit :=
  Override.applyList env Override.all s

/-- The settings after all overrides, or the fault of the first that fails. -/
def Settings.overridden (s : Settings) (env : Environment) : Except ConfigFault Settings :=
  match s.override env with
  | (s', .ok ()) => .ok s'
  | (_, .error fault) => .error fault

end EntityLinking
