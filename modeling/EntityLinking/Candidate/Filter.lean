import EntityLinking.Candidate.Set
import EntityLinking.Log
import EntityLinking.Settings

/-!
# Candidate filters

A stage thins out the candidate list of every mention: it demands a least support, or keeps the best
few by support or by prior.  Among equals the candidate that the lookup gave first is kept, and what
is kept stays in lookup order.  No stage drops a mention, so stages may run in any order.
-/

namespace EntityLinking

inductive Stage where
  | minSupport (least : Nat)
  | bestSupport (k : Nat)
  | bestPrior (k : Nat)
deriving DecidableEq

/-- The best `k` of a list by a key, in the order of the list.  Equal keys are preferred from the
front. -/
def keepBest {α σ : Type} [Ranked σ] (key : α → σ) (k : Nat) (xs : List α) : List α :=
  if xs.length ≤ k then xs
  else
    let ranked := Ranked.sortDescending (fun x : α × Nat => key x.1) xs.zipIdx
    ((ranked.take k).mergeSort fun x y => decide (x.2 ≤ y.2)).map (·.1)

namespace Stage

def kind : Stage → FilterKind
  | minSupport _ => .minSupport
  | bestSupport _ => .bestSupport
  | bestPrior _ => .bestPrior

def name (s : Stage) : String :=
  s.kind.name

def ofKind : FilterKind → Nat → Stage
  | .minSupport, n => minSupport n
  | .bestSupport, n => bestSupport n
  | .bestPrior, n => bestPrior n

/-- What the stage keeps of one candidate list. -/
def select : Stage → List Entity → List Entity
  | minSupport least, es => es.filter fun e => decide (least ≤ e.support)
  | bestSupport k, es => keepBest Entity.support k es
  | bestPrior k, es => keepBest Entity.prior k es

def apply (s : Stage) (set : Candidates) : Candidates :=
  set.map fun entry => s.select entry.value

end Stage

/-- What is told about filters: a stage that ran, and a threshold that is set in vain. -/
inductive FilterEvent where
  | dropped (stage : String) (count before : Nat)
  | keptAll (stage : String) (count : Nat)
  | unlisted (kind : FilterKind)
deriving DecidableEq

def FilterEvent.line : FilterEvent → Log.Line
  | .dropped stage count before =>
    ⟨.info, .filtering, "Filter '" ++ stage ++ "' dropped " ++ toString count ++ " of " ++
      toString before ++ " candidates"⟩
  | .keptAll stage count =>
    ⟨.debug, .filtering, "Filter '" ++ stage ++ "' kept all " ++ toString count ++
      " candidates"⟩
  | .unlisted kind =>
    ⟨.warn, .filtering, "Filter '" ++ kind.name ++
      "' has a threshold but is not in the stage order; it will not run"⟩

/-- Stages in the order in which they run. -/
structure Pipeline where
  stages : List Stage := []
deriving DecidableEq

namespace Pipeline

/-- The stages that are switched on, in the order that the settings list. -/
def ofSettings (s : FilterSettings) : Pipeline :=
  ⟨s.order.filterMap fun kind => (s.threshold kind).map (Stage.ofKind kind)⟩

/-- A warning for each kind that has a threshold and is not listed. -/
def warnings (s : FilterSettings) : List FilterEvent :=
  (FilterKind.all.filter fun kind => (s.threshold kind).isSome && !s.order.contains kind).map
    FilterEvent.unlisted

def stageNames (p : Pipeline) : List String :=
  p.stages.map Stage.name

def apply (p : Pipeline) (set : Candidates) : Candidates :=
  p.stages.foldl (fun current stage => stage.apply current) set

/-- What the stages do to one candidate list. -/
def select (p : Pipeline) (es : List Entity) : List Entity :=
  p.stages.foldl (fun current stage => stage.select current) es

/-- A stage at work: what it was given and what it returned. -/
structure Step where
  stage : Stage
  before : Candidates
  after : Candidates

def Step.event (s : Step) : FilterEvent :=
  let dropped := s.before.total - s.after.total
  if 0 < dropped then .dropped s.stage.name dropped s.before.total
  else .keptAll s.stage.name s.before.total

/-- The stages at work on a set, in order. -/
def steps : List Stage → Candidates → List Step
  | [], _ => []
  | stage :: rest, set => ⟨stage, set, stage.apply set⟩ :: steps rest (stage.apply set)

/-- What a run of the pipeline is told about. -/
def report (p : Pipeline) (set : Candidates) : List FilterEvent :=
  (steps p.stages set).map Step.event

end Pipeline
end EntityLinking
