import EntityLinking.Candidate.Lookup
import EntityLinking.Datum
import EntityLinking.Graph.TripleStore
import EntityLinking.Resolution
import EntityLinking.Settings

/-!
# Records in data files

How mentions, entities, resolutions, settings, candidate indexes and triples are written as data.
Each reader gives `none` for a value that is not of its form.
-/

namespace EntityLinking
namespace Schema

open Datum

variable {ν : Type} [Datum ν]

def mention? (v : ν) : Option Mention := do
  let fields ← fields? ["surface_form", "context", "text_offset"] v
  return {
    surface := ← required fields "surface_form" text?
    context := ← optional fields "context" text? ""
    offset := ← required fields "text_offset" natural? }

def entity? (v : ν) : Option Entity := do
  let fields ← fields? ["uri", "support", "prior"] v
  return {
    uri := ← required fields "uri" text?
    support := ← optional fields "support" natural? 0
    prior := ← optional fields "prior" real? .zero }

def resolution? (v : ν) : Option (Resolution Binary64) := do
  let fields ← fields? ["occurrence", "entity", "score"] v
  return {
    mention := ← required fields "occurrence" mention?
    entity := ← required fields "entity" entity?
    score := ← required fields "score" real? }

def mentions? (v : ν) : Option (List Mention) :=
  list? mention? v

def filterKind? (v : ν) : Option FilterKind :=
  (choice? v).bind FilterKind.ofName?

def decoding? (v : ν) : Option Decoding :=
  (choice? v).bind Decoding.ofName?

def filterSettings? (v : ν) : Option FilterSettings := do
  let fields ← fields? ["min_support", "best_k_support", "best_k_prior", "order"] v
  let standard : FilterSettings := {}
  return {
    minSupport := ← optional fields "min_support" (unset? integer?) standard.minSupport
    bestSupport := ← optional fields "best_k_support" (unset? integer?) standard.bestSupport
    bestPrior := ← optional fields "best_k_prior" (unset? integer?) standard.bestPrior
    order := ← optional fields "order" (list? filterKind?) standard.order }

/-- The greatest distance of a graph search, in a record of its own. -/
def maxDistance? (v : ν) : Option Nat := do
  let fields ← fields? ["max_distance"] v
  let standard : Settings := {}
  optional fields "max_distance" natural? standard.maxDistance

def settings? (v : ν) : Option Settings := do
  let fields ← fields? ["filters", "uri_decoding", "selective_escapes", "subgraph"] v
  let standard : Settings := {}
  return {
    filters := ← optional fields "filters" filterSettings? standard.filters
    decoding := ← optional fields "uri_decoding" decoding? standard.decoding
    escapes := ← optional fields "selective_escapes" (list? text?) standard.escapes
    maxDistance := ← optional fields "subgraph" maxDistance? standard.maxDistance }

/-- The candidates of surface forms; of equal forms the last one counts. -/
def candidateRows? (v : ν) : Option CandidateIndex := do
  let rows ← (← members? v).mapM fun member =>
    (list? entity? member.2).map fun entities => (member.1, entities)
  return CandidateIndex.ofRows rows

def candidateIndex? (v : ν) : Option CandidateIndex := do
  let fields ← fields? ["surface_forms"] v
  optional fields "surface_forms" candidateRows? {}

/-- A triple is a list of exactly three texts. -/
def triple? (v : ν) : Option Triple := do
  match ← list? text? v with
  | [subject, predicate, object] => some ⟨subject, predicate, object⟩
  | _ => none

def tripleStore? (v : ν) : Option TripleStore := do
  let fields ← fields? ["triples"] v
  let triples ← optional fields "triples" (list? triple?) []
  return TripleStore.ofTriples triples

end Schema
end EntityLinking
