/-!
# Faults

Why a lookup, a graph, a configuration or a whole request fails, and the text that says so.  A
lookup that knows no candidates for a surface form is a fault of the lookup but none of the request;
an unreachable lookup or graph ends the request.
-/

namespace EntityLinking

/-- Why a lookup returns no candidates. -/
inductive LookupFault where
  | notFound (surface : String)
  | unavailable (reason : String)
deriving DecidableEq

def LookupFault.message : LookupFault → String
  | .notFound surface => "No candidates known for surface form '" ++ surface ++ "'"
  | .unavailable reason => "Candidate lookup unavailable: " ++ reason

/-- Why a knowledge graph, or a strategy that works on it, gives no answer. -/
inductive GraphFault where
  | unavailable (reason : String)
  | vertexNotFound (uri : String)
deriving DecidableEq

def GraphFault.message : GraphFault → String
  | .unavailable reason => "Knowledge graph unavailable: " ++ reason
  | .vertexNotFound uri => "Vertex not found for '" ++ uri ++ "'"

/-- Why a configuration, or another input file, cannot be used. -/
inductive ConfigFault where
  | unreadable (path reason : String)
  | malformed (detail : String)
  | unknownStage (name : String)
  | unknownDecoding (name : String)
  | invalidOverride (key value : String)
deriving DecidableEq

def ConfigFault.message : ConfigFault → String
  | .unreadable path reason => "Failed to read '" ++ path ++ "': " ++ reason
  | .malformed detail => "Failed to parse configuration: " ++ detail
  | .unknownStage name =>
    "Unknown filter stage '" ++ name ++
      "' (expected min_support, best_k_support or best_k_prior)"
  | .unknownDecoding name =>
    "Unknown URI decoding '" ++ name ++ "' (expected percent, selective or none)"
  | .invalidOverride key value => "Invalid value '" ++ value ++ "' for " ++ key

/-- The collaborator whose failure ends a request. -/
inductive Outage where
  | lookup (fault : LookupFault)
  | graph (fault : GraphFault)
deriving DecidableEq

def Outage.message : Outage → String
  | .lookup fault => fault.message
  | .graph fault => fault.message

/-- Why a request, or the setting up of the service, fails. -/
inductive Fault where
  | invalidInput (reason : String)
  | misconfiguration (reason : String)
  | searchInfrastructure (outage : Outage)
  | configuration (fault : ConfigFault)
deriving DecidableEq

def Fault.message : Fault → String
  | .invalidInput reason => "Invalid input: " ++ reason
  | .misconfiguration reason => "Misconfiguration: " ++ reason
  | .searchInfrastructure outage => "Search infrastructure error: " ++ outage.message
  | .configuration fault => "Configuration error: " ++ fault.message

end EntityLinking
