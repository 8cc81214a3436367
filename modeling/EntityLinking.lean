import EntityLinking.Directory
import EntityLinking.Main
import EntityLinking.Proofs.Candidate.Gathering
import EntityLinking.Proofs.Search.Linking
import EntityLinking.Proofs.Table
import EntityLinking.Proofs.Service.Scores
import EntityLinking.Proofs.Service.Course
import EntityLinking.Proofs.Service.Protocol
import EntityLinking.Proofs.Graph.Centrality
import EntityLinking.Proofs.Service.Leading
import EntityLinking.Proofs.Service.Configured
import EntityLinking.Proofs.Search.Component
import EntityLinking.Proofs.Search.Invariance
import EntityLinking.Proofs.Service.Comparison
import EntityLinking.Proofs.Candidate.Selection
import EntityLinking.Proofs.Service.Correspondence
import EntityLinking.Proofs.Service.Filtering
import EntityLinking.Proofs.Search.Locality
import EntityLinking.Proofs.Service.Radius
import EntityLinking.Proofs.Service.Spelling
import EntityLinking.Proofs.Search.Seclusion
import EntityLinking.Proofs.Search.Growth
import EntityLinking.Proofs.Search.Redundancy
import EntityLinking.Proofs.Search.Faultless
import EntityLinking.Proofs.Binary64.Order
import EntityLinking.Proofs.Candidate.Precedence
import EntityLinking.Proofs.Candidate.Composition
import EntityLinking.Proofs.Candidate.History
import EntityLinking.Proofs.Service.Gathering
import EntityLinking.Proofs.Table.Assembly
import EntityLinking.Uri.Replacements
import EntityLinking.Proofs.Uri.Tokens
import EntityLinking.Proofs.Uri.Agreement
import EntityLinking.Proofs.Uri.Spelling
import EntityLinking.Proofs.Settings.Reading
import EntityLinking.Proofs.Settings.Override
import EntityLinking.Proofs.Graph.Incidence
import EntityLinking.Proofs.Search.Scoring
import EntityLinking.Proofs.Search.Queueing
