import Intake.Main
import Intake.Candidate
import Intake.Refusal
import Intake.Session
import Intake.Proofs.Parts
import Intake.Proofs.Congruence
import Intake.Proofs.Events
import Intake.Proofs.Fuel
import Intake.Proofs.Truncation
import Intake.Proofs.Recovery
import Intake.Proofs.Provenance
import Intake.Proofs.Location
import Intake.Proofs.Relocation
import Intake.Proofs.CallTree
import Intake.Proofs.Outcome
import Intake.Proofs.Conformance
import Intake.Proofs.Normalisation
import Intake.Proofs.Rearrangement
import Intake.Proofs.DepthBound
import Intake.Proofs.Fusion
import Intake.Proofs.Reporting
import Intake.Proofs.Unread
import Intake.Proofs.Alternation
import Intake.Proofs.Tightness
import Intake.Proofs.Traversal
import Intake.Proofs.Pipeline
import Intake.Proofs.Nesting
import Intake.Proofs.RoundTrip
import Intake.Proofs.Attribution
import Intake.Proofs.Slashes
import Intake.Proofs.Zulu
import Intake.Proofs.Naming
import Intake.Proofs.Persistence
import Intake.Proofs.Residue
import Intake.Proofs.Interchange
