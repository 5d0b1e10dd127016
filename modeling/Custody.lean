import Custody.Main
import Custody.Operation
import Custody.Proofs.Atomicity
import Custody.Proofs.Attachment
import Custody.Proofs.Concealment
import Custody.Proofs.Confinement
import Custody.Proofs.Conservation
import Custody.Proofs.Departure
import Custody.Proofs.Dissolution
import Custody.Proofs.Extinction
import Custody.Proofs.Finality
import Custody.Proofs.Handovers
import Custody.Proofs.Interruption
import Custody.Proofs.Isolation
import Custody.Proofs.Legibility
import Custody.Proofs.Linearity
import Custody.Proofs.Nesting
import Custody.Proofs.Passage
import Custody.Proofs.Pinning
import Custody.Proofs.Refusal
import Custody.Proofs.Rendering
import Custody.Proofs.Resolution
import Custody.Proofs.Restart
import Custody.Proofs.Resumption
import Custody.Proofs.Retention
import Custody.Proofs.Reversal
import Custody.Proofs.Revocation
import Custody.Proofs.RoundTrip
import Custody.Proofs.Sameness
import Custody.Proofs.Seclusion
import Custody.Proofs.SingleOwner
import Custody.Proofs.Targets
import Custody.Proofs.Tenure
import Custody.Proofs.Tracking
import Custody.Value.Text
import Custody.Proofs.Covering
import Custody.Proofs.Settlement
import Custody.Proofs.Positions
import Custody.Proofs.Worklist
import Custody.Proofs.Duplication
import Custody.Proofs.Traversals
