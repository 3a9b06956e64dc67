import Cosign.Arrangement
import Cosign.Audit
import Cosign.Config.File
import Cosign.Proofs.Audit
import Cosign.Proofs.Authority
import Cosign.Proofs.Charges
import Cosign.Proofs.Commit
import Cosign.Proofs.Commutation
import Cosign.Proofs.Conduct
import Cosign.Proofs.Config
import Cosign.Proofs.Contents
import Cosign.Proofs.Destruction
import Cosign.Proofs.Difference
import Cosign.Proofs.Directory.Calls
import Cosign.Proofs.Directory.Chain
import Cosign.Proofs.Directory.Edit
import Cosign.Proofs.Directory.Listing
import Cosign.Proofs.Directory.Others
import Cosign.Proofs.Directory.Refinement
import Cosign.Proofs.Directory.Ring
import Cosign.Proofs.Directory.Room
import Cosign.Proofs.Directory.Run
import Cosign.Proofs.Directory.Soundness
import Cosign.Proofs.Directory.Trail
import Cosign.Proofs.Enactment
import Cosign.Proofs.Estate
import Cosign.Proofs.Findings
import Cosign.Proofs.Frame
import Cosign.Proofs.Halting
import Cosign.Proofs.Hints
import Cosign.Proofs.Holdings
import Cosign.Proofs.Inventory
import Cosign.Proofs.Judgement
import Cosign.Proofs.OwnerCount
import Cosign.Proofs.Preflight
import Cosign.Proofs.Profile
import Cosign.Proofs.Provenance
import Cosign.Proofs.Removal
import Cosign.Proofs.Reordering
import Cosign.Proofs.Replacement
import Cosign.Proofs.Replay
import Cosign.Proofs.Reserve
import Cosign.Proofs.Restoration
import Cosign.Proofs.Session
import Cosign.Proofs.Slot
import Cosign.Proofs.System
import Cosign.Proofs.Threshold
import Cosign.Proofs.Upkeep
import Cosign.Proofs.Verdict
import Cosign.Proofs.Wire.Ledger
import Cosign.Proofs.Wire.Transaction
import Cosign.Service
import Cosign.Wire.Ledger
import Cosign.Wire.Transaction
