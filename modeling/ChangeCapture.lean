import ChangeCapture.Offsets.Desk
import ChangeCapture.Proofs.Environment
import ChangeCapture.Proofs.Lifecycle.Overlap
import ChangeCapture.Proofs.Lifecycle.Waiting
import ChangeCapture.Proofs.Offsets.Agreement
import ChangeCapture.Proofs.Offsets.Handles
import ChangeCapture.Proofs.Offsets.Isolation
import ChangeCapture.Proofs.Offsets.Pointwise
import ChangeCapture.Proofs.Offsets.ReadBack
import ChangeCapture.Proofs.Record.RoundTrip
import ChangeCapture.Proofs.Run.Abandoned
import ChangeCapture.Proofs.Run.Accord
import ChangeCapture.Proofs.Run.Balance
import ChangeCapture.Proofs.Run.Gauge
import ChangeCapture.Proofs.Run.Lag
import ChangeCapture.Proofs.Run.LastCommit
import ChangeCapture.Proofs.Run.Prefix
import ChangeCapture.Proofs.Run.Reasons
import ChangeCapture.Proofs.Run.Resume
import ChangeCapture.Proofs.Run.Retrying
import ChangeCapture.Proofs.Run.Rounds
import ChangeCapture.Proofs.Run.Solo
import ChangeCapture.Proofs.Run.Spacing
import ChangeCapture.Proofs.Storage.Failing
import ChangeCapture.Proofs.Storage.Footprint
import ChangeCapture.Proofs.Storage.Loading
import ChangeCapture.Proofs.Storage.Reopening
import ChangeCapture.Proofs.Storage.Serial
import ChangeCapture.Run.Builder
import ChangeCapture.Run.Machine
