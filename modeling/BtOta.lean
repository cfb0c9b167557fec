import BtOta.Lib.EventLog
import BtOta.Lib.Descriptors
import BtOta.Lib.StopWait
import BtOta.Lib.Scan
import BtOta.Lib.Paths
import BtOta.Image
import BtOta.Link
import BtOta.Answer
import BtOta.Proofs.Completion
import BtOta.Proofs.OwnAck
import BtOta.Proofs.Verdict
import BtOta.Proofs.Mailbox
import BtOta.Proofs.Contents
import BtOta.Proofs.Duplicates
import BtOta.Proofs.Progress
import BtOta.Proofs.Exclusion
import BtOta.Proofs.ShortReports
import BtOta.Proofs.Bounds
import BtOta.Proofs.Ending
import BtOta.Proofs.Loading
import BtOta.Proofs.LostLines
import BtOta.Proofs.Owned
import BtOta.Proofs.Recorded
import BtOta.Proofs.Results
import BtOta.Proofs.Home
import BtOta.Proofs.NoTrace
import BtOta.Proofs.Checksums
import BtOta.Proofs.Dumps
import BtOta.Proofs.Percent
import BtOta.Proofs.Signs
import BtOta.Proofs.EndToEnd
import BtOta.Proofs.Delivery
import BtOta.Proofs.Chain
import BtOta.Proofs.Pace
import BtOta.Proofs.History
import BtOta.Proofs.LastClick
import BtOta.Proofs.Fetched
import BtOta.Proofs.Picked
import BtOta.Proofs.Upgraded
import BtOta.Proofs.Costs
import BtOta.Proofs.Finite
