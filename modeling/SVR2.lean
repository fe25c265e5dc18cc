import SVR2.Raft.ReplicaSafety
import SVR2.Raft.Rehash
import SVR2.Raft.HashInput
import SVR2.Raft.LogRuns
import SVR2.Raft.Quorums
import SVR2.Raft.Replication
import SVR2.DB.DB2Guesses
import SVR2.DB.DB3Guesses
import SVR2.DB.RowBounds
import SVR2.DB.Transfer
import SVR2.Core.Transactions
import SVR2.Core.Create
import SVR2.Core.Sendable
import SVR2.Attestation.SEV
import SVR2.Host.Delivery
import SVR2.Merkle.Completeness
import SVR2.Peers.Connected
import SVR2.Peers.Channel
import SVR2.Core.Receiver
import SVR2.Core.Voters
import SVR2.Core.Limits
import SVR2.Core.RowBudget
import SVR2.Core.ReplicatedApply
import SVR2.Core.SenderRuns
import SVR2.Core.PushCallbacks
import SVR2.DB.LoadedRows
import SVR2.DB.HashCanonical
import SVR2.Attestation.Certificates
import SVR2.Attestation.Nitro
import SVR2.Peers.NoiseBuffers
import SVR2.Util.Base64
import SVR2.GroupClock
import SVR2.TimeoutRuns
import SVR2.Host.Dispatcher
import SVR2.Host.Framing
import SVR2.Socketwrap
import SVR2.ClientManager
import SVR2.DB.Recovery
