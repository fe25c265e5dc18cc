import SVR2.DB.Database
import SVR2.Minimums
import SVR2.Raft.Replica
import SVR2.Timeout

/-!
# Messages and state of the enclave core

`core/core.h`, `core/internal.h`, the messages of `proto/e2e.proto` and `proto/msgs.proto`, and
what the core uses of the peer and client managers.

Three things are left to the surroundings.  Attestation and encryption either succeed or fail, and
a ciphertext is the message in it.  A peer's id that does not parse is `none`.  Locks do nothing:
messages are handled one after the other.

A callback of the source is a value of an inductive type with one constructor per lambda, whose
fields are the variables that the lambda captures.
-/

namespace SVR2

open Lib

/-- `internal::TransactionID`, counted up from 1 by an enclave: no run reaches `2 ^ 64`. -/
abbrev TransactionID := Nat

/-! ### Configuration -/

/-- `enclaveconfig::RaftConfig`; the fields that only the core reads are added to those that the
    Raft replica reads. -/
structure CoreRaftConfig extends RaftConfig where
  replicaVotingTimeoutTicks : Nat
  replicaMembershipTimeoutTicks : Nat
  logMaxBytes : Nat
  replicationPipeline : Nat
deriving DecidableEq

structure EnclaveConfig where
  raft : CoreRaftConfig
  e2eTxnTimeoutTicks : Nat
  sendTimestampTicks : Nat
deriving DecidableEq

structure RaftGroupConfig where
  groupId : Nat := 0
  minVotingReplicas : Nat := 0
  maxVotingReplicas : Nat := 0
  superMajority : Nat := 0
  dbVersion : Nat := 0
  attestationTimeout : Nat := 0
  simulated : Bool := false
deriving DecidableEq

def defaultEnclaveConfig : EnclaveConfig where
  e2eTxnTimeoutTicks := 60
  sendTimestampTicks := 0
  raft :=
    { electionTicks := 32
      heartbeatTicks := 15
      replicationChunkBytes := 2 ^ 20
      replicaVotingTimeoutTicks := 60
      replicaMembershipTimeoutTicks := 300
      logMaxBytes := 2 ^ 30
      replicationPipeline := 4 }

/-- `MergeFrom` for a number: 0 is a field that is not set. -/
def mergeField (old new : Nat) : Nat := if new = 0 then old else new

def EnclaveConfig.mergeFrom (config new : EnclaveConfig) : EnclaveConfig where
  e2eTxnTimeoutTicks := mergeField config.e2eTxnTimeoutTicks new.e2eTxnTimeoutTicks
  sendTimestampTicks := mergeField config.sendTimestampTicks new.sendTimestampTicks
  raft :=
    { electionTicks := mergeField config.raft.electionTicks new.raft.electionTicks
      heartbeatTicks := mergeField config.raft.heartbeatTicks new.raft.heartbeatTicks
      replicationChunkBytes :=
        mergeField config.raft.replicationChunkBytes new.raft.replicationChunkBytes
      replicaVotingTimeoutTicks :=
        mergeField config.raft.replicaVotingTimeoutTicks new.raft.replicaVotingTimeoutTicks
      replicaMembershipTimeoutTicks :=
        mergeField config.raft.replicaMembershipTimeoutTicks new.raft.replicaMembershipTimeoutTicks
      logMaxBytes := mergeField config.raft.logMaxBytes new.raft.logMaxBytes
      replicationPipeline := mergeField config.raft.replicationPipeline new.raft.replicationPipeline }

def validateConfig (config : EnclaveConfig) : Error :=
  let raft := config.raft
  if raft.electionTicks = 0 then .configElectionTicks
  else if raft.electionTicks ≤ raft.heartbeatTicks then .configHeartbeatVsElectionTicks
  else if raft.replicationChunkBytes < 1024 then .configReplicationChunk
  else if raft.replicaVotingTimeoutTicks ≤ raft.electionTicks then .configReplicaTimeout
  else if raft.replicaMembershipTimeoutTicks ≤ raft.replicaVotingTimeoutTicks then
    .configReplicaTimeout
  else if raft.logMaxBytes < 1024 then .configLogMaxBytes
  else if raft.replicationPipeline = 0 ∨ 2 ^ 32 - 1 ≤ raft.replicationPipeline then
    .configReplicationPipeline
  else if config.e2eTxnTimeoutTicks < 1 then .configE2ETransactionTimeout
  else .ok

/-- `ValidateRaftGroupConfig`, for a database version that there is. -/
def validateRaftGroupConfig (c : RaftGroupConfig) : Error :=
  if c.maxVotingReplicas < c.minVotingReplicas then
    .coreRaftGroupConfigMinReplicasGreaterThanMaxReplicas
  else if c.minVotingReplicas < 1 then .coreRaftGroupConfigMinReplicasTooSmall
  else if c.attestationTimeout < 1 then .coreRaftGroupConfigAttestationTimeoutTooSmall
  else .ok

def raftGroupConfigsEqualExceptForGroupID (a b : RaftGroupConfig) : Bool :=
  a.minVotingReplicas = b.minVotingReplicas && a.maxVotingReplicas = b.maxVotingReplicas &&
    a.superMajority = b.superMajority && a.dbVersion = b.dbVersion &&
    a.attestationTimeout = b.attestationTimeout && a.simulated = b.simulated

/-! ### Messages between enclaves -/

/-- `e2e::ReplicateStatePush`; every sender sets `committed_membership`. -/
structure ReplicateStatePush (Hash : Type) where
  replicationId : Nat
  replicationSequence : Nat
  firstLogIdx : Nat
  entries : List (LogEntry Hash)
  dbToEnd : Bool
  rows : List Bytes
  committedMembership : ReplicaGroup
deriving DecidableEq

/-- The `oneof inner` of an `e2e::TransactionRequest`.  `raftWrite` holds the entry whose
    serialisation is sent: parsing gives it back. -/
inductive TransactionRequest (Hash : Type) where
  | ping
  | getRaft
  | replicateState (groupId replicationId : Nat)
  | replicateStatePush (push : ReplicateStatePush Hash)
  | raftMembershipRequest
  | raftVotingRequest
  | raftWrite (entry : LogEntry Hash)
  | newTimestampUnixSecs (unixSecs : Nat)
  | raftRemovalRequest
  | notSet
deriving DecidableEq

inductive TransactionResponse (Hash : Type) where
  | status (err : Error)
  | getRaft (groupConfig : RaftGroupConfig) (replicaGroup : ReplicaGroup)
  | raftMembershipResponse (loc : LogLocation Hash)
  | raftVotingResponse (loc : LogLocation Hash)
  | raftWrite (loc : LogLocation Hash)
  | notSet
deriving DecidableEq

/-- `status()`: OK where another field is set. -/
def TransactionResponse.statusOf {Hash : Type} : TransactionResponse Hash → Error
  | .status err => err
  | _ => .ok

/-- `e2e::EnclaveToEnclaveMessage`.  `connected` is never sent: the peer manager makes it up. -/
inductive E2EMessage (Hash : Type) where
  | connected
  | raftMessage (msg : RaftMessage Hash)
  | attestationUpdate
  | transactionRequest (requestId : TransactionID) (req : TransactionRequest Hash)
  | transactionResponse (requestId : TransactionID) (resp : TransactionResponse Hash)
deriving DecidableEq

/-- The `oneof inner` of a `PeerMessage`.  `garbled` is data that does not decrypt. -/
inductive PeerMessage (Hash : Type) where
  | syn
  | synack
  | data (msg : E2EMessage Hash)
  | rst
  | garbled
deriving DecidableEq

/-! ### Messages to and from the host -/

/-- The `oneof inner` of a `HostToEnclaveRequest`.  The data of a client that has finished its
    handshake is the request it decrypts to, or the error. -/
inductive HostRequest (DB : Type) [Database DB] where
  | newClient (clientAuthenticatedId : Bytes)
  | existingClient (clientId : Nat) (data : Except Error (Database.Request DB))
  | closeClient (clientId : Nat)
  | createNewRaftGroup
  | joinRaft (peerId : Option PeerId)
  | pingPeer (peerId : Option PeerId)
  | refreshAttestation (rotateClientKey : Bool)
  | requestVoting
  | getEnclaveStatus
  | metrics
  | databaseRequest (authenticatedId : Bytes) (request : Option (Database.Request DB))
  | reconfigure (config : EnclaveConfig)
  | setLogLevel (level : Nat)
  | relinquishLeadership
  | requestRemoval
  | hashes
  | resetPeerId (peerId : Option PeerId)
  | updateMinimums (update : MinimumLimits)
  | notSet

/-- `UntrustedMessage`; a peer message comes with the id of the peer. -/
inductive UntrustedMessage (Hash DB : Type) [Database DB] where
  | h2eRequest (requestId : TransactionID) (req : HostRequest DB)
  | timerTick (newTimestampUnixSecs : Nat)
  | resetPeer (peerId : Option PeerId)
  | peerMessage (src : PeerId) (msg : PeerMessage Hash)

inductive PeerState where
  | disconnected
  | connecting
  | connected
deriving DecidableEq, Repr

inductive RaftState where
  | noState
  | waitingForFirstConnection
  | loading
  | loadedRequestingMembership
  | loadedPartOfGroup
deriving DecidableEq, Repr

structure PeerReplicationStatus where
  nextIndex : Nat := 0
  matchIndex : Nat := 0
  inflightIndex : Nat := 0
  probing : Bool := false
deriving DecidableEq

/-- `EnclavePeerStatus`, without the time of the last attestation. -/
structure PeerStatus where
  peerId : PeerId
  inRaft : Bool
  isVoting : Bool
  isLeader : Bool
  connectionState : PeerState
  me : Bool
  replicationStatus : PeerReplicationStatus := {}
deriving DecidableEq

/-- The `oneof inner` of a `HostToEnclaveResponse`.  The hash of a database is the database. -/
inductive HostResponse (Hash DB : Type) [Database DB] where
  | status (err : Error)
  | getEnclaveStatusReply (raftState : RaftState) (peers : List PeerStatus)
  | newClientReply (clientId : Nat)
  | handshakeReply (clientId : Nat)
  | existingClientReply (clientId : Nat) (response : Database.Response DB)
  | metricsReply
  | hashes (db : DB) (commitIdx : Nat) (commitHashChain : Option Hash)

inductive EnclaveMessage (Hash DB : Type) [Database DB] where
  | h2eResponse (requestId : TransactionID) (resp : HostResponse Hash DB)
  | peerMessage (dst : PeerId) (msg : PeerMessage Hash)

/-! ### Callbacks -/

/-- `LogTransactionCallback`.  The entry of `client` is not captured by the source's lambda and no
    function reads it: it is the entry that the client's request asks for. -/
inductive LogTransactionCallback (Hash : Type) where
  | client (clientId : Nat) (tx : TransactionID) (entry : LogEntry Hash)
  | reply (tx : TransactionID)
  | requestMembership (tx : TransactionID) (cancel : Cancel)
  | peerRequestedRemoval (src : PeerId) (tx : TransactionID)
deriving DecidableEq

inductive E2ECallback (Hash : Type) where
  | reply (tx : TransactionID)
  | joinRaftFromFirstPeer (tx : TransactionID) (peer : PeerId)
  | requestRaftReplication (src : PeerId) (tx : TransactionID)
  | requestMembership (tx : TransactionID) (cancel : Cancel)
  | sendNextReplicationState (pushState : Nat) (lastSentTransaction : Bool)
  | raftWrite (cb : LogTransactionCallback Hash)
  | sendTimestamp
deriving DecidableEq

inductive TimeoutFn where
  | requestMembership (tx : TransactionID)
  | e2eTransaction (tx : TransactionID)
  | sendTimestampToAll
deriving DecidableEq

/-! ### State -/

structure LogTransaction (Hash : Type) where
  term : Nat
  cb : LogTransactionCallback Hash
  expectedHashChain : Option Hash
deriving DecidableEq

structure E2ECall (Hash : Type) where
  callback : E2ECallback Hash
  timeoutCancel : Cancel
  dst : PeerId
deriving DecidableEq

structure ReplicationPushState where
  logsFromIdxInclusive : Nat
  dbFromKeyExclusive : Bytes := []
  finishedSending : Bool := false
  target : PeerId
  tx : TransactionID
  replicationId : Nat
  replicationSequence : Nat := 0
  sentResponse : Bool := false
deriving DecidableEq

structure WaitingForFirstConnection where
  peer : PeerId := 0
  joinTx : TransactionID := 0
deriving DecidableEq

/-- `internal::Loading`; a null pointer is `none`.  `pushes` is not in the source and no function
    reads it: it keeps the pushes that were taken in. -/
structure Loading (Hash DB : Type) where
  groupConfig : RaftGroupConfig := {}
  replicaGroup : ReplicaGroup := []
  log : Option (Log Hash) := none
  db : Option DB := none
  mem : Option Membership := none
  loadFrom : PeerId := 0
  joinTx : TransactionID := 0
  started : Bool := false
  replicationId : Nat := 0
  replicationSequence : Nat := 0
  lexigraphicallyLargestRowLoadedIntoDb : Bytes := []
  pushes : List (ReplicateStatePush Hash) := []

/-- `internal::Loaded`; a null pointer is `none`. -/
structure Loaded (Hash DB : Type) where
  groupConfig : RaftGroupConfig := {}
  raft : Option (Raft Hash) := none
  db : Option DB := none
  dbLastAppliedLog : Nat := 0

/-- `internal::Raft`; the default values are those that `ClearState` sets. -/
structure CoreRaft (Hash DB : Type) where
  state : RaftState := .noState
  waitingForFirstConnection : WaitingForFirstConnection := {}
  loading : Loading Hash DB := {}
  loaded : Loaded Hash DB := {}

structure Peer where
  state : PeerState := .disconnected
  minimums : MinimumValues := ∅
deriving DecidableEq

structure Client where
  authenticatedId : Bytes
  handshaking : Bool := true
deriving DecidableEq

inductive RaftCall (Hash : Type) where
  | timerTick (r : Raft Hash) (o : Oracle)
  | logRequest (r : Raft Hash) (o : Oracle) (e : LogEntry Hash)
  | relinquishLeadership (r : Raft Hash) (o : Oracle)
  | receive (r : Raft Hash) (o : Oracle) (msg : RaftMessage Hash) (src : PeerId)
  | resetPeer (r : Raft Hash) (id : PeerId)
  | reconfigure (r : Raft Hash) (config : RaftConfig)
  | takeCommittedLog (r : Raft Hash)

structure ClientAnswer (Hash DB : Type) [Database DB] where
  entry : LogEntry Hash
  result : Except Error (Database.Response DB)

/-- The fields of `Core`, with the peer and client managers.  Five fields are not in the source, and
    no function looks at what the first four hold.  While a message is handled, `out` collects what
    is sent, `calls` the calls of Raft, `promotions` what `raft_` is when `PromoteRaftToLoaded`
    runs, and `answers` how the transactions of clients are answered.  `aborted` says that a `CHECK`
    has failed or a null pointer was followed, which ends the process. -/
structure Core (Hash DB : Type) [Database DB] where
  me : PeerId
  raftConfigTemplate : RaftGroupConfig
  enclaveConfig : EnclaveConfig
  minimums : MinimumLimits := ∅
  peers : OrdMap PeerId Peer := ∅
  clients : OrdMap Nat Client := ∅
  clientIdGen : Nat := 1
  raft : CoreRaft Hash DB := {}
  localTime : Nat
  timeout : Timeout TimeoutFn := {}
  outstandingLogTransactions : List (Nat × LogTransaction Hash) := []
  e2eTxnId : TransactionID := 0
  outstandingE2ETransactions : List (TransactionID × E2ECall Hash) := []
  pushStates : List ReplicationPushState := []
  out : List (EnclaveMessage Hash DB) := []
  calls : List (RaftCall Hash) := []
  promotions : List (CoreRaft Hash DB) := []
  answers : List (ClientAnswer Hash DB) := []
  aborted : Bool := false

/-- What the surroundings decide while the core handles one message: what its Raft calls meet with,
    the bytes that the random source returns, the results of attestation and encryption, the peers
    whose attestation is too old, whether the Merkle leaf of the last applied index verifies, and
    the order in which hash tables are visited. -/
structure CoreOracle where
  raft : Nat → Oracle
  randomBytesErr : Error
  randomBytes : Nat
  attest : Except Error MinimumValues
  connect : PeerId → Error
  peerEvidence : Error
  clientEvidence : Error
  clientInit : Error
  finishHandshake : Error
  encryptResponse : Nat → Error
  newKey : Bytes
  attestationTooOld : PeerId → Bool
  lastAppliedVerifies : Nat → Bool
  shuffle : {α : Type} → List α → List α
  shuffle_perm : ∀ {α : Type} (l : List α), (shuffle l).Perm l

class PushSize (Hash : Type) where
  pushByteSizeLong : ReplicateStatePush Hash → Nat

end SVR2
