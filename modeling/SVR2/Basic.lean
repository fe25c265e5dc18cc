import Mathlib.Data.Fin.Basic
import Mathlib.Data.String.Basic
import SVR2.Lib.BigEndian

/-!
# Bytes, peer ids and error codes

The types that the Raft replica, the databases and the enclave core share.
-/

namespace SVR2

abbrev Byte := Fin 256

/-- A `std::string` or `bytes` field: comparison is lexicographic, as `std::string`'s. -/
abbrev Bytes := List Byte

/-- `peerid::PeerID`, 32 bytes compared lexicographically: the number they spell, big end
    first.  Nothing depends on the bound `2 ^ 256`, so every natural number is an id. -/
abbrev PeerId := Nat

abbrev Ticks := Int

/-- `util::InvalidTicks`, the largest `int64_t`. -/
def InvalidTicks : Ticks := 2 ^ 63 - 1

/-- The codes of `error::Error` that the modelled functions return. -/
inductive Error where
  | ok
  | raftAppendEntryNotLeader
  | raftMembershipAlreadyChanging
  | raftCancelingBeforeFirst
  | raftAppendWithoutTerm
  | raftNoHashChainInAppend
  | raftLogOutOfSpace
  | raftLogEntryTooLarge
  | raftSetNextOnNonemptyLog
  | raftMsgTruncated
  | raftMsgInFuture
  | raftMsgTermPromised
  | raftMsgHashMismatch
  | raftMsgWrongGroup
  | raftMsgNotPeer
  | raftMsgAppendEntryIndex
  | raftMsgLogIndexOrdering
  | raftMsgInvalidType
  | peersInvalidID
  | membershipDuplicateReplicaInReplicaGroup
  | membershipSuperMajorityLost
  | membershipEmptySet
  | membershipTooManyMembershipChanges
  | membershipNoMembershipChanges
  | membershipLeaderRemovedFromVoting
  | membershipLeaderRemovedFromAll
  | membershipVotingNotSubset
  | merkleVerifyLeaf
  | merkleVerifyNode
  | generalUnimplemented
  | coreClientNotFound
  | coreRaftState
  | coreReceivedEmptyReplicaGroup
  | coreVotingRequestedForNonMember
  | coreVotingRequestedForVotingMember
  | coreLeaderUnknown
  | coreE2ETransactionTimeout
  | coreNotEnoughVotingReplicas
  | coreHostToEnclaveTransactionID
  | coreLogTransactionCancelled
  | coreRemovedFromRaft
  | coreInvalidLogLevel
  | coreRefreshClientAttestationWithoutRaftConfig
  | coreDuplicateMembershipPeer
  | coreLeaderRemovingSelf
  | coreRemoveNonexistentMember
  | coreReplicatedLogSerialization
  | coreReplicationOutOfOrder
  | coreLogNotFoundAtCommitIndex
  | coreDeserializeHostDatabaseRequest
  | coreInvalidLogTransactionHashChain
  | coreIncorrectE2EResponseType
  | coreGroupConfigMismath
  | coreRaftGroupConfigMinReplicasGreaterThanMaxReplicas
  | coreRaftGroupConfigMinReplicasTooSmall
  | coreRaftGroupConfigAttestationTimeoutTooSmall
  | coreE2ETransactionReset
  | envRandomBytes
  | envGetEvidence
  | peersSendBeforeConnect
  | peersRecvBeforeConnect
  | peersSynAckNotConnecting
  | peersInvalidMsg
  | peersDecrypt
  | peersDataNotConnected
  | peersResetMissingPeer
  | peersHandshakeStart
  | peersHandshakeState
  | peersCopyDHState
  | peersSetRemotePublicKey
  | peersConnectWriteHandshake
  | peersConnectSerializeHandshake
  | peersAcceptParseHandshake
  | peersAcceptIDMismatch
  | peersAcceptReadHandshake
  | peersAcceptWriteHandshake
  | peersAcceptSerializeHandshake
  | peersAcceptSplit
  | peersFinishParseHandshake
  | peersFinishIDMismatch
  | peersFinishReadHandshake
  | peersFinishSplit
  | peersAttestationKeyChanged
  | peersEncrypt
  | peersEncryptSerialize
  | peersDecryptParse
  | peersNoInit
  | peersSendConnect
  | attestationNitroCborError
  | attestationNitroCoseFormat
  | attestationSEVCertsTableEntryTooLarge
  | attestationSEVCertsTableCertTooLarge
  | attestationSEVParseEndorsements
  | attestationSEVUnsupportedReport
  | attestationSEVHostDataMismatch
  | attestationSEVMeasurementMismatch
  | attestationSEVDebugEnabled
  | attestationSEVMigrationAllowed
  | clientHandshakeStart
  | clientFinishReadHandshake
  | clientDecryptState
  | clientEncryptState
  | clientTransactionCancelled
  | clientTransactionInvalid
  | clientAlreadyClosed
  | configElectionTicks
  | configHeartbeatVsElectionTicks
  | configReplicationChunk
  | configReplicaTimeout
  | configE2ETransactionTimeout
  | configLogMaxBytes
  | configReplicationPipeline
  | replicateRaftState
  | replicateGroupMismatch
  | replicateLogIndexMismatch
  | replicateReplicationID
  | replicateReplicationSequence
  | utilArrayCopyTooBig
  | utilBase64InvalidChar
  | utilBase64InvalidPadding
  | db2ClientRequestCase
  | db2ClientPinSize
  | db2ClientTriesTooHigh
  | db2ClientTriesZero
  | db2ClientDataSize
  | db2ClientBackupIDSize
  | db2ReplicationInvalidRow
  | db2ReplicationOutOfOrder
  | db2BackupIDSize
  | db2LoadedRowsAlreadyInDB
  | db3BackupIDSize
  | db3MaxTriesOutOfRange
  | db3BlindedElementSize
  | db3ToplevelRequestType
  | db3LogPrivateKeyInvalid
  | db3ReplicationInvalidRow
  | db3LoadedRowsAlreadyInDB
  | db3ReplicationOutOfOrder
  | minimumsKeyMissing
  | minimumsEntryEmpty
  | minimumsKeyEmpty
  | minimumsLimitDecreased
  | minimumsSizeMismatch
  | minimumsValueTooLow
  | minimumsValueSize
  | socketReadEOF
  | socketReadTooBig
  | socketParseIncoming
  | socketWriteNotInitialized
  | socketWriteTooBig
  | clientHandshakeState
  | clientCopyDHState
  | clientExtractPublicKey
  | peersNewKeyPublic
  -- not a code of the source: a `CHECK` failed while the error was computed
  | checkFailed
deriving DecidableEq, Repr

/-- `StringToByteArray<N>`: a shorter string is filled up with zeros. -/
def stringToByteArray (n : Nat) (s : Bytes) : Except Error Bytes :=
  if n < s.length then .error .utilArrayCopyTooBig
  else .ok (s ++ List.replicate (n - s.length) 0)

theorem stringToByteArray_of_length {n : Nat} {b : Bytes} (h : b.length = n) :
    stringToByteArray n b = .ok b := by
  rw [stringToByteArray, h, if_neg (lt_irrefl n), Nat.sub_self, List.replicate_zero,
    List.append_nil]

end SVR2
