import SVR2.Core.State

/-!
# The enclave core

`core/core.cc`, with the calls it makes into `peers/peers.cc` and `client/client.cc`.  The
functions that end in callbacks come after the callbacks' own, so their order differs from the
source's.  A function of the source that changes the core is a function to the new core; where it
also returns something, to the pair.
-/

namespace SVR2

open Lib

variable {Hash DB : Type}

/-! ### What the core reads of a Raft replica -/

def Raft.leaderId (r : Raft Hash) : Option PeerId :=
  match r.role with
  | .follower => r.follower.leader
  | .candidate => none
  | .leader => some r.me

def Raft.isLeader (r : Raft Hash) : Bool := r.role = .leader

def Raft.lastSeenTicks (r : Raft Hash) (follower : PeerId) : Ticks :=
  if r.role ≠ .leader then InvalidTicks
  else match r.leader.followers.find? follower with
    | none => InvalidTicks
    | some f => f.lastSeenTicks

def Raft.followerReplicationStatus (r : Raft Hash) (follower : PeerId) : PeerReplicationStatus :=
  match r.leader.followers.find? follower with
  | none => {}
  | some f =>
    { nextIndex := f.nextIdx
      matchIndex := f.matchIdx
      inflightIndex := f.inflight.getD 0
      probing := f.sendProbe }

def containsMe (me : PeerId) (group : ReplicaGroup) : Bool :=
  group.any fun replica => replica.peerId = some me

/-- What `HandleLogTransactionsForRaftLog` tells the callback of a transaction. -/
def LogTransaction.outcome [DecidableEq Hash] (t : LogTransaction Hash) (entry : LogEntry Hash) :
    Error :=
  if t.term ≠ entry.term then .coreLogTransactionCancelled
  else if t.expectedHashChain.isSome ∧ t.expectedHashChain ≠ entry.hashChain then
    .coreInvalidLogTransactionHashChain
  else .ok

namespace Core

variable [Database DB]

/-! ### Messages out -/

def check (c : Core Hash DB) (b : Bool) : Core Hash DB := { c with aborted := c.aborted || !b }

/-- A null pointer is followed, or a `CHECK` fails. -/
def abort (c : Core Hash DB) : Core Hash DB := c.check false

/-- `sender::Send`: nothing leaves a process that has ended. -/
def send (c : Core Hash DB) (msg : EnclaveMessage Hash DB) : Core Hash DB :=
  { c with out := if c.aborted then c.out else c.out ++ [msg] }

def replyWithError (c : Core Hash DB) (tx : TransactionID) (err : Error) : Core Hash DB :=
  c.send (.h2eResponse tx (.status err))

/-! ### The peer manager -/

def peerState (c : Core Hash DB) (id : PeerId) : PeerState :=
  ((c.peers.find? id).map (·.state)).getD .disconnected

def setPeer (c : Core Hash DB) (id : PeerId) (peer : Peer) : Core Hash DB :=
  { c with peers := c.peers.insert id peer }

def sendRst (c : Core Hash DB) (id : PeerId) : Core Hash DB := c.send (.peerMessage id .rst)

def internalDisconnect (c : Core Hash DB) (id : PeerId) : Core Hash DB := c.setPeer id {}

def disconnect (c : Core Hash DB) (id : PeerId) : Core Hash DB :=
  (c.internalDisconnect id).sendRst id

def connectedPeers (c : Core Hash DB) : List (PeerId × Peer) :=
  c.peers.toList.filter fun e => e.2.state = .connected

def connectToPeer (c : Core Hash DB) (o : CoreOracle) (dst : PeerId) : Core Hash DB × Error :=
  match o.connect dst with
  | .ok => ((c.setPeer dst { state := .connecting }).send (.peerMessage dst .syn), .ok)
  | err => (c.internalDisconnect dst, err)

def maybeConnectToPeer (c : Core Hash DB) (o : CoreOracle) (dst : PeerId) :
    Core Hash DB × Error :=
  match c.peerState dst with
  | .disconnected => c.connectToPeer o dst
  | _ => (c, .ok)

def peerManagerResetPeer (c : Core Hash DB) (id : PeerId) : Core Hash DB × Error :=
  match c.peers.find? id with
  | none => (c.sendRst id, .peersResetMissingPeer)
  | some _ => (c.disconnect id, .ok)

def sendToPeer (c : Core Hash DB) (dst : PeerId) (msg : E2EMessage Hash) : Core Hash DB × Error :=
  match c.peers.find? dst with
  | none => (c.sendRst dst, .peersSendBeforeConnect)
  | some peer =>
    if peer.state ≠ .connected then (c, .peersSendBeforeConnect)
    else (c.send (.peerMessage dst (.data msg)), .ok)

/-- `Peer::Accept` and `Peer::FinishConnection`, from the attestation on: its result is checked and
    the connection stands, or the error is returned. -/
def finishConnection (c : Core Hash DB) (o : CoreOracle) (src : PeerId) : Core Hash DB × Error :=
  match o.attest with
  | .error err => (c, err)
  | .ok values =>
    match Minimums.checkValues c.minimums values with
    | .ok => (c.setPeer src { state := .connected, minimums := values }, .ok)
    | err => (c, err)

/-- `PeerManager::RecvFromPeer`, with `Peer::Recv`: also returns the message that was decoded. -/
def recvFromPeer (c : Core Hash DB) (o : CoreOracle) (src : PeerId) :
    PeerMessage Hash → Core Hash DB × Error × Option (E2EMessage Hash)
  | .syn =>
    match (c.internalDisconnect src).finishConnection o src with
    | (c, .ok) => (c.send (.peerMessage src .synack), .ok, some .connected)
    | (c, err) => (c, err, none)
  | .synack =>
    match c.peers.find? src with
    | none => (c.sendRst src, .peersRecvBeforeConnect, none)
    | some peer =>
      if peer.state ≠ .connecting then (c.disconnect src, .peersSynAckNotConnecting, none)
      else match c.finishConnection o src with
        | (c, .ok) => (c, .ok, some .connected)
        | (c, err) => (c.disconnect src, err, none)
  | .data msg =>
    match c.peers.find? src with
    | none => (c.sendRst src, .peersRecvBeforeConnect, none)
    | some peer =>
      if peer.state ≠ .connected then (c, .peersDataNotConnected, none)
      else match msg, o.attest with
        | .attestationUpdate, .ok values =>
          (c.setPeer src { peer with minimums := values }, .ok, none)
        | .attestationUpdate, .error err => (c.disconnect src, err, none)
        | msg, _ => (c, .ok, some msg)
  | .garbled =>
    match c.peers.find? src with
    | none => (c.sendRst src, .peersRecvBeforeConnect, none)
    | some peer =>
      if peer.state ≠ .connected then (c, .peersDataNotConnected, none)
      else (c.disconnect src, .peersDecrypt, none)
  | .rst =>
    match c.peers.find? src with
    | none => (c, .peersRecvBeforeConnect, none)
    | some _ => (c.internalDisconnect src, .ok, none)

def setPeerAttestationTimestamp (c : Core Hash DB) (o : CoreOracle) : Core Hash DB :=
  (c.connectedPeers.filter fun e => o.attestationTooOld e.1).foldl (fun c e => c.disconnect e.1) c

def minimumsUpdated (c : Core Hash DB) : Core Hash DB :=
  (c.connectedPeers.filter fun e => Minimums.checkValues c.minimums e.2.minimums ≠ .ok).foldl
    (fun c e => c.disconnect e.1) c

def checkPeerMinimums (c : Core Hash DB) (toCheck : MinimumLimits) : Error :=
  Minimums.firstError (c.connectedPeers.map fun e => Minimums.checkValues toCheck e.2.minimums)

def peerManagerRefreshAttestation (c : Core Hash DB) (o : CoreOracle) : Core Hash DB × Error :=
  match o.peerEvidence with
  | .ok => (c.connectedPeers.foldl (fun c e => (c.sendToPeer e.1 .attestationUpdate).1) c, .ok)
  | err => (c, err)

/-! ### The client manager -/

def removeClient (c : Core Hash DB) (id : Nat) : Core Hash DB :=
  { c with clients := c.clients.erase id }

/-! ### Small state changes -/

/-- Replace the Raft object.  A `CHECK` that has failed in it ends the process. -/
def setRaft (c : Core Hash DB) (r : Raft Hash) : Core Hash DB :=
  { c with
    raft := { c.raft with loaded := { c.raft.loaded with raft := some r } }
    aborted := c.aborted || r.aborted }

/-- The Raft object is `r` after a call. -/
def called (c : Core Hash DB) (call : RaftCall Hash) (r : Raft Hash) : Core Hash DB :=
  { c.setRaft r with calls := c.calls ++ [call] }

def setLoading (c : Core Hash DB) (loading : Loading Hash DB) : Core Hash DB :=
  { c with raft := { c.raft with loading := loading } }

def setRaftState (c : Core Hash DB) (state : RaftState) : Core Hash DB :=
  { c with raft := { c.raft with state := state } }

def setPushState (c : Core Hash DB) (k : Nat) (ps : ReplicationPushState) : Core Hash DB :=
  { c with pushStates := c.pushStates.set k ps }

def setTimeout (c : Core Hash DB) (ticksFromNow : Nat) (fn : TimeoutFn) : Core Hash DB × Cancel :=
  let (timeout, tc) := c.timeout.setTimeout ticksFromNow fn
  ({ c.check (ticksFromNow ≠ 0) with timeout := timeout }, tc)

def cancelTimeout (c : Core Hash DB) (tc : Cancel) : Core Hash DB :=
  { c with timeout := c.timeout.cancelTimeout tc }

def sendE2EError (c : Core Hash DB) (dst : PeerId) (id : TransactionID) (err : Error) :
    Core Hash DB × Error :=
  c.sendToPeer dst (.transactionResponse id (.status err))

def addLogTransaction (c : Core Hash DB) (loc : LogLocation Hash)
    (cb : LogTransactionCallback Hash) : Core Hash DB :=
  { c with outstandingLogTransactions :=
      c.outstandingLogTransactions ++ [(loc.idx, ⟨loc.term, cb, loc.hashChain⟩)] }

/-! ### Log transaction callbacks -/

def noteAnswer (c : Core Hash DB) (entry : LogEntry Hash)
    (result : Except Error (Database.Response DB)) : Core Hash DB :=
  { c with answers := c.answers ++ [⟨entry, result⟩] }

def closeClientWith (c : Core Hash DB) (clientId : Nat) (tx : TransactionID)
    (entry : LogEntry Hash) (err : Error) : Core Hash DB :=
  ((c.noteAnswer entry (.error err)).replyWithError tx err).removeClient clientId

def clientLogTransaction (c : Core Hash DB) (o : CoreOracle) (clientId : Nat) (tx : TransactionID)
    (entry : LogEntry Hash) (err : Error) (response : Option (Database.Response DB)) :
    Core Hash DB :=
  if err = .coreLogTransactionCancelled then
    c.closeClientWith clientId tx entry .clientTransactionCancelled
  else if err ≠ .ok then c.closeClientWith clientId tx entry err
  else match response with
    | none => c.closeClientWith clientId tx entry .clientTransactionInvalid
    | some response =>
      if clientId ∉ c.clients then c.closeClientWith clientId tx entry .clientAlreadyClosed
      else match o.encryptResponse clientId with
        | .ok => (c.noteAnswer entry (.ok response)).send
            (.h2eResponse tx (.existingClientReply clientId response))
        | err => c.closeClientWith clientId tx entry err

def logTransactionCallback (c : Core Hash DB) (o : CoreOracle) (err : Error)
    (response : Option (Database.Response DB)) : LogTransactionCallback Hash → Core Hash DB
  | .client clientId tx entry => c.clientLogTransaction o clientId tx entry err response
  | .reply tx => c.replyWithError tx err
  | .requestMembership tx cancel =>
    (if err = .ok then c.cancelTimeout cancel else c).replyWithError tx err
  | .peerRequestedRemoval src tx => (c.sendE2EError src tx err).1

/-! ### Applying committed entries -/

def raftSendMessages (c : Core Hash DB) : Core Hash DB :=
  match c.raft.loaded.raft with
  | none => c.abort
  | some r =>
    r.sendableMessages.foldl (fun c m =>
      (match m.dst with
        | some dst => [dst]
        | none => r.peers).foldl (fun c peer => (c.sendToPeer peer (.raftMessage m.message)).1) c)
      (c.setRaft { r with sendableMessages := [] })

def handleRaftMembershipChange (c : Core Hash DB) (o : CoreOracle)
    (membershipChange : ReplicaGroup) : Core Hash DB :=
  match c.raft.state with
  | .loadedPartOfGroup =>
    if containsMe c.me membershipChange then c
    else
      let txns := o.shuffle c.outstandingLogTransactions
      let c := c.setRaftState .loadedRequestingMembership
      txns.foldl (fun c t => c.logTransactionCallback o .coreRemovedFromRaft none t.2.cb)
        { c with outstandingLogTransactions := [] }
  | .loadedRequestingMembership =>
    if containsMe c.me membershipChange then c.setRaftState .loadedPartOfGroup else c
  | _ => c.abort

def handleRaftMinimumsChange (c : Core Hash DB) (minimums : MinimumLimits) : Core Hash DB :=
  let (limits, err) := Minimums.updateLimits c.minimums minimums
  let c := { c with minimums := limits }
  (c.check (err = .ok)).minimumsUpdated

def raftApplyLogToDatabase (c : Core Hash DB) (data : Bytes) :
    Core Hash DB × Option (Database.Response DB) :=
  match (@Database.wireLog DB _).parse data, c.raft.loaded.db with
  | _, none => (c.abort, none)
  | none, _ => (c, none)
  | some clientLog, some db =>
    match Database.validateClientLog clientLog with
    | .ok =>
      let (db, response) := Database.run db clientLog
      ({ c with raft := { c.raft with loaded := { c.raft.loaded with db := some db } } },
        some response)
    | _ => (c, none)

def handleLogTransactionsForRaftLog [DecidableEq Hash] (c : Core Hash DB) (o : CoreOracle)
    (idx : Nat) (entry : LogEntry Hash) (response : Option (Database.Response DB)) :
    Core Hash DB :=
  let txns := o.shuffle (c.outstandingLogTransactions.filter fun t => t.1 = idx)
  txns.foldl (fun c t =>
      let err := t.2.outcome entry
      c.logTransactionCallback o err (if err = .ok then response else none) t.2.cb)
    { c with outstandingLogTransactions :=
        c.outstandingLogTransactions.filter fun t => t.1 ≠ idx }

def updateLastAppliedLog (c : Core Hash DB) (idx : Nat) : Core Hash DB :=
  { c with raft := { c.raft with loaded := { c.raft.loaded with dbLastAppliedLog := idx } } }

/-- The switch of `RaftHandleCommittedLogs` on the kind of entry. -/
def applyCommittedEntry (c : Core Hash DB) (o : CoreOracle) (inner : Inner) :
    Core Hash DB × Option (Database.Response DB) :=
  match inner with
  | .membershipChange g => (c.handleRaftMembershipChange o g, none)
  | .data d => c.raftApplyLogToDatabase d
  | .minimums m => (c.handleRaftMinimumsChange m, none)
  | .notSet => (c, none)

/-- One turn of the loop of `RaftHandleCommittedLogs`, for an entry that was taken. -/
def raftHandleCommittedLog [DecidableEq Hash] (c : Core Hash DB) (o : CoreOracle) (idx : Nat)
    (entry : LogEntry Hash) : Core Hash DB :=
  let c := (c.check (o.lastAppliedVerifies c.raft.loaded.dbLastAppliedLog)).updateLastAppliedLog idx
  let (c, response) := c.applyCommittedEntry o entry.inner
  c.handleLogTransactionsForRaftLog o idx entry response

/-- The loop of `RaftHandleCommittedLogs`, for the given number of entries at most. -/
def raftHandleCommittedLogsLoop [DecidableEq Hash] (o : CoreOracle) :
    Nat → Core Hash DB → Core Hash DB
  | 0, c => c
  | n + 1, c =>
    match c.raft.loaded.raft with
    | none => c.abort
    | some r =>
      let (r', idx, entry) := r.takeCommittedLog
      if idx = 0 then c
      else raftHandleCommittedLogsLoop o n
        ((c.called (.takeCommittedLog r) r').raftHandleCommittedLog o idx entry)

/-- `RaftHandleCommittedLogs`: no turn of its loop commits more entries. -/
def raftHandleCommittedLogs [DecidableEq Hash] (c : Core Hash DB) (o : CoreOracle) :
    Core Hash DB :=
  match c.raft.loaded.raft with
  | none => c.abort
  | some r => raftHandleCommittedLogsLoop o (r.commitIdx - r.lastApplied) c

def raftStep [DecidableEq Hash] (c : Core Hash DB) (o : CoreOracle) : Core Hash DB :=
  let c := c.check
    (c.raft.state = .loadedPartOfGroup || c.raft.state = .loadedRequestingMembership)
  c.raftSendMessages.raftHandleCommittedLogs o

/-! ### Transactions with other enclaves -/

def e2eCallbackError (c : Core Hash DB) (o : CoreOracle) (err : Error) :
    E2ECallback Hash → Core Hash DB
  | .reply tx => c.replyWithError tx err
  | .joinRaftFromFirstPeer tx _ => c.replyWithError tx err
  | .requestRaftReplication _ tx => c.replyWithError tx err
  | .requestMembership _ _ => c
  | .sendNextReplicationState k _ =>
    match c.pushStates[k]? with
    | none => c.abort
    | some ps =>
      if ps.sentResponse then c
      else ((c.setPushState k { ps with sentResponse := true }).sendE2EError ps.target ps.tx err).1
  | .raftWrite cb => c.logTransactionCallback o err none cb
  | .sendTimestamp => c

def sendE2ETransaction (c : Core Hash DB) (o : CoreOracle) (dst : PeerId)
    (req : TransactionRequest Hash) (withTimeout : Bool) (callback : E2ECallback Hash) :
    Core Hash DB :=
  let tx := c.e2eTxnId + 1
  match ({ c with e2eTxnId := tx }).sendToPeer dst (.transactionRequest tx req) with
  | (c, .ok) =>
    let (c, tc) := if withTimeout
      then c.setTimeout c.enclaveConfig.e2eTxnTimeoutTicks (.e2eTransaction tx) else (c, {})
    { c with outstandingE2ETransactions :=
        c.outstandingE2ETransactions ++ [(tx, ⟨callback, tc, dst⟩)] }
  | (c, err) => c.e2eCallbackError o err callback

def sendTimestamp (c : Core Hash DB) (o : CoreOracle) (dst : PeerId) (unixSecs : Nat) :
    Core Hash DB :=
  c.sendE2ETransaction o dst (.newTimestampUnixSecs unixSecs) true .sendTimestamp

def sendTimestampToAll (c : Core Hash DB) (o : CoreOracle) : Core Hash DB :=
  let c := c.connectedPeers.foldl (fun c e => c.sendTimestamp o e.1 c.localTime) c
  (c.setTimeout (max 1 c.enclaveConfig.sendTimestampTicks) .sendTimestampToAll).1

def resetPeer (c : Core Hash DB) (o : CoreOracle) (id : PeerId) : Core Hash DB × Error :=
  let txnsToCancel := o.shuffle (c.outstandingE2ETransactions.filter fun t => t.2.dst = id)
  let c := { c with outstandingE2ETransactions :=
    c.outstandingE2ETransactions.filter fun t => t.2.dst ≠ id }
  let c := txnsToCancel.foldl (fun c t => c.cancelTimeout t.2.timeoutCancel) c
  let (c, err) := c.peerManagerResetPeer id
  (txnsToCancel.foldl (fun c t => c.e2eCallbackError o .coreE2ETransactionReset t.2.callback) c,
    err)

/-! ### Sending the state to a replica that joins -/

/-- The loop of `SendNextReplicationState` over the log, for at most the given number of entries:
    the entries to send, and `at_commit_idx`. -/
def entriesToPush [Platform Hash] (log : Log Hash) (dbLastAppliedLog chunkBytes : Nat) :
    Nat → Nat → Nat → List (LogEntry Hash) × Bool
  | 0, _, _ => ([], true)
  | n + 1, idx, size =>
    match log.at? idx with
    | none => ([], true)
    | some e =>
      if dbLastAppliedLog < idx then ([], true)
      else
        let size := size + Platform.byteSizeLong e + 1
        if chunkBytes ≤ size then ([e], false)
        else
          let (es, atCommitIdx) := entriesToPush log dbLastAppliedLog chunkBytes n (idx + 1) size
          (e :: es, atCommitIdx)

/-- The push that `SendNextReplicationState` has made before it adds rows, and `at_commit_idx`. -/
def nextPush [Platform Hash] (c : Core Hash DB) (r : Raft Hash) (ps : ReplicationPushState) :
    ReplicateStatePush Hash × Bool :=
  let (entries, atCommitIdx) := entriesToPush r.log c.raft.loaded.dbLastAppliedLog
    c.enclaveConfig.raft.replicationChunkBytes (r.log.lastIdx + 1 - ps.logsFromIdxInclusive)
    ps.logsFromIdxInclusive 0
  ({ replicationId := ps.replicationId
     replicationSequence := ps.replicationSequence
     firstLogIdx := ps.logsFromIdxInclusive
     entries := entries
     dbToEnd := false
     rows := []
     committedMembership := [] }, atCommitIdx)

def rowsToSend [PushSize Hash] (c : Core Hash DB) (out : ReplicateStatePush Hash)
    (atCommitIdx : Bool) : Nat :=
  let chunkBytes := c.enclaveConfig.raft.replicationChunkBytes
  let currentSize := PushSize.pushByteSizeLong out
  if atCommitIdx ∧ currentSize < chunkBytes
  then (chunkBytes - currentSize) / Database.maxRowSerializedSize DB else 0

def sendNextReplicationState [Platform Hash] [PushSize Hash] (c : Core Hash DB) (o : CoreOracle)
    (k : Nat) : Core Hash DB :=
  match c.pushStates[k]?, c.raft.loaded.raft, c.raft.loaded.db with
  | some ps, some r, some db =>
    let c := c.check (!ps.finishedSending)
    let (out, atCommitIdx) := c.nextPush r ps
    let rowsToSend := c.rowsToSend out atCommitIdx
    let ps := { ps with replicationSequence := ps.replicationSequence + 1 }
    let rows := if rowsToSend = 0 then .ok ([], ps.dbFromKeyExclusive)
      else Database.rowsAsProtos db ps.dbFromKeyExclusive rowsToSend
    match rows with
    | .error err =>
      let c := c.setPushState k { ps with sentResponse := true }
      if ps.sentResponse then c else (c.sendE2EError ps.target ps.tx err).1
    | .ok (rows, rowId) =>
      let dbToEnd := decide (rows.length < rowsToSend)
      let ps := { ps with
        dbFromKeyExclusive := rowId
        finishedSending := ps.finishedSending || dbToEnd
        logsFromIdxInclusive := ps.logsFromIdxInclusive + out.entries.length }
      let out := { out with
        rows := rows
        dbToEnd := dbToEnd
        committedMembership := r.committedMembership.asProto }
      (c.setPushState k ps).sendE2ETransaction o ps.target (.replicateStatePush out) true
        (.sendNextReplicationState k ps.finishedSending)
  | _, _, _ => c.abort

/-- The loop of `HandleReplicateStateRequest`. -/
def startPipeline [Platform Hash] [PushSize Hash] (o : CoreOracle) (k : Nat) :
    Nat → Core Hash DB → Core Hash DB
  | 0, c => c
  | n + 1, c =>
    if c.pushStates[k]?.any (·.finishedSending) then c
    else startPipeline o k n (c.sendNextReplicationState o k)

def handleReplicateStateRequest [Platform Hash] [PushSize Hash] (c : Core Hash DB) (o : CoreOracle)
    (target : PeerId) (requestId : TransactionID) (groupId replicationId : Nat) :
    Core Hash DB × Error :=
  if c.raft.state ≠ .loadedPartOfGroup then
    c.sendE2EError target requestId .replicateRaftState
  else match c.raft.loaded.raft with
    | none => (c.abort, .ok)
    | some r =>
      if groupId ≠ r.group then c.sendE2EError target requestId .replicateGroupMismatch
      else
        let k := c.pushStates.length
        let c := { c with pushStates := c.pushStates ++
          [{ logsFromIdxInclusive := r.log.oldestStored
             target := target
             tx := requestId
             replicationId := replicationId }] }
        (startPipeline o k c.enclaveConfig.raft.replicationPipeline c, .ok)

/-! ### Taking in the state as a replica that joins -/

end Core

def Loading.maybeApplyLogToReplicatingDatabase [Database DB] (l : Loading Hash DB)
    (entry : LogEntry Hash) : Loading Hash DB × Error :=
  match l.db with
  | none => (l, .coreRaftState)
  | some db =>
    let data := match entry.inner with
      | .data d => d
      | _ => []
    if l.lexigraphicallyLargestRowLoadedIntoDb = [] ∨ data = [] then (l, .ok)
    else match (@Database.wireLog DB _).parse data with
      | none => (l, .coreReplicatedLogSerialization)
      | some clog =>
        if l.lexigraphicallyLargestRowLoadedIntoDb < Database.logKey clog then (l, .ok)
        else match Database.validateClientLog clog with
          | .ok => ({ l with db := some (Database.run db clog).1 }, .ok)
          | err => (l, err)

/-- The loop of `HandleReplicateStatePush` over the entries of the push. -/
def Loading.appendEntries [Platform Hash] [Database DB] :
    Loading Hash DB → List (LogEntry Hash) → Loading Hash DB × Error
  | l, [] => (l, .ok)
  | l, entry :: rest =>
    match l.log with
    | none => (l, .checkFailed)
    | some log =>
      match log.append entry log.lastIdx with
      | (log, .ok) =>
        match ({ l with log := some log }).maybeApplyLogToReplicatingDatabase entry with
        | (l, .ok) => Loading.appendEntries l rest
        | (l, err) => (l, err)
      | (log, err) => ({ l with log := some log }, err)

def Loading.loadRows [Database DB] (l : Loading Hash DB) (rows : List Bytes) :
    Loading Hash DB × Error :=
  match l.db with
  | none => (l, .checkFailed)
  | some db =>
    if rows = [] then (l, .ok)
    else
      let (db, last, _) := Database.loadRowsFromProtos db rows
      let l := { l with db := some db }
      if last ≤ l.lexigraphicallyLargestRowLoadedIntoDb then (l, .coreReplicationOutOfOrder)
      else ({ l with lexigraphicallyLargestRowLoadedIntoDb := last }, .ok)

def Loading.handleReplicateStatePush [Platform Hash] [Database DB] (l : Loading Hash DB)
    (repl : ReplicateStatePush Hash) : Loading Hash DB × Error :=
  match l.log with
  | none => (l, .checkFailed)
  | some log =>
    if 1 < log.nextIdx ∧ repl.firstLogIdx ≠ log.nextIdx then (l, .replicateLogIndexMismatch)
    else if repl.replicationId ≠ l.replicationId then (l, .replicateReplicationID)
    else
      let sequence := l.replicationSequence
      let l := { l with replicationSequence := sequence + 1 }
      if repl.replicationSequence ≠ sequence then (l, .replicateReplicationSequence)
      else match Membership.fromProto repl.committedMembership with
        | .error err => ({ l with mem := none }, err)
        | .ok mem =>
          let log := if log.entries = [] then (log.setNextIdx repl.firstLogIdx).1 else log
          match ({ l with mem := some mem, log := some log }).appendEntries repl.entries with
          | (l, .ok) =>
            match l.loadRows repl.rows with
            | (l, .ok) => ({ l with pushes := l.pushes ++ [repl] }, .ok)
            | (l, err) => (l, err)
          | (l, err) => (l, err)

namespace Core

variable [Database DB]

def handleReplicateStatePush [Platform Hash] (c : Core Hash DB)
    (repl : ReplicateStatePush Hash) : Core Hash DB × Error :=
  if c.raft.state ≠ .loading then (c, .coreRaftState)
  else
    let (l, err) := c.raft.loading.handleReplicateStatePush repl
    ((c.setLoading l).check (err ≠ .checkFailed), err)

/-! ### Joining a group -/

/-- One turn of the loop of `RaftRequestMembership` over the peers. -/
def requestMembershipFrom (c : Core Hash DB) (o : CoreOracle) (tx : TransactionID)
    (cancel : Cancel) (peer : PeerId) : Core Hash DB :=
  c.sendE2ETransaction o peer .raftMembershipRequest true (.requestMembership tx cancel)

def raftRequestMembership (c : Core Hash DB) (o : CoreOracle) (tx : TransactionID) :
    Core Hash DB :=
  let c := c.check (c.raft.state = .loadedRequestingMembership)
  let (c, cancel) := c.setTimeout c.enclaveConfig.e2eTxnTimeoutTicks (.requestMembership tx)
  match c.raft.loaded.raft with
  | none => c.abort
  | some r => r.peers.foldl (fun c peer => c.requestMembershipFrom o tx cancel peer) c

/-- The replica that `PromoteRaftToLoaded` starts from what was loaded. -/
def promoted [DecidableEq Hash] [Platform Hash] (c : Core Hash DB) (o : CoreOracle)
    (log : Log Hash) (mem : Membership) : Core Hash DB :=
  let loading := c.raft.loading
  let r := Raft.new loading.groupConfig.groupId c.me mem log
    c.enclaveConfig.raft.toRaftConfig true loading.groupConfig.superMajority (o.raft 0)
  { c with
    raft :=
      { state := .loadedRequestingMembership
        loaded :=
          { groupConfig := loading.groupConfig
            raft := some r
            db := loading.db
            dbLastAppliedLog := log.lastIdx } }
    aborted := c.aborted || r.aborted }

def promoteRaftToLoaded [DecidableEq Hash] [Platform Hash] (c : Core Hash DB) (o : CoreOracle) :
    Core Hash DB :=
  let c := { c with promotions := c.promotions ++ [c.raft] }
  match c.raft.loading.log, c.raft.loading.mem with
  | some log, some mem => (c.promoted o log mem).raftRequestMembership o c.raft.loading.joinTx
  | _, _ => c.abort

def requestRaftReplication (c : Core Hash DB) (o : CoreOracle) : Core Hash DB :=
  if c.raft.state ≠ .loading then c
  else match c.raft.loading.mem with
    | none => c.abort
    | some mem =>
      let connected := (c.connectedPeers.filter fun e => e.1 ∈ mem.votingReplicas).length
      let quorum := Raft.quorumSize mem.votingReplicas.size
        c.raft.loading.groupConfig.superMajority
      if c.raft.loading.started = false ∧ connected < quorum then c
      else
        let c := c.setLoading
          { c.raft.loading with started := true, replicationId := o.randomBytes }
        let loading := c.raft.loading
        c.sendE2ETransaction o loading.loadFrom
          (.replicateState loading.groupConfig.groupId loading.replicationId) false
          (.requestRaftReplication loading.loadFrom loading.joinTx)

/-- The loop of `JoinRaftFromFirstPeer` that connects to the replicas of the group. -/
def connectToReplicas (o : CoreOracle) : Core Hash DB → ReplicaGroup → Core Hash DB × Error
  | c, [] => (c, .ok)
  | c, replica :: rest =>
    match replica.peerId with
    | none => (c, .peersInvalidID)
    | some p =>
      match c.maybeConnectToPeer o p with
      | (c, .ok) => connectToReplicas o c rest
      | (c, err) => (c, err)

/-- The callback of `JoinRaftFromFirstPeer`, for a response without an error. -/
def gotRaft (c : Core Hash DB) (o : CoreOracle) (tx : TransactionID) (peer : PeerId)
    (groupConfig : RaftGroupConfig) (replicaGroup : ReplicaGroup) : Core Hash DB :=
  if c.raft.state ≠ .waitingForFirstConnection then c.replyWithError tx .coreRaftState
  else if raftGroupConfigsEqualExceptForGroupID c.raftConfigTemplate groupConfig = false then
    c.replyWithError tx .coreGroupConfigMismath
  else if replicaGroup = [] then c.replyWithError tx .coreReceivedEmptyReplicaGroup
  else match Membership.fromProto replicaGroup with
    | .error err => c.replyWithError tx err
    | .ok mem =>
      match c.connectToReplicas o replicaGroup with
      | (c, .ok) =>
        let c := { c with raft :=
          { state := .loading
            loading :=
              { groupConfig := groupConfig
                replicaGroup := replicaGroup
                log := some (Log.new c.enclaveConfig.raft.logMaxBytes)
                db := some Database.newDB
                mem := some mem
                loadFrom := peer
                joinTx := tx } } }
        match o.clientEvidence with
        | .ok => c.requestRaftReplication o
        | err => c.replyWithError tx err
      | (c, err) => c.replyWithError tx err

def joinRaftFromFirstPeer (c : Core Hash DB) (o : CoreOracle) : Core Hash DB :=
  let c := c.check (c.raft.state = .waitingForFirstConnection)
  let waiting := c.raft.waitingForFirstConnection
  c.sendE2ETransaction o waiting.peer .getRaft true
    (.joinRaftFromFirstPeer waiting.joinTx waiting.peer)

def e2eCallback [DecidableEq Hash] [Platform Hash] [PushSize Hash] (c : Core Hash DB)
    (o : CoreOracle) (resp : TransactionResponse Hash) (callback : E2ECallback Hash) :
    Core Hash DB :=
  match resp.statusOf with
  | .ok =>
    match callback with
    | .reply tx => c.replyWithError tx .ok
    | .joinRaftFromFirstPeer tx peer =>
      match resp with
      | .getRaft groupConfig replicaGroup => c.gotRaft o tx peer groupConfig replicaGroup
      | _ => c.gotRaft o tx peer {} []
    | .requestRaftReplication _ _ => c.promoteRaftToLoaded o
    | .requestMembership tx cancel =>
      match resp with
      | .raftMembershipResponse loc => c.addLogTransaction loc (.requestMembership tx cancel)
      | _ => c.addLogTransaction {} (.requestMembership tx cancel)
    | .sendNextReplicationState k lastSentTransaction =>
      match c.pushStates[k]? with
      | none => c.abort
      | some ps =>
        if ps.sentResponse then c
        else if lastSentTransaction then
          ((c.setPushState k { ps with sentResponse := true }).sendE2EError ps.target ps.tx .ok).1
        else if ps.finishedSending then c
        else c.sendNextReplicationState o k
    | .raftWrite cb =>
      match resp with
      | .raftWrite loc => c.addLogTransaction loc cb
      | _ => c.logTransactionCallback o .coreIncorrectE2EResponseType none cb
    | .sendTimestamp => c
  | err => c.e2eCallbackError o err callback

/-! ### Requests of the host -/

def raftWriteLogTransaction [DecidableEq Hash] [Platform Hash] (c : Core Hash DB) (o : CoreOracle)
    (entry : LogEntry Hash) (cb : LogTransactionCallback Hash) : Core Hash DB × Error :=
  if c.raft.state ≠ .loadedPartOfGroup then (c, .coreRaftState)
  else match c.raft.loaded.raft with
    | none => (c.abort, .ok)
    | some r =>
      if r.isLeader then
        if r.membership.votingReplicas.size < c.raft.loaded.groupConfig.minVotingReplicas then
          (c, .coreNotEnoughVotingReplicas)
        else match r.logRequest (o.raft 0) entry with
          | (r', loc, .ok) =>
            (((c.called (.logRequest r (o.raft 0) entry) r').addLogTransaction loc cb).raftStep o, .ok)
          | (r', _, err) => (c.called (.logRequest r (o.raft 0) entry) r', err)
      else match r.leaderId with
        | some leader => (c.sendE2ETransaction o leader (.raftWrite entry) true (.raftWrite cb), .ok)
        | none => (c, .coreLeaderUnknown)

def handleNewClient (c : Core Hash DB) (o : CoreOracle) (authenticatedId : Bytes)
    (tx : TransactionID) : Core Hash DB :=
  let id := c.clientIdGen
  let c := { c with clientIdGen := id + 1 }
  match o.clientInit with
  | .ok => { c with clients := c.clients.insert id { authenticatedId := authenticatedId } }.send
      (.h2eResponse tx (.newClientReply id))
  | err => c.replyWithError tx err

def clientEntry (log : Database.ClientLog DB) : LogEntry Hash :=
  { LogEntry.default with inner := .data ((@Database.wireLog DB _).serialize log) }

def handleExistingClient [DecidableEq Hash] [Platform Hash] (c : Core Hash DB) (o : CoreOracle)
    (clientId : Nat) (data : Except Error (Database.Request DB)) (tx : TransactionID) :
    Core Hash DB × Error :=
  match c.clients.find? clientId with
  | none => (c, .coreClientNotFound)
  | some client =>
    if client.handshaking then
      match o.finishHandshake with
      | .ok => ({ c with clients := c.clients.insert clientId { client with handshaking := false } }.send
          (.h2eResponse tx (.handshakeReply clientId)), .ok)
      | err => (c, err)
    else match data with
      | .error err => (c, err)
      | .ok request =>
        match @Database.logPBFromRequest DB _ request client.authenticatedId o.newKey with
        | .error err => (c, err)
        | .ok log =>
          match Database.validateClientLog log with
          | .ok =>
            let entry := clientEntry log
            c.raftWriteLogTransaction o entry (.client clientId tx entry)
          | err => (c, err)

/-- The group of one that `HandleCreateNewRaftGroupRequest` starts. -/
def created [DecidableEq Hash] [Platform Hash] (c : Core Hash DB) (o : CoreOracle) :
    Core Hash DB :=
  let cfg := { c.raftConfigTemplate with groupId := o.randomBytes }
  let raftConfig := c.enclaveConfig.raft
  let r := Raft.new o.randomBytes c.me (Membership.first c.me) (Log.new raftConfig.logMaxBytes)
    raftConfig.toRaftConfig false cfg.superMajority (o.raft 0)
  { c with
    raft := { c.raft with
      state := .loadedPartOfGroup
      loaded :=
        { groupConfig := cfg
          raft := some r
          db := some Database.newDB
          dbLastAppliedLog := 0 } }
    aborted := c.aborted || r.aborted }

/-- `HandleCreateNewRaftGroupRequest`.  The branches that report an error do not return. -/
def handleCreateNewRaftGroupRequest [DecidableEq Hash] [Platform Hash] (c : Core Hash DB)
    (o : CoreOracle) (tx : TransactionID) : Core Hash DB :=
  let c := if c.raft.state ≠ .noState then c.replyWithError tx .coreRaftState else c
  let c := if o.randomBytesErr ≠ .ok then c.replyWithError tx o.randomBytesErr else c
  ((c.created o).raftStep o).replyWithError tx .ok

def handleJoinRaft (c : Core Hash DB) (o : CoreOracle) (peerId : Option PeerId)
    (tx : TransactionID) : Core Hash DB :=
  if c.raft.state = .loadedPartOfGroup then c.replyWithError tx .coreRaftState
  else match peerId with
    | none => c.replyWithError tx .coreRaftState
    | some peer =>
      let c := { c with raft :=
        { state := .waitingForFirstConnection
          waitingForFirstConnection := { peer := peer, joinTx := tx } } }
      match c.peerState peer with
      | .connected => c.joinRaftFromFirstPeer o
      | .connecting => c
      | .disconnected => (c.connectToPeer o peer).1

/-- `HandleRefreshAttestation`; with a new key or without, the client manager does the same here. -/
def handleRefreshAttestation (c : Core Hash DB) (o : CoreOracle) : Error :=
  match c.raft.state with
  | .loading | .loadedRequestingMembership | .loadedPartOfGroup => o.clientEvidence
  | _ => .coreRefreshClientAttestationWithoutRaftConfig

def peerStatus (c : Core Hash DB) (r : Option (Raft Hash)) (peerId : PeerId) : PeerStatus :=
  let leader := (r.bind Raft.leaderId).getD 0
  { peerId := peerId
    inRaft := r.any fun r => peerId ∈ r.membership.allReplicas
    isVoting := r.any fun r => peerId ∈ r.membership.votingReplicas
    isLeader := peerId = leader
    connectionState := c.peerState peerId
    me := peerId = c.me
    replicationStatus := if leader = c.me ∧ peerId ≠ c.me
      then (r.map fun r => r.followerReplicationStatus peerId).getD {} else {} }

def handleGetEnclaveStatus (c : Core Hash DB) : RaftState × List PeerStatus :=
  let peers := (c.peers.mapVal fun _ _ => ()).insert c.me ()
  let r := if c.raft.state = .loadedPartOfGroup then c.raft.loaded.raft else none
  (c.raft.state, peers.keys.map (c.peerStatus r))

def handleHostDatabaseRequest [DecidableEq Hash] [Platform Hash] (c : Core Hash DB)
    (o : CoreOracle) (tx : TransactionID) (authenticatedId : Bytes)
    (request : Option (Database.Request DB)) : Core Hash DB × Error :=
  match request with
  | none => (c, .coreDeserializeHostDatabaseRequest)
  | some request =>
    match @Database.logPBFromRequest DB _ request authenticatedId o.newKey with
    | .error err => (c, err)
    | .ok log => c.raftWriteLogTransaction o (clientEntry log) (.reply tx)

def handleReconfigure (c : Core Hash DB) (req : EnclaveConfig) : Core Hash DB × Error :=
  let newConfig := defaultEnclaveConfig.mergeFrom req
  match validateConfig newConfig with
  | .ok =>
    let c := { c with enclaveConfig := newConfig }
    match c.raft.state, c.raft.loaded.raft with
    | .loadedPartOfGroup, some r | .loadedRequestingMembership, some r =>
      (c.called (.reconfigure r newConfig.raft.toRaftConfig)
        (r.reconfigure newConfig.raft.toRaftConfig), .ok)
    | .loadedPartOfGroup, none | .loadedRequestingMembership, none => (c.abort, .ok)
    | _, _ => (c, .ok)
  | err => (c, err)

def handleRelinquishLeadership [DecidableEq Hash] [Platform Hash] (c : Core Hash DB)
    (o : CoreOracle) (tx : TransactionID) : Core Hash DB :=
  if c.raft.state ≠ .loadedPartOfGroup then c.replyWithError tx .ok
  else match c.raft.loaded.raft with
    | none => c.abort
    | some r =>
      if r.isLeader = false then c.replyWithError tx .ok
      else
        let r' := r.relinquishLeadership (o.raft 0)
        let loc : LogLocation Hash := { idx := r'.log.nextIdx, term := r'.log.lastTerm + 1 }
        ((c.called (.relinquishLeadership r (o.raft 0)) r').addLogTransaction loc (.reply tx)).raftStep
          o

/-- The host has the replica ask its leader for something, unless it refuses to. -/
def askLeader (c : Core Hash DB) (o : CoreOracle) (tx : TransactionID) (refuses : Raft Hash → Bool)
    (err : Error) (req : TransactionRequest Hash) : Core Hash DB :=
  if c.raft.state ≠ .loadedPartOfGroup then c.replyWithError tx .coreRaftState
  else match c.raft.loaded.raft with
    | none => c.abort
    | some r =>
      if refuses r then c.replyWithError tx err
      else match r.leaderId with
        | none => c.replyWithError tx .coreLeaderUnknown
        | some leader => c.sendE2ETransaction o leader req true (.reply tx)

def handleHostRequestedRaftRemoval (c : Core Hash DB) (o : CoreOracle) (tx : TransactionID) :
    Core Hash DB :=
  c.askLeader o tx (·.isLeader) .coreLeaderRemovingSelf .raftRemovalRequest

def handleRequestVoting (c : Core Hash DB) (o : CoreOracle) (tx : TransactionID) : Core Hash DB :=
  c.askLeader o tx (·.voting) .coreVotingRequestedForVotingMember .raftVotingRequest

def handleHostHashes (c : Core Hash DB) (tx : TransactionID) : Core Hash DB × Error :=
  if c.raft.state ≠ .loadedPartOfGroup ∧ c.raft.state ≠ .loadedRequestingMembership then
    (c, .coreRaftState)
  else match c.raft.loaded.raft, c.raft.loaded.db with
    | some r, some db =>
      match r.log.at? c.raft.loaded.dbLastAppliedLog with
      | none => (c, .coreLogNotFoundAtCommitIndex)
      | some e =>
        (c.send (.h2eResponse tx (.hashes db c.raft.loaded.dbLastAppliedLog e.hashChain)), .ok)
    | _, _ => (c.abort, .ok)

def handleUpdateMinimums [DecidableEq Hash] [Platform Hash] (c : Core Hash DB) (o : CoreOracle)
    (tx : TransactionID) (update : MinimumLimits) : Core Hash DB :=
  match Minimums.updateLimits c.minimums update with
  | (toCheck, .ok) =>
    match c.checkPeerMinimums toCheck with
    | .ok =>
      let entry := { LogEntry.default with inner := .minimums update }
      match c.raftWriteLogTransaction o entry (.reply tx) with
      | (c, .ok) => c
      | (c, err) => c.replyWithError tx err
    | err => c.replyWithError tx err
  | (_, err) => c.replyWithError tx err

def LOG_LEVEL_MAX : Nat := 7

def handleHostToEnclave [DecidableEq Hash] [Platform Hash] (c : Core Hash DB) (o : CoreOracle)
    (tx : TransactionID) (req : HostRequest DB) : Core Hash DB × Error :=
  if tx = 0 then (c, .coreHostToEnclaveTransactionID)
  else match req with
    | .newClient authenticatedId => (c.handleNewClient o authenticatedId tx, .ok)
    | .existingClient clientId data =>
      match c.handleExistingClient o clientId data tx with
      | (c, .ok) => (c, .ok)
      | (c, err) => ((c.removeClient clientId).replyWithError tx err, .ok)
    | .closeClient clientId => ((c.removeClient clientId).replyWithError tx .ok, .ok)
    | .createNewRaftGroup => (c.handleCreateNewRaftGroupRequest o tx, .ok)
    | .joinRaft peerId => (c.handleJoinRaft o peerId tx, .ok)
    | .pingPeer none => (c.replyWithError tx .peersInvalidID, .ok)
    | .pingPeer (some peer) => (c.sendE2ETransaction o peer .ping true (.reply tx), .ok)
    | .refreshAttestation _ =>
      let (c, peerErr) := c.peerManagerRefreshAttestation o
      let clientErr := c.handleRefreshAttestation o
      (c.replyWithError tx (if peerErr ≠ .ok then peerErr else clientErr), .ok)
    | .requestVoting => (c.handleRequestVoting o tx, .ok)
    | .getEnclaveStatus =>
      let (raftState, peers) := c.handleGetEnclaveStatus
      (c.send (.h2eResponse tx (.getEnclaveStatusReply raftState peers)), .ok)
    | .metrics => (c.send (.h2eResponse tx .metricsReply), .ok)
    | .databaseRequest authenticatedId request =>
      c.handleHostDatabaseRequest o tx authenticatedId request
    | .reconfigure config =>
      let (c, err) := c.handleReconfigure config
      (c.replyWithError tx err, .ok)
    | .setLogLevel level =>
      (c.replyWithError tx (if LOG_LEVEL_MAX ≤ level then .coreInvalidLogLevel else .ok), .ok)
    | .relinquishLeadership => (c.handleRelinquishLeadership o tx, .ok)
    | .requestRemoval => (c.handleHostRequestedRaftRemoval o tx, .ok)
    | .hashes =>
      match c.handleHostHashes tx with
      | (c, .ok) => (c, .ok)
      | (c, err) => (c.replyWithError tx err, .ok)
    | .resetPeerId none => (c, .peersInvalidID)
    | .resetPeerId (some id) =>
      let (c, err) := c.resetPeer o id
      (c.replyWithError tx err, .ok)
    | .updateMinimums update => (c.handleUpdateMinimums o tx update, .ok)
    | .notSet => (c, .generalUnimplemented)

/-! ### Ticks -/

/-- `MaybeUpdateGroupTime`; which peers' attestations the new time makes too old is up to the
    surroundings. -/
def maybeUpdateGroupTime (c : Core Hash DB) (o : CoreOracle) : Core Hash DB :=
  let c := match c.raft.state with
    | .loadedPartOfGroup | .loadedRequestingMembership => c.check c.raft.loaded.raft.isSome
    | .loading => c.check c.raft.loading.mem.isSome
    | _ => c
  c.setPeerAttestationTimestamp o

def timeoutFn (c : Core Hash DB) (o : CoreOracle) : TimeoutFn → Core Hash DB
  | .requestMembership tx =>
    if c.raft.state = .loadedRequestingMembership then c.raftRequestMembership o tx else c
  | .e2eTransaction tx =>
    match c.outstandingE2ETransactions.find? fun t => t.1 = tx with
    | none => c
    | some t =>
      ({ c with outstandingE2ETransactions :=
          c.outstandingE2ETransactions.filter fun t => t.1 ≠ tx }).e2eCallbackError o
        .coreE2ETransactionTimeout t.2.callback
  | .sendTimestampToAll => c.sendTimestampToAll o

def timeoutTimerTick (c : Core Hash DB) (o : CoreOracle) : Core Hash DB :=
  let (timeout, fns) := c.timeout.timerTick
  (o.shuffle fns).foldl (fun c fn => c.timeoutFn o fn) { c with timeout := timeout }

def connectToRaftMembers (c : Core Hash DB) (o : CoreOracle) (r : Raft Hash) : Core Hash DB :=
  (r.membership.allReplicas.keys.filter fun peer => c.me < peer).foldl
    (fun c peer => (c.maybeConnectToPeer o peer).1) c

/-- The non-voting replica that `NextReplicaGroup` would promote, with `min`. -/
def replicaToPromote (r : Raft Hash) : Option PeerId × Ticks :=
  let m := r.membership
  m.allReplicas.keys.foldl (fun best peer =>
    if r.lastSeenTicks peer < best.2 ∧ peer ∉ m.votingReplicas
    then (some peer, r.lastSeenTicks peer) else best) (none, InvalidTicks)

def setVoting (g : ReplicaGroup) (peer : PeerId) (voting : Bool) : ReplicaGroup :=
  g.map fun replica => if replica.peerId = some peer then { replica with voting := voting } else replica

/-- The first replica of a list that the leader has not seen for more than `ticks`. -/
def notSeenFor (r : Raft Hash) (ticks : Nat) (peers : List PeerId) : Option PeerId :=
  peers.find? fun peer => r.lastSeenTicks peer ≠ InvalidTicks ∧ (ticks : Ticks) < r.lastSeenTicks peer

/-- `NextReplicaGroup`.  The replica's own `config()` is the core's: it is made with it, and
    `HandleReconfigure` sets both. -/
def nextReplicaGroup (c : Core Hash DB) (r : Raft Hash) : Option ReplicaGroup :=
  if c.raft.state ≠ .loadedPartOfGroup then none
  else if r.leaderId = none then none
  else
    let m := r.membership
    let out := m.asProto
    let nonVoting := m.allReplicas.keys.filter fun peer => peer ∉ m.votingReplicas
    let promoted := if m.votingReplicas.size < c.raft.loaded.groupConfig.maxVotingReplicas ∧
        m.votingReplicas.size < m.allReplicas.size then
      match replicaToPromote r with
      | (some peer, min) =>
        if min < c.enclaveConfig.raft.electionTicks then some peer else none
      | (none, _) => none
      else none
    let demoted := if c.raft.loaded.groupConfig.minVotingReplicas < m.votingReplicas.size
      then notSeenFor r c.enclaveConfig.raft.replicaVotingTimeoutTicks m.votingReplicas.keys
      else none
    let removed := if m.votingReplicas.size < m.allReplicas.size
      then notSeenFor r c.enclaveConfig.raft.replicaMembershipTimeoutTicks nonVoting else none
    match promoted, demoted, removed with
    | some peer, _, _ => some (setVoting out peer true)
    | none, some peer, _ => some (setVoting out peer false)
    | none, none, some peer => some (out.filter fun replica => replica.peerId ≠ some peer)
    | none, none, none => none

def raftTimerTick [DecidableEq Hash] [Platform Hash] (c : Core Hash DB) (o : CoreOracle)
    (r : Raft Hash) : Core Hash DB :=
  let r' := r.timerTick (o.raft 0)
  let c := c.called (.timerTick r (o.raft 0)) r'
  let next := if r'.isLeader then c.nextReplicaGroup r' else none
  let c := match next with
    | some group =>
      let entry := { LogEntry.default with inner := .membershipChange group }
      c.called (.logRequest r' (o.raft 1) entry) (r'.logRequest (o.raft 1) entry).1
    | none => c
  c.raftStep o

def handleTimerTick [DecidableEq Hash] [Platform Hash] (c : Core Hash DB) (o : CoreOracle)
    (time : Nat) : Core Hash DB :=
  let c := ({ c with localTime := time }.maybeUpdateGroupTime o).timeoutTimerTick o
  if c.raft.state ≠ .loadedPartOfGroup then c
  else match c.raft.loaded.raft with
    | none => c.abort
    | some r => (c.connectToRaftMembers o r).raftTimerTick o r

/-! ### Messages from other enclaves -/

/-- A request of a peer that changes the membership: log the change, and let `respond` make the
    response from its location. -/
def logMembershipChange [DecidableEq Hash] [Platform Hash] (c : Core Hash DB) (o : CoreOracle)
    (r : Raft Hash) (entry : LogEntry Hash)
    (respond : LogLocation Hash → TransactionResponse Hash) :
    Core Hash DB × Error × TransactionResponse Hash :=
  match r.logRequest (o.raft 0) entry with
  | (r', loc, .ok) =>
    ((c.called (.logRequest r (o.raft 0) entry) r').raftStep o, .ok, respond loc)
  | (r', _, err) => (c.called (.logRequest r (o.raft 0) entry) r', err, .notSet)

def handleRequestRaftMembership [DecidableEq Hash] [Platform Hash] (c : Core Hash DB)
    (o : CoreOracle) (src : PeerId) : Core Hash DB × Error × TransactionResponse Hash :=
  if c.raft.state ≠ .loadedPartOfGroup then (c, .coreRaftState, .notSet)
  else match c.raft.loaded.raft with
    | none => (c.abort, .ok, .notSet)
    | some r =>
      let g := r.membership.asProto
      if g.any fun replica => replica.peerId = some src then
        (c, .coreDuplicateMembershipPeer, .notSet)
      else c.logMembershipChange o r
        { LogEntry.default with inner := .membershipChange (g ++ [⟨some src, false⟩]) }
        .raftMembershipResponse

def handleRequestRaftVoting [DecidableEq Hash] [Platform Hash] (c : Core Hash DB)
    (o : CoreOracle) (src : PeerId) : Core Hash DB × Error × TransactionResponse Hash :=
  if c.raft.state ≠ .loadedPartOfGroup then (c, .coreRaftState, .notSet)
  else match c.raft.loaded.raft with
    | none => (c.abort, .ok, .notSet)
    | some r =>
      if src ∉ r.membership.allReplicas then (c, .coreVotingRequestedForNonMember, .notSet)
      else if src ∈ r.membership.votingReplicas then
        (c, .coreVotingRequestedForVotingMember, .notSet)
      else c.logMembershipChange o r
        { LogEntry.default with inner := .membershipChange (setVoting r.membership.asProto src true) }
        .raftVotingResponse

def handleRaftWrite [DecidableEq Hash] [Platform Hash] (c : Core Hash DB) (o : CoreOracle)
    (entry : LogEntry Hash) : Core Hash DB × Error × TransactionResponse Hash :=
  if c.raft.state ≠ .loadedPartOfGroup then (c, .coreRaftState, .notSet)
  else match c.raft.loaded.raft with
    | none => (c.abort, .ok, .notSet)
    | some r =>
      if r.membership.votingReplicas.size < c.raft.loaded.groupConfig.minVotingReplicas then
        (c, .coreNotEnoughVotingReplicas, .notSet)
      else c.logMembershipChange o r entry .raftWrite

def handlePeerRequestedRaftRemoval [DecidableEq Hash] [Platform Hash] (c : Core Hash DB)
    (o : CoreOracle) (src : PeerId) (tx : TransactionID) : Core Hash DB :=
  if c.raft.state ≠ .loadedPartOfGroup then (c.sendE2EError src tx .coreRaftState).1
  else match c.raft.loaded.raft with
    | none => c.abort
    | some r =>
      let g := r.membership.asProto
      let next := g.filter fun replica => replica.peerId ≠ some src
      if next.length = g.length then (c.sendE2EError src tx .coreRemoveNonexistentMember).1
      else
        let entry := { LogEntry.default with inner := .membershipChange next }
        let call := .logRequest r (o.raft 0) entry
        match r.logRequest (o.raft 0) entry with
        | (r', loc, .ok) =>
          ((c.called call r').addLogTransaction loc (.peerRequestedRemoval src tx)).raftStep o
        | (r', _, err) => ((c.called call r').sendE2EError src tx err).1

/-- The end of `HandleE2ETransaction`: send the response, or the error. -/
def respond (c : Core Hash DB) (dst : PeerId) (id : TransactionID) (err : Error)
    (resp : TransactionResponse Hash) : Core Hash DB × Error :=
  if err ≠ .ok then c.sendE2EError dst id err
  else match resp with
    | .notSet => c.sendE2EError dst id err
    | resp => c.sendToPeer dst (.transactionResponse id resp)

def handleE2ETransaction [DecidableEq Hash] [Platform Hash] [PushSize Hash] (c : Core Hash DB)
    (o : CoreOracle) (src : PeerId) (id : TransactionID) :
    TransactionRequest Hash → Core Hash DB × Error
  | .ping => c.respond src id .ok (.status .ok)
  | .getRaft =>
    if c.raft.state ≠ .loadedPartOfGroup then c.respond src id .coreRaftState .notSet
    else match c.raft.loaded.raft with
      | none => (c.abort, .ok)
      | some r =>
        c.respond src id .ok (.getRaft c.raft.loaded.groupConfig r.membership.asProto)
  | .replicateState groupId replicationId =>
    c.handleReplicateStateRequest o src id groupId replicationId
  | .replicateStatePush push =>
    let (c, err) := c.handleReplicateStatePush push
    c.respond src id err .notSet
  | .raftMembershipRequest =>
    let (c, err, resp) := c.handleRequestRaftMembership o src
    c.respond src id err resp
  | .raftVotingRequest =>
    let (c, err, resp) := c.handleRequestRaftVoting o src
    c.respond src id err resp
  | .raftWrite entry =>
    let (c, err, resp) := c.handleRaftWrite o entry
    c.respond src id err resp
  -- `HandleNewTimestamp`
  | .newTimestampUnixSecs _ => (c.maybeUpdateGroupTime o).respond src id .ok .notSet
  | .raftRemovalRequest => (c.handlePeerRequestedRaftRemoval o src id, .ok)
  | .notSet => c.respond src id .generalUnimplemented .notSet

def handlePeerConnect (c : Core Hash DB) (o : CoreOracle) (src : PeerId) : Core Hash DB :=
  let c := c.sendTimestamp o src c.localTime
  match c.raft.state with
  | .loading => if c.raft.loading.started then c else c.requestRaftReplication o
  | .waitingForFirstConnection =>
    if src = c.raft.waitingForFirstConnection.peer then c.joinRaftFromFirstPeer o else c
  | .loadedRequestingMembership | .loadedPartOfGroup =>
    match c.raft.loaded.raft with
    | none => c.abort
    | some r => c.called (.resetPeer r src) (r.resetPeer src)
  | .noState => c

def handleE2EResponse [DecidableEq Hash] [Platform Hash] [PushSize Hash] (c : Core Hash DB)
    (o : CoreOracle) (id : TransactionID) (resp : TransactionResponse Hash) : Core Hash DB :=
  match c.outstandingE2ETransactions.find? fun t => t.1 = id with
  | none => c
  | some t =>
    ({ c with outstandingE2ETransactions :=
        c.outstandingE2ETransactions.filter fun t => t.1 ≠ id }.cancelTimeout
      t.2.timeoutCancel).e2eCallback o resp t.2.callback

def handleE2E [DecidableEq Hash] [Platform Hash] [PushSize Hash] (c : Core Hash DB)
    (o : CoreOracle) (src : PeerId) : E2EMessage Hash → Core Hash DB × Error
  | .connected => (c.handlePeerConnect o src, .ok)
  | .raftMessage msg =>
    if c.raft.state ≠ .loadedPartOfGroup ∧ c.raft.state ≠ .loadedRequestingMembership then
      (c, .coreRaftState)
    else match c.raft.loaded.raft with
      | none => (c.abort, .ok)
      | some r =>
        ((c.called (.receive r (o.raft 0) msg src) (r.receive (o.raft 0) msg src)).raftStep o, .ok)
  | .transactionRequest id req => c.handleE2ETransaction o src id req
  | .transactionResponse id resp => (c.handleE2EResponse o id resp, .ok)
  | .attestationUpdate => (c, .generalUnimplemented)

def handlePeerMessage [DecidableEq Hash] [Platform Hash] [PushSize Hash] (c : Core Hash DB)
    (o : CoreOracle) (src : PeerId) (msg : PeerMessage Hash) : Core Hash DB × Error :=
  match c.recvFromPeer o src msg with
  | (c, .ok, some decoded) => c.handleE2E o src decoded
  | (c, err, _) => (c, err)

def receive [DecidableEq Hash] [Platform Hash] [PushSize Hash] (c : Core Hash DB)
    (o : CoreOracle) (msg : UntrustedMessage Hash DB) : Core Hash DB × Error :=
  let c := { c with out := [], calls := [], promotions := [], answers := [] }
  match msg with
  | .h2eRequest tx req => c.handleHostToEnclave o tx req
  | .timerTick time => (c.handleTimerTick o time, .ok)
  | .resetPeer none => (c, .peersInvalidID)
  | .resetPeer (some id) => c.resetPeer o id
  | .peerMessage src msg => c.handlePeerMessage o src msg

def init (me : PeerId) (groupConfig : RaftGroupConfig) (config : EnclaveConfig) (o : CoreOracle)
    (initialTimestampUnixSecs : Nat) : Core Hash DB :=
  sendTimestampToAll
    { me := me
      raftConfigTemplate := groupConfig
      enclaveConfig := config
      localTime := initialTimestampUnixSecs } o

/-- `Create`, for the id that the peer manager draws. -/
def create (me : PeerId) (groupConfig : RaftGroupConfig) (providedConfig : EnclaveConfig)
    (o : CoreOracle) (initialTimestampUnixSecs : Nat) : Except Error (Core Hash DB) :=
  let config := defaultEnclaveConfig.mergeFrom providedConfig
  match validateConfig config, validateRaftGroupConfig groupConfig with
  | .ok, .ok => .ok (init me groupConfig config o initialTimestampUnixSecs)
  | .ok, err => .error err
  | err, _ => .error err

end Core

end SVR2
