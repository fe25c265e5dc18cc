import Mathlib.Data.List.DropRight
import SVR2.Raft.State

/-!
# The Raft replica

`raft/raft.cc`, function by function and in the order of the source.  A function of the
source that changes the replica is a function to the new replica; where it also returns
something, to the pair.
-/

namespace SVR2

open Lib

variable {Hash : Type} [DecidableEq Hash] [Platform Hash]

structure LogLocation (Hash : Type) where
  term : Nat := 0
  idx : Nat := 0
  hashChain : Option Hash := none
deriving DecidableEq

def LogEntry.default : LogEntry Hash where
  term := 0
  inner := .notSet
  hashChain := none

/-- The payload that `NextHash` hashes for an entry; `mapOrder` serialises protobuf maps. -/
def Inner.payload (mapOrder : MinimumLimits → List (String × Bytes)) : Inner → HmacPayload
  | .notSet => .notSet
  | .data d => .data d
  | .membershipChange g => .membershipChange g
  | .minimums m => .minimums (mapOrder m)

namespace Raft

/-! ### Membership -/

def addedFollower (r : Raft Hash) : ReplicationState :=
  { nextIdx := r.log.nextIdx, sendProbe := true, sendHeartbeat := true
    lastSeenTicks := r.config.electionTicks }

/-- `leader_.followers` as `HandleMembershipChange` leaves it: with all new replicas, then
    without those that are gone. -/
def followersUnder (r : Raft Hash) : OrdMap PeerId ReplicationState :=
  let followers := r.membership.allReplicas.keys.foldl (fun fs peer =>
    if peer ≠ r.me ∧ peer ∉ fs then fs.insert peer r.addedFollower else fs) r.leader.followers
  followers.filterKeys fun peer => peer ∈ r.membership.allReplicas

def handleMembershipChange (r : Raft Hash) : Raft Hash :=
  if r.role = .leader then r.setFollowers r.followersUnder else r

def addUncommittedMembership (r : Raft Hash) (idx : Nat) (m : Membership) : Raft Hash :=
  -- uncommitted memberships are stored in log index order
  let r := r.check (r.uncommittedMemberships.getLast?.all fun u => u.1 < idx)
  handleMembershipChange
    { r with uncommittedMemberships := r.uncommittedMemberships ++ [(idx, m)] }

/-- `MaybeChangeUncommittedMembershipsBasedOnLog`: memberships that the commit index has
    reached become the committed one, those beyond the end of the log are dropped. -/
def maybeChangeUncommittedMembershipsBasedOnLog (r : Raft Hash) : Raft Hash :=
  let committed := r.uncommittedMemberships.takeWhile fun u => u.1 ≤ r.commitIdx
  let rest := r.uncommittedMemberships.dropWhile fun u => u.1 ≤ r.commitIdx
  let kept := rest.rdropWhile fun u => r.log.lastIdx < u.1
  let changed := kept.length ≠ r.uncommittedMemberships.length
  let r := r.setMemberships ((committed.getLast?.map (·.2)).getD r.committedMembership) kept
  if changed then r.handleMembershipChange else r

/-! ### Appending to the log -/

def logAppend (r : Raft Hash) (e : LogEntry Hash) : Raft Hash × LogLocation Hash × Error :=
  let newUncommittedMembership : Except Error (Option Membership) := match e.inner with
    | .membershipChange g => (Membership.fromProto g).map some
    | _ => .ok none
  match newUncommittedMembership with
  | .error err => (r, {}, err)
  | .ok mem =>
    match r.log.append e r.lastApplied with
    | (log, .ok) =>
      let r := { r with log := log }
      let loc : LogLocation Hash := ⟨r.currentTerm, r.log.lastIdx, e.hashChain⟩
      let r := match mem with
        | some m => r.addUncommittedMembership loc.idx m
        | none => r
      (r, loc, .ok)
    | (log, err) => ({ r with log := log }, {}, err)

def nextHash (r : Raft Hash) (o : Oracle) (e : LogEntry Hash) : Hash :=
  let previousHash := r.log.mostRecentHash.getD Platform.zeroHash
  let nextIdx := r.log.nextIdx
  Platform.hmacSha256 previousHash ⟨nextIdx, e.term, e.inner.payload (o.mapOrder nextIdx)⟩

def clientRequestInternal (r : Raft Hash) (o : Oracle) (e : LogEntry Hash) :
    Raft Hash × LogLocation Hash × Error :=
  let e := { e with term := r.currentTerm }
  let e := { e with hashChain := some (r.nextHash o e) }
  if r.role ≠ .leader ∨ r.leader.relinquishing then (r, {}, .raftAppendEntryNotLeader)
  else r.logAppend e

/-! ### Elections -/

/-- `RequestVoteMessage`; both callers have just seen that the role is `CANDIDATE`. -/
def requestVoteMessage (r : Raft Hash) : RaftMessage Hash :=
  ⟨r.group, r.currentTerm, .voteRequest
    { lastLogTerm := r.log.lastTerm
      lastLogIdx := r.log.lastIdx
      lastLogHashChain := r.log.hashAt r.log.lastIdx }⟩

def electionTimeout (r : Raft Hash) (o : Oracle) : Raft Hash :=
  if r.voting = false then
    { r with follower := { r.follower with election := r.randomElectionTimeout (o.rand 0) } }
  else match r.role with
    | .leader => r
    | _ =>
      let r := { r with currentTerm := r.currentTerm + 1, votedFor := some r.me }
      let r := r.setRole .candidate
      let r := { r with candidate :=
        { votesGranted := {r.me}, election := r.randomElectionTimeout (o.rand 0) } }
      r.addSendableMessage ⟨none, r.requestVoteMessage⟩

def maybeBecomeLeader (r : Raft Hash) (o : Oracle) : Raft Hash :=
  if r.role ≠ .candidate then r
  else if r.candidate.votesGranted.card < r.membershipQuorumSize then r
  else
    let r := r.setRole .leader
    let followers := r.membership.allReplicas.keys.foldl (fun fs peer =>
      if peer = r.me then fs else fs.insert peer { nextIdx := r.log.nextIdx }) ∅
    let r := { r with leader := { followers := followers } }
    -- a no-op in the new term, to commit entries from past terms
    (r.clientRequestInternal o LogEntry.default).1

/-! ### Replication to followers -/

/-- The loop of `AppendEntries` that collects entries from `idx` on until they have
    `maxEntriesSize` bytes, over at most the given number of indexes. -/
def entriesToSend (log : Log Hash) (maxEntriesSize : Nat) : Nat → Nat → Nat → List (LogEntry Hash)
  | 0, _, _ => []
  | n + 1, idx, total =>
    match log.at? idx with
    | none => []
    | some e =>
      let total := total + Platform.byteSizeLong e
      if maxEntriesSize ≤ total then [e] else e :: entriesToSend log maxEntriesSize n (idx + 1) total

/-- The request that `AppendEntries` builds for a follower. -/
def appendRequestFor (r : Raft Hash) (replication : ReplicationState) : AppendRequest Hash :=
  let lastLogIdx := r.log.lastIdx
  let nextIdx := replication.nextIdx
  let sendEntries := nextIdx ≤ lastLogIdx && !replication.sendProbe
  let prevLogIdx := nextIdx - 1
  let entries := if sendEntries
    then entriesToSend r.log r.config.replicationChunkBytes (lastLogIdx + 1 - nextIdx) nextIdx 0
    else []
  let lastEntry := prevLogIdx + entries.length
  { prevLogIdx := prevLogIdx
    prevLogTerm := if prevLogIdx = 0 then 0 else r.log.termAt prevLogIdx
    prevLogHashChain := if prevLogIdx = 0 then none else r.log.hashAt prevLogIdx
    entries := entries
    leaderCommit := min r.commitIdx lastEntry
    leaderPromise := min r.promiseIdx lastEntry }

def appendEntries (r : Raft Hash) (peer : PeerId) : Raft Hash :=
  if r.role ≠ .leader then r
  else match r.leader.followers.find? peer with
    | none => r
    | some replication =>
      let sendEntries := replication.nextIdx ≤ r.log.lastIdx && !replication.sendProbe
      if !sendEntries && !replication.sendHeartbeat && !replication.sendProbe then r
      else if replication.inflight.isSome then r
      else
        let request := r.appendRequestFor replication
        -- the previous entry is not stored any more
        if request.prevLogTerm = 0 ∧ request.prevLogIdx ≠ 0 then r
        else
          let lastEntry := request.prevLogIdx + request.entries.length
          let r := r.modifyFollower peer fun replication =>
            { replication with sendHeartbeat := false, inflight := some lastEntry }
          r.reply peer (.appendRequest request)

/-! ### Advancing the promise and commit indexes -/

def votingFollowers (r : Raft Hash) : List ReplicationState :=
  (r.leader.followers.toList.filter fun f => f.1 ∈ r.membership.votingReplicas).map (·.2)

/-- `v[n-1]` of the vector `v` sorted in descending order: the highest index that `n` of its
    elements reach; `none` where the source would read outside the vector. -/
def agreedBy (v : List Nat) (n : Nat) : Option Nat :=
  if n = 0 then none else (v.insertionSort (· ≥ ·))[n - 1]?

def raisePromise (r : Raft Hash) (newPromise : Nat) : Raft Hash :=
  if r.promiseIdx < newPromise then { r with promiseIdx := newPromise } else r

/-- Raise `commit_idx_` to a higher index, which may commit a membership. -/
def raiseCommit (r : Raft Hash) (newCommit : Nat) : Raft Hash :=
  if r.commitIdx < newCommit
  then maybeChangeUncommittedMembershipsBasedOnLog { r with commitIdx := newCommit }
  else r

def maybeAdvanceCommitIndex (r : Raft Hash) : Raft Hash :=
  if r.role ≠ .leader then r
  else
    let stored := r.votingFollowers.map (·.matchIdx) ++ [r.log.lastIdx]
    match agreedBy stored r.membershipQuorumSize with
    | none => r.check false
    | some newPromise =>
      let changed := r.promiseIdx < newPromise
      let r := r.raisePromise newPromise
      let promised := r.votingFollowers.map (·.promiseIdx) ++ [r.promiseIdx]
      match agreedBy promised r.membershipQuorumSize with
      | none => r.check false
      | some newCommit =>
        let changed := changed ∨ r.commitIdx < newCommit
        let r := r.raiseCommit newCommit
        -- queue a heartbeat, so that followers advance their commits too
        if changed then r.modifyFollowers fun f => { f with sendHeartbeat := true } else r

/-! ### Message handlers -/

def handleVoteRequest (r : Raft Hash) (o : Oracle) (msgTerm : Nat) (msg : VoteRequest Hash)
    (src : PeerId) : Raft Hash :=
  let logOk := r.log.lastTerm < msg.lastLogTerm ∨
    (msg.lastLogTerm = r.log.lastTerm ∧ r.log.lastIdx ≤ msg.lastLogIdx)
  let grant := msgTerm = r.currentTerm ∧ logOk ∧ (r.votedFor = none ∨ r.votedFor = some src)
  if r.currentTerm < msgTerm then r
  else
    let r := if grant then { r with
        votedFor := some src
        follower := { r.follower with election := r.randomElectionTimeout (o.rand 1) } }
      else r
    r.reply src (.voteResponse ⟨grant⟩)

def handleVoteResponse (r : Raft Hash) (msgTerm : Nat) (msg : VoteResponse) (src : PeerId) :
    Raft Hash :=
  if msgTerm ≠ r.currentTerm then r
  else if r.role ≠ .candidate then r
  else if msg.voteGranted ∧ src ∈ r.membership.votingReplicas then
    { r with candidate := { r.candidate with
        votesGranted := insert src r.candidate.votesGranted } }
  else r

/-- The loop of `HandleAppendRequest` over the entries from index `idx` on; also returns
    `last_processed_idx`, which before the first entry is the index before it. -/
def processEntries (o : Oracle) : Raft Hash → Nat → List (LogEntry Hash) → Raft Hash × Nat
  | r, lastProcessedIdx, [] => (r, lastProcessedIdx)
  | r, lastProcessedIdx, e :: rest =>
    let idx := lastProcessedIdx + 1
    let ourIdxTerm := r.log.termAt idx
    let conflict := ourIdxTerm ≠ 0 ∧ ourIdxTerm ≠ e.term
    if conflict ∧ (idx ≤ r.commitIdx ∨ idx ≤ r.promiseIdx) then (r, lastProcessedIdx)
    else
      let (log, err) := if conflict then r.log.cancelFrom idx else (r.log, .ok)
      if err ≠ .ok then (r, lastProcessedIdx)
      else
        let r := if conflict
          then maybeChangeUncommittedMembershipsBasedOnLog { r with log := log } else r
        if idx = r.log.lastIdx + 1 then
          if some (r.nextHash o e) ≠ e.hashChain then (r, lastProcessedIdx)
          else match r.logAppend e with
            | (r, _, .ok) => processEntries o r idx rest
            | (r, _, _) => (r, lastProcessedIdx)
        else processEntries o r idx rest

/-- What the loop does with an entry that comes right after the log, and with the rest. -/
def processAppend (o : Oracle) (r : Raft Hash) (lastProcessedIdx : Nat) (e : LogEntry Hash)
    (rest : List (LogEntry Hash)) : Raft Hash × Nat :=
  if some (r.nextHash o e) ≠ e.hashChain then (r, lastProcessedIdx)
  else match r.logAppend e with
    | (r, _, .ok) => processEntries o r (lastProcessedIdx + 1) rest
    | (r, _, _) => (r, lastProcessedIdx)

/-- One turn of the loop: it is the last one, or the entry is looked at once a conflicting one,
    which is not committed, has been cancelled. -/
theorem processEntries_cases (o : Oracle) (r : Raft Hash) (idx : Nat) (e : LogEntry Hash)
    (rest : List (LogEntry Hash)) :
    processEntries o r idx (e :: rest) = (r, idx) ∨
      ∃ r₁, (r₁ = r ∨ r.commitIdx < idx + 1 ∧ ∃ log, r.log.cancelFrom (idx + 1) = (log, .ok) ∧
          r₁ = maybeChangeUncommittedMembershipsBasedOnLog { r with log := log }) ∧
        processEntries o r idx (e :: rest) =
          if idx + 1 = r₁.log.lastIdx + 1 then r₁.processAppend o idx e rest
          else processEntries o r₁ (idx + 1) rest := by
  rw [processEntries]
  dsimp only
  by_cases hconflict : r.log.termAt (idx + 1) ≠ 0 ∧ r.log.termAt (idx + 1) ≠ e.term
  · simp only [if_pos hconflict]
    by_cases hstop : idx + 1 ≤ r.commitIdx ∨ idx + 1 ≤ r.promiseIdx
    · exact .inl (if_pos ⟨hconflict, hstop⟩)
    · rw [if_neg fun h => hstop h.2]
      by_cases herr : (r.log.cancelFrom (idx + 1)).2 = .ok
      · rw [if_neg (not_not.mpr herr)]
        have hcommit : r.commitIdx < idx + 1 := not_le.mp fun hle => hstop (.inl hle)
        exact .inr ⟨_, .inr ⟨hcommit, _, Prod.ext rfl herr, rfl⟩, rfl⟩
      · exact .inl (if_pos herr)
  · simp only [hconflict, false_and, if_false, ne_eq, not_true_eq_false]
    exact .inr ⟨r, .inl rfl, rfl⟩

/-- The successful reply of `HandleAppendRequest`. -/
def replyProcessed (r : Raft Hash) (src : PeerId) (lastProcessedIdx : Nat) : Raft Hash :=
  r.reply src (.appendResponse
    { success := true
      matchIdx := lastProcessedIdx
      matchHashChain := r.log.hashAt lastProcessedIdx
      promiseIdx := min r.promiseIdx lastProcessedIdx
      lastLogIdx := r.log.lastIdx })

/-- The part of `HandleAppendRequest` after its loop: learn the leader's commit and promise
    indexes as far as entries were processed, and reply. -/
def finishAppendRequest (r : Raft Hash) (o : Oracle) (msg : AppendRequest Hash) (src : PeerId)
    (lastProcessedIdx : Nat) : Raft Hash :=
  let leaderCommit := min msg.leaderCommit lastProcessedIdx
  let leaderPromise := min msg.leaderPromise lastProcessedIdx
  if r.commitIdx < leaderCommit ∨ r.promiseIdx < leaderPromise then
    match r.verifyMerkleTree (o.nodesVerify 0) with
    | (r, .ok) =>
      let r := (r.raiseCommit leaderCommit).raisePromise leaderPromise
      r.updateMerkleTree.replyProcessed src lastProcessedIdx
    | (r, _) => r
  else r.replyProcessed src lastProcessedIdx

/-- The switch on the role in `HandleAppendRequest`, for a replica that is not the leader of
    the message's term: it follows the sender. -/
def followSender (r : Raft Hash) (o : Oracle) (src : PeerId) : Raft Hash :=
  match r.role with
  | .candidate => { r.setRole .follower with follower :=
      { leader := some src, election := r.randomElectionTimeout (o.rand 2) } }
  | _ => { r with follower :=
      { leader := some src, election := r.randomElectionTimeout (o.rand 2) } }

def handleAppendRequest (r : Raft Hash) (o : Oracle) (msgTerm : Nat)
    (msg : AppendRequest Hash) (src : PeerId) : Raft Hash :=
  let logOk := msg.prevLogIdx = 0 ∨
    ((r.log.at? msg.prevLogIdx).isSome ∧ msg.prevLogTerm = r.log.termAt msg.prevLogIdx)
  if r.currentTerm < msgTerm then r
  else if msgTerm = r.currentTerm ∧ r.role = .leader then r
  else
    let r := if msgTerm = r.currentTerm then r.followSender o src else r
    if msgTerm < r.currentTerm ∨ (msgTerm = r.currentTerm ∧ r.role = .follower ∧ ¬logOk) then
      r.reply src (.appendResponse
        { success := false
          matchIdx := r.commitIdx
          matchHashChain := r.log.hashAt r.commitIdx
          lastLogIdx := r.log.lastIdx
          promiseIdx := r.promiseIdx })
    else
      let r := r.check (decide (msgTerm = r.currentTerm ∧ r.role = .follower ∧ logOk))
      let (r, lastProcessedIdx) := processEntries o r msg.prevLogIdx msg.entries
      r.finishAppendRequest o msg src lastProcessedIdx

/-- The loop of `HandleAppendResponse` that moves `next_idx` back while the entries to resend
    fit in one chunk. -/
def backOff (log : Log Hash) (matchIdx : Nat) : Nat → Nat → Nat
  | 0, _ => 0
  | nextIdx + 1, chunkSizeRemaining =>
    if nextIdx ≤ matchIdx then nextIdx + 1
    else
      let logEntrySize := log.serializedSizeAt (nextIdx + 1)
      if chunkSizeRemaining < logEntrySize then nextIdx + 1
      else backOff log matchIdx nextIdx (chunkSizeRemaining - logEntrySize)

def handleAppendResponse (r : Raft Hash) (msgTerm : Nat) (msg : AppendResponse Hash)
    (src : PeerId) : Raft Hash :=
  if msgTerm ≠ r.currentTerm then r
  else if r.role ≠ .leader then r
  else if src ∉ r.leader.followers then r
  else if msg.success then
    let r := r.check (match r.log.at? msg.matchIdx with
      | some e => decide (msg.matchHashChain = e.hashChain)
      | none => decide (msg.matchIdx ≤ r.log.lastIdx))
    r.modifyFollower src fun replication => { replication with
      inflight := if replication.inflight.any (· ≤ msg.matchIdx) then none
        else replication.inflight
      nextIdx := max replication.nextIdx (msg.matchIdx + 1)
      matchIdx := max replication.matchIdx msg.matchIdx
      promiseIdx := max replication.promiseIdx msg.promiseIdx
      sendProbe := false }
  else
    r.modifyFollower src fun replication => { replication with
      nextIdx := backOff r.log msg.matchIdx
        (max (msg.matchIdx + 1) (min (replication.nextIdx - 1) (msg.lastLogIdx + 1)))
        r.config.replicationChunkBytes
      sendProbe := true
      inflight := none }

def updateTerm (r : Raft Hash) (o : Oracle) (msg : RaftMessage Hash) : Raft Hash :=
  if msg.term ≤ r.currentTerm then r
  else
    let newElectionTicks := match r.role with
      | .follower => r.follower.election
      | .candidate => r.candidate.election
      | .leader => r.randomElectionTimeout (o.rand 3)
    let r := { r with currentTerm := msg.term }
    { r.setRole .follower with follower := { election := newElectionTicks }, votedFor := none }

def checkLogHash (r : Raft Hash) (idx : Nat) (term : Nat) (hash : Option Hash)
    (allowFuture : Bool) : Error :=
  if idx = 0 then .ok
  else if idx < r.log.oldestStored then .raftMsgTruncated
  else if r.log.lastIdx < idx then (if allowFuture then .ok else .raftMsgInFuture)
  else match r.log.at? idx with
    | none => .checkFailed
    | some e =>
      if term ≠ 0 ∧ e.term < term then
        (if r.promiseIdx < idx then .ok else .raftMsgTermPromised)
      else if term ≠ 0 ∧ term < e.term then .ok  -- might just be an old message
      else if hash ≠ e.hashChain then .raftMsgHashMismatch
      else .ok

/-- The loop of `ValidateReceivedMessage` over the entries of an append request. -/
def checkEntries (r : Raft Hash) : Nat → List (LogEntry Hash) → Error
  | _, [] => .ok
  | idx, e :: rest =>
    match r.checkLogHash (idx + 1) e.term e.hashChain true with
    | .ok => r.checkEntries (idx + 1) rest
    | err => err

def validateReceivedMessage (r : Raft Hash) (msg : RaftMessage Hash) (src : PeerId) : Error :=
  if msg.group ≠ r.group then .raftMsgWrongGroup
  else if src ∉ r.membership.allReplicas then .raftMsgNotPeer
  else match msg.inner with
    | .voteRequest m => r.checkLogHash m.lastLogIdx m.lastLogTerm m.lastLogHashChain true
    | .voteResponse _ => .ok
    | .appendRequest m =>
      match r.checkLogHash m.prevLogIdx m.prevLogTerm m.prevLogHashChain true with
      | .ok =>
        if m.prevLogIdx + m.entries.length < m.leaderCommit then .raftMsgAppendEntryIndex
        else if m.prevLogIdx + m.entries.length < m.leaderPromise then .raftMsgAppendEntryIndex
        else if m.leaderPromise < m.leaderCommit then .raftMsgLogIndexOrdering
        else r.checkEntries m.prevLogIdx m.entries
      | err => err
    | .appendResponse m =>
      match r.checkLogHash m.matchIdx 0 m.matchHashChain false with
      | .ok =>
        if m.lastLogIdx < m.matchIdx ∨ m.lastLogIdx < m.promiseIdx then .raftMsgLogIndexOrdering
        else .ok
      | err => err
    | .timeoutNow _ => .ok
    | .notSet => .raftMsgInvalidType

/-! ### Sending what a change of state calls for -/

def tryToRelinquishLeadership (r : Raft Hash) (o : Oracle) : Raft Hash :=
  let next := r.membership.votingReplicas.keys.find? fun peer =>
    peer ≠ r.me && (r.leader.followers.find? peer).any fun state =>
      state.matchIdx = r.log.lastIdx
  match next with
  | none => r
  | some next =>
    let r := r.reply next (.timeoutNow true)
    { r.setRole .follower with follower := { election := r.randomElectionTimeout (o.rand 4) } }

/-- The part of `MaybeChangeStateAndSendMessages` that guards `MaybeAdvanceCommitIndex` with
    the Merkle tree. -/
def advanceVerified (r : Raft Hash) (o : Oracle) : Raft Hash :=
  match r.verifyMerkleTree (o.nodesVerify 1) with
  | (r, .ok) => r.maybeAdvanceCommitIndex.updateMerkleTree
  | (r, _) => r

def maybeChangeStateAndSendMessages (r : Raft Hash) (o : Oracle) : Raft Hash :=
  let r := (r.maybeBecomeLeader o).advanceVerified o
  let r := r.peers.foldl appendEntries r
  if r.role = .leader ∧ r.leader.relinquishing then r.tryToRelinquishLeadership o else r

/-! ### The calls of the enclave core

Most calls change the state and then call `MaybeChangeStateAndSendMessages`; what they do
before that is a function of its own, so that statements can speak about the state in between.
-/

/-- `TimerTick`, up to its call of `MaybeChangeStateAndSendMessages`. -/
def countTick (r : Raft Hash) (o : Oracle) : Raft Hash :=
  match r.role with
  | .follower =>
    let r := { r with follower := { r.follower with election := r.follower.election - 1 } }
    if r.follower.election ≤ 0 then r.electionTimeout o else r
  | .candidate =>
    let r := { r with candidate := { r.candidate with election := r.candidate.election - 1 } }
    if r.candidate.election ≤ 0 then r.electionTimeout o else r
  | .leader =>
    let r := r.modifyFollowers fun f => { f with lastSeenTicks :=
      if f.lastSeenTicks ≠ InvalidTicks then f.lastSeenTicks + 1 else f.lastSeenTicks }
    let r := { r with leader := { r.leader with heartbeat := r.leader.heartbeat - 1 } }
    if r.leader.heartbeat ≤ 0 then
      let r := r.modifyFollowers fun f => { f with sendHeartbeat := true }
      { r with leader := { r.leader with heartbeat := r.config.heartbeatTicks } }
    else r

def timerTick (r : Raft Hash) (o : Oracle) : Raft Hash :=
  (r.countTick o).maybeChangeStateAndSendMessages o

def resetPeer (r : Raft Hash) (id : PeerId) : Raft Hash :=
  if id ∉ r.membership.allReplicas then r
  else match r.role with
    | .follower => r
    | .candidate => r.addSendableMessage ⟨some id, r.requestVoteMessage⟩
    | .leader => r.modifyFollower id fun state => { state with
        nextIdx := r.log.lastIdx + 1
        sendProbe := true
        sendHeartbeat := true
        inflight := none }

/-- `Reconfigure`, with `set_election_timeout` and `set_heartbeat_timeout`. -/
def reconfigure (r : Raft Hash) (config : RaftConfig) : Raft Hash :=
  { r with
    config := config
    follower := { r.follower with election := min config.electionTicks r.follower.election }
    candidate := { r.candidate with election := min config.electionTicks r.candidate.election }
    leader := { r.leader with heartbeat := config.heartbeatTicks } }

/-- `RelinquishLeadership`, up to its call of `MaybeChangeStateAndSendMessages`, for a leader
    that is not relinquishing yet. -/
def appendNoopAndRelinquish (r : Raft Hash) (o : Oracle) : Raft Hash :=
  let r := (r.clientRequestInternal o LogEntry.default).1
  { r with leader := { r.leader with relinquishing := true } }

def relinquishLeadership (r : Raft Hash) (o : Oracle) : Raft Hash :=
  if r.role ≠ .leader ∨ r.leader.relinquishing then r
  else (r.appendNoopAndRelinquish o).maybeChangeStateAndSendMessages o

def checkLogRequest (r : Raft Hash) (e : LogEntry Hash) : Error :=
  match e.inner with
  | .membershipChange g =>
    if r.role ≠ .leader ∨ r.leader.relinquishing then .raftAppendEntryNotLeader
    else if r.uncommittedMemberships ≠ [] then .raftMembershipAlreadyChanging
    else match Membership.fromProto g with
      | .error err => err
      | .ok next =>
        Membership.validProgressionForLeader r.me r.committedMembership next r.superMajority
  | _ => .ok

def logRequest (r : Raft Hash) (o : Oracle) (e : LogEntry Hash) :
    Raft Hash × LogLocation Hash × Error :=
  match r.checkLogRequest e with
  | .ok =>
    let (r, out) := r.clientRequestInternal o e
    (r.maybeChangeStateAndSendMessages o, out)
  | err => (r, {}, err)

omit [DecidableEq Hash] in
theorem logRequest_fst (r : Raft Hash) (o : Oracle) (e : LogEntry Hash) :
    (r.logRequest o e).1 = if r.checkLogRequest e = .ok then
      (r.clientRequestInternal o e).1.maybeChangeStateAndSendMessages o else r := by
  rw [logRequest]
  split
  · rename_i hok
    rw [if_pos hok]
  · rename_i hrefused
    rw [if_neg hrefused]

/-- `Receive` with a valid message, before it looks at what the message says: the replica learns
    the term, and a leader notes that it has seen the sender. -/
def noteMessage (r : Raft Hash) (o : Oracle) (msg : RaftMessage Hash) (src : PeerId) : Raft Hash :=
  let r := r.updateTerm o msg
  if r.role = .leader then r.modifyFollower src fun f => { f with lastSeenTicks := 0 } else r

/-- `Receive`, from a valid message up to its call of `MaybeChangeStateAndSendMessages`. -/
def handleMessage (r : Raft Hash) (o : Oracle) (msg : RaftMessage Hash) (src : PeerId) :
    Raft Hash :=
  let r := r.noteMessage o msg src
  match msg.inner with
  | .voteRequest m => r.handleVoteRequest o msg.term m src
  | .voteResponse m =>
    if msg.term < r.currentTerm then r else r.handleVoteResponse msg.term m src
  | .appendRequest m => r.handleAppendRequest o msg.term m src
  | .appendResponse m =>
    if msg.term < r.currentTerm then r else r.handleAppendResponse msg.term m src
  | .timeoutNow _ => if msg.term < r.currentTerm then r else r.electionTimeout o
  | .notSet => r

def receive (r : Raft Hash) (o : Oracle) (msg : RaftMessage Hash) (src : PeerId) : Raft Hash :=
  match r.validateReceivedMessage msg src with
  | .ok => (r.handleMessage o msg src).maybeChangeStateAndSendMessages o
  | .checkFailed => r.check false
  | _ => r

theorem receive_cases (r : Raft Hash) (o : Oracle) (msg : RaftMessage Hash) (src : PeerId) :
    r.validateReceivedMessage msg src = .ok ∧
        r.receive o msg src = (r.handleMessage o msg src).maybeChangeStateAndSendMessages o ∨
      r.validateReceivedMessage msg src = .checkFailed ∧ r.receive o msg src = r.check false ∨
      r.receive o msg src = r := by
  rw [receive]
  split
  · exact .inl ⟨‹_›, rfl⟩
  · exact .inr (.inl ⟨‹_›, rfl⟩)
  · exact .inr (.inr rfl)

def takeCommittedLog (r : Raft Hash) : Raft Hash × Nat × LogEntry Hash :=
  if r.commitIdx ≤ r.lastApplied then (r, 0, LogEntry.default)
  else
    let r := { r with lastApplied := r.lastApplied + 1 }
    match r.log.at? r.lastApplied with
    | some e => (r, r.lastApplied, e)
    | none => (r.check false, r.lastApplied, LogEntry.default)

/-- The constructor, before it looks whether the replica is alone. -/
def newFollower (group : Nat) (me : PeerId) (mem : Membership) (log : Log Hash)
    (config : RaftConfig) (committedLog : Bool) (superMajority : Nat) (o : Oracle) : Raft Hash :=
  let idx := if committedLog then log.lastIdx else 0
  updateMerkleTree
    { group := group, me := me, committedMembership := mem, uncommittedMemberships := []
      config := config, lastApplied := idx, currentTerm := 0, votedFor := none
      role := .follower
      follower := { election := config.electionTicks + o.rand 5 % config.electionTicks }
      candidate := {}, leader := {}, log := log, commitLeaf := 0, commitIdx := idx
      promiseLeaf := 0, promiseIdx := idx, sendableMessages := []
      superMajority := superMajority, merkleErrors := 0, aborted := false }

/-- The constructor `Raft(…)`. -/
def new (group : Nat) (me : PeerId) (mem : Membership) (log : Log Hash)
    (config : RaftConfig) (committedLog : Bool) (superMajority : Nat) (o : Oracle) : Raft Hash :=
  let r := newFollower group me mem log config committedLog superMajority o
  if r.voting ∧ r.membership.votingReplicas.size = 1 then
    -- a one-instance group: become leader
    let r := (r.electionTimeout o).maybeChangeStateAndSendMessages o
    r.check (r.sendableMessages = [])
  else r

end Raft

end SVR2
