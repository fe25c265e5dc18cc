import Mathlib.Data.Finset.Insert
import Mathlib.Data.List.Sort
import SVR2.Raft.Membership

/-!
# Messages and state of a Raft replica

`raft/raft.h`, `raft/internal.h` and the messages of `proto/raft.proto`, with the small
functions of `raft.cc` that only read the state.
-/

namespace SVR2

open Lib

variable {Hash : Type}

/-! ### Messages -/

structure VoteRequest (Hash : Type) where
  lastLogIdx : Nat
  lastLogTerm : Nat
  lastLogHashChain : Option Hash
deriving DecidableEq

structure VoteResponse where
  voteGranted : Bool
deriving DecidableEq

structure AppendRequest (Hash : Type) where
  prevLogIdx : Nat
  prevLogTerm : Nat
  prevLogHashChain : Option Hash
  leaderCommit : Nat
  leaderPromise : Nat
  entries : List (LogEntry Hash)
deriving DecidableEq

structure AppendResponse (Hash : Type) where
  success : Bool
  matchIdx : Nat
  lastLogIdx : Nat
  promiseIdx : Nat
  matchHashChain : Option Hash
deriving DecidableEq

inductive MessageInner (Hash : Type) where
  | voteRequest (m : VoteRequest Hash)
  | voteResponse (m : VoteResponse)
  | appendRequest (m : AppendRequest Hash)
  | appendResponse (m : AppendResponse Hash)
  | timeoutNow (b : Bool)
  | notSet
deriving DecidableEq

structure RaftMessage (Hash : Type) where
  group : Nat
  term : Nat
  inner : MessageInner Hash
deriving DecidableEq

/-- `SendableRaftMessage`: a broadcast when `dst` is `none`. -/
structure SendableRaftMessage (Hash : Type) where
  dst : Option PeerId
  message : RaftMessage Hash
deriving DecidableEq

/-! ### State -/

structure RaftConfig where
  electionTicks : Nat
  heartbeatTicks : Nat
  replicationChunkBytes : Nat
deriving DecidableEq

inductive Role where
  | follower
  | candidate
  | leader
deriving DecidableEq, Repr

structure ReplicationState where
  nextIdx : Nat
  matchIdx : Nat := 0
  promiseIdx : Nat := 0
  inflight : Option Nat := none
  sendProbe : Bool := false
  sendHeartbeat : Bool := false
  lastSeenTicks : Ticks := 0
deriving DecidableEq

structure FollowerState where
  leader : Option PeerId := none
  election : Ticks := 0
deriving DecidableEq

structure CandidateState where
  votesGranted : Finset PeerId := ∅
  election : Ticks := 0
deriving DecidableEq

structure LeaderState where
  followers : OrdMap PeerId ReplicationState := ∅
  heartbeat : Ticks := 0
  relinquishing : Bool := false
deriving DecidableEq

/-- The fields of `Raft`.  A Merkle leaf holds the hash last written to it.  Two fields are not
    in the source: `merkleErrors` counts the `COUNTED_ERROR`s of `VerifyMerkleTree`, and
    `aborted` says that a `CHECK` has failed, which ends the process. -/
structure Raft (Hash : Type) where
  group : Nat
  me : PeerId
  committedMembership : Membership
  uncommittedMemberships : List (Nat × Membership)
  config : RaftConfig
  lastApplied : Nat
  currentTerm : Nat
  votedFor : Option PeerId
  role : Role
  follower : FollowerState
  candidate : CandidateState
  leader : LeaderState
  log : Log Hash
  commitLeaf : MerkleHash
  commitIdx : Nat
  promiseLeaf : MerkleHash
  promiseIdx : Nat
  sendableMessages : List (SendableRaftMessage Hash)
  superMajority : Nat
  merkleErrors : Nat
  aborted : Bool
deriving DecidableEq

/-- What the surroundings decide during one call of a replica: the values `rand()` returns at
    its call sites, the order in which a protobuf map is serialised for the hash of index
    `idx`, and whether the inner nodes of the Merkle tree verify (they fail to only if memory
    was tampered with). -/
structure Oracle where
  rand : Nat → Nat
  mapOrder : Nat → MinimumLimits → List (String × Bytes)
  mapOrder_perm : ∀ idx m, (mapOrder idx m).Perm m.toList
  nodesVerify : Nat → Bool

namespace Raft

def check (r : Raft Hash) (c : Bool) : Raft Hash := { r with aborted := r.aborted || !c }

/-- `membership()`: the most recent membership of the log, committed or not. -/
def membership (r : Raft Hash) : Membership :=
  match r.uncommittedMemberships.getLast? with
  | some (_, m) => m
  | none => r.committedMembership

def voting (r : Raft Hash) : Bool := r.membership.votingReplicas.contains r.me

def peers (r : Raft Hash) : List PeerId := r.membership.allReplicas.keys.filter (· ≠ r.me)

/-- `quorum_size`.  The subtraction of two `size_t` wraps; the sums stay far below `2 ^ 64`. -/
def quorumSize (votingReplicas superMajority : Nat) : Nat :=
  let diff := if superMajority ≤ votingReplicas then votingReplicas - superMajority
    else votingReplicas + 2 ^ 64 - superMajority
  min votingReplicas (diff / 2 + 1 + superMajority)

def membershipQuorumSize (r : Raft Hash) : Nat :=
  quorumSize r.membership.votingReplicas.size r.superMajority

/-- `RandomElectionTimeout()`, with the value that `rand()` returned. -/
def randomElectionTimeout (r : Raft Hash) (rand : Nat) : Ticks :=
  r.config.electionTicks + rand % r.config.electionTicks

def setRole (r : Raft Hash) (role : Role) : Raft Hash :=
  { r with role := role, leader := {}, follower := {}, candidate := {} }

def addSendableMessage (r : Raft Hash) (msg : SendableRaftMessage Hash) : Raft Hash :=
  match msg.dst with
  | some dst =>
    let r := r.check (dst ≠ r.me)
    { r with sendableMessages := r.sendableMessages ++ [msg] }
  | none =>
    -- no broadcast if we are the only one in the group
    if r.membership.allReplicas.size = 1 ∧ r.me ∈ r.membership.allReplicas then r
    else { r with sendableMessages := r.sendableMessages ++ [msg] }

/-- `SendableRaftMessage::Reply`, put among the messages to send. -/
def reply (r : Raft Hash) (dst : PeerId) (inner : MessageInner Hash) : Raft Hash :=
  r.addSendableMessage ⟨some dst, ⟨r.group, r.currentTerm, inner⟩⟩

def setMemberships (r : Raft Hash) (committed : Membership)
    (uncommitted : List (Nat × Membership)) : Raft Hash :=
  { r with committedMembership := committed, uncommittedMemberships := uncommitted }

def setFollowers (r : Raft Hash) (followers : OrdMap PeerId ReplicationState) : Raft Hash :=
  { r with leader := { r.leader with followers := followers } }

/-- A change to `leader_.followers[peer]`, for a peer that is there. -/
def modifyFollower (r : Raft Hash) (peer : PeerId)
    (f : ReplicationState → ReplicationState) : Raft Hash :=
  match r.leader.followers.find? peer with
  | some state => r.setFollowers (r.leader.followers.insert peer (f state))
  | none => r

def modifyFollowers (r : Raft Hash) (f : ReplicationState → ReplicationState) : Raft Hash :=
  r.setFollowers (r.leader.followers.mapVal fun _ => f)

/-! ### The Merkle leaves -/

variable [Platform Hash]

/-- `MerkleHashFromLogIter`, for a log index. -/
def merkleHashAt (r : Raft Hash) (idx : Nat) : MerkleHash :=
  match r.log.at? idx with
  | none => 0
  | some e => match e.hashChain with
    | none => 0
    | some h => Platform.merklePrefix h

/-- The `CHECK` of `MerkleHashFromLogIter`: the stored hash chain is long enough. -/
def merkleHashChecked (r : Raft Hash) (idx : Nat) : Bool :=
  (r.log.at? idx).all fun e => e.hashChain.isSome

/-- The `CHECK`s of `MerkleHashFromLogIter` at the committed and the promised index. -/
def checkMerkleHashes (r : Raft Hash) : Raft Hash :=
  r.check (r.merkleHashChecked r.commitIdx && r.merkleHashChecked r.promiseIdx)

def updateMerkleTree (r : Raft Hash) : Raft Hash :=
  let r := r.checkMerkleHashes
  { r with
    commitLeaf := r.merkleHashAt r.commitIdx
    promiseLeaf := r.merkleHashAt r.promiseIdx }

/-- `VerifyMerkleTree`; `nodesVerify` tells whether the nodes above the leaves verify. -/
def verifyMerkleTree (r : Raft Hash) (nodesVerify : Bool) : Raft Hash × Error :=
  let r := r.checkMerkleHashes
  if r.commitLeaf ≠ r.merkleHashAt r.commitIdx ∨ r.promiseLeaf ≠ r.merkleHashAt r.promiseIdx then
    ({ r with merkleErrors := r.merkleErrors + 1 }, .merkleVerifyLeaf)
  else if nodesVerify = false then
    ({ r with merkleErrors := r.merkleErrors + 1 }, .merkleVerifyNode)
  else (r, .ok)

end Raft

end SVR2
