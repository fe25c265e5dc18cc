import SVR2.Raft.LogSpec
import SVR2.Raft.Replica

/-!
# A group of replicas and the network between them

The network keeps every packet that was ever sent, and a delivery picks any of them: packets
are lost, delayed, reordered and duplicated at will, but never made up.  A run is the list of
its events.
-/

namespace SVR2

open Lib

variable {Hash : Type}

structure Packet (Hash : Type) where
  src : PeerId
  dst : PeerId
  message : RaftMessage Hash
deriving DecidableEq

/-- A group that starts from one committed log: its replicas may differ in their
    configuration, in the memory their logs may take and in their luck. -/
structure RaftGroup (Hash : Type) where
  id : Nat
  membership : Membership
  superMajority : Nat
  log : Log Hash
  maxBytes : PeerId → Nat
  config : PeerId → RaftConfig
  oracle : PeerId → Oracle
  log_ok : log.Ok
  voting_subset : ∀ p ∈ membership.votingReplicas.keys, p ∈ membership.allReplicas

/-- The replicas that run, the states every replica has been in between two calls (the latest
    first), and the packets sent so far.  A replica that has not started, or whose process ended
    in a failed `CHECK`, is `none`. -/
structure Sys (Hash : Type) where
  replicas : PeerId → Option (Raft Hash)
  history : PeerId → List (Raft Hash)
  net : List (Packet Hash)

/-- What can happen to the system.  `deliver k` hands packet `k` of the network to its
    destination; `rollback p k` puts replica `p` back into the state it was in `k` states ago;
    `join p q k …` starts a new replica `p` from the committed log of a state of `q`. -/
inductive Event (Hash : Type) where
  | timerTick (p : PeerId) (o : Oracle)
  | logRequest (p : PeerId) (e : LogEntry Hash) (o : Oracle)
  | relinquishLeadership (p : PeerId) (o : Oracle)
  | resetPeer (p : PeerId) (id : PeerId)
  | reconfigure (p : PeerId) (config : RaftConfig)
  | takeCommittedLog (p : PeerId)
  | deliver (k : Nat) (o : Oracle)
  | rollback (p : PeerId) (k : Nat)
  | join (p q : PeerId) (k : Nat) (maxBytes : Nat) (config : RaftConfig) (o : Oracle)

def Event.FixedMembership : Event Hash → Prop
  | .logRequest _ e _ => ∀ g, e.inner ≠ .membershipChange g
  | .join .. => False
  | _ => True

def Event.ResetsOnly (F : Finset PeerId) : Event Hash → Prop
  | .rollback p _ => p ∈ F
  | _ => True

/-- The packets that the replica's sendable messages turn into. -/
def Raft.packets (r : Raft Hash) : List (Packet Hash) :=
  r.sendableMessages.flatMap fun m => match m.dst with
    | some dst => [⟨r.me, dst, m.message⟩]
    | none => r.peers.map fun dst => ⟨r.me, dst, m.message⟩

variable [DecidableEq Hash] [Platform Hash]

/-- A copy of a log up to the index `idx`, for a replica that joins. -/
def Log.copyTo (log : Log Hash) (idx : Nat) (maxBytes : Nat) : Log Hash :=
  let entries := log.entries.take (idx + 1 - log.oldestStoredIdx)
  { log with
    entries := entries
    currBytes := (entries.map logentryBytesInLog).sum
    maxBytes := maxBytes }

namespace Sys

/-- Replica `p` is in state `r` after a call: its messages go out. -/
def settle (s : Sys Hash) (p : PeerId) (r : Raft Hash) : Sys Hash :=
  if r.aborted then { s with replicas := Function.update s.replicas p none }
  else
    let idle := { r with sendableMessages := [] }
    { replicas := Function.update s.replicas p (some idle)
      history := Function.update s.history p (idle :: s.history p)
      net := s.net ++ r.packets }

def call (s : Sys Hash) (p : PeerId) (f : Raft Hash → Raft Hash) : Sys Hash :=
  match s.replicas p with
  | none => s
  | some r => s.settle p (f r)

def apply (s : Sys Hash) : Event Hash → Sys Hash
  | .timerTick p o => s.call p fun r => r.timerTick o
  | .logRequest p e o => s.call p fun r => (r.logRequest o e).1
  | .relinquishLeadership p o => s.call p fun r => r.relinquishLeadership o
  -- the peer manager has no connection from a replica to itself
  | .resetPeer p id => if id = p then s else s.call p fun r => r.resetPeer id
  | .reconfigure p config => s.call p fun r => r.reconfigure config
  | .takeCommittedLog p => s.call p fun r => r.takeCommittedLog.1
  | .deliver k o =>
    match s.net[k]? with
    | none => s
    | some pkt => s.call pkt.dst fun r => r.receive o pkt.message pkt.src
  | .rollback p k =>
    match (s.history p)[k]? with
    | none => s
    | some r => { s with replicas := Function.update s.replicas p (some r) }
  | .join p q k maxBytes config o =>
    if s.history p ≠ [] then s
    else match (s.history q)[k]? with
      | none => s
      | some m => s.settle p <|
        Raft.new m.group p m.committedMembership (m.log.copyTo m.commitIdx maxBytes) config true
          m.superMajority o

/-- The state in which an event calls `MaybeChangeStateAndSendMessages`, if it does, with the
    surroundings of the call. -/
def changing (s : Sys Hash) : Event Hash → Option (Raft Hash × Oracle)
  | .timerTick p o => (s.replicas p).map fun r => (r.countTick o, o)
  | .logRequest p e o => (s.replicas p).bind fun r =>
    if r.checkLogRequest e = .ok then some ((r.clientRequestInternal o e).1, o) else none
  | .relinquishLeadership p o => (s.replicas p).bind fun r =>
    if r.role ≠ .leader ∨ r.leader.relinquishing then none
    else some (r.appendNoopAndRelinquish o, o)
  | .deliver k o => s.net[k]?.bind fun pkt => (s.replicas pkt.dst).bind fun r =>
    if r.validateReceivedMessage pkt.message pkt.src = .ok
    then some (r.handleMessage o pkt.message pkt.src, o) else none
  | .join p q k maxBytes config o =>
    if s.history p ≠ [] then none
    else (s.history q)[k]?.bind fun m =>
      let r := Raft.newFollower m.group p m.committedMembership
        (m.log.copyTo m.commitIdx maxBytes) config true m.superMajority o
      if r.voting ∧ r.membership.votingReplicas.size = 1 then some (r.electionTimeout o, o) else none
  | _ => none

def run (s : Sys Hash) (es : List (Event Hash)) : Sys Hash := es.foldl apply s

/-- Every event of the run meets `P` in the state in which it happens. -/
def AllEvents (P : Sys Hash → Event Hash → Prop) : Sys Hash → List (Event Hash) → Prop
  | _, [] => True
  | s, e :: es => P s e ∧ AllEvents P (s.apply e) es

instance instDecidableAllEvents {P : Sys Hash → Event Hash → Prop} [∀ s e, Decidable (P s e)] :
    ∀ (s : Sys Hash) (es : List (Event Hash)), Decidable (AllEvents P s es)
  | _, [] => instDecidableTrue
  | s, e :: es =>
    have : Decidable (AllEvents P (s.apply e) es) := instDecidableAllEvents (s.apply e) es
    inferInstanceAs (Decidable (P s e ∧ AllEvents P (s.apply e) es))

end Sys

namespace RaftGroup

def newReplica (g : RaftGroup Hash) (p : PeerId) : Raft Hash :=
  Raft.new g.id p g.membership { g.log with maxBytes := g.maxBytes p } (g.config p) true
    g.superMajority (g.oracle p)

/-- The group as it starts: every replica of the membership runs whose constructor returns.
    One that returns leaves no message behind. -/
def start (g : RaftGroup Hash) : Sys Hash :=
  let boot := fun p => if p ∈ g.membership.allReplicas ∧ (g.newReplica p).aborted = false
    then some { g.newReplica p with sendableMessages := [] } else none
  { replicas := boot, history := fun p => (boot p).toList, net := [] }

end RaftGroup

end SVR2
