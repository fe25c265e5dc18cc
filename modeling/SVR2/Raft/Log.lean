import Mathlib.Data.List.Basic
import SVR2.Basic
import SVR2.Lib.OrdMap

/-!
# The Raft log

`raft/log.cc`: a queue of entries, stored from `oldest_stored_idx_` on, with a bound on the
memory it may take.  The oldest entries are given up to make room, the newest are cancelled
when a new leader overrides them.

Hash values are an abstract type: the development never looks inside one.  A `hash_chain`
field that does not hold 32 bytes is `none`.  Log indexes, terms and group ids (`LogIdx`,
`TermId` and `GroupId` in the source) are natural numbers: no run reaches `2 ^ 64`.
-/

namespace SVR2

open Lib

/-- The 8-byte hashes of the Merkle tree over enclave memory. -/
abbrev MerkleHash := Nat

/-- `Replica`; a `peer_id` that is not 32 bytes long is `none`. -/
structure Replica where
  peerId : Option PeerId
  voting : Bool
deriving DecidableEq, Repr

abbrev ReplicaGroup := List Replica

abbrev MinimumLimits := OrdMap String Bytes

inductive Inner where
  | notSet
  | data (d : Bytes)
  | membershipChange (g : ReplicaGroup)
  | minimums (m : MinimumLimits)
deriving DecidableEq

structure LogEntry (Hash : Type) where
  term : Nat
  inner : Inner
  hashChain : Option Hash
deriving DecidableEq

/-- The payload of the byte string that `NextHash` feeds to HMAC-SHA256, one constructor
    per prefix byte.  The serialisation of a `ReplicaGroup` determines it and is determined
    by it; that of a protobuf map lists the map's entries in some order. -/
inductive HmacPayload where
  | data (d : Bytes)
  | membershipChange (g : ReplicaGroup)
  | notSet
  | minimums (fields : List (String × Bytes))
deriving DecidableEq

/-- The byte string that `NextHash` feeds to HMAC-SHA256: index, term and payload. -/
structure HmacInput where
  idx : Nat
  term : Nat
  payload : HmacPayload
deriving DecidableEq

/-- What the replica takes from libraries and the compiler: HMAC-SHA256, the all-zero hash,
    the prefix of a hash that the Merkle tree keeps, the protobuf size of an entry and the
    sizes of the objects in memory. -/
class Platform (Hash : Type) where
  hmacSha256 : Hash → HmacInput → Hash
  zeroHash : Hash
  merklePrefix : Hash → MerkleHash
  byteSizeLong : LogEntry Hash → Nat
  sizeofReplicaGroup : Nat
  sizeofReplica : Nat
  sizeofLogEntry : Nat
  sizeofString : Nat

def INT_MAX : Nat := 2 ^ 31 - 1

def sizeofPeerID : Nat := 32

variable {Hash : Type}

/-- `LogEntry::data().size()`: an entry with another `inner` has no data. -/
def Inner.dataSize : Inner → Nat
  | .data d => d.length
  | _ => 0

def logentryBytesInLog [Platform Hash] (e : LogEntry Hash) : Nat :=
  let memChange := match e.inner with
    | .membershipChange g =>
      Platform.sizeofReplicaGroup Hash +
        g.length * (sizeofPeerID + Platform.sizeofReplica Hash)
    | _ => 0
  let hashChain := match e.hashChain with
    | some _ => 32 + Platform.sizeofString Hash
    | none => 0
  memChange + hashChain + Platform.sizeofLogEntry Hash + Platform.sizeofString Hash +
    e.inner.dataSize

/-- `Log`.  `removed` is not in the source and no function reads it: it keeps the entries that
    were given up to make room, so that `removed ++ entries` is the log as it was written. -/
structure Log (Hash : Type) where
  entries : List (LogEntry Hash)
  oldestStoredIdx : Nat
  currBytes : Nat
  maxBytes : Nat
  removed : List (LogEntry Hash)
deriving DecidableEq

namespace Log

def new (maxBytes : Nat) : Log Hash where
  entries := []
  oldestStoredIdx := 1
  currBytes := 0
  maxBytes := maxBytes
  removed := []

/-- `At(idx)`: the entry, or `none` for an iterator that is not valid. -/
def at? (log : Log Hash) (idx : Nat) : Option (LogEntry Hash) :=
  if idx < log.oldestStoredIdx then none else log.entries[idx - log.oldestStoredIdx]?

def termAt (log : Log Hash) (idx : Nat) : Nat :=
  ((log.at? idx).map (·.term)).getD 0

/-- `At(idx)`'s `hash_chain`, the empty string where the iterator is not valid. -/
def hashAt (log : Log Hash) (idx : Nat) : Option Hash :=
  (log.at? idx).bind (·.hashChain)

/-- `At(idx).SerializedSize()`: the size cached when the entry was appended. -/
def serializedSizeAt [Platform Hash] (log : Log Hash) (idx : Nat) : Nat :=
  match log.at? idx with
  | some e => Platform.byteSizeLong e
  | none => 0

def oldestStored (log : Log Hash) : Nat :=
  if log.entries = [] then 0 else log.oldestStoredIdx

def lastIdx (log : Log Hash) : Nat :=
  if log.entries = [] then 0 else log.oldestStoredIdx + log.entries.length - 1

def nextIdx (log : Log Hash) : Nat := log.lastIdx + 1

def lastTerm (log : Log Hash) : Nat :=
  if log.entries = [] then 0 else log.termAt log.lastIdx

/-- `CancelFrom`.  The bytes of the cancelled entries stay accounted for.  (No caller cancels from
    an index past the end, where `resize` would add blank entries.) -/
def cancelFrom (log : Log Hash) (fromLogIdx : Nat) : Log Hash × Error :=
  if fromLogIdx < log.oldestStoredIdx then (log, .raftCancelingBeforeFirst)
  else ({ log with entries := log.entries.take (fromLogIdx - log.oldestStoredIdx) }, .ok)

/-- `RemoveOldestLogOlderThan`; `none` when nothing may be removed.  The source takes the front of
    the queue without looking whether it is empty. -/
def removeOldestLogOlderThan [Platform Hash] (log : Log Hash) (truncateTo : Nat) :
    Option (Log Hash) :=
  if truncateTo ≤ log.oldestStoredIdx then none
  else match log.entries with
    | [] => none
    | e :: rest => some { log with
        entries := rest
        oldestStoredIdx := log.oldestStoredIdx + 1
        currBytes := log.currBytes - logentryBytesInLog e
        removed := log.removed ++ [e] }

/-- The loop of `Append` that gives up old entries until `mem` more bytes fit, with one turn
    per stored entry. -/
def makeRoom [Platform Hash] (mem : Nat) (truncateTo : Nat) : Nat → Log Hash → Log Hash × Bool
  | 0, log => (log, decide (log.currBytes + mem ≤ log.maxBytes))
  | n + 1, log =>
    if log.currBytes + mem ≤ log.maxBytes then (log, true)
    else match log.removeOldestLogOlderThan truncateTo with
      | none => (log, false)
      | some log => makeRoom mem truncateTo n log

def append [Platform Hash] (log : Log Hash) (e : LogEntry Hash) (maybeTruncateTo : Nat) :
    Log Hash × Error :=
  if e.term = 0 then (log, .raftAppendWithoutTerm)
  else if e.hashChain = none then (log, .raftNoHashChainInAppend)
  else
    let mem := logentryBytesInLog e
    match makeRoom mem maybeTruncateTo log.entries.length log with
    | (log, false) => (log, .raftLogOutOfSpace)
    | (log, true) =>
      if INT_MAX < Platform.byteSizeLong e then (log, .raftLogEntryTooLarge)
      else ({ log with entries := log.entries ++ [e], currBytes := log.currBytes + mem }, .ok)

/-- `MostRecentHash`: the hash of the newest entry that carries one. -/
def mostRecentHash (log : Log Hash) : Option Hash :=
  log.entries.reverse.findSome? (·.hashChain)

def setNextIdx (log : Log Hash) (idx : Nat) : Log Hash × Error :=
  if log.entries ≠ [] then (log, .raftSetNextOnNonemptyLog)
  else ({ log with oldestStoredIdx := idx }, .ok)

end Log

end SVR2
