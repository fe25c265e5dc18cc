import Mathlib.Data.Finset.Card
import Mathlib.Logic.Relation
import SVR2.Raft.LogSpec
import SVR2.Raft.Replica

/-!
# The protocol that the replicas follow

What the safety of the group rests on, with everything else left out: no timers, no chunks,
no message queues, no log truncation.  A replica is its `View`: term, vote, role, the
acknowledgements it counts, its whole log from index 1 on, and the indexes it has committed and
promised.  A `Move` is one thing a replica can do, given the messages it may have received.
A call of `raft.cc` is a sequence of moves; that it is one is proved in
`SVR2.Raft.Refinement`.
-/

namespace SVR2

open Lib

variable {Hash : Type}

/-! ### Memberships and hash chains in a log -/

def LogEntry.membership? (e : LogEntry Hash) : Option Membership :=
  match e.inner with
  | .membershipChange g => (Membership.fromProto g).toOption
  | _ => none

/-- `e` carries the hash chain value of the entry that comes after the log `L`. -/
def ChainedTo [Platform Hash] (L : List (LogEntry Hash)) (e : LogEntry Hash) : Prop :=
  ∃ o : Oracle, e.hashChain = some (Platform.hmacSha256 (lastHash L)
    ⟨L.length + 1, e.term, e.inner.payload (o.mapOrder (L.length + 1))⟩)

/-! ### The setting of a run -/

/-- The group, the log and the membership that a run starts from. -/
structure Setting (Hash : Type) where
  group : Nat
  superMajority : Nat
  base : List (LogEntry Hash)
  membership : Membership
  voting_subset : ∀ p ∈ membership.votingReplicas.keys, p ∈ membership.allReplicas

namespace Setting

variable (S : Setting Hash)

/-- The membership in force at the end of a log: the last one of the log, committed or not,
    and the initial one if the run has not changed it. -/
def conf (L : List (LogEntry Hash)) : Membership :=
  (L.drop S.base.length).foldl (fun c e => e.membership?.getD c) S.membership

def voters (L : List (LogEntry Hash)) : Finset PeerId := (S.conf L).votingReplicas.keySet

def quorum (L : List (LogEntry Hash)) : Nat :=
  Raft.quorumSize (S.voters L).card S.superMajority

end Setting

/-! ### Views and moves -/

/-- What the protocol sees of a replica.  `acks p` is the pair of the indexes that follower `p`
    has acknowledged to hold and to have promised. -/
@[ext]
structure View (Hash : Type) where
  me : PeerId
  term : Nat
  votedFor : Option PeerId
  role : Role
  votes : Finset PeerId
  acks : PeerId → Option (Nat × Nat)
  log : List (LogEntry Hash)
  commit : Nat
  promise : Nat

namespace View

def fresh (p : PeerId) (L : List (LogEntry Hash)) : View Hash where
  me := p
  term := 0
  votedFor := none
  role := .follower
  votes := ∅
  acks := fun _ => none
  log := L
  commit := L.length
  promise := L.length

/-- Forget everything that belongs to the candidate and the leader. -/
def follow (v : View Hash) : View Hash :=
  { v with role := .follower, votes := ∅, acks := fun _ => none }

def campaign (v : View Hash) : View Hash :=
  { v with
    term := v.term + 1
    votedFor := some v.me
    role := .candidate
    votes := {v.me}
    acks := fun _ => none }

/-- Lead the members `m`, who have acknowledged nothing yet. -/
def lead (v : View Hash) (m : Membership) : View Hash :=
  { v with
    role := .leader
    votes := ∅
    acks := fun p => if p ∈ m.allReplicas ∧ p ≠ v.me then some (0, 0) else none }

def voteRequest (v : View Hash) : VoteRequest Hash where
  lastLogIdx := v.log.length
  lastLogTerm := termAt v.log v.log.length
  lastLogHashChain := hashAt v.log v.log.length

/-- Acknowledgements after the membership has become `m`. -/
def acksUnder (v : View Hash) (m : Membership) : PeerId → Option (Nat × Nat) := fun p =>
  if p ∈ m.allReplicas then (if p = v.me then v.acks p else some ((v.acks p).getD (0, 0)))
  else none

def count (v : View Hash) (p : PeerId) (a : Nat × Nat) : View Hash :=
  { v with acks := Function.update v.acks p (some a) }

def appendRequest (v : View Hash) (prev n : Nat) : AppendRequest Hash :=
  let entries := (v.log.drop prev).take n
  { prevLogIdx := prev
    prevLogTerm := termAt v.log prev
    prevLogHashChain := hashAt v.log prev
    entries := entries
    leaderCommit := min v.commit (prev + entries.length)
    leaderPromise := min v.promise (prev + entries.length) }

end View

/-- The log `L` agrees with an append request on its previous entry and on its first `k`
    entries, as far as terms and hashes tell. -/
structure Agrees (L : List (LogEntry Hash)) (m : AppendRequest Hash) (k : Nat) : Prop where
  prev : m.prevLogIdx = 0 ∨ (m.prevLogIdx ≤ L.length ∧ termAt L m.prevLogIdx = m.prevLogTerm ∧
    hashAt L m.prevLogIdx = m.prevLogHashChain)
  le : k ≤ m.entries.length
  entries : ∀ i < k, ∃ e e', m.entries[i]? = some e ∧ L[m.prevLogIdx + i]? = some e' ∧
    e'.term = e.term ∧ e'.hashChain = e.hashChain

namespace Agrees

variable {L L' : List (LogEntry Hash)} {m : AppendRequest Hash} {k : Nat}

theorem length_le (h : Agrees L m k) : m.prevLogIdx + k ≤ L.length := by
  cases k with
  | zero =>
    have := h.prev
    omega
  | succ k =>
    obtain ⟨e, e', -, he', -⟩ := h.entries k (Nat.lt_succ_self k)
    have := (List.getElem?_eq_some_iff.mp he').1
    omega

theorem congr (h : Agrees L m k) (hL : L.take (m.prevLogIdx + k) = L'.take (m.prevLogIdx + k)) :
    Agrees L' m k where
  prev := by
    refine h.prev.imp_right ?_
    rintro ⟨hle, hterm, hhash⟩
    refine ⟨?_, ?_, ?_⟩
    · have hlen := congrArg List.length hL
      have := h.length_le
      simp only [List.length_take] at hlen
      omega
    · rw [← hterm, termAt_congr hL (Nat.le_add_right _ _)]
    · rw [← hhash, hashAt_congr hL (Nat.le_add_right _ _)]
  le := h.le
  entries := by
    intro i hi
    obtain ⟨e, e', he, he', hterm, hhash⟩ := h.entries i hi
    refine ⟨e, e', he, ?_, hterm, hhash⟩
    have hlt : m.prevLogIdx + i < m.prevLogIdx + k := by omega
    rw [← List.getElem?_take_of_lt hlt, ← hL, List.getElem?_take_of_lt hlt]
    exact he'

theorem succ (h : Agrees L m k) {e e' : LogEntry Hash} (he : m.entries[k]? = some e)
    (he' : L[m.prevLogIdx + k]? = some e') (hterm : e'.term = e.term)
    (hhash : e'.hashChain = e.hashChain) : Agrees L m (k + 1) where
  prev := h.prev
  le := (List.getElem?_eq_some_iff.mp he).1
  entries := by
    intro i hi
    by_cases hik : i = k
    · subst hik
      exact ⟨e, e', he, he', hterm, hhash⟩
    · exact h.entries i (by omega)

theorem snoc (h : Agrees L m k) (hlen : L.length = m.prevLogIdx + k) {e : LogEntry Hash}
    (he : m.entries[k]? = some e) : Agrees (L ++ [e]) m (k + 1) := by
  have hsame : Agrees (L ++ [e]) m k := by
    refine h.congr ?_
    rw [← hlen, List.take_left, List.take_length]
  exact hsame.succ he (by rw [← hlen]; simp) rfl rfl

variable {l : View Hash} {prev n : Nat}

/-- The entries of an append request are those of the leader's log. -/
theorem getElem?_of_entries {e : LogEntry Hash}
    (h : (l.appendRequest prev n).entries[k]? = some e) : l.log[prev + k]? = some e := by
  simp only [View.appendRequest] at h
  rw [List.getElem?_take] at h
  split_ifs at h
  rwa [List.getElem?_drop] at h

theorem le_length (h : Agrees L (l.appendRequest prev n) k) (hprev : prev ≤ l.log.length) :
    prev + k ≤ l.log.length := by
  have hk : k ≤ ((l.log.drop prev).take n).length := h.le
  rw [List.length_take, List.length_drop] at hk
  omega

/-- The last entry compared has the same term and hash in the leader's log. -/
theorem at_last (h : Agrees L (l.appendRequest prev n) k) (hpos : 0 < prev + k) :
    termAt L (prev + k) = termAt l.log (prev + k) ∧
      hashAt L (prev + k) = hashAt l.log (prev + k) := by
  cases k with
  | zero =>
    -- that is the previous entry
    rcases h.prev with h0 | ⟨-, hterm, hhash⟩
    · have h0 : prev = 0 := h0
      omega
    · exact ⟨hterm, hhash⟩
  | succ k =>
    obtain ⟨e, e', he, he', hterm, hhash⟩ := h.entries k (Nat.lt_succ_self k)
    have he := getElem?_of_entries he
    have he' : L[prev + k]? = some e' := he'
    rw [← Nat.add_assoc, termAt, termAt, hashAt, hashAt, entryAt_succ, entryAt_succ, he, he']
    exact ⟨hterm, hhash⟩

end Agrees

/-- Messages that no reader takes anything from but a term. -/
def MessageInner.Harmless : MessageInner Hash → Prop
  | .voteResponse m => m.voteGranted = false
  | .appendResponse m => m.success = false
  | .timeoutNow _ => True
  | _ => False

/-- Restrictions a run may put on its replicas: whether replicas may join, which candidates
    there may be, when a leader may append a membership change, and up to which index it may
    commit. -/
structure Rules (Hash : Type) where
  mayJoin : Prop
  mayCampaign : View Hash → Prop
  mayReconfigure : View Hash → Prop
  mayCommit : View Hash → Nat → Prop

def Rules.any (Hash : Type) : Rules Hash where
  mayJoin := True
  mayCampaign := fun _ => True
  mayReconfigure := fun _ => True
  mayCommit := fun _ _ => True

/-- A message of a replica to `dst`, or to everyone. -/
def View.send (v : View Hash) (S : Setting Hash) (dst : Option PeerId)
    (inner : MessageInner Hash) : SendableRaftMessage Hash :=
  ⟨dst, ⟨S.group, v.term, inner⟩⟩

/-- One thing that a replica can do: from its view to its next view, with the messages it
    sends.  `inbox p msg` says that a message `msg` from `p` can have arrived. -/
inductive Move [Platform Hash] (S : Setting Hash) (G : Rules Hash)
    (inbox : PeerId → RaftMessage Hash → Prop) :
    View Hash → View Hash → List (SendableRaftMessage Hash) → Prop
  -- elections
  | campaign (v : View Hash) (hrole : v.role ≠ .leader) (hvoter : v.me ∈ S.voters v.log)
      (hrule : G.mayCampaign v.campaign) :
      Move S G inbox v v.campaign []
  | requestVote (v : View Hash) (dst : Option PeerId) (hrole : v.role = .candidate) :
      Move S G inbox v v [v.send S dst (.voteRequest v.voteRequest)]
  | newTerm (v : View Hash) (t : Nat) (ht : v.term < t) :
      Move S G inbox v { v.follow with term := t, votedFor := none } []
  | grantVote (v : View Hash) (p : PeerId) (m : VoteRequest Hash)
      (hin : inbox p ⟨S.group, v.term, .voteRequest m⟩)
      (hlog : termAt v.log v.log.length < m.lastLogTerm ∨
        (m.lastLogTerm = termAt v.log v.log.length ∧ v.log.length ≤ m.lastLogIdx))
      (hvote : v.votedFor = none ∨ v.votedFor = some p) :
      Move S G inbox v { v with votedFor := some p }
        [v.send S (some p) (.voteResponse ⟨true⟩)]
  | countVote (v : View Hash) (p : PeerId) (hrole : v.role = .candidate)
      (hin : inbox p ⟨S.group, v.term, .voteResponse ⟨true⟩⟩) (hvoter : p ∈ S.voters v.log) :
      Move S G inbox v { v with votes := insert p v.votes } []
  | becomeLeader (v : View Hash) (hrole : v.role = .candidate)
      (hvotes : S.quorum v.log ≤ v.votes.card) :
      Move S G inbox v (v.lead (S.conf v.log)) []
  | stepDown (v : View Hash) : Move S G inbox v v.follow []
  -- the leader
  | appendEntry (v : View Hash) (e : LogEntry Hash) (hrole : v.role = .leader)
      (hterm : e.term = v.term) (hpos : e.term ≠ 0) (hchain : ChainedTo v.log e)
      (hinner : ∀ g, e.inner ≠ .membershipChange g) :
      Move S G inbox v { v with log := v.log ++ [e] } []
  | appendMembership (v : View Hash) (e : LogEntry Hash) (m : Membership)
      (hrole : v.role = .leader)
      (hterm : e.term = v.term) (hpos : e.term ≠ 0) (hchain : ChainedTo v.log e)
      (hm : e.membership? = some m) (hrule : G.mayReconfigure v)
      (hcommitted : ∀ e ∈ v.log.drop v.commit, e.membership? = none)
      (hvalid : Membership.validProgressionForLeader v.me (S.conf v.log) m S.superMajority = .ok) :
      Move S G inbox v { v with log := v.log ++ [e], acks := v.acksUnder m } []
  | replicate (v : View Hash) (dst : PeerId) (prev n : Nat) (hrole : v.role = .leader)
      (hprev : prev ≤ v.log.length) :
      Move S G inbox v v [v.send S (some dst) (.appendRequest (v.appendRequest prev n))]
  | countAck (v : View Hash) (p : PeerId) (m : AppendResponse Hash) (a : Nat × Nat)
      (hrole : v.role = .leader) (hin : inbox p ⟨S.group, v.term, .appendResponse m⟩)
      (hsuccess : m.success = true) (hack : v.acks p = some a)
      (hmatch : m.matchIdx = 0 ∨
        (m.matchIdx ≤ v.log.length ∧ hashAt v.log m.matchIdx = m.matchHashChain)) :
      Move S G inbox v (v.count p (max a.1 m.matchIdx, max a.2 m.promiseIdx)) []
  | advancePromise (v : View Hash) (n : Nat) (Q : Finset PeerId) (hrole : v.role = .leader)
      (hlt : v.promise < n) (hle : n ≤ v.log.length)
      (hQ : Q ⊆ S.voters v.log) (hcard : S.quorum v.log ≤ Q.card)
      (hacks : ∀ p ∈ Q, p = v.me ∨ ∃ a, v.acks p = some a ∧ n ≤ a.1) :
      Move S G inbox v { v with promise := n } []
  | advanceCommit (v : View Hash) (n : Nat) (Q : Finset PeerId) (hrole : v.role = .leader)
      (hlt : v.commit < n) (hle : n ≤ v.promise) (hrule : G.mayCommit v n)
      (hQ : Q ⊆ S.voters v.log) (hcard : S.quorum v.log ≤ Q.card)
      (hacks : ∀ p ∈ Q, p = v.me ∨ ∃ a, v.acks p = some a ∧ n ≤ a.2) :
      Move S G inbox v { v with commit := n } []
  -- the follower
  | truncate (v : View Hash) (p : PeerId) (m : AppendRequest Hash) (k : Nat)
      (e e' : LogEntry Hash) (hrole : v.role = .follower)
      (hin : inbox p ⟨S.group, v.term, .appendRequest m⟩) (hagree : Agrees v.log m k)
      (he : m.entries[k]? = some e) (he' : v.log[m.prevLogIdx + k]? = some e')
      (hterm : e'.term ≠ e.term) (hpromise : v.promise ≤ m.prevLogIdx + k) :
      Move S G inbox v { v with log := v.log.take (m.prevLogIdx + k) } []
  | extend (v : View Hash) (p : PeerId) (m : AppendRequest Hash) (k : Nat) (e : LogEntry Hash)
      (hrole : v.role = .follower)
      (hin : inbox p ⟨S.group, v.term, .appendRequest m⟩) (hagree : Agrees v.log m k)
      (he : m.entries[k]? = some e) (hend : v.log.length = m.prevLogIdx + k)
      (hchain : ChainedTo v.log e) :
      Move S G inbox v { v with log := v.log ++ [e] } []
  | learn (v : View Hash) (p : PeerId) (m : AppendRequest Hash) (k : Nat)
      (hrole : v.role = .follower)
      (hin : inbox p ⟨S.group, v.term, .appendRequest m⟩) (hagree : Agrees v.log m k)
      (hle : m.leaderCommit ≤ m.leaderPromise) :
      Move S G inbox v { v with
        commit := max v.commit (min m.leaderCommit (m.prevLogIdx + k)),
        promise := max v.promise (min m.leaderPromise (m.prevLogIdx + k)) } []
  | acknowledge (v : View Hash) (p : PeerId) (m : AppendRequest Hash) (k : Nat)
      (r : AppendResponse Hash) (hrole : v.role = .follower)
      (hin : inbox p ⟨S.group, v.term, .appendRequest m⟩) (hagree : Agrees v.log m k)
      (hmatch : r.matchIdx = m.prevLogIdx + k)
      (hhash : r.matchHashChain = none ∨ r.matchHashChain = hashAt v.log (m.prevLogIdx + k))
      (hpromise : r.promiseIdx = min v.promise (m.prevLogIdx + k)) :
      Move S G inbox v v [v.send S (some p) (.appendResponse r)]
  -- everyone
  | other (v : View Hash) (dst : Option PeerId) (inner : MessageInner Hash)
      (hinner : inner.Harmless) : Move S G inbox v v [v.send S dst inner]

theorem Move.me_eq [Platform Hash] {S : Setting Hash} {G : Rules Hash}
    {inbox : PeerId → RaftMessage Hash → Prop} {v v' : View Hash}
    {out : List (SendableRaftMessage Hash)} (h : Move S G inbox v v' out) : v'.me = v.me := by
  cases h <;> rfl

end SVR2
