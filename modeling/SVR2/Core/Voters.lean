import SVR2.Core.Contents
import SVR2.Core.Healing

/-!
# The limit on voting replicas

A leader that heals its group looks at `max_voting_replicas` before it promotes a replica.
`HandleRequestRaftVoting` does not, and makes every member that asks a voter.  As long as no such
request comes when the group is full, no membership has more voters than the group is meant to have.
-/

namespace SVR2

open Lib

/-! ### Who votes -/

namespace Membership

theorem mem_voting_of_fromReplicas {group : ReplicaGroup} {out m : Membership}
    (h : fromReplicas group out = .ok m) {q : PeerId} (hq : q ∈ m.votingReplicas) :
    q ∈ out.votingReplicas ∨ ⟨some q, true⟩ ∈ group := by
  induction group generalizing out with
  | nil =>
    cases h
    exact .inl hq
  | cons replica rest ih =>
    obtain ⟨peerId, voting⟩ := replica
    rw [fromReplicas] at h
    split at h
    · cases h
    rename_i p hp
    obtain rfl : peerId = some p := hp
    split at h
    · cases h
    rcases ih h with hout | hrest
    · dsimp only at hout
      split_ifs at hout with hvoting
      · rcases OrdMap.mem_insert.mp hout with rfl | hout
        · rw [hvoting]
          exact .inr List.mem_cons_self
        · exact .inl hout
      · exact .inl hout
    · exact .inr (List.mem_cons_of_mem _ hrest)

theorem mem_voting_of_fromProto {group : ReplicaGroup} {m : Membership}
    (h : fromProto group = .ok m) {q : PeerId} (hq : q ∈ m.votingReplicas) :
    ⟨some q, true⟩ ∈ group :=
  (mem_voting_of_fromReplicas h hq).resolve_left (OrdMap.not_mem_empty _)

theorem mem_voting_of_asProto {m : Membership} {q : PeerId} (hq : ⟨some q, true⟩ ∈ m.asProto) :
    q ∈ m.votingReplicas := by
  obtain ⟨p, -, heq⟩ := List.mem_map.mp hq
  simp only [Replica.mk.injEq, Option.some.injEq] at heq
  obtain ⟨rfl, hvoting⟩ := heq
  exact hvoting

theorem voters_le_succ {m m' : Membership} {p : PeerId}
    (h : ∀ q ∈ m'.votingReplicas, q = p ∨ q ∈ m.votingReplicas) :
    m'.votingReplicas.size ≤ m.votingReplicas.size + 1 := by
  rw [← OrdMap.card_keySet, ← OrdMap.card_keySet]
  refine (Finset.card_le_card fun q hq => ?_).trans (Finset.card_insert_le p _)
  rw [Finset.mem_insert, OrdMap.mem_keySet]
  exact h q (OrdMap.mem_keySet.mp hq)

theorem voters_le {m m' : Membership} (h : ∀ q ∈ m'.votingReplicas, q ∈ m.votingReplicas) :
    m'.votingReplicas.size ≤ m.votingReplicas.size := by
  rw [← OrdMap.card_keySet, ← OrdMap.card_keySet]
  exact Finset.card_le_card fun q hq => OrdMap.mem_keySet.mpr (h q (OrdMap.mem_keySet.mp hq))

end Membership

open SVR2.Membership

def votersAtMost (limit : Nat) (hlimit : 1 ≤ limit) : Contents where
  entry inner := ∀ g, inner = .membershipChange g → ∀ m, fromProto g = .ok m →
    m.votingReplicas.size ≤ limit
  membership m := m.votingReplicas.size ≤ limit
  config cfg := cfg.maxVotingReplicas = limit
  notSet := nofun
  first _ := hlimit
  change h hm := h _ rfl _ hm
  asProto h hm :=
    (voters_le fun _ hq => mem_voting_of_asProto (mem_voting_of_fromProto hm hq)).trans h
  groupId _ h := h

section Proposals

variable {limit : Nat} {m : Membership} {g : ReplicaGroup}

theorem entry_of_voters (hlimit : 1 ≤ limit) (hm : m.votingReplicas.size ≤ limit)
    (h : ∀ q, ⟨some q, true⟩ ∈ g → ⟨some q, true⟩ ∈ m.asProto) :
    (votersAtMost limit hlimit).entry (.membershipChange g) := by
  rintro _ ⟨⟩ m' hm'
  refine (voters_le fun q hq => ?_).trans hm
  exact mem_voting_of_asProto (h q (mem_voting_of_fromProto hm' hq))

theorem entry_promoted (hlimit : 1 ≤ limit) (hm : m.votingReplicas.size < limit) (p : PeerId) :
    (votersAtMost limit hlimit).entry (.membershipChange (Core.setVoting m.asProto p true)) := by
  rintro _ ⟨⟩ m' hm'
  refine (voters_le_succ (p := p) fun q hq => ?_).trans hm
  obtain ⟨replica, hreplica, heq⟩ := List.mem_map.mp (mem_voting_of_fromProto hm' hq)
  split_ifs at heq with hp
  · rw [Replica.mk.injEq, hp] at heq
    exact .inl (Option.some.inj heq.1).symm
  · rw [heq] at hreplica
    exact .inr (mem_voting_of_asProto hreplica)

theorem entry_demoted (hlimit : 1 ≤ limit) (hm : m.votingReplicas.size ≤ limit) (p : PeerId) :
    (votersAtMost limit hlimit).entry (.membershipChange (Core.setVoting m.asProto p false)) := by
  refine entry_of_voters hlimit hm fun q hq => ?_
  obtain ⟨replica, hreplica, heq⟩ := List.mem_map.mp hq
  split_ifs at heq with hp
  · cases (Replica.mk.inj heq).2
  · rwa [heq] at hreplica

end Proposals

variable {Hash DB : Type} [Database DB]

def Core.RoomForVoter (c : Core Hash DB) : UntrustedMessage Hash DB → Prop
  | .peerMessage _ (.data (.transactionRequest _ .raftVotingRequest)) =>
    ∀ r ∈ c.raft.loaded.raft,
      r.membership.votingReplicas.size < c.raft.loaded.groupConfig.maxVotingReplicas
  | _ => True

instance (c : Core Hash DB) : ∀ m : UntrustedMessage Hash DB, Decidable (c.RoomForVoter m)
  | .peerMessage _ (.data _) => by
    unfold Core.RoomForVoter
    split <;> infer_instance
  | .h2eRequest _ _ | .timerTick _ | .resetPeer _ | .peerMessage _ .syn | .peerMessage _ .synack
  | .peerMessage _ .rst | .peerMessage _ .garbled => inferInstanceAs (Decidable True)

theorem votersAtMost_asks {limit : Nat} (hlimit : 1 ≤ limit) {c : Core Hash DB}
    {o : CoreOracle} {m : UntrustedMessage Hash DB} (hroom : c.RoomForVoter m) :
    (votersAtMost limit hlimit).Asks c o m := by
  intro c' r inner hc' hm hr hasked
  obtain ⟨hconfig, hraft⟩ := hc'.loaded r hr
  have hfew : r.membership.votingReplicas.size ≤ limit := hraft.membership
  cases hasked with
  | client => nofun
  | database => nofun
  | minimums => nofun
  | write src id entry hwrite =>
    subst hwrite
    exact hm
  | addMember src id =>
    refine entry_of_voters hlimit hfew fun q hq => ?_
    rcases List.mem_append.mp hq with hq | hq
    · exact hq
    · cases List.mem_singleton.mp hq
  | addVoter src id hvote hstart =>
    subst hvote
    have hfresh : c.raft.loaded.raft = some r := by
      rw [hstart.raft] at hr
      exact hr
    have hlt := hroom r hfresh
    rw [show c.raft.loaded.groupConfig = c'.raft.loaded.groupConfig from
      congrArg (fun raft => raft.loaded.groupConfig) hstart.raft.symm] at hlt
    exact entry_promoted hlimit (hconfig ▸ hlt) src
  | removeMember src id =>
    exact entry_of_voters hlimit hfew fun q hq => (List.mem_filter.mp hq).1
  | heal time htick g hnext =>
    rcases Core.nextReplicaGroup_cases hnext with
      ⟨p, -, -, hlt, rfl⟩ | ⟨p, -, -, -, rfl⟩ | ⟨p, -, -, -, rfl⟩
    · exact entry_promoted hlimit (hconfig ▸ hlt) p
    · exact entry_demoted hlimit hfew p
    · exact entry_of_voters hlimit hfew fun q hq => (List.mem_filter.mp hq).1

variable [DecidableEq Hash] [Platform Hash] [PushSize Hash]

/-- In every run of enclaves whose groups are meant to have at most `limit` voters, in which no
    replica is asked for a vote when its group is full, no membership has more: not the committed
    one of a replica, none that is not committed, and none in a log that is loaded or being
    loaded. -/
theorem voting_limit_kept (limit : Nat) (hlimit : 1 ≤ limit) (es : List (ClusterEvent Hash DB))
    (hstart : ∀ e ∈ es, ∀ cfg ∈ e.groupConfig?, cfg.maxVotingReplicas = limit)
    (hroom : Cluster.empty.Along (fun c _ m => c.RoomForVoter m) es) {p : PeerId} {c : Core Hash DB}
    (hc : (Cluster.empty.run es).cores p = some c) :
    (∀ r, c.raft.loaded.raft = some r → r.committedMembership.votingReplicas.size ≤ limit ∧
      (∀ u ∈ r.uncommittedMemberships, u.2.votingReplicas.size ≤ limit) ∧
      ∀ e ∈ r.log.entries, ∀ g, e.inner = .membershipChange g → ∀ m, fromProto g = .ok m →
        m.votingReplicas.size ≤ limit) ∧
    ∀ log, c.raft.loading.log = some log →
      ∀ e ∈ log.entries, ∀ g, e.inner = .membershipChange g → ∀ m, fromProto g = .ok m →
        m.votingReplicas.size ≤ limit := by
  have hcluster : (votersAtMost limit hlimit).InCluster (Cluster.empty.run es) :=
    .run (fun _ _ _ h => votersAtMost_asks hlimit h) es _ Contents.inCluster_empty hstart hroom
  have hcore := hcluster.cores p c hc
  refine ⟨fun r hr => ?_, fun log hlog => (hcore.loading.log log hlog).2⟩
  have hraft := (hcore.loaded r hr).2
  exact ⟨hraft.committed, hraft.uncommitted, hraft.log⟩

namespace Sample

theorem voting_limit_kept_voting : ∃ c, (Cluster.empty.run voting).cores 1 = some c ∧
    ∃ r, c.raft.loaded.raft = some r ∧ r.membership.votingReplicas.size = 2 ∧
      r.committedMembership.votingReplicas.size ≤ 3 := by
  have hfacts : (((Cluster.empty.run voting).cores 1).bind fun c =>
      c.raft.loaded.raft.map fun r => r.membership.votingReplicas.size) = some 2 := by
    decide +kernel
  obtain ⟨c, hc, hfacts⟩ := Option.bind_eq_some_iff.mp hfacts
  obtain ⟨r, hr, hsize⟩ := Option.map_eq_some_iff.mp hfacts
  have hkept := voting_limit_kept 3 (by decide) voting (by decide +kernel) (by decide +kernel) hc
  exact ⟨c, hc, r, hr, hsize, (hkept.1 r hr).1⟩

/-- The same run in a group that only one replica is meant to vote in. -/
def votingAtLimit : List (ClusterEvent IdealHash DB2) :=
  let start (p : PeerId) :=
    .start p { groupConfig with maxVotingReplicas := 1 } config (coreOracle 0) 0
  [start 1, start 2] ++ voting.drop 2

/-- Both vote in the end, and the membership is committed. -/
theorem voting_limit_exceeded :
    (((Cluster.empty.run votingAtLimit).cores 1).bind fun c => c.raft.loaded.raft.map fun r =>
      (c.aborted, c.raft.loaded.groupConfig.maxVotingReplicas,
        r.committedMembership.votingReplicas.keys)) = some (false, 1, [1, 2]) := by
  decide +kernel

end Sample

end SVR2
