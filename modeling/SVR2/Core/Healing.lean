import SVR2.Core.Cluster
import SVR2.Raft.Bookkeeping
import SVR2.Raft.Quorums

/-!
# Self-healing

On every tick a leader may propose a change of its group.  `NextReplicaGroup` promotes a replica
that answers, demotes one that has been silent, or removes one that has been silent for long and
does not vote.  It knows nothing of what `ValidProgressionForLeader` checks; what follows shows
that a proposal passes.
-/

namespace SVR2

open Lib

variable {Hash DB : Type}

/-! ### Proposed groups -/

namespace Core

theorem fromProto_setVoting (m : Membership) (p : PeerId) (voting : Bool) :
    ∃ m', Membership.fromProto (setVoting m.asProto p voting) = .ok m' ∧
      (∀ q, q ∈ m'.allReplicas ↔ q ∈ m.allReplicas) ∧
      ∀ q, q ∈ m'.votingReplicas ↔
        q ∈ m.allReplicas ∧ if q = p then voting = true else q ∈ m.votingReplicas := by
  have hgroup : setVoting m.asProto p voting = m.allReplicas.keys.map fun q =>
      ⟨some q, if q = p then voting else m.votingReplicas.contains q⟩ := by
    rw [setVoting, Membership.asProto, List.map_map]
    refine List.map_congr_left fun q _ => ?_
    by_cases hq : q = p <;> simp [hq]
  obtain ⟨m', hm', hall, hvoting⟩ := Membership.fromProto_map
    (fun q => if q = p then voting else m.votingReplicas.contains q) m.allReplicas.keys_nodup
  refine ⟨m', hgroup ▸ hm', fun q => (hall q).trans OrdMap.mem_keys, fun q => ?_⟩
  rw [hvoting, OrdMap.mem_keys]
  split_ifs <;> rfl

section

variable {m : Membership} {p : PeerId} (hsub : ∀ q ∈ m.votingReplicas, q ∈ m.allReplicas)
include hsub

theorem fromProto_promoted (hp : p ∈ m.allReplicas) :
    ∃ m', Membership.fromProto (setVoting m.asProto p true) = .ok m' ∧
      m'.allReplicas.keySet = m.allReplicas.keySet ∧
      m'.votingReplicas.keySet = insert p m.votingReplicas.keySet := by
  obtain ⟨m', hm', hall, hvoting⟩ := fromProto_setVoting m p true
  refine ⟨m', hm', Finset.ext fun q => by simpa using hall q, Finset.ext fun q => ?_⟩
  rw [Finset.mem_insert, OrdMap.mem_keySet, OrdMap.mem_keySet, hvoting]
  by_cases hq : q = p
  · simp [hq, hp]
  · simpa [hq] using hsub q

theorem fromProto_demoted :
    ∃ m', Membership.fromProto (setVoting m.asProto p false) = .ok m' ∧
      m'.allReplicas.keySet = m.allReplicas.keySet ∧
      m'.votingReplicas.keySet = m.votingReplicas.keySet.erase p := by
  obtain ⟨m', hm', hall, hvoting⟩ := fromProto_setVoting m p false
  refine ⟨m', hm', Finset.ext fun q => by simpa using hall q, Finset.ext fun q => ?_⟩
  rw [Finset.mem_erase, OrdMap.mem_keySet, OrdMap.mem_keySet, hvoting]
  by_cases hq : q = p
  · simp [hq]
  · simpa [hq] using hsub q

theorem fromProto_without (hp : p ∉ m.votingReplicas) :
    ∃ m', Membership.fromProto (m.asProto.filter fun replica => replica.peerId ≠ some p) =
        .ok m' ∧
      m'.allReplicas.keySet = m.allReplicas.keySet.erase p ∧
      m'.votingReplicas.keySet = m.votingReplicas.keySet := by
  have hgroup : (m.asProto.filter fun replica => replica.peerId ≠ some p) =
      (m.allReplicas.keys.filter (· ≠ p)).map fun q => ⟨some q, m.votingReplicas.contains q⟩ := by
    rw [Membership.asProto, List.filter_map]
    congr 1
    refine List.filter_congr fun q _ => ?_
    simp
  have hmem : ∀ q, q ∈ m.allReplicas.keys.filter (· ≠ p) ↔ q ≠ p ∧ q ∈ m.allReplicas := by
    simp [OrdMap.mem_keys, and_comm]
  obtain ⟨m', hm', hall, hvoting⟩ := Membership.fromProto_map
    (m.votingReplicas.contains ·) (m.allReplicas.keys_nodup.filter (· ≠ p))
  refine ⟨m', hgroup ▸ hm', Finset.ext fun q => ?_, Finset.ext fun q => ?_⟩
  · rw [Finset.mem_erase, OrdMap.mem_keySet, OrdMap.mem_keySet, hall, hmem]
  · rw [OrdMap.mem_keySet, OrdMap.mem_keySet, hvoting, hmem, ← OrdMap.mem_def]
    refine ⟨fun h => h.2, fun hq => ⟨⟨?_, hsub q hq⟩, hq⟩⟩
    rintro rfl
    exact hp hq

end

/-! ### The three searches -/

/-- The leader has once seen a replica, and not for more than `ticks`. -/
def Unseen (r : Raft Hash) (ticks : Nat) (p : PeerId) : Prop :=
  r.lastSeenTicks p ≠ InvalidTicks ∧ (ticks : Ticks) < r.lastSeenTicks p

theorem notSeenFor_spec {r : Raft Hash} {ticks : Nat} {ps : List PeerId} {p : PeerId}
    (h : notSeenFor r ticks ps = some p) : p ∈ ps ∧ Unseen r ticks p :=
  ⟨List.mem_of_find?_eq_some h, by simpa [Unseen] using List.find?_some h⟩

/-- The loop keeps a non-voting replica of the group, or none. -/
theorem replicaToPromote_spec {r : Raft Hash} {p : PeerId} {min : Ticks}
    (h : replicaToPromote r = (some p, min)) :
    p ∈ r.membership.allReplicas ∧ p ∉ r.membership.votingReplicas := by
  have hloop : ∀ q, (replicaToPromote r).1 = some q →
      q ∈ r.membership.allReplicas ∧ q ∉ r.membership.votingReplicas := by
    refine List.foldlRecOn (motive := fun best : Option PeerId × Ticks => ∀ q, best.1 = some q →
      q ∈ r.membership.allReplicas ∧ q ∉ r.membership.votingReplicas) _ _
      (fun q hq => nomatch hq) fun best hbest peer hpeer => ?_
    split_ifs with hbetter
    · intro q hq
      cases hq
      exact ⟨OrdMap.mem_keys.mp hpeer, hbetter.2⟩
    · exact hbest
  exact hloop p (congrArg Prod.fst h)

variable [Database DB]

theorem nextReplicaGroup_cases {c : Core Hash DB} {r : Raft Hash} {group : ReplicaGroup}
    (h : c.nextReplicaGroup r = some group) :
    (∃ p ∈ r.membership.allReplicas, p ∉ r.membership.votingReplicas ∧
      r.membership.votingReplicas.size < c.raft.loaded.groupConfig.maxVotingReplicas ∧
      group = setVoting r.membership.asProto p true) ∨
    (∃ p ∈ r.membership.votingReplicas,
      c.raft.loaded.groupConfig.minVotingReplicas < r.membership.votingReplicas.size ∧
      Unseen r c.enclaveConfig.raft.replicaVotingTimeoutTicks p ∧
      group = setVoting r.membership.asProto p false) ∨
    ∃ p ∈ r.membership.allReplicas, p ∉ r.membership.votingReplicas ∧
      Unseen r c.enclaveConfig.raft.replicaMembershipTimeoutTicks p ∧
      group = r.membership.asProto.filter fun replica => replica.peerId ≠ some p := by
  rw [nextReplicaGroup] at h
  split at h
  · cases h
  split at h
  · cases h
  dsimp only at h
  split at h
  · rename_i p hpromoted
    cases h
    split_ifs at hpromoted with hroom
    split at hpromoted
    · rename_i q min hq
      split_ifs at hpromoted
      cases hpromoted
      obtain ⟨hall, hvoting⟩ := replicaToPromote_spec hq
      exact Or.inl ⟨p, hall, hvoting, hroom.1, rfl⟩
    · cases hpromoted
  · rename_i p _ hdemoted
    cases h
    split_ifs at hdemoted with hroom
    obtain ⟨hp, hunseen⟩ := notSeenFor_spec hdemoted
    exact Or.inr (Or.inl ⟨p, OrdMap.mem_keys.mp hp, hroom, hunseen, rfl⟩)
  · rename_i p _ _ hremoved
    cases h
    split_ifs at hremoved with hroom
    obtain ⟨hp, hunseen⟩ := notSeenFor_spec hremoved
    obtain ⟨hall, hvoting⟩ := List.mem_filter.mp hp
    exact Or.inr (Or.inr ⟨p, OrdMap.mem_keys.mp hall, of_decide_eq_true hvoting, hunseen, rfl⟩)
  · cases h

end Core

/-! ### Proposals of a leader -/

def Raft.withLastSeen (r : Raft Hash) (seen : PeerId → Ticks) : Raft Hash :=
  { r with leader := { r.leader with
      followers := r.leader.followers.mapVal fun q f => { f with lastSeenTicks := seen q } } }

theorem Core.Unseen.follower {r : Raft Hash} {seen : PeerId → Ticks} {ticks : Nat} {q : PeerId}
    (h : Unseen (r.withLastSeen seen) ticks q) :
    q ∈ r.leader.followers ∧ seen q ≠ InvalidTicks ∧ (ticks : Ticks) < seen q := by
  obtain ⟨hvalid, hlt⟩ := h
  rw [Raft.lastSeenTicks] at hvalid hlt
  split_ifs at hvalid hlt with hrole
  · exact absurd rfl hvalid
  · simp only [Raft.withLastSeen, OrdMap.find?_mapVal] at hvalid hlt
    cases hf : r.leader.followers.find? q with
    | none =>
      rw [hf] at hvalid
      exact absurd rfl hvalid
    | some f =>
      rw [hf] at hvalid hlt
      exact ⟨OrdMap.mem_iff.mpr ⟨f, hf⟩, hvalid, hlt⟩

section

variable [DecidableEq Hash] [Platform Hash] [Database DB]

/-- A leader of any run, whenever it has last seen its followers, proposes only what it will accept
    itself.  Its super majority is the one of the group's configuration, with which the core made
    it. -/
theorem proposals_valid (g : RaftGroup Hash) (es : List (Event Hash)) {p : PeerId} {r : Raft Hash}
    (hr : (g.start.run es).replicas p = some r) (hrole : r.role = .leader)
    (hnone : r.uncommittedMemberships = []) (seen : PeerId → Ticks) (c : Core Hash DB)
    (hmin : r.superMajority < c.raft.loaded.groupConfig.minVotingReplicas)
    {group : ReplicaGroup} (h : c.nextReplicaGroup (r.withLastSeen seen) = some group) :
    ∃ next, Membership.fromProto group = .ok next ∧
      Membership.validProgressionForLeader r.me r.committedMembership next r.superMajority = .ok ∧
      r.me ∈ next.votingReplicas ∧
      (∀ q ∈ next.votingReplicas, q ∉ r.committedMembership.votingReplicas →
        next.votingReplicas.size ≤ c.raft.loaded.groupConfig.maxVotingReplicas) ∧
      (∀ q ∈ r.committedMembership.votingReplicas, q ∉ next.votingReplicas →
        c.raft.loaded.groupConfig.minVotingReplicas ≤ next.votingReplicas.size ∧
        seen q ≠ InvalidTicks ∧
        (c.enclaveConfig.raft.replicaVotingTimeoutTicks : Ticks) < seen q) ∧
      ∀ q ∈ r.committedMembership.allReplicas, q ∉ next.allReplicas →
        seen q ≠ InvalidTicks ∧
        (c.enclaveConfig.raft.replicaMembershipTimeoutTicks : Ticks) < seen q := by
  have hinv := RaftGroup.inv_run hr
  have hm : r.membership = r.committedMembership := by rw [Raft.membership, hnone]; rfl
  have hwith : (r.withLastSeen seen).membership = r.committedMembership := hm
  have hsub : ∀ q ∈ r.committedMembership.votingReplicas, q ∈ r.committedMembership.allReplicas := by
    rw [← hm, hinv.membership_eq]
    exact g.setting.conf_voting_subset _
  have hme : r.me ∈ r.committedMembership.votingReplicas := hm ▸ hinv.voting (by simp [hrole])
  have hfollower : ∀ q ∈ r.leader.followers, q ≠ r.me := fun q hq =>
    ((hinv.followers hrole q).mp hq).2
  have hcases := Core.nextReplicaGroup_cases h
  rw [hwith] at hcases
  generalize r.committedMembership = m at hsub hme hcases ⊢
  rcases hcases with ⟨q, hall, hq, hroom, rfl⟩ | ⟨q, hq, hroom, hunseen, rfl⟩ |
    ⟨q, hall, hq, hunseen, rfl⟩
  · obtain ⟨next, hnext, hA, hV⟩ := Core.fromProto_promoted hsub hall
    obtain ⟨hvalid, hsize⟩ := Membership.promotion_valid (s := r.superMajority) hme
      (Membership.fromProto_voting_subset hnext) hq hA hV
    refine ⟨next, hnext, hvalid, Membership.validProgressionForLeader_voting hvalid,
      fun _ _ _ => by omega, fun x hx hnot => ?_, fun x hx hnot => ?_⟩
    · rw [← OrdMap.mem_keySet, hV, Finset.mem_insert, OrdMap.mem_keySet] at hnot
      exact absurd (Or.inr hx) hnot
    · rw [← OrdMap.mem_keySet, hA, OrdMap.mem_keySet] at hnot
      exact absurd hx hnot
  · obtain ⟨next, hnext, hA, hV⟩ := Core.fromProto_demoted (p := q) hsub
    obtain ⟨hfollows, hseen⟩ := hunseen.follower
    obtain ⟨hvalid, hsize⟩ := Membership.demotion_valid (s := r.superMajority) hme
      (Membership.fromProto_voting_subset hnext) hq (hfollower q hfollows).symm (by omega) hA hV
    refine ⟨next, hnext, hvalid, Membership.validProgressionForLeader_voting hvalid,
      fun x hx hnot => ?_, fun x hx hnot => ⟨by omega, ?_⟩, fun x hx hnot => ?_⟩
    · rw [← OrdMap.mem_keySet, hV, Finset.mem_erase, OrdMap.mem_keySet] at hx
      exact absurd hx.2 hnot
    · rw [← OrdMap.mem_keySet, hV, Finset.mem_erase, OrdMap.mem_keySet] at hnot
      obtain rfl : x = q := by_contra fun hne => hnot ⟨hne, hx⟩
      exact hseen
    · rw [← OrdMap.mem_keySet, hA, OrdMap.mem_keySet] at hnot
      exact absurd hx hnot
  · obtain ⟨next, hnext, hA, hV⟩ := Core.fromProto_without hsub hq
    have hvalid := Membership.removal_valid (s := r.superMajority) hme
      (Membership.fromProto_voting_subset hnext) hall hA hV
    have hvoter : ∀ x, x ∈ next.votingReplicas ↔ x ∈ m.votingReplicas := fun x => by
      rw [← OrdMap.mem_keySet, hV, OrdMap.mem_keySet]
    refine ⟨next, hnext, hvalid, Membership.validProgressionForLeader_voting hvalid,
      fun x hx hnot => absurd ((hvoter x).mp hx) hnot,
      fun x hx hnot => absurd ((hvoter x).mpr hx) hnot, fun x hx hnot => ?_⟩
    rw [← OrdMap.mem_keySet, hA, Finset.mem_erase, OrdMap.mem_keySet] at hnot
    obtain rfl : x = q := by_contra fun hne => hnot ⟨hne, hx⟩
    exact hunseen.follower.2

end

namespace Sample

/-- A core of a group in which at least two replicas vote. -/
def healing : Core IdealHash DB2 :=
  { core 1 with raft := { state := .loadedPartOfGroup, loaded :=
      { groupConfig := { groupConfig with minVotingReplicas := 2 } } } }

def thirdSilent (p : PeerId) : Ticks := if p = 3 then 60 else 0

theorem proposals_valid_demotion : ∃ r group next,
    ((Sample.group 0 [1, 2, 3]).start.run (demotion.take 3)).replicas 1 = some r ∧
    healing.nextReplicaGroup (r.withLastSeen thirdSilent) = some group ∧
    Membership.fromProto group = .ok next ∧ 3 ∉ next.votingReplicas ∧
    Membership.validProgressionForLeader r.me r.committedMembership next r.superMajority = .ok := by
  have h : (((Sample.group 0 [1, 2, 3]).start.run (demotion.take 3)).replicas 1).any (fun r =>
      decide (r.role = .leader ∧ r.uncommittedMemberships = [] ∧ r.superMajority = 0 ∧
        healing.nextReplicaGroup (r.withLastSeen thirdSilent) =
          some [⟨some 1, true⟩, ⟨some 2, true⟩, ⟨some 3, false⟩])) = true := by
    decide +kernel
  simp only [Option.any_eq_true, decide_eq_true_eq] at h
  obtain ⟨r, hr, hrole, hnone, hsuper, hgroup⟩ := h
  obtain ⟨next, hnext, hvalid, -⟩ := proposals_valid (Sample.group 0 [1, 2, 3]) (demotion.take 3) hr
    hrole hnone thirdSilent healing (by rw [hsuper]; decide) hgroup
  refine ⟨r, _, next, hr, hgroup, hnext, ?_, hvalid⟩
  cases hnext
  decide

end Sample

end SVR2
