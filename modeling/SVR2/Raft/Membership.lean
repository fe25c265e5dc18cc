import SVR2.Raft.Log

/-!
# Group membership

`raft/membership.cc`: the two sets of a replica group and the changes a leader may make to
them in one step.
-/

namespace SVR2

open Lib

structure Membership where
  allReplicas : OrdSet PeerId
  votingReplicas : OrdSet PeerId
deriving DecidableEq

namespace Membership

/-- The loop of `FromProto`, over the replicas not read yet. -/
def fromReplicas : ReplicaGroup → Membership → Except Error Membership
  | [], out => .ok out
  | replica :: rest, out =>
    match replica.peerId with
    | none => .error .peersInvalidID
    | some p =>
      if p ∈ out.allReplicas then .error .membershipDuplicateReplicaInReplicaGroup
      else fromReplicas rest
        { allReplicas := out.allReplicas.insert p ()
          votingReplicas :=
            if replica.voting then out.votingReplicas.insert p () else out.votingReplicas }

def fromProto (group : ReplicaGroup) : Except Error Membership :=
  fromReplicas group { allReplicas := ∅, votingReplicas := ∅ }

theorem fromReplicas_error {group : ReplicaGroup} {out : Membership} {err : Error}
    (h : fromReplicas group out = .error err) : err ≠ .ok := by
  induction group generalizing out with
  | nil => simp [fromReplicas] at h
  | cons replica rest ih =>
    rw [fromReplicas] at h
    split at h
    · cases h; decide
    · rename_i p _
      by_cases hp : p ∈ out.allReplicas
      · rw [if_pos hp] at h
        cases h; decide
      · rw [if_neg hp] at h
        exact ih h

theorem fromReplicas_voting_subset {group : ReplicaGroup} {out m : Membership}
    (hout : ∀ p ∈ out.votingReplicas, p ∈ out.allReplicas)
    (h : fromReplicas group out = .ok m) : ∀ p ∈ m.votingReplicas, p ∈ m.allReplicas := by
  induction group generalizing out with
  | nil => cases h; exact hout
  | cons replica rest ih =>
    rw [fromReplicas] at h
    split at h
    · cases h
    · rename_i q _
      by_cases hq : q ∈ out.allReplicas
      · rw [if_pos hq] at h; cases h
      · rw [if_neg hq] at h
        refine ih ?_ h
        intro p hp
        simp only [OrdMap.mem_insert]
        by_cases hv : replica.voting = true
        · simp only [hv, if_true, OrdMap.mem_insert] at hp
          exact hp.imp_right (hout p)
        · simp only [hv] at hp
          exact Or.inr (hout p hp)

theorem fromProto_voting_subset {group : ReplicaGroup} {m : Membership}
    (h : fromProto group = .ok m) : ∀ p ∈ m.votingReplicas, p ∈ m.allReplicas :=
  fromReplicas_voting_subset (fun _ hp => absurd hp (OrdMap.not_mem_empty _)) h

def first (me : PeerId) : Membership where
  allReplicas := (∅ : OrdSet PeerId).insert me ()
  votingReplicas := (∅ : OrdSet PeerId).insert me ()

def asProto (m : Membership) : ReplicaGroup :=
  m.allReplicas.keys.map fun peer =>
    { peerId := some peer, voting := m.votingReplicas.contains peer }

theorem fromReplicas_map (v : PeerId → Bool) {ps : List PeerId} (out : Membership)
    (hnodup : ps.Nodup) (hnew : ∀ p ∈ ps, p ∉ out.allReplicas) :
    ∃ m, fromReplicas (ps.map fun p => ⟨some p, v p⟩) out = .ok m ∧
      (∀ q, q ∈ m.allReplicas ↔ q ∈ out.allReplicas ∨ q ∈ ps) ∧
      ∀ q, q ∈ m.votingReplicas ↔ q ∈ out.votingReplicas ∨ q ∈ ps ∧ v q = true := by
  induction ps generalizing out with
  | nil => exact ⟨out, rfl, by simp, by simp⟩
  | cons p ps ih =>
    obtain ⟨hp, hps⟩ := List.nodup_cons.mp hnodup
    rw [List.map_cons, fromReplicas]
    dsimp only
    rw [if_neg (hnew p List.mem_cons_self)]
    obtain ⟨m, hm, hall, hvoting⟩ := ih
      { allReplicas := out.allReplicas.insert p ()
        votingReplicas :=
          if v p then out.votingReplicas.insert p () else out.votingReplicas } hps (by
        intro q hq hin
        rcases OrdMap.mem_insert.mp hin with rfl | hin
        · exact hp hq
        · exact hnew q (List.mem_cons_of_mem _ hq) hin)
    refine ⟨m, hm, fun q => ?_, fun q => ?_⟩
    · rw [hall, OrdMap.mem_insert, List.mem_cons]
      tauto
    · rw [hvoting, List.mem_cons]
      cases hv : v p with
      | true =>
        rw [if_pos rfl, OrdMap.mem_insert]
        by_cases hqp : q = p
        · simp [hqp, hv]
        · simp [hqp]
      | false =>
        rw [if_neg (by simp)]
        by_cases hqp : q = p
        · simp [hqp, hv, hp]
        · simp [hqp]

theorem fromProto_map (v : PeerId → Bool) {ps : List PeerId} (hnodup : ps.Nodup) :
    ∃ m, fromProto (ps.map fun p => ⟨some p, v p⟩) = .ok m ∧
      (∀ q, q ∈ m.allReplicas ↔ q ∈ ps) ∧ ∀ q, q ∈ m.votingReplicas ↔ q ∈ ps ∧ v q = true := by
  obtain ⟨m, hm, hall, hvoting⟩ := fromReplicas_map v ⟨∅, ∅⟩ hnodup (by simp)
  exact ⟨m, hm, by simpa using hall, by simpa using hvoting⟩

/-- The walk of `std::set_difference` over two increasing ranges: the elements of the first that the
    second lacks.  Every turn moves one of the two iterators. -/
def setDifferenceWalk : Nat → List PeerId → List PeerId → List PeerId
  | 0, _, _ => []
  | _ + 1, [], _ => []
  | n + 1, a :: as, [] => a :: setDifferenceWalk n as []
  | n + 1, a :: as, b :: bs =>
    if a < b then a :: setDifferenceWalk n as (b :: bs)
    else if b < a then setDifferenceWalk n (a :: as) bs
    else setDifferenceWalk n as bs

def setDifference (a b : OrdSet PeerId) : List PeerId :=
  setDifferenceWalk (a.size + b.size) a.keys b.keys

/-- The loop of `SetDiffSize` over what is left of the two ranges, with the count so far. -/
def setDiffSizeLoop : List PeerId → List PeerId → Nat → Nat
  | [], _, out => out
  | _ :: as, [], out => setDiffSizeLoop as [] (out + 1)
  | a :: as, b :: bs, out =>
    if a < b then setDiffSizeLoop as (b :: bs) (out + 1)
    else if b < a then setDiffSizeLoop (a :: as) bs out
    else setDiffSizeLoop as bs out
termination_by as bs => as.length + bs.length

def setDiffSize (a b : OrdSet PeerId) : Nat := setDiffSizeLoop a.keys b.keys 0

def validProgressionForLeader (leader : PeerId) (src dst : Membership) (superMajority : Nat) :
    Error :=
  if superMajority < src.votingReplicas.size ∧ dst.votingReplicas.size ≤ superMajority then
    .membershipSuperMajorityLost
  else
    let votingAdditions := setDiffSize dst.votingReplicas src.votingReplicas
    let votingRemovals := setDifference src.votingReplicas dst.votingReplicas
    let allAdditions := setDiffSize dst.allReplicas src.allReplicas
    let allRemovals := setDifference src.allReplicas dst.allReplicas
    let allChanges :=
      votingAdditions + votingRemovals.length + allAdditions + allRemovals.length
    if dst.votingReplicas.size = 0 ∨ dst.allReplicas.size = 0 then .membershipEmptySet
    -- two changes are allowed when they remove one peer from both sets
    else if ¬(allChanges = 2 ∧ votingRemovals.length = 1 ∧ allRemovals.length = 1 ∧
        votingRemovals.head? = allRemovals.head?) ∧ 1 < allChanges then
      .membershipTooManyMembershipChanges
    else if allChanges = 0 then .membershipNoMembershipChanges
    else if leader ∉ dst.votingReplicas then .membershipLeaderRemovedFromVoting
    else if leader ∉ dst.allReplicas then .membershipLeaderRemovedFromAll
    -- the source compares with the difference of the sizes, which wraps where it is negative
    else if setDiffSize dst.allReplicas dst.votingReplicas + dst.votingReplicas.size ≠
        dst.allReplicas.size then .membershipVotingNotSubset
    else .ok

theorem validProgressionForLeader_voting {leader : PeerId} {src dst : Membership} {s : Nat}
    (h : validProgressionForLeader leader src dst s = .ok) : leader ∈ dst.votingReplicas := by
  simp only [validProgressionForLeader] at h
  split_ifs at h with h1 h2 h3 h4 h5 h6 h7
  exact h5

end Membership

end SVR2
