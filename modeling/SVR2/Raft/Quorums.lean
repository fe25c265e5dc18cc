import SVR2.Lib.Quorum
import SVR2.Raft.Progression
import SVR2.Raft.State

/-!
# Quorums across a membership change

A step that `ValidProgressionForLeader` accepts adds or removes at most one voter, and quorums are
large enough for any two of them, one before and one after such a step, to share more voters than
the group is meant to lose.
-/

namespace SVR2

open Lib

/-! ### Sizes -/

namespace Raft

/-- `quorum_size` as the machine computes it: in 64-bit unsigned arithmetic, in which the
    difference wraps when there are fewer voters than the super majority. -/
def quorumSize64 (votingReplicas superMajority : UInt64) : UInt64 :=
  let size := (votingReplicas - superMajority) / 2 + 1 + superMajority
  if size < votingReplicas then size else votingReplicas

theorem toNat_quorumSize64 {v s : Nat} (hv : v < 2 ^ 32) (hs : s < 2 ^ 32) :
    (quorumSize64 (.ofNat v) (.ofNat s)).toNat = quorumSize v s := by
  have hv' : (UInt64.ofNat v).toNat = v := by
    rw [UInt64.toNat_ofNat']
    omega
  have hs' : (UInt64.ofNat s).toNat = s := by
    rw [UInt64.toNat_ofNat']
    omega
  obtain ⟨d, hd⟩ : ∃ d, d = if s ≤ v then v - s else v + 2 ^ 64 - s := ⟨_, rfl⟩
  have hdlt : d < 2 ^ 64 := by
    rw [hd]
    split_ifs <;> omega
  have hdiff : (UInt64.ofNat v - UInt64.ofNat s).toNat = d := by
    rw [UInt64.toNat_sub, hv', hs', hd]
    split_ifs <;> omega
  have hsize : ((UInt64.ofNat v - UInt64.ofNat s) / 2 + 1 + UInt64.ofNat s).toNat =
      d / 2 + 1 + s := by
    have htwo : (2 : UInt64).toNat = 2 := rfl
    have hone : (1 : UInt64).toNat = 1 := rfl
    rw [UInt64.toNat_add, UInt64.toNat_add, UInt64.toNat_div, hdiff, hs', htwo, hone]
    omega
  rw [quorumSize64, quorumSize, ← hd]
  by_cases hlt : (UInt64.ofNat v - UInt64.ofNat s) / 2 + 1 + UInt64.ofNat s < UInt64.ofNat v
  · rw [if_pos hlt, hsize]
    rw [UInt64.lt_iff_toNat_lt, hsize, hv'] at hlt
    omega
  · rw [if_neg hlt, hv']
    rw [UInt64.lt_iff_toNat_lt, hsize, hv'] at hlt
    omega

/-- A quorum is everybody when there are no more voters than the super majority, and otherwise
    more than half of the voters beyond it. -/
theorem quorumSize_cases {v s : Nat} (hs : s < 2 ^ 32) :
    (v ≤ s ∧ quorumSize v s = v) ∨ (s < v ∧ quorumSize v s = (v - s) / 2 + 1 + s) := by
  rw [quorumSize]
  by_cases hle : s ≤ v
  · rw [if_pos hle]
    omega
  · rw [if_neg hle]
    omega

end Raft

/-! ### Intersections -/

theorem le_card_inter_quorums {s : Nat} (hs : s < 2 ^ 32) {V A B : Finset PeerId} (hA : A ⊆ V)
    (hB : B ⊆ V) (hAq : Raft.quorumSize V.card s ≤ A.card)
    (hBq : Raft.quorumSize V.card s ≤ B.card) : min (s + 1) V.card ≤ (A ∩ B).card := by
  have hsum := card_add_card_le hA hB
  rcases Raft.quorumSize_cases (v := V.card) hs with ⟨hle, hq⟩ | ⟨hlt, hq⟩
  · rw [hq] at hAq hBq
    omega
  · rw [hq] at hAq hBq
    omega

/-- Two quorums of sets of voters that differ by one. -/
theorem le_card_inter_quorums_succ {s : Nat} (hs : s < 2 ^ 32) {V W A B : Finset PeerId}
    (hVW : V ⊆ W) (hcard : W.card = V.card + 1) (hA : A ⊆ V) (hB : B ⊆ W)
    (hAq : Raft.quorumSize V.card s ≤ A.card) (hBq : Raft.quorumSize W.card s ≤ B.card) :
    min (s + 1) V.card ≤ (A ∩ B).card := by
  have hsum := card_add_card_le (hA.trans hVW) hB
  rw [hcard] at hBq hsum
  rcases Raft.quorumSize_cases (v := V.card) hs with ⟨hle, hq⟩ | ⟨hlt, hq⟩ <;>
    rcases Raft.quorumSize_cases (v := V.card + 1) hs with ⟨hle', hq'⟩ | ⟨hlt', hq'⟩ <;>
    rw [hq] at hAq <;> rw [hq'] at hBq <;> omega

/-- Quorums of the memberships before and after a step that a leader may take, and two quorums of
    one membership, share more than `s` voters, or as many as there are. -/
theorem quorums_intersect (s : Nat) (hs : s < 2 ^ 32) :
    (∀ m : Membership, m.votingReplicas.size < 2 ^ 32 → ∀ A B : Finset PeerId,
      A ⊆ m.votingReplicas.keySet → B ⊆ m.votingReplicas.keySet →
      A.card = (Raft.quorumSize64 (.ofNat m.votingReplicas.size) (.ofNat s)).toNat →
      B.card = (Raft.quorumSize64 (.ofNat m.votingReplicas.size) (.ofNat s)).toNat →
      min (s + 1) m.votingReplicas.size ≤ (A ∩ B).card) ∧
    ∀ src dst : Membership, src.votingReplicas.size < 2 ^ 32 → dst.votingReplicas.size < 2 ^ 32 →
      (∃ leader, Membership.validProgressionForLeader leader src dst s = .ok) →
      ∀ A B : Finset PeerId, A ⊆ src.votingReplicas.keySet → B ⊆ dst.votingReplicas.keySet →
      A.card = (Raft.quorumSize64 (.ofNat src.votingReplicas.size) (.ofNat s)).toNat →
      B.card = (Raft.quorumSize64 (.ofNat dst.votingReplicas.size) (.ofNat s)).toNat →
      min (s + 1) (min src.votingReplicas.size dst.votingReplicas.size) ≤ (A ∩ B).card := by
  refine ⟨?_, ?_⟩
  · intro m hm A B hA hB hAq hBq
    rw [Raft.toNat_quorumSize64 hm hs] at hAq hBq
    rw [← OrdMap.card_keySet] at hAq hBq ⊢
    exact le_card_inter_quorums hs hA hB hAq.ge hBq.ge
  · rintro src dst hsrc hdst ⟨leader, hvalid⟩ A B hA hB hAq hBq
    have hchange := Membership.validProgressionForLeader_voters hvalid
    rw [Raft.toNat_quorumSize64 hsrc hs] at hAq
    rw [Raft.toNat_quorumSize64 hdst hs] at hBq
    rw [← OrdMap.card_keySet] at hAq hBq
    rw [← OrdMap.card_keySet, ← OrdMap.card_keySet]
    generalize src.votingReplicas.keySet = V at hA hAq hchange ⊢
    generalize dst.votingReplicas.keySet = W at hB hBq hchange ⊢
    have hV := Finset.card_sdiff_add_card_inter V W
    have hW := Finset.card_sdiff_add_card_inter W V
    rw [Finset.inter_comm] at hW
    have hsub : ∀ {X Y : Finset PeerId}, (X \ Y).card = 0 → X ⊆ Y := fun h =>
      Finset.sdiff_eq_empty_iff_subset.mp (Finset.card_eq_zero.mp h)
    rcases Nat.lt_trichotomy V.card W.card with hlt | heq | hgt
    · have hshare := le_card_inter_quorums_succ hs (hsub (by omega)) (by omega) hA hB hAq.ge hBq.ge
      omega
    · obtain rfl : V = W := (hsub (by omega)).antisymm (hsub (by omega))
      have hshare := le_card_inter_quorums hs hA hB hAq.ge hBq.ge
      omega
    · have hshare := le_card_inter_quorums_succ hs (hsub (by omega)) (by omega) hB hA hBq.ge hAq.ge
      rw [Finset.inter_comm] at hshare
      omega

/-- The promotion of a fourth replica with a super majority of 1: `quorum_size` is 3 of 3 before it
    and 3 of 4 after it. -/
theorem quorums_intersect_promotion :
    min (1 + 1) (min 3 4) ≤ (({1, 2, 3} : Finset PeerId) ∩ {2, 3, 4}).card :=
  (quorums_intersect 1 (by decide)).2
    { allReplicas := .ofKeys [1, 2, 3, 4], votingReplicas := .ofKeys [1, 2, 3] }
    { allReplicas := .ofKeys [1, 2, 3, 4], votingReplicas := .ofKeys [1, 2, 3, 4] }
    (by decide) (by decide) ⟨1, by decide +kernel⟩ {1, 2, 3} {2, 3, 4} (by decide) (by decide) (by decide)
    (by decide)

end SVR2
