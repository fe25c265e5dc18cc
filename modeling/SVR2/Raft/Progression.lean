import Mathlib.Data.Finset.Card
import SVR2.Raft.Membership

/-!
# What a leader accepts

`ValidProgressionForLeader` walks over ordered sets to count what changes from one membership to the
next.  Said over finite sets, it accepts a single change, or the removal of one replica from both
sets, that leaves the leader a voter.
-/

namespace SVR2

open Lib

namespace Membership

/-! ### Set differences -/

/-- The walk over two increasing ranges finds what the first has and the second lacks. -/
theorem setDifferenceWalk_eq {n : Nat} {as bs : List PeerId} (has : as.Pairwise (· < ·))
    (hbs : bs.Pairwise (· < ·)) (hn : as.length + bs.length ≤ n) :
    setDifferenceWalk n as bs = as.filter fun a => a ∉ bs := by
  -- by induction on the turns: every turn drops the head of a range
  induction n generalizing as bs with
  | zero =>
    have hnil : as = [] := List.length_eq_zero_iff.mp (by omega)
    rw [hnil]
    rfl
  | succ n ih =>
    cases as with
    | nil => rfl
    | cons a as =>
      obtain ⟨ha, has'⟩ := List.pairwise_cons.mp has
      cases bs with
      | nil =>
        rw [setDifferenceWalk, ih has' hbs (by simpa using hn)]
        simp
      | cons b bs =>
        obtain ⟨hb, hbs'⟩ := List.pairwise_cons.mp hbs
        simp only [List.length_cons] at hn
        rw [setDifferenceWalk]
        rcases lt_trichotomy a b with hlt | heq | hgt
        · -- all of the second range is above `a`
          have hnot : a ∉ b :: bs := by
            intro hmem
            rcases List.mem_cons.mp hmem with rfl | hmem
            · exact lt_irrefl _ hlt
            · exact lt_irrefl _ (hlt.trans (hb a hmem))
          rw [if_pos hlt, ih has' hbs (by simp only [List.length_cons]; omega),
            List.filter_cons_of_pos (by simpa using hnot)]
        · subst heq
          rw [if_neg (lt_irrefl _), if_neg (lt_irrefl _), ih has' hbs' (by omega),
            List.filter_cons_of_neg (by simp)]
          refine List.filter_congr fun x hx => ?_
          have hne : x ≠ a := ne_of_gt (ha x hx)
          simp [hne]
        · -- all of the first range is above `b`
          rw [if_neg hgt.not_gt, if_pos hgt, ih has hbs' (by simp only [List.length_cons]; omega)]
          refine List.filter_congr fun x hx => ?_
          have hne : x ≠ b := by
            rcases List.mem_cons.mp hx with rfl | hx
            · exact ne_of_gt hgt
            · exact ne_of_gt (hgt.trans (ha x hx))
          simp [hne]

theorem setDifference_eq (a b : OrdSet PeerId) :
    setDifference a b = a.keys.filter fun p => p ∉ b := by
  rw [setDifference, setDifferenceWalk_eq a.keys_sorted b.keys_sorted (by simp)]
  simp only [OrdMap.mem_keys]

theorem mem_setDifference {a b : OrdSet PeerId} {p : PeerId} :
    p ∈ setDifference a b ↔ p ∈ a ∧ p ∉ b := by
  rw [setDifference_eq, List.mem_filter, OrdMap.mem_keys, decide_eq_true_eq]

theorem toFinset_setDifference (a b : OrdSet PeerId) :
    (setDifference a b).toFinset = a.keySet \ b.keySet := by
  ext p
  rw [List.mem_toFinset, mem_setDifference, Finset.mem_sdiff, OrdMap.mem_keySet,
    OrdMap.mem_keySet]

theorem length_setDifference (a b : OrdSet PeerId) :
    (setDifference a b).length = (a.keySet \ b.keySet).card := by
  have hnodup : (setDifference a b).Nodup := by
    rw [setDifference_eq]
    exact a.keys_nodup.filter _
  rw [← toFinset_setDifference, List.toFinset_card_of_nodup hnodup]

/-- Two differences are the same single replica when they have one element and the same first. -/
theorem head_setDifference_iff (a b c d : OrdSet PeerId) :
    ((setDifference a b).length = 1 ∧ (setDifference c d).length = 1 ∧
      (setDifference a b).head? = (setDifference c d).head?) ↔
    (a.keySet \ b.keySet).card = 1 ∧ a.keySet \ b.keySet = c.keySet \ d.keySet := by
  constructor
  · rintro ⟨hab, hcd, hhead⟩
    obtain ⟨x, hx⟩ := List.length_eq_one_iff.mp hab
    obtain ⟨y, hy⟩ := List.length_eq_one_iff.mp hcd
    rw [hx, hy, List.head?_cons, List.head?_cons, Option.some.injEq] at hhead
    rw [← length_setDifference, ← toFinset_setDifference, ← toFinset_setDifference c d, hx, hy,
      hhead]
    exact ⟨rfl, rfl⟩
  · rintro ⟨hab, heq⟩
    have hcd := heq ▸ hab
    rw [← length_setDifference] at hab hcd
    obtain ⟨x, hx⟩ := List.length_eq_one_iff.mp hab
    obtain ⟨y, hy⟩ := List.length_eq_one_iff.mp hcd
    rw [← toFinset_setDifference, ← toFinset_setDifference c d, hx, hy] at heq
    have hxy : x = y := by simpa using heq
    rw [hx, hy, hxy]
    exact ⟨rfl, rfl, rfl⟩

theorem setDiffSizeLoop_eq {n : Nat} {as bs : List PeerId} (hn : as.length + bs.length ≤ n)
    (out : Nat) : setDiffSizeLoop as bs out = out + (setDifferenceWalk n as bs).length := by
  -- by induction on the turns, as both move the same iterators
  induction n generalizing as bs out with
  | zero =>
    have hnil : as = [] := List.length_eq_zero_iff.mp (by omega)
    rw [hnil, setDiffSizeLoop]
    rfl
  | succ n ih =>
    cases as with
    | nil =>
      rw [setDiffSizeLoop]
      rfl
    | cons a as =>
      cases bs with
      | nil =>
        simp only [List.length_cons] at hn
        rw [setDiffSizeLoop, setDifferenceWalk, ih (by omega), List.length_cons]
        omega
      | cons b bs =>
        simp only [List.length_cons] at hn
        rw [setDiffSizeLoop, setDifferenceWalk]
        split_ifs with hab hba
        · rw [ih (by simp only [List.length_cons]; omega), List.length_cons]
          omega
        · exact ih (by simp only [List.length_cons]; omega) out
        · exact ih (by omega) out

theorem setDiffSize_eq (a b : OrdSet PeerId) : setDiffSize a b = (a.keySet \ b.keySet).card := by
  rw [setDiffSize, setDiffSizeLoop_eq (n := a.size + b.size) (by simp), Nat.zero_add]
  exact length_setDifference a b

/-! ### The decision over finite sets -/

/-- What a leader answers to a step from the voters `voting` and the replicas `all` to `nextVoting`
    and `nextAll`. -/
def progression (leader : PeerId) (voting all nextVoting nextAll : Finset PeerId)
    (superMajority : Nat) : Error :=
  let allChanges := (nextVoting \ voting).card + (voting \ nextVoting).card + (nextAll \ all).card +
    (all \ nextAll).card
  if superMajority < voting.card ∧ nextVoting.card ≤ superMajority then .membershipSuperMajorityLost
  else if nextVoting = ∅ ∨ nextAll = ∅ then .membershipEmptySet
  -- the removal of one replica from both sets counts as two changes
  else if 1 < allChanges ∧ ¬(allChanges = 2 ∧ (voting \ nextVoting).card = 1 ∧
      voting \ nextVoting = all \ nextAll) then .membershipTooManyMembershipChanges
  else if allChanges = 0 then .membershipNoMembershipChanges
  else if leader ∉ nextVoting then .membershipLeaderRemovedFromVoting
  else if leader ∉ nextAll then .membershipLeaderRemovedFromAll
  else if ¬nextVoting ⊆ nextAll then .membershipVotingNotSubset
  else .ok

/-- The last check compares sizes to say that all voters are replicas. -/
theorem card_sdiff_add_card_eq_iff {voting all : Finset PeerId} :
    (all \ voting).card + voting.card = all.card ↔ voting ⊆ all := by
  constructor
  · intro h
    rw [Finset.card_sdiff_add_card] at h
    have hunion := Finset.eq_of_subset_of_card_le Finset.subset_union_left h.le
    exact Finset.union_eq_left.mp hunion.symm
  · exact Finset.card_sdiff_add_card_eq_card

theorem validProgressionForLeader_eq (leader : PeerId) (src dst : Membership) (s : Nat) :
    validProgressionForLeader leader src dst s =
      progression leader src.votingReplicas.keySet src.allReplicas.keySet
        dst.votingReplicas.keySet dst.allReplicas.keySet s := by
  have hsame := head_setDifference_iff src.votingReplicas dst.votingReplicas src.allReplicas
    dst.allReplicas
  rw [validProgressionForLeader, progression]
  simp only [setDiffSize_eq, ← OrdMap.card_keySet, Finset.card_eq_zero, ← OrdMap.mem_keySet,
    ne_eq, card_sdiff_add_card_eq_iff, hsame]
  simp only [length_setDifference]
  refine if_congr Iff.rfl rfl (if_congr Iff.rfl rfl (if_congr and_comm rfl rfl))

/-- A step that a leader accepts changes each of the two sets by at most one replica. -/
theorem progression_ok {leader : PeerId} {voting all nextVoting nextAll : Finset PeerId} {s : Nat}
    (h : progression leader voting all nextVoting nextAll s = .ok) :
    (nextVoting \ voting).card + (voting \ nextVoting).card ≤ 1 ∧
      (nextAll \ all).card + (all \ nextAll).card ≤ 1 := by
  rw [progression] at h
  split at h
  · cases h
  split at h
  · cases h
  split at h
  · cases h
  rename_i hmany
  rw [not_and, not_not] at hmany
  by_cases hone : 1 < (nextVoting \ voting).card + (voting \ nextVoting).card +
      (nextAll \ all).card + (all \ nextAll).card
  · obtain ⟨htwo, hvoting, hsame⟩ := hmany hone
    have hall : (all \ nextAll).card = 1 := hsame ▸ hvoting
    omega
  · omega

theorem validProgressionForLeader_voters {leader : PeerId} {src dst : Membership} {s : Nat}
    (h : validProgressionForLeader leader src dst s = .ok) :
    (dst.votingReplicas.keySet \ src.votingReplicas.keySet).card +
      (src.votingReplicas.keySet \ dst.votingReplicas.keySet).card ≤ 1 := by
  rw [validProgressionForLeader_eq] at h
  exact (progression_ok h).1

/-- A leader may make any one change that leaves it a voter and does not lose the super majority. -/
theorem validProgressionForLeader_of_one {leader : PeerId} {src dst : Membership} {s : Nat}
    (hleader : leader ∈ dst.votingReplicas)
    (hsub : ∀ p ∈ dst.votingReplicas, p ∈ dst.allReplicas)
    (hsuper : s < src.votingReplicas.size → s < dst.votingReplicas.size)
    (hone : (dst.votingReplicas.keySet \ src.votingReplicas.keySet).card +
      (src.votingReplicas.keySet \ dst.votingReplicas.keySet).card +
      (dst.allReplicas.keySet \ src.allReplicas.keySet).card +
      (src.allReplicas.keySet \ dst.allReplicas.keySet).card = 1) :
    validProgressionForLeader leader src dst s = .ok := by
  have hvoter : leader ∈ dst.votingReplicas.keySet := OrdMap.mem_keySet.mpr hleader
  have hsubset : dst.votingReplicas.keySet ⊆ dst.allReplicas.keySet := fun p hp =>
    OrdMap.mem_keySet.mpr (hsub p (OrdMap.mem_keySet.mp hp))
  have hnonempty : ¬(dst.votingReplicas.keySet = ∅ ∨ dst.allReplicas.keySet = ∅) := by
    rintro (hempty | hempty)
    · exact Finset.ne_empty_of_mem hvoter hempty
    · exact Finset.ne_empty_of_mem (hsubset hvoter) hempty
  rw [← OrdMap.card_keySet, ← OrdMap.card_keySet] at hsuper
  rw [validProgressionForLeader_eq, progression, if_neg (by omega), if_neg hnonempty,
    if_neg (by omega), if_neg (by omega), if_neg (not_not.mpr hvoter),
    if_neg (not_not.mpr (hsubset hvoter)), if_neg (not_not.mpr hsubset)]

/-! The three single changes that leave the leader a voter. -/

section

variable {leader q : PeerId} {src dst : Membership} {s : Nat}
  (hleader : leader ∈ src.votingReplicas) (hsub : ∀ p ∈ dst.votingReplicas, p ∈ dst.allReplicas)
include hleader hsub

theorem promotion_valid (hq : q ∉ src.votingReplicas)
    (hall : dst.allReplicas.keySet = src.allReplicas.keySet)
    (hvoting : dst.votingReplicas.keySet = insert q src.votingReplicas.keySet) :
    validProgressionForLeader leader src dst s = .ok ∧
      dst.votingReplicas.size = src.votingReplicas.size + 1 := by
  have hq' : q ∉ src.votingReplicas.keySet := by simpa using hq
  have hsize : dst.votingReplicas.size = src.votingReplicas.size + 1 := by
    rw [← OrdMap.card_keySet, hvoting, Finset.card_insert_of_notMem hq', OrdMap.card_keySet]
  refine ⟨validProgressionForLeader_of_one ?_ hsub (by omega) ?_, hsize⟩
  · rw [← OrdMap.mem_keySet, hvoting]
    exact Finset.mem_insert_of_mem (OrdMap.mem_keySet.mpr hleader)
  · rw [hall, hvoting, Finset.insert_sdiff_cancel hq']
    simp

theorem demotion_valid (hq : q ∈ src.votingReplicas) (hne : leader ≠ q)
    (hsuper : s + 1 < src.votingReplicas.size)
    (hall : dst.allReplicas.keySet = src.allReplicas.keySet)
    (hvoting : dst.votingReplicas.keySet = src.votingReplicas.keySet.erase q) :
    validProgressionForLeader leader src dst s = .ok ∧
      dst.votingReplicas.size = src.votingReplicas.size - 1 := by
  have hq' : q ∈ src.votingReplicas.keySet := OrdMap.mem_keySet.mpr hq
  have hsize : dst.votingReplicas.size = src.votingReplicas.size - 1 := by
    rw [← OrdMap.card_keySet, hvoting, Finset.card_erase_of_mem hq', OrdMap.card_keySet]
  refine ⟨validProgressionForLeader_of_one ?_ hsub (by omega) ?_, hsize⟩
  · rw [← OrdMap.mem_keySet, hvoting]
    exact Finset.mem_erase_of_ne_of_mem hne (OrdMap.mem_keySet.mpr hleader)
  · rw [hall, hvoting, Finset.sdiff_erase_self hq']
    simp [Finset.erase_subset]

theorem removal_valid (hq : q ∈ src.allReplicas)
    (hall : dst.allReplicas.keySet = src.allReplicas.keySet.erase q)
    (hvoting : dst.votingReplicas.keySet = src.votingReplicas.keySet) :
    validProgressionForLeader leader src dst s = .ok := by
  have hsize : dst.votingReplicas.size = src.votingReplicas.size := by
    rw [← OrdMap.card_keySet, hvoting, OrdMap.card_keySet]
  refine validProgressionForLeader_of_one ?_ hsub (by omega) ?_
  · rwa [← OrdMap.mem_keySet, hvoting, OrdMap.mem_keySet]
  · rw [hall, hvoting, Finset.sdiff_erase_self (OrdMap.mem_keySet.mpr hq)]
    simp [Finset.erase_subset]

end

/-- `SetDiffSize` counts what the first set has and the second lacks.  So `all_changes` is the number
    of one-sided changes of the voters and of all replicas, the decision is the one over finite sets,
    and an accepted step changes each of the two sets by at most one replica. -/
theorem setDiffSize_counts_changes :
    (∀ a b : OrdSet PeerId, setDiffSizeLoop a.keys b.keys 0 = (a.keySet \ b.keySet).card ∧
      setDiffSize a b = setDiffSizeLoop a.keys b.keys 0) ∧
    ∀ (leader : PeerId) (src dst : Membership) (superMajority : Nat),
      setDiffSize dst.votingReplicas src.votingReplicas +
          (setDifference src.votingReplicas dst.votingReplicas).length +
          setDiffSize dst.allReplicas src.allReplicas +
          (setDifference src.allReplicas dst.allReplicas).length =
        (dst.votingReplicas.keySet \ src.votingReplicas.keySet).card +
          (src.votingReplicas.keySet \ dst.votingReplicas.keySet).card +
          (dst.allReplicas.keySet \ src.allReplicas.keySet).card +
          (src.allReplicas.keySet \ dst.allReplicas.keySet).card ∧
      validProgressionForLeader leader src dst superMajority =
        progression leader src.votingReplicas.keySet src.allReplicas.keySet
          dst.votingReplicas.keySet dst.allReplicas.keySet superMajority ∧
      (validProgressionForLeader leader src dst superMajority = .ok →
        (dst.votingReplicas.keySet \ src.votingReplicas.keySet).card +
            (src.votingReplicas.keySet \ dst.votingReplicas.keySet).card ≤ 1 ∧
          (dst.allReplicas.keySet \ src.allReplicas.keySet).card +
            (src.allReplicas.keySet \ dst.allReplicas.keySet).card ≤ 1) := by
  refine ⟨fun a b => ⟨setDiffSize_eq a b, rfl⟩, fun leader src dst superMajority =>
    ⟨?_, validProgressionForLeader_eq leader src dst superMajority, fun h => ?_⟩⟩
  · rw [setDiffSize_eq, setDiffSize_eq, length_setDifference, length_setDifference]
  · rw [validProgressionForLeader_eq] at h
    exact progression_ok h

def samplePair : Membership where
  allReplicas := (first 1).allReplicas.insert 2 ()
  votingReplicas := (first 1).votingReplicas.insert 2 ()

/-- The second is removed from both sets in one step. -/
theorem setDiffSize_counts_changes_samplePair :
    validProgressionForLeader 1 samplePair (first 1) 0 = .ok ∧
      ((first 1).votingReplicas.keySet \ samplePair.votingReplicas.keySet).card +
        (samplePair.votingReplicas.keySet \ (first 1).votingReplicas.keySet).card ≤ 1 ∧
      ((first 1).allReplicas.keySet \ samplePair.allReplicas.keySet).card +
        (samplePair.allReplicas.keySet \ (first 1).allReplicas.keySet).card ≤ 1 :=
  have hvalid : validProgressionForLeader 1 samplePair (first 1) 0 = .ok := by decide +kernel
  ⟨hvalid, (setDiffSize_counts_changes.2 1 samplePair (first 1) 0).2.2 hvalid⟩

end Membership

end SVR2
