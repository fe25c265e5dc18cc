import SVR2.Lib.Quorum
import SVR2.Raft.Provenance
import SVR2.Raft.Invariant

/-!
# Elections under a fixed membership

Two quorums of one membership overlap in more than `super_majority` voters, so no two replicas
are elected in one term even if that many voters have forgotten their votes.
-/

namespace SVR2

open Lib

variable {Hash : Type} [Platform Hash]
variable {S : Setting Hash} {G : Rules Hash} {R : Set PeerId}
variable {w : World Hash} {p q : PeerId} {v : View Hash} {t : Nat}

/-! ### Quorum sizes -/

omit [Platform Hash] in
theorem Raft.lt_quorumSize_add {n s : Nat} (h : s < n) :
    n + s < quorumSize n s + quorumSize n s := by
  rw [quorumSize, if_pos h.le]
  omega

omit [Platform Hash] in
theorem Raft.lt_quorumSize_add_self {n : Nat} (s : Nat) (h : 0 < n) :
    n < quorumSize n s + quorumSize n s := by
  rw [quorumSize]
  split_ifs <;> omega

/-- Any two quorums of the initial membership share a voter outside `R`. -/
def Setting.Meets (S : Setting Hash) (R : Set PeerId) : Prop :=
  ∀ A B : Finset PeerId, A ⊆ S.membership.votingReplicas.keySet →
    B ⊆ S.membership.votingReplicas.keySet →
    Raft.quorumSize S.membership.votingReplicas.size S.superMajority ≤ A.card →
    Raft.quorumSize S.membership.votingReplicas.size S.superMajority ≤ B.card →
    ∃ x, x ∈ A ∧ x ∈ B ∧ x ∉ R

omit [Platform Hash] in
/-- Quorums meet outside `super_majority` voters. -/
theorem Setting.meets_of_card {F : Finset PeerId}
    (hn : S.superMajority < S.membership.votingReplicas.size)
    (hF : (S.membership.votingReplicas.keySet ∩ F).card ≤ S.superMajority) : S.Meets F := by
  intro A B hA hB hcardA hcardB
  refine exists_mem_inter_not_mem hA hB ?_
  have := Raft.lt_quorumSize_add hn
  rw [OrdMap.card_keySet]
  omega

omit [Platform Hash] in
theorem Setting.meets_empty (hn : 0 < S.membership.votingReplicas.size) : S.Meets ∅ := by
  intro A B hA hB hcardA hcardB
  obtain ⟨x, hxA, hxB⟩ := exists_mem_inter hA hB (by
    have := Raft.lt_quorumSize_add_self S.superMajority hn
    rw [OrdMap.card_keySet]
    omega)
  exact ⟨x, hxA, hxB, Set.notMem_empty x⟩

/-! ### A membership that never changes -/

def Rules.Fixed (G : Rules Hash) : Prop := ∀ v, ¬G.mayReconfigure v

namespace World.Reachable

theorem membership?_eq_none (h : Reachable S G R w) (hG : G.Fixed) (hv : v ∈ w.past p) :
    ∀ e ∈ v.log.drop S.base.length, e.membership? = none := by
  refine past_induction (P := fun _ _ v =>
    ∀ e ∈ v.log.drop S.base.length, e.membership? = none) ?_ ?_ ?_ ?_ h hv
  · intro _ _ _ _ _ hv
    exact hv
  · intro w p e he
    simp only [View.fresh, List.drop_length] at he
    cases he
  · intro w p v v' out hw hall hv hmove
    have hlen := (hw.view_ok hv).base_start.length_le
    have append : ∀ e : LogEntry Hash, e.membership? = none →
        ∀ x ∈ (v.log ++ [e]).drop S.base.length, x.membership? = none := by
      intro e he x hx
      rw [List.drop_append_of_le_length hlen, List.mem_append, List.mem_singleton] at hx
      rcases hx with hx | rfl
      · exact hall p v hv x hx
      · exact he
    cases hmove with
    | appendEntry e hrole hterm hpos hchain hinner =>
      exact append e (LogEntry.membership?_eq_none hinner)
    | appendMembership e m hrole hterm hpos hchain hm hrule => exact absurd hrule (hG v)
    | extend q m k e hrole hin hagree he hend =>
      apply append
      -- the entry is one of a leader's log, beyond the initial log
      obtain ⟨l, hl, -, -, prev, n, -, rfl⟩ := hw.requested hin
      have hentry := Agrees.getElem?_of_entries he
      refine hall q l hl e (List.mem_iff_getElem?.mpr ⟨prev + k - S.base.length, ?_⟩)
      have hend : v.log.length = prev + k := hend
      rw [List.getElem?_drop, Nat.add_sub_cancel' (by omega)]
      exact hentry
    | truncate q m k e e' =>
      intro x hx
      rw [List.drop_take] at hx
      exact hall p v hv x (List.mem_of_mem_take hx)
    | _ => exact hall p v hv
  · intro w p q v _ hw _ hv e he
    simp only [View.fresh] at he
    rw [List.drop_take] at he
    exact hv e (List.mem_of_mem_take he)

theorem conf_eq (h : Reachable S G R w) (hG : G.Fixed) (hv : v ∈ w.past p) :
    S.conf v.log = S.membership :=
  S.conf_eq_of_forall (h.membership?_eq_none hG hv)

/-- Two replicas elected in one term, under the initial membership, are the same. -/
theorem elected_unique (h : Reachable S G R w) (hG : G.Fixed) (hR : S.Meets R)
    {L L' : List (LogEntry Hash)} (hp : w.Elected S p t L) (hq : w.Elected S q t L') : p = q := by
  obtain ⟨⟨c, hc, -, -, rfl⟩, -, Q, hQ, hcard, hvoted⟩ := hp
  obtain ⟨⟨c', hc', -, -, rfl⟩, -, Q', hQ', hcard', hvoted'⟩ := hq
  rw [Setting.voters, h.conf_eq hG hc] at hQ
  rw [Setting.voters, h.conf_eq hG hc'] at hQ'
  rw [Setting.quorum, Setting.voters, h.conf_eq hG hc, OrdMap.card_keySet] at hcard
  rw [Setting.quorum, Setting.voters, h.conf_eq hG hc', OrdMap.card_keySet] at hcard'
  obtain ⟨x, hx, hx', hxR⟩ := hR Q Q' hQ hQ' hcard hcard'
  exact h.voted_unique hxR (hvoted x hx) (hvoted' x hx')

theorem leader_unique (h : Reachable S G R w) (hG : G.Fixed) (hR : S.Meets R) {l l' : View Hash}
    (hl : l ∈ w.past p) (hl' : l' ∈ w.past q) (hrole : l.role = .leader)
    (hrole' : l'.role = .leader) (hterm : l.term = l'.term) : p = q := by
  obtain ⟨L, hL, -⟩ := h.elected hl hrole
  obtain ⟨L', hL', -⟩ := h.elected hl' hrole'
  exact h.elected_unique hG hR hL (hterm ▸ hL')

end World.Reachable

end SVR2
