import SVR2.Raft.Origins

/-!
# Log matching

Without rollbacks and under a fixed membership a term has one leader, who only appends to its
log.  So an index and a term tell the whole log up to that index, and messages can be relied on
without looking at hashes.
-/

namespace SVR2

variable {Hash : Type} [Platform Hash]
variable {S : Setting Hash} {G : Rules Hash}
variable {w : World Hash} {p q : PeerId} {u v : View Hash} {i : Nat}

namespace World

/-- Every part of `v`'s log beyond the initial log was in the log of a leader of the term of its
    last entry. -/
def LedBy (S : Setting Hash) (w : World Hash) (v : View Hash) : Prop :=
  ∀ k, S.base.length < k → k ≤ v.log.length →
    ∃ q l, l ∈ w.past q ∧ l.role = .leader ∧ l.term = termAt v.log k ∧ v.log.take k <+: l.log

omit [Platform Hash] in
theorem Originated.ledBy (h : w.Originated S G v) : w.LedBy S v := by
  intro k hk hle
  obtain ⟨q, a, a', e, ha, hL⟩ := h k hk hle
  have hlen : k = a.log.length + 1 := by
    have := congrArg List.length hL
    rwa [List.length_take, Nat.min_eq_left hle, List.length_append, List.length_singleton] at this
  refine ⟨q, a', ha.after, ha.role_after, ?_, ?_⟩
  · have hsame : v.log.take k = (a.log ++ [e]).take k := by
      rw [hL, List.take_of_length_le]
      rw [List.length_append, List.length_singleton, hlen]
    rw [ha.term_after, ← ha.entry_term, termAt_congr hsame (le_refl k), hlen, termAt_append_self]
  · rw [ha.log_after, hL]

namespace Reachable

theorem leader_unique_of_no_rollback (h : Reachable S G ∅ w) (hG : G.Fixed) {l l' : View Hash}
    (hl : l ∈ w.past p) (hl' : l' ∈ w.past q) (hrole : l.role = .leader)
    (hrole' : l'.role = .leader) (hterm : l.term = l'.term) : p = q := by
  -- there are voters: the leader is one
  obtain ⟨L, ⟨⟨c, hc, -, -, rfl⟩, hvoter, -⟩, -⟩ := h.elected hl hrole
  rw [Setting.voters, h.conf_eq hG hc] at hvoter
  have hn : 0 < S.membership.votingReplicas.size := by
    rw [← Lib.OrdMap.card_keySet]
    exact Finset.card_pos.mpr ⟨p, hvoter⟩
  exact h.leader_unique hG (Setting.meets_empty hn) hl hl' hrole hrole' hterm

/-- The logs of the leaders of one term are all prefixes of the longest of them. -/
theorem leader_comparable (h : Reachable S G ∅ w) (hG : G.Fixed) {l l' : View Hash}
    (hl : l ∈ w.past p) (hl' : l' ∈ w.past q) (hrole : l.role = .leader)
    (hrole' : l'.role = .leader) (hterm : l.term = l'.term) :
    l.log <+: l'.log ∨ l'.log <+: l.log := by
  obtain rfl := h.leader_unique_of_no_rollback hG hl hl' hrole hrole' hterm
  rcases h.past_total (Set.notMem_empty p) hl hl' with hlead | hlead
  · exact Or.inl (hlead.leader hterm.symm hrole hrole')
  · exact Or.inr (hlead.leader hterm hrole' hrole)

/-- Two logs that were led and have the same term at an index are the same up to there. -/
theorem take_eq_of_ledBy (h : Reachable S G ∅ w) (hG : G.Fixed) (hu : u.Ok S) (hv : v.Ok S)
    (hlu : w.LedBy S u) (hlv : w.LedBy S v) (hi : i ≤ u.log.length) (hi' : i ≤ v.log.length)
    (hterm : S.base.length < i → termAt u.log i = termAt v.log i) :
    u.log.take i = v.log.take i := by
  by_cases hlt : S.base.length < i
  · obtain ⟨p, l, hl, hrole, hlterm, hpre⟩ := hlu i hlt hi
    obtain ⟨q, l', hl', hrole', hlterm', hpre'⟩ := hlv i hlt hi'
    have hsame : l.term = l'.term := by rw [hlterm, hlterm', hterm hlt]
    have hlen : (u.log.take i).length = (v.log.take i).length := by
      rw [List.length_take, List.length_take]
      omega
    rcases h.leader_comparable hG hl hl' hrole hrole' hsame with hcmp | hcmp
    · exact (List.prefix_of_prefix_length_le (hpre.trans hcmp) hpre' hlen.le).eq_of_length hlen
    · exact ((List.prefix_of_prefix_length_le (hpre'.trans hcmp) hpre hlen.ge).eq_of_length
        hlen.symm).symm
  · have hbase : ∀ {x : View Hash}, x.Ok S → x.log.take i = S.base.take i := by
      intro x hx
      rw [List.prefix_iff_eq_take.mp hx.base_start, List.take_take,
        Nat.min_eq_left (not_lt.mp hlt)]
    rw [hbase hu, hbase hv]

theorem take_eq_of_agrees (h : Reachable S G ∅ w) (hG : G.Fixed) {l : View Hash} {prev n k : Nat}
    (hv : v.Ok S) (hl : l.Ok S) (hlv : w.LedBy S v) (hll : w.LedBy S l)
    (hprev : prev ≤ l.log.length) (hagree : Agrees v.log (l.appendRequest prev n) k) :
    v.log.take (prev + k) = l.log.take (prev + k) := by
  refine h.take_eq_of_ledBy hG hv hl hlv hll hagree.length_le (hagree.le_length hprev) ?_
  intro hlt
  exact (hagree.at_last (by omega)).1

theorem ledBy (h : Reachable S G ∅ w) (hG : G.Fixed) (hv : v ∈ w.past p) : w.LedBy S v := by
  refine (originated ?_ h hv).ledBy
  intro w hw hall x v q l prev n k hv hl _ hprev hagree
  exact hw.take_eq_of_agrees hG (hw.view_ok hv) (hw.view_ok hl) (hall x v hv).ledBy
    (hall q l hl).ledBy hprev hagree

/-- Two logs with the same term at an index are the same up to there. -/
theorem take_eq_of_termAt (h : Reachable S G ∅ w) (hG : G.Fixed) (hu : u ∈ w.past p)
    (hv : v ∈ w.past q) (hi : i ≤ u.log.length) (hi' : i ≤ v.log.length)
    (hterm : S.base.length < i → termAt u.log i = termAt v.log i) :
    u.log.take i = v.log.take i :=
  h.take_eq_of_ledBy hG (h.view_ok hu) (h.view_ok hv) (h.ledBy hG hu) (h.ledBy hG hv) hi hi' hterm

/-- Without rollbacks and membership changes messages can be relied on. -/
theorem trusted_of_fixed (h : Reachable S G ∅ w) (hG : G.Fixed) : w.Trusted where
  agree := by
    intro x v q l prev n k hv hl _ hprev hagree
    exact h.take_eq_of_agrees hG (h.view_ok hv) (h.view_ok hl) (h.ledBy hG hv) (h.ledBy hG hl)
      hprev hagree
  ack := by
    intro p v x u m req k hv hrole hu hack hmatch
    by_cases h0 : m.matchIdx = 0
    · rw [h0]
      rfl
    -- the request was the leader's own, in the same term
    obtain ⟨l, hl, hlrole, hlterm, prev, n, hprev, rfl⟩ := hack.requested
    have hmatchIdx : m.matchIdx = prev + k := hack.matchIdx
    have hagree := hack.agree
    have hsame := h.take_eq_of_agrees hG (h.view_ok hu) (h.view_ok hl) (h.ledBy hG hu)
      (h.ledBy hG hl) hprev hagree
    have hle := (hmatch.resolve_left h0).1
    have hle' := hagree.le_length hprev
    rw [hmatchIdx] at hle ⊢
    rw [hsame]
    rcases h.leader_comparable hG hl hv hlrole hrole hlterm with hcmp | hcmp
    · exact (hcmp.take _).eq_of_length (by simp only [List.length_take]; omega)
    · exact ((hcmp.take _).eq_of_length (by simp only [List.length_take]; omega)).symm

end Reachable

end World

end SVR2
