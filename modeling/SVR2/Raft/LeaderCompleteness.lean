import SVR2.Raft.LogMatching
import SVR2.Raft.Terms

/-!
# Leader completeness

If leaders commit only up to entries of their own term, and are elected in terms above those of the
initial log, then whatever was committed is in the logs of all leaders of later terms.  The argument
is by strong induction on the term of the later leader: one of its voters had promised the committed
entries before it voted, and the vote was granted to a log that is no less up to date.
-/

namespace SVR2

variable {Hash : Type} [Platform Hash]
variable {S : Setting Hash} {G : Rules Hash}
variable {w : World Hash} {p q : PeerId} {n : Nat} {P : List (LogEntry Hash)}

def Setting.baseTerm (S : Setting Hash) : Nat := termAt S.base S.base.length

/-- Rules under which leaders are complete: the membership is fixed, nobody joins, candidates that
    need the votes of others are in terms above that of the initial log, and an index is committed
    only if its entry is of the leader's term. -/
structure Rules.Complete (S : Setting Hash) (G : Rules Hash) : Prop where
  fixed : G.Fixed
  no_join : ¬G.mayJoin
  campaign : ∀ v, G.mayCampaign v → 1 < S.membership.votingReplicas.size → S.baseTerm < v.term
  own_term : ∀ v n, G.mayCommit v n → termAt v.log n = v.term

namespace World.Reachable

theorem terms_of_complete (h : Reachable S G ∅ w) (hG : G.Complete S) {v : View Hash}
    (hv : v ∈ w.past p) :
    TermsSorted S v.log ∧ (v.role = .leader → TermsBelow S v.log v.term) ∧
      (v.role = .candidate → 0 < v.term ∧ TermsBelow S v.log (v.term - 1)) := by
  apply terms (fun _ hw => hw.trusted_of_fixed hG.fixed) _ h hv
  intro w p v hw hv _ _
  exact hw.termsBelow hG.no_join hv

theorem candidate_unique (h : Reachable S G ∅ w) {t : Nat} {L L' : List (LogEntry Hash)}
    (hL : w.Candidate p t L) (hL' : w.Candidate p t L') : L = L' := by
  obtain ⟨c, hc, hrole, hterm, rfl⟩ := hL
  obtain ⟨c', hc', hrole', hterm', rfl⟩ := hL'
  rcases h.past_total (Set.notMem_empty p) hc hc' with hlead | hlead
  · exact (hlead.candidate (hterm'.trans hterm.symm) hrole').2.symm
  · exact (hlead.candidate (hterm.trans hterm'.symm) hrole).2

/-- Promised entries are in every later log of the replica. -/
theorem backed_kept (h : Reachable S G ∅ w) {x : PeerId} {t : Nat} (hP : w.Backed x t P)
    {v : View Hash} (hv : v ∈ w.past x) (ht : t < v.term) : P <+: v.log := by
  obtain ⟨u, hu, rfl, hpre⟩ := hP
  rcases h.past_total (Set.notMem_empty x) hu hv with hlead | hlead
  · exact hpre.trans (hlead.promised_mono.2.trans (List.take_prefix _ _))
  · exact absurd hlead.term_le (not_le.mpr ht)

theorem baseTerm_lt_candidate (h : Reachable S G ∅ w) (hG : G.Complete S)
    (hsize : 1 < S.membership.votingReplicas.size) {v : View Hash} (hv : v ∈ w.past p)
    (hrole : v.role = .candidate) : S.baseTerm < v.term := by
  refine past_induction (P := fun _ _ v => v.role = .candidate → S.baseTerm < v.term)
    ?_ ?_ ?_ ?_ h hv hrole
  · intro _ _ _ _ _ hv
    exact hv
  · intro _ _ hr
    cases hr
  · intro w p v v' out _ hall hv hmove hr
    have hold := hall p v hv
    cases hmove with
    | campaign _ _ hrule => exact hG.campaign _ hrule hsize
    | becomeLeader => cases hr
    | stepDown => cases hr
    | newTerm => cases hr
    | _ => exact hold hr
  · intro _ _ _ _ _ _ _ _ hr
    cases hr

theorem baseTerm_lt_leader (h : Reachable S G ∅ w) (hG : G.Complete S)
    (hsize : 1 < S.membership.votingReplicas.size) {v : View Hash} (hv : v ∈ w.past p)
    (hrole : v.role = .leader) : S.baseTerm < v.term := by
  obtain ⟨L, ⟨⟨c, hc, hcrole, hcterm, -⟩, -⟩, -⟩ := h.elected hv hrole
  rw [← hcterm]
  exact h.baseTerm_lt_candidate hG hsize hc hcrole

/-- A log that has not grown ends in the last entry of the initial one. -/
theorem lastTerm_eq_baseTerm (h : Reachable S G ∅ w) {v : View Hash} (hv : v ∈ w.past p)
    (hlen : ¬S.base.length < v.log.length) : termAt v.log v.log.length = S.baseTerm := by
  have hpre := (h.view_ok hv).base_start
  rw [← hpre.eq_of_length (hpre.length_le.antisymm (not_lt.mp hlen)), Setting.baseTerm]

/-- An up-to-date log has all that the voter had, if the leader of its last term does. -/
theorem prefix_of_upToDate (h : Reachable S G ∅ w) (hG : G.Complete S)
    (hsize : 1 < S.membership.votingReplicas.size) {l y c : View Hash} (hl : l ∈ w.past q)
    (hrole : l.role = .leader) (hn : S.base.length < n) (hnl : n ≤ l.log.length)
    (hterm : termAt l.log n = l.term) {x : PeerId} (hy : y ∈ w.past x) (hc : c ∈ w.past p)
    (hpre : l.log.take n <+: y.log) (hup : UpToDate y.log c.log)
    (hlater : ∀ {q' l'}, l' ∈ w.past q' → l'.role = .leader → l.term < l'.term →
      l'.term = termAt c.log c.log.length → l.log.take n <+: l'.log) :
    l.log.take n <+: c.log := by
  have hlen : (l.log.take n).length = n := by rw [List.length_take, Nat.min_eq_left hnl]
  have hny : n ≤ y.log.length := hlen ▸ hpre.length_le
  have hsame : y.log.take n = l.log.take n := by
    rw [List.prefix_iff_eq_take.mp hpre, hlen]
  rcases hup with hlt | ⟨heq, hle⟩
  · -- the last entry of the candidate is of a later term than the committed one
    have hly : l.term ≤ termAt y.log y.log.length := by
      rw [← hterm, ← termAt_congr hsame (le_refl n)]
      exact (h.terms_of_complete hG hy).1 n _ hn hny (le_refl _)
    have hgrown : S.base.length < c.log.length := by
      by_contra hlen
      have hlast := h.lastTerm_eq_baseTerm hc hlen
      have hbase := h.baseTerm_lt_leader hG hsize hl hrole
      omega
    obtain ⟨q', l', hl', hrole', hterm', hpre'⟩ := h.ledBy hG.fixed hc _ hgrown (le_refl _)
    rw [List.take_length] at hpre'
    have hin := hlater hl' hrole' (by omega) hterm'
    rcases List.prefix_or_prefix_of_prefix hin hpre' with hcmp | hcmp
    · exact hcmp
    · -- a shorter log would end in an entry of an earlier term
      have hcn : c.log.length ≤ n := hlen ▸ hcmp.length_le
      have hend : termAt c.log c.log.length = termAt l.log c.log.length := by
        refine termAt_congr (n := c.log.length) ?_ (le_refl _)
        rw [List.take_length]
        exact List.prefix_iff_eq_take.mp (hcmp.trans (List.take_prefix n l.log))
      have hsorted := (h.terms_of_complete hG hl).1 _ n hgrown hcn hnl
      omega
  · -- both logs are beginnings of the log of the leader of their last term
    have hy_grown : S.base.length < y.log.length := hn.trans_le hny
    obtain ⟨q₁, l₁, hl₁, hrole₁, hterm₁, hpre₁⟩ := h.ledBy hG.fixed hy _ hy_grown (le_refl _)
    obtain ⟨q₂, l₂, hl₂, hrole₂, hterm₂, hpre₂⟩ :=
      h.ledBy hG.fixed hc _ (hy_grown.trans_le hle) (le_refl _)
    rw [List.take_length] at hpre₁ hpre₂
    refine hpre.trans ?_
    rcases h.leader_comparable hG.fixed hl₁ hl₂ hrole₁ hrole₂ (by omega) with hcmp | hcmp
    · exact List.prefix_of_prefix_length_le (hpre₁.trans hcmp) hpre₂ hle
    · exact List.prefix_of_prefix_length_le hpre₁ (hpre₂.trans hcmp) hle

theorem leader_complete (h : Reachable S G ∅ w) (hG : G.Complete S) {l : View Hash}
    (hl : w.Commits S G q l n) (hn : S.base.length < n) {u : View Hash} (hu : u ∈ w.past p)
    (hrole : u.role = .leader) (hterm : l.term < u.term) : l.log.take n <+: u.log := by
  induction ht : u.term using Nat.strong_induction_on generalizing p u with
  | _ t ih =>
    obtain ⟨hlpast, hlrole, hnl, hrule, Q, hQ, hcard, hback⟩ := hl
    obtain ⟨L, ⟨hcand, -, Q', hQ', hcard', hvoted⟩, hL, -⟩ := h.elected hu hrole
    obtain ⟨c, hc, hcrole, hcterm, rfl⟩ := hcand
    -- a voter that has promised the entries
    have hvoters : ∀ {x v}, v ∈ w.past x → S.voters v.log = S.membership.votingReplicas.keySet := by
      intro x v hv
      rw [Setting.voters, h.conf_eq hG.fixed hv]
    rw [hvoters hlpast] at hQ
    rw [hvoters hc] at hQ'
    rw [Setting.quorum, hvoters hlpast, Lib.OrdMap.card_keySet] at hcard
    rw [Setting.quorum, hvoters hc, Lib.OrdMap.card_keySet] at hcard'
    have hvoter := (h.votes hc hcrole).1
    rw [hvoters hc] at hvoter
    have hpos : 0 < S.membership.votingReplicas.size := by
      rw [← Lib.OrdMap.card_keySet]
      exact Finset.card_pos.mpr ⟨p, hvoter⟩
    obtain ⟨x, hx, hx', -⟩ := Setting.meets_empty hpos Q Q' hQ hQ' hcard hcard'
    refine List.IsPrefix.trans ?_ hL
    by_cases hxp : x = p
    · subst hxp
      exact h.backed_kept (hback x hx) hc (by rw [hcterm]; exact hterm)
    · have hsize : 1 < S.membership.votingReplicas.size := by
        rw [← Lib.OrdMap.card_keySet]
        exact Finset.one_lt_card.mpr ⟨x, hQ hx, p, hvoter, hxp⟩
      obtain ⟨y, hy, hyterm, -, hlog⟩ := hvoted x hx'
      obtain ⟨L', hL', hup⟩ := hlog.resolve_left hxp
      obtain rfl := h.candidate_unique hL' ⟨c, hc, hcrole, hcterm, rfl⟩
      have hpre := h.backed_kept (hback x hx) hy (by rw [hyterm]; exact hterm)
      apply h.prefix_of_upToDate hG hsize hlpast hlrole hn hnl (hG.own_term _ _ hrule) hy hc hpre hup
      intro q' l' hl' hrole' hlt hlast
      refine ih l'.term ?_ hl' hrole' hlt rfl
      -- the last entry of a candidate is of an earlier term
      obtain ⟨hpos, hbelow⟩ := (h.terms_of_complete hG hc).2.2 hcrole
      by_cases hgrown : S.base.length < c.log.length
      · have := hbelow _ hgrown (le_refl _)
        omega
      · have hbase := h.baseTerm_lt_candidate hG hsize hc hcrole
        rw [h.lastTerm_eq_baseTerm hc hgrown] at hlast
        omega

theorem committed_in_leader (h : Reachable S G ∅ w) (hG : G.Complete S) {v u : View Hash}
    (hv : v ∈ w.past q) (hu : u ∈ w.past p) (hrole : u.role = .leader) (hterm : v.term < u.term) :
    v.log.take v.commit <+: u.log := by
  have hok := h.view_ok hv
  by_cases hgrown : S.base.length < v.commit
  · rcases h.committed (fun _ hw => hw.trusted_of_fixed hG.fixed) hv with hle | ⟨q', l, n, hl, hpre, hlt⟩
    · exact absurd hle (not_le.mpr hgrown)
    · have hlen := hpre.length_le
      have h1 := hok.commit_le
      have h2 := hok.promise_le
      rw [List.length_take, List.length_take] at hlen
      refine hpre.trans (h.leader_complete hG hl (by omega) hu hrole ?_)
      exact (hlt hG.no_join).trans_lt hterm
  · -- nothing but the initial log is committed
    refine List.IsPrefix.trans ?_ (h.view_ok hu).base_start
    refine List.prefix_of_prefix_length_le (List.take_prefix _ _) hok.base_start ?_
    rw [List.length_take]
    omega

end World.Reachable

end SVR2
