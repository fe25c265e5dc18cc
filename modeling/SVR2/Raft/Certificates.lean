import SVR2.Raft.Elections

/-!
# What stands behind a commit index

A committed prefix was promised, at some time, by a quorum of the voters of the leader who
committed it.  That rests on two things about messages: a log that agrees with an append request
agrees with the leader's log, and an acknowledgement that a leader accepts is about its own log.
Both are proved elsewhere, from hash chains or from terms; here they are assumed.
-/

namespace SVR2

variable {Hash : Type} [Platform Hash]
variable {S : Setting Hash} {G : Rules Hash} {R : Set PeerId}
variable {w w' : World Hash} {p q x : PeerId} {v : View Hash} {t n : Nat}
variable {P : List (LogEntry Hash)}

namespace World

/-- What agrees with an append request agrees with the leader's log. -/
def Agreeing (w : World Hash) : Prop :=
  ∀ {x v q l prev n k}, v ∈ w.past x → l ∈ w.past q → l.role = .leader → prev ≤ l.log.length →
    Agrees v.log (l.appendRequest prev n) k → v.log.take (prev + k) = l.log.take (prev + k)

/-- Messages can be relied on: append requests, and what a leader accepts as an acknowledgement is
    about its log. -/
structure Trusted (w : World Hash) : Prop where
  agree : w.Agreeing
  ack : ∀ {p v x u m req k}, v ∈ w.past p → v.role = .leader → u ∈ w.past x →
    w.Acknowledges p v.term m u req k →
    m.matchIdx = 0 ∨ (m.matchIdx ≤ v.log.length ∧ hashAt v.log m.matchIdx = m.matchHashChain) →
    u.log.take m.matchIdx = v.log.take m.matchIdx

/-- `x` has promised the entries `P` in term `t`. -/
def Backed (w : World Hash) (x : PeerId) (t : Nat) (P : List (LogEntry Hash)) : Prop :=
  ∃ u ∈ w.past x, u.term = t ∧ P <+: u.log.take u.promise

/-- The leader `l` may commit its log up to the index `n`: a quorum has promised that part. -/
def Commits (S : Setting Hash) (G : Rules Hash) (w : World Hash) (p : PeerId) (l : View Hash)
    (n : Nat) : Prop :=
  l ∈ w.past p ∧ l.role = .leader ∧ n ≤ l.log.length ∧ G.mayCommit l n ∧
    ∃ Q ⊆ S.voters l.log, S.quorum l.log ≤ Q.card ∧ ∀ x ∈ Q, w.Backed x l.term (l.log.take n)

omit [Platform Hash] in
theorem Backed.mono (h : w.Before w') (hx : w.Backed x t P) : w'.Backed x t P := by
  obtain ⟨u, hu, hrest⟩ := hx
  exact ⟨u, h.past x hu, hrest⟩

omit [Platform Hash] in
theorem Commits.mono (h : w.Before w') (hl : w.Commits S G p v n) : w'.Commits S G p v n := by
  obtain ⟨hv, hrole, hn, hrule, Q, hQ, hcard, hback⟩ := hl
  exact ⟨h.past p hv, hrole, hn, hrule, Q, hQ, hcard, fun x hx => (hback x hx).mono h⟩

namespace Reachable

/-- What a leader has counted as promised by a follower, the follower has promised. -/
theorem acks (htrust : ∀ w, Reachable S G R w → w.Trusted) (h : Reachable S G R w)
    (hv : v ∈ w.past p) (hrole : v.role = .leader) {a : Nat × Nat} (ha : v.acks x = some a)
    (hn : S.base.length < n) (hna : n ≤ a.2) :
    n ≤ v.log.length ∧ w.Backed x v.term (v.log.take n) := by
  refine past_induction (P := fun w p v => v.role = .leader → ∀ x a n, v.acks x = some a →
    S.base.length < n → n ≤ a.2 → n ≤ v.log.length ∧ w.Backed x v.term (v.log.take n))
    ?_ ?_ ?_ ?_ h hv hrole x a n ha hn hna
  · intro w w' p v hafter hv hrole x a n ha hn hna
    obtain ⟨hle, hback⟩ := hv hrole x a n ha hn hna
    exact ⟨hle, hback.mono hafter⟩
  · intro w p hrole
    cases hrole
  · intro w p v v' out hw hall hv hmove hrole
    have hafter : w.Before (w.moved p v' out) := before_moved
    have hold : v.role = .leader → ∀ x a n, v.acks x = some a → S.base.length < n → n ≤ a.2 →
        n ≤ v.log.length ∧ (w.moved p v' out).Backed x v.term (v.log.take n) := by
      intro hr x a n ha hn hna
      obtain ⟨hle, hback⟩ := hall p v hv hr x a n ha hn hna
      exact ⟨hle, hback.mono hafter⟩
    -- an appended entry is beyond everything acknowledged
    have append : v.role = .leader → ∀ (e : LogEntry Hash) x a n, v.acks x = some a →
        S.base.length < n → n ≤ a.2 → n ≤ (v.log ++ [e]).length ∧
          (w.moved p v' out).Backed x v.term ((v.log ++ [e]).take n) := by
      intro hr e x a n ha hn hna
      obtain ⟨hle, hback⟩ := hold hr x a n ha hn hna
      rw [List.take_append_of_le_length hle]
      refine ⟨hle.trans ?_, hback⟩
      simp
    cases hmove with
    | campaign => cases hrole
    | newTerm => cases hrole
    | stepDown => cases hrole
    | becomeLeader =>
      intro x a n ha hn hna
      simp only [View.lead] at ha
      split_ifs at ha
      cases ha
      exact absurd hna (by simp only; omega)
    | appendEntry e hleader => exact append hleader e
    | appendMembership e m hleader =>
      intro x a n ha hn hna
      simp only [View.acksUnder] at ha
      split_ifs at ha
      · exact append hleader e x a n ha hn hna
      · cases hax : v.acks x with
        | none =>
          rw [hax] at ha
          cases ha
          exact absurd hna (by simp only [Option.getD_none]; omega)
        | some b =>
          rw [hax] at ha
          cases ha
          exact append hleader e x b n hax hn hna
    | countAck y m b hleader hin hsuccess hack hmatch =>
      intro x a n ha hn hna
      by_cases hxy : x = y
      · subst hxy
        simp only [View.count, Function.update_self, Option.some.injEq] at ha
        subst ha
        rcases le_max_iff.mp hna with hna | hna
        · exact hold hleader x b n hack hn hna
        · -- the promise that the response tells of
          obtain ⟨u, hu, req, k, hresponse⟩ := hw.acknowledged hin hsuccess
          have hsame := (htrust w hw).ack hv hleader hu hresponse hmatch
          have hpromise := hresponse.promiseIdx
          have hle : n ≤ m.matchIdx := by omega
          refine ⟨?_, u, hafter.past x hu, hresponse.term, ?_⟩
          · show n ≤ v.log.length
            rcases hmatch with h0 | ⟨hm, -⟩
            · omega
            · omega
          · have hlog : u.log.take n = v.log.take n := take_congr hsame hle
            show v.log.take n <+: _
            rw [← hlog]
            exact List.take_prefix_take_left (by omega)
      · simp only [View.count, Function.update_of_ne hxy] at ha
        exact hold hleader x a n ha hn hna
    | truncate q m k e e' hfollower =>
      rw [show v.role = _ from hrole] at hfollower
      cases hfollower
    | extend q m k e hfollower =>
      rw [show v.role = _ from hrole] at hfollower
      cases hfollower
    | _ => exact hold hrole
  · intro w p q v _ hw hv _ hrole
    cases hrole

theorem commits_of_quorum (htrust : ∀ w, Reachable S G R w → w.Trusted) (h : Reachable S G R w)
    (hv : v ∈ w.past p) (hrole : v.role = .leader) (hlt : v.commit < n) (hle : n ≤ v.promise)
    (hrule : G.mayCommit v n) {Q : Finset PeerId} (hQ : Q ⊆ S.voters v.log)
    (hcard : S.quorum v.log ≤ Q.card)
    (hacks : ∀ x ∈ Q, x = v.me ∨ ∃ a, v.acks x = some a ∧ n ≤ a.2) : w.Commits S G p v n := by
  have hok := h.view_ok hv
  refine ⟨hv, hrole, hle.trans hok.promise_le, hrule, Q, hQ, hcard, ?_⟩
  intro x hx
  rcases hacks x hx with rfl | ⟨a, ha, hna⟩
  · rw [h.me_eq hv]
    exact ⟨v, hv, rfl, List.take_prefix_take_left hle⟩
  · exact (h.acks htrust hv hrole ha (hok.base_le.trans_lt hlt) hna).2

theorem committed (htrust : ∀ w, Reachable S G R w → w.Trusted) (h : Reachable S G R w)
    (hv : v ∈ w.past p) : v.commit ≤ S.base.length ∨ ∃ q l n, w.Commits S G q l n ∧
      v.log.take v.commit <+: l.log.take n ∧ (¬G.mayJoin → l.term ≤ v.term) := by
  refine past_induction (P := fun w _ v => v.commit ≤ S.base.length ∨ ∃ q l n,
    w.Commits S G q l n ∧ v.log.take v.commit <+: l.log.take n ∧ (¬G.mayJoin → l.term ≤ v.term))
    ?_ ?_ ?_ ?_ h hv
  · intro w w' p v hafter hv
    refine hv.imp_right ?_
    rintro ⟨q, l, n, hl, hrest⟩
    exact ⟨q, l, n, hl.mono hafter, hrest⟩
  · intro w p
    exact Or.inl (le_refl _)
  · intro w p v v' out hw hall hv hmove
    have hafter : w.Before (w.moved p v' out) := before_moved
    have hok := hw.view_ok hv
    have hcommit := hok.commit_le
    have hpromise := hok.promise_le
    have hterm := hmove.term_le
    -- the committed part of the log stays as it is
    have keep : v'.commit = v.commit → v'.log.take v.commit = v.log.take v.commit →
        v'.commit ≤ S.base.length ∨ ∃ q l n, (w.moved p v' out).Commits S G q l n ∧
          v'.log.take v'.commit <+: l.log.take n ∧ (¬G.mayJoin → l.term ≤ v'.term) := by
      intro hc hlog
      rw [hc, hlog]
      refine (hall p v hv).imp_right ?_
      rintro ⟨q, l, n, hl, hpre, hjoin⟩
      exact ⟨q, l, n, hl.mono hafter, hpre, fun hno => (hjoin hno).trans hterm⟩
    cases hmove with
    | appendEntry e => exact keep rfl (List.take_append_of_le_length (by omega))
    | appendMembership e => exact keep rfl (List.take_append_of_le_length (by omega))
    | extend q m k e => exact keep rfl (List.take_append_of_le_length (by omega))
    | truncate q m k e e' hrole hin hagree he he' hne hle =>
      refine keep rfl ?_
      rw [List.take_take, Nat.min_eq_left (hcommit.trans hle)]
    | advanceCommit n Q hrole hlt hle hrule hQ hcard hacks =>
      have hl := hw.commits_of_quorum htrust hv hrole hlt hle hrule hQ hcard hacks
      exact Or.inr ⟨p, v, n, hl.mono hafter, List.prefix_refl _, fun _ => le_refl _⟩
    | learn q m k hrole hin hagree hle =>
      obtain ⟨l, hl, hleader, hlterm, prev, n, hprev, rfl⟩ := hw.requested hin
      have hagree' : v.log.take (prev + k) = l.log.take (prev + k) :=
        (htrust w hw).agree hv hl hleader hprev hagree
      by_cases hold : min (l.appendRequest prev n).leaderCommit (prev + k) ≤ v.commit
      · exact keep (Nat.max_eq_left hold) rfl
      · -- a longer prefix, committed by the leader
        generalize hj : min (l.appendRequest prev n).leaderCommit (prev + k) = j at hold
        have hjl : j ≤ l.commit := by
          have : (l.appendRequest prev n).leaderCommit ≤ l.commit := Nat.min_le_left _ _
          omega
        have hlog : v.log.take j = l.log.take j := take_congr hagree' (by omega)
        have hmax : max v.commit (min (l.appendRequest prev n).leaderCommit
            ((l.appendRequest prev n).prevLogIdx + k)) = j := by
          show max v.commit (min (l.appendRequest prev n).leaderCommit (prev + k)) = j
          omega
        rcases hall q l hl with hbase | ⟨q', l', n', hl', hpre, hjoin⟩
        · refine Or.inl ?_
          show max _ _ ≤ _
          rw [hmax]
          omega
        · refine Or.inr ⟨q', l', n', hl'.mono hafter, ?_, fun hno => ?_⟩
          · show v.log.take (max _ _) <+: _
            rw [hmax, hlog]
            exact (List.take_prefix_take_left hjl).trans hpre
          · exact (hjoin hno).trans hlterm.le
    | _ => exact keep rfl rfl
  · intro w p q v hrule hw hv hq
    have hok := hw.view_ok hv
    have hlen : (v.log.take v.commit).length = v.commit := by
      rw [List.length_take, Nat.min_eq_left (hok.commit_le.trans hok.promise_le)]
    simp only [View.fresh]
    rw [List.take_length, hlen]
    refine hq.imp_right ?_
    rintro ⟨q', l, n, hl, hpre, -⟩
    exact ⟨q', l, n, hl, hpre, fun hno => absurd hrule hno⟩

theorem backed_comparable (h : Reachable S G R w) (hx : x ∉ R) {P P' : List (LogEntry Hash)}
    {t t' : Nat} (hP : w.Backed x t P) (hP' : w.Backed x t' P') : P <+: P' ∨ P' <+: P := by
  obtain ⟨u, hu, -, hpre⟩ := hP
  obtain ⟨u', hu', -, hpre'⟩ := hP'
  rcases h.past_total hx hu hu' with hlead | hlead
  · exact List.prefix_or_prefix_of_prefix (hpre.trans hlead.promised_mono.2) hpre'
  · exact List.prefix_or_prefix_of_prefix hpre (hpre'.trans hlead.promised_mono.2)

end Reachable

/-! ### Agreement -/

def Linear (S : Setting Hash) (G : Rules Hash) (w : World Hash) : Prop :=
  ∀ {p q l l' n n'}, w.Commits S G p l n → w.Commits S G q l' n' →
    l.log.take n <+: l'.log.take n' ∨ l'.log.take n' <+: l.log.take n

/-- Then the committed parts of any two logs agree. -/
theorem Reachable.entryAt_eq (htrust : ∀ w, Reachable S G R w → w.Trusted)
    (h : Reachable S G R w) (hlin : w.Linear S G) {v v' : View Hash} (hv : v ∈ w.past p)
    (hv' : v' ∈ w.past q) {i : Nat} (hi : i ≤ v.commit) (hi' : i ≤ v'.commit) :
    entryAt v.log i = entryAt v'.log i := by
  have hok := h.view_ok hv
  have hok' := h.view_ok hv'
  by_cases hbase : i ≤ S.base.length
  · -- an entry of the initial log
    have hb : ∀ {u : View Hash}, u.Ok S → entryAt u.log i = entryAt S.base i := by
      intro u hu
      refine entryAt_congr (n := S.base.length) ?_ hbase
      rw [List.take_length]
      exact (List.prefix_iff_eq_take.mp hu.base_start).symm
    rw [hb hok, hb hok']
  · rcases h.committed htrust hv with hle | ⟨p₁, l, n, hl, hpre, -⟩
    · omega
    rcases h.committed htrust hv' with hle | ⟨p₂, l', n', hl', hpre', -⟩
    · omega
    -- both committed parts are prefixes of the longer of the two
    have key : ∀ {C C' X X' : List (LogEntry Hash)}, C <+: X → C' <+: X' → X <+: X' →
        i ≤ C.length → i ≤ C'.length → entryAt C i = entryAt C' i := by
      intro C C' X X' hC hC' hX h1 h2
      have hC := (List.prefix_iff_eq_take.mp (hC.trans hX))
      have hC' := (List.prefix_iff_eq_take.mp hC')
      refine entryAt_congr (n := i) ?_ (le_refl i)
      rw [hC, hC', List.take_take, List.take_take, Nat.min_eq_left h1, Nat.min_eq_left h2]
    have hlen : i ≤ (v.log.take v.commit).length := by
      have := hok.commit_le
      have := hok.promise_le
      rw [List.length_take]
      omega
    have hlen' : i ≤ (v'.log.take v'.commit).length := by
      have := hok'.commit_le
      have := hok'.promise_le
      rw [List.length_take]
      omega
    have htake : ∀ {L : List (LogEntry Hash)} {c : Nat}, i ≤ c →
        entryAt L i = entryAt (L.take c) i := by
      intro L c hc
      refine entryAt_congr (n := c) ?_ hc
      rw [List.take_take, Nat.min_self]
    rw [htake (L := v.log) hi, htake (L := v'.log) hi']
    rcases hlin hl hl' with hX | hX
    · exact key hpre hpre' hX hlen hlen'
    · exact (key hpre' hpre hX hlen' hlen).symm

/-- Under a fixed membership commits lie on one line, whatever is rolled back in `R`. -/
theorem Reachable.linear_of_fixed (h : Reachable S G R w) (hG : G.Fixed) (hR : S.Meets R) :
    w.Linear S G := by
  intro p q l l' n n' hl hl'
  obtain ⟨hl, -, -, -, Q, hQ, hcard, hback⟩ := hl
  obtain ⟨hl', -, -, -, Q', hQ', hcard', hback'⟩ := hl'
  rw [Setting.voters, h.conf_eq hG hl] at hQ
  rw [Setting.voters, h.conf_eq hG hl'] at hQ'
  rw [Setting.quorum, Setting.voters, h.conf_eq hG hl, Lib.OrdMap.card_keySet] at hcard
  rw [Setting.quorum, Setting.voters, h.conf_eq hG hl', Lib.OrdMap.card_keySet] at hcard'
  obtain ⟨x, hx, hx', hxR⟩ := hR Q Q' hQ hQ' hcard hcard'
  exact h.backed_comparable hxR (hback x hx) (hback' x hx')

end World

end SVR2
