import SVR2.Raft.World

/-!
# Where views and messages come from

Every message was sent from a view of its sender that justifies it, every vote that a candidate
counts was cast, and every leader was a candidate with enough votes before.
-/

namespace SVR2

open Relation

variable {Hash : Type} [Platform Hash]
variable {S : Setting Hash} {G : Rules Hash} {R : Set PeerId}
variable {w w' : World Hash} {p q : PeerId} {v : View Hash}

/-! ### The indexes of a view -/

/-- The initial log is a committed part of the log, and indexes are in order. -/
structure View.Ok (S : Setting Hash) (v : View Hash) : Prop where
  base_start : S.base <+: v.log
  base_le : S.base.length ≤ v.commit
  commit_le : v.commit ≤ v.promise
  promise_le : v.promise ≤ v.log.length

omit [Platform Hash] in
theorem View.ok_fresh {L : List (LogEntry Hash)} (h : S.base <+: L) : (View.fresh p L).Ok S :=
  ⟨h, h.length_le, le_refl _, le_refl _⟩

theorem Move.ok {I : PeerId → RaftMessage Hash → Prop} {v v' : View Hash}
    {out : List (SendableRaftMessage Hash)} (h : Move S G I v v' out) (hv : v.Ok S) : v'.Ok S := by
  have snoc : ∀ e, S.base <+: v.log ++ [e] ∧ v.promise ≤ (v.log ++ [e]).length := by
    intro e
    refine ⟨hv.base_start.trans (List.prefix_append _ _), hv.promise_le.trans ?_⟩
    simp
  cases h with
  | appendEntry e => exact ⟨(snoc e).1, hv.base_le, hv.commit_le, (snoc e).2⟩
  | appendMembership e => exact ⟨(snoc e).1, hv.base_le, hv.commit_le, (snoc e).2⟩
  | extend p m k e => exact ⟨(snoc e).1, hv.base_le, hv.commit_le, (snoc e).2⟩
  | advancePromise n Q hrole hlt hle =>
    exact ⟨hv.base_start, hv.base_le, hv.commit_le.trans hlt.le, hle⟩
  | advanceCommit n Q hrole hlt hle =>
    exact ⟨hv.base_start, hv.base_le.trans hlt.le, hle, hv.promise_le⟩
  | truncate p m k e e' hrole hin hagree he he' hterm hpromise =>
    have hlen : (v.log.take (m.prevLogIdx + k)).length = m.prevLogIdx + k := by
      rw [List.length_take, Nat.min_eq_left hagree.length_le]
    refine ⟨?_, hv.base_le, hv.commit_le, hpromise.trans hlen.ge⟩
    refine List.prefix_of_prefix_length_le hv.base_start (List.take_prefix _ _) ?_
    rw [hlen]
    exact hv.base_le.trans (hv.commit_le.trans hpromise)
  | learn p m k hrole hin hagree hle =>
    have hlen := hagree.length_le
    have h1 := hv.commit_le
    have h2 := hv.promise_le
    refine ⟨hv.base_start, hv.base_le.trans (le_max_left _ _), ?_, ?_⟩ <;> simp only <;> omega
  | _ => exact ⟨hv.base_start, hv.base_le, hv.commit_le, hv.promise_le⟩

namespace World.Reachable

theorem view_ok (h : Reachable S G R w) (hv : v ∈ w.past p) : v.Ok S := by
  refine past_induction (P := fun _ _ v => v.Ok S) ?_ ?_ ?_ ?_ h hv
  · intro _ _ _ _ _ hv
    exact hv
  · intro _ p
    exact View.ok_fresh (List.prefix_refl _)
  · intro _ p v v' _ _ hall hv hmove
    exact hmove.ok (hall p v hv)
  · intro _ p q v _ _ _ hv
    refine View.ok_fresh (List.prefix_of_prefix_length_le hv.base_start (List.take_prefix _ _) ?_)
    rw [List.length_take, Nat.min_eq_left (hv.commit_le.trans hv.promise_le)]
    exact hv.base_le

theorem me_eq (h : Reachable S G R w) (hv : v ∈ w.past p) : v.me = p := by
  refine past_induction (P := fun _ p v => v.me = p) ?_ ?_ ?_ ?_ h hv
  · intro _ _ _ _ _ hv
    exact hv
  · intro _ _
    rfl
  · intro _ p v v' _ _ hall hv hmove
    exact hmove.me_eq.trans (hall p v hv)
  · intro _ _ _ _ _ _ _ _
    rfl

end World.Reachable

/-! ### Messages -/

/-- A voter with the log `L` may vote for a candidate with the log `Lc`. -/
def UpToDate (L Lc : List (LogEntry Hash)) : Prop :=
  termAt L L.length < termAt Lc Lc.length ∨
    (termAt Lc Lc.length = termAt L L.length ∧ L.length ≤ Lc.length)

namespace World

def Candidate (w : World Hash) (p : PeerId) (t : Nat) (L : List (LogEntry Hash)) : Prop :=
  ∃ v ∈ w.past p, v.role = .candidate ∧ v.term = t ∧ v.log = L

def Voted (w : World Hash) (x : PeerId) (t : Nat) (p : PeerId) : Prop :=
  ∃ v ∈ w.past x, v.term = t ∧ v.votedFor = some p ∧
    (x = p ∨ ∃ L, w.Candidate p t L ∧ UpToDate v.log L)

/-- `m` is an append request of `p` as the leader of term `t`. -/
def Requested (w : World Hash) (p : PeerId) (t : Nat) (m : AppendRequest Hash) : Prop :=
  ∃ l ∈ w.past p, l.role = .leader ∧ l.term = t ∧
    ∃ prev n, prev ≤ l.log.length ∧ m = l.appendRequest prev n

/-- `m` is an acknowledgement by `x` of an append request that the leader `p` made in term `t`,
    the view of `x` being `v`. -/
structure Acknowledges (w : World Hash) (p : PeerId) (t : Nat) (m : AppendResponse Hash)
    (v : View Hash) (req : AppendRequest Hash) (k : Nat) : Prop where
  term : v.term = t
  requested : w.Requested p t req
  agree : Agrees v.log req k
  matchIdx : m.matchIdx = req.prevLogIdx + k
  hash : m.matchHashChain = none ∨ m.matchHashChain = hashAt v.log m.matchIdx
  promiseIdx : m.promiseIdx = min v.promise m.matchIdx

/-- What a message says about the view that it was sent from. -/
def Sent (w : World Hash) (src : PeerId) (msg : SendableRaftMessage Hash) : Prop :=
  match msg.message.inner with
  | .voteRequest m => ∃ L, w.Candidate src msg.message.term L ∧
      m.lastLogIdx = L.length ∧ m.lastLogTerm = termAt L L.length
  | .voteResponse m => m.voteGranted = true →
      ∃ p, msg.dst = some p ∧ w.Voted src msg.message.term p
  | .appendRequest m => w.Requested src msg.message.term m
  | .appendResponse m => m.success = true → ∃ p, msg.dst = some p ∧
      ∃ v ∈ w.past src, ∃ req k, w.Acknowledges p msg.message.term m v req k
  | _ => True

variable {x : PeerId} {t : Nat} {L : List (LogEntry Hash)}

omit [Platform Hash] in
theorem Candidate.mono (h : w.Before w') (hc : w.Candidate p t L) : w'.Candidate p t L := by
  obtain ⟨v, hv, hrest⟩ := hc
  exact ⟨v, h.past p hv, hrest⟩

omit [Platform Hash] in
theorem Voted.mono (h : w.Before w') (hx : w.Voted x t p) : w'.Voted x t p := by
  obtain ⟨v, hv, hterm, hvote, hlog⟩ := hx
  refine ⟨v, h.past x hv, hterm, hvote, hlog.imp_right ?_⟩
  rintro ⟨L, hL, hup⟩
  exact ⟨L, hL.mono h, hup⟩

omit [Platform Hash] in
theorem Requested.mono {m : AppendRequest Hash} (h : w.Before w') (hm : w.Requested p t m) :
    w'.Requested p t m := by
  obtain ⟨l, hl, hrest⟩ := hm
  exact ⟨l, h.past p hl, hrest⟩

omit [Platform Hash] in
theorem Acknowledges.mono {m : AppendResponse Hash} {req : AppendRequest Hash} {k : Nat}
    (h : w.Before w') (hm : w.Acknowledges p t m v req k) : w'.Acknowledges p t m v req k :=
  { hm with requested := hm.requested.mono h }

omit [Platform Hash] in
theorem Sent.mono {msg : SendableRaftMessage Hash} (h : w.Before w') (hm : w.Sent p msg) :
    w'.Sent p msg := by
  rw [Sent] at hm ⊢
  cases hi : msg.message.inner with
  | voteRequest m =>
    rw [hi] at hm
    obtain ⟨L, hL, hrest⟩ := hm
    exact ⟨L, hL.mono h, hrest⟩
  | voteResponse m =>
    rw [hi] at hm
    intro hgrant
    obtain ⟨p, hdst, hvoted⟩ := hm hgrant
    exact ⟨p, hdst, hvoted.mono h⟩
  | appendRequest m =>
    rw [hi] at hm
    exact Requested.mono h hm
  | appendResponse m =>
    rw [hi] at hm
    intro hsuccess
    obtain ⟨p, hdst, v, hv, req, k, hack⟩ := hm hsuccess
    exact ⟨p, hdst, v, h.past _ hv, req, k, hack.mono h⟩
  | timeoutNow b => trivial
  | notSet => trivial

/-- No message is made up. -/
theorem Reachable.sent (h : Reachable S G R w) {msg : SendableRaftMessage Hash}
    (hmsg : (p, msg) ∈ w.net) : w.Sent p msg := by
  refine net_induction (P := fun w p msg => w.Sent p msg) (fun _ _ _ _ => Sent.mono) ?_ h hmsg
  intro w p v v' out msg hw hall hv hmove hmem
  have hv' : v' ∈ (w.moved p v' out).past p := mem_moved_past_self
  have hafter : w.Before (w.moved p v' out) := before_moved
  cases hmove with
  | requestVote dst hrole =>
    obtain rfl := List.mem_singleton.mp hmem
    exact ⟨v.log, ⟨v, hv', hrole, rfl, rfl⟩, rfl, rfl⟩
  | grantVote q m hin hlog hvote =>
    obtain rfl := List.mem_singleton.mp hmem
    obtain ⟨dst, hnet, -⟩ := hin
    obtain ⟨L, hL, hidx, hterm⟩ := hall q _ hnet
    intro _
    refine ⟨q, rfl, _, hv', rfl, rfl, Or.inr ⟨L, hL.mono hafter, ?_⟩⟩
    rw [hidx, hterm] at hlog
    exact hlog
  | replicate dst prev n hrole hprev =>
    obtain rfl := List.mem_singleton.mp hmem
    exact ⟨v, hv', hrole, rfl, prev, n, hprev, rfl⟩
  | acknowledge q m k r hrole hin hagree hmatch hhash hpromise =>
    obtain rfl := List.mem_singleton.mp hmem
    obtain ⟨dst, hnet, -⟩ := hin
    have hrequested := Requested.mono hafter (hall q _ hnet)
    intro _
    refine ⟨q, rfl, v, hv', m, k, rfl, hrequested, hagree, hmatch, ?_, ?_⟩
    · rw [hmatch]
      exact hhash
    · rw [hmatch]
      exact hpromise
  | other dst inner hinner =>
    obtain rfl := List.mem_singleton.mp hmem
    cases inner with
    | voteResponse m =>
      intro hgrant
      rw [show m.voteGranted = false from hinner] at hgrant
      cases hgrant
    | appendResponse m =>
      intro hsuccess
      rw [show m.success = false from hinner] at hsuccess
      cases hsuccess
    | timeoutNow b => trivial
    | _ => exact absurd hinner (by simp [MessageInner.Harmless])
  | _ => cases hmem

namespace Reachable

variable {g : Nat}

theorem requested (h : Reachable S G R w) {m : AppendRequest Hash}
    (hin : w.inbox p q ⟨g, t, .appendRequest m⟩) : w.Requested q t m := by
  obtain ⟨dst, hnet, -⟩ := hin
  exact h.sent hnet

theorem voted (h : Reachable S G R w) (hin : w.inbox p x ⟨g, t, .voteResponse ⟨true⟩⟩) :
    w.Voted x t p := by
  obtain ⟨dst, hnet, hdst⟩ := hin
  obtain ⟨q, hq, hvoted⟩ := h.sent hnet rfl
  simp only at hq
  rw [hq] at hdst
  simp only [reduceCtorEq, Option.some.injEq, false_or] at hdst
  exact hdst ▸ hvoted

theorem acknowledged (h : Reachable S G R w) {m : AppendResponse Hash}
    (hin : w.inbox p x ⟨g, t, .appendResponse m⟩) (hsuccess : m.success = true) :
    ∃ v ∈ w.past x, ∃ req k, w.Acknowledges p t m v req k := by
  obtain ⟨dst, hnet, hdst⟩ := hin
  obtain ⟨q, hq, hack⟩ := h.sent hnet hsuccess
  simp only at hq
  rw [hq] at hdst
  simp only [reduceCtorEq, Option.some.injEq, false_or] at hdst
  exact hdst ▸ hack

end Reachable

/-! ### Elections -/

/-- `p` was elected in term `t` with the log `L`: it is a voter, and a quorum of the voters has
    voted for it. -/
def Elected (S : Setting Hash) (w : World Hash) (p : PeerId) (t : Nat)
    (L : List (LogEntry Hash)) : Prop :=
  w.Candidate p t L ∧ p ∈ S.voters L ∧
    ∃ Q ⊆ S.voters L, S.quorum L ≤ Q.card ∧ ∀ x ∈ Q, w.Voted x t p

omit [Platform Hash] in
theorem Elected.mono (h : w.Before w') (he : w.Elected S p t L) : w'.Elected S p t L := by
  obtain ⟨hc, hvoter, Q, hQ, hcard, hvoted⟩ := he
  exact ⟨hc.mono h, hvoter, Q, hQ, hcard, fun x hx => (hvoted x hx).mono h⟩

namespace Reachable

theorem votes (h : Reachable S G R w) (hv : v ∈ w.past p) (hrole : v.role = .candidate) :
    p ∈ S.voters v.log ∧ ∀ x ∈ v.votes, x ∈ S.voters v.log ∧ w.Voted x v.term p := by
  refine past_induction (P := fun w p v => v.role = .candidate → p ∈ S.voters v.log ∧
    ∀ x ∈ v.votes, x ∈ S.voters v.log ∧ w.Voted x v.term p) ?_ ?_ ?_ ?_ h hv hrole
  · intro w w' p v hafter hv hrole
    obtain ⟨hvoter, hvotes⟩ := hv hrole
    exact ⟨hvoter, fun x hx => ⟨(hvotes x hx).1, (hvotes x hx).2.mono hafter⟩⟩
  · intro w p hrole
    cases hrole
  · intro w p v v' out hw hall hv hmove hrole
    have hafter : w.Before (w.moved p v' out) := before_moved
    have hv' : v' ∈ (w.moved p v' out).past p := mem_moved_past_self
    have hold : v.role = .candidate → p ∈ S.voters v.log ∧ ∀ x ∈ v.votes,
        x ∈ S.voters v.log ∧ (w.moved p v' out).Voted x v.term p := by
      intro hr
      obtain ⟨hvoter, hvotes⟩ := hall p v hv hr
      exact ⟨hvoter, fun x hx => ⟨(hvotes x hx).1, (hvotes x hx).2.mono hafter⟩⟩
    cases hmove with
    | campaign hne hvoter =>
      have hme := hw.me_eq hv
      refine ⟨hme ▸ hvoter, ?_⟩
      intro x hx
      obtain rfl := Finset.mem_singleton.mp hx
      refine ⟨hvoter, _, hme ▸ hv', rfl, ?_, Or.inl hme⟩
      exact congrArg some hme
    | countVote y hcand hin hvoter =>
      refine ⟨(hold hcand).1, ?_⟩
      intro x hx
      rcases Finset.mem_insert.mp hx with rfl | hx
      · exact ⟨hvoter, (hw.voted hin).mono hafter⟩
      · exact (hold hcand).2 x hx
    | becomeLeader => cases hrole
    | stepDown => cases hrole
    | newTerm => cases hrole
    | appendEntry e hleader =>
      rw [show v.role = _ from hrole] at hleader
      cases hleader
    | appendMembership e m hleader =>
      rw [show v.role = _ from hrole] at hleader
      cases hleader
    | truncate q m k e e' hfollower =>
      rw [show v.role = _ from hrole] at hfollower
      cases hfollower
    | extend q m k e hfollower =>
      rw [show v.role = _ from hrole] at hfollower
      cases hfollower
    | _ => exact hold hrole
  · intro w p q v _ hw hv _ hrole
    cases hrole

/-- A leader was elected, and has since only appended entries of its term to its log. -/
theorem elected (h : Reachable S G R w) (hv : v ∈ w.past p) (hrole : v.role = .leader) :
    ∃ L, w.Elected S p v.term L ∧ L <+: v.log ∧ ∀ e ∈ v.log.drop L.length, e.term = v.term := by
  refine past_induction (P := fun w p v => v.role = .leader → ∃ L, w.Elected S p v.term L ∧
    L <+: v.log ∧ ∀ e ∈ v.log.drop L.length, e.term = v.term) ?_ ?_ ?_ ?_ h hv hrole
  · intro w w' p v hafter hv hrole
    obtain ⟨L, hL, hrest⟩ := hv hrole
    exact ⟨L, hL.mono hafter, hrest⟩
  · intro w p hrole
    cases hrole
  · intro w p v v' out hw hall hv hmove hrole
    have hafter : w.Before (w.moved p v' out) := before_moved
    -- a leader that appends an entry of its term
    have append : v.role = .leader → ∀ e : LogEntry Hash, e.term = v.term →
        ∃ L, (w.moved p v' out).Elected S p v.term L ∧ L <+: v.log ++ [e] ∧
          ∀ x ∈ (v.log ++ [e]).drop L.length, x.term = v.term := by
      intro hr e he
      obtain ⟨L, hL, hpre, hterms⟩ := hall p v hv hr
      refine ⟨L, hL.mono hafter, hpre.trans (List.prefix_append _ _), ?_⟩
      intro x hx
      rw [List.drop_append_of_le_length hpre.length_le, List.mem_append, List.mem_singleton] at hx
      rcases hx with hx | rfl
      · exact hterms x hx
      · exact he
    cases hmove with
    | becomeLeader hcand hvotes =>
      obtain ⟨hvoter, hvotes'⟩ := hw.votes hv hcand
      refine ⟨v.log, ⟨⟨v, hafter.past p hv, hcand, rfl, rfl⟩, hvoter, v.votes, ?_, hvotes, ?_⟩,
        List.prefix_refl _, ?_⟩
      · intro x hx
        exact (hvotes' x hx).1
      · intro x hx
        exact (hvotes' x hx).2.mono hafter
      · intro x hx
        rw [View.lead, List.drop_length] at hx
        cases hx
    | appendEntry e hleader hterm => exact append hleader e hterm
    | appendMembership e m hleader hterm => exact append hleader e hterm
    | campaign => cases hrole
    | stepDown => cases hrole
    | newTerm => cases hrole
    | truncate q m k e e' hfollower =>
      rw [show v.role = _ from hrole] at hfollower
      cases hfollower
    | extend q m k e hfollower =>
      rw [show v.role = _ from hrole] at hfollower
      cases hfollower
    | _ =>
      obtain ⟨L, hL, hrest⟩ := hall p v hv hrole
      exact ⟨L, hL.mono hafter, hrest⟩
  · intro w p q v _ hw hv _ hrole
    cases hrole

/-- A replica that is never rolled back votes once in a term. -/
theorem voted_unique (h : Reachable S G R w) (hx : x ∉ R) (hp : w.Voted x t p)
    (hq : w.Voted x t q) : p = q := by
  obtain ⟨u, hu, hut, hup, -⟩ := hp
  obtain ⟨v, hv, hvt, hvq, -⟩ := hq
  rcases h.past_total hx hu hv with hlead | hlead
  · have := hlead.vote (hvt.trans hut.symm) hup
    rw [hvq] at this
    exact (Option.some.inj this).symm
  · have := hlead.vote (hut.trans hvt.symm) hvq
    rw [hup] at this
    exact Option.some.inj this

end Reachable

end World

end SVR2
