import SVR2.Lib.Quorum
import SVR2.Raft.Invariant

/-!
# The code follows the protocol

Every function of `raft.cc` keeps `Raft.Inv`, and what the protocol sees of it is a sequence
of moves that send the messages the function adds.
-/

namespace SVR2

open Lib Relation

variable {Hash : Type} [Platform Hash]

namespace Raft

variable {S : Setting Hash} {G : Rules Hash} {I : PeerId → RaftMessage Hash → Prop}
variable {r r₁ r₂ : Raft Hash}

/-- What a replica shows: its view and the messages it has to send. -/
def shown (r : Raft Hash) : View Hash × List (SendableRaftMessage Hash) :=
  (r.view, r.sendableMessages)

/-- One move, on views with the messages sent so far. -/
def Shows (S : Setting Hash) (G : Rules Hash) (I : PeerId → RaftMessage Hash → Prop)
    (a b : View Hash × List (SendableRaftMessage Hash)) : Prop :=
  ∃ out, Move S G I a.1 b.1 out ∧ b.2 = a.2 ++ out

/-- From `r` to `r'` the invariant is kept and the protocol is followed. -/
structure Follows (S : Setting Hash) (G : Rules Hash)
    (I : PeerId → RaftMessage Hash → Prop) (r r' : Raft Hash) : Prop where
  inv : r'.Inv S
  applied : r'.lastApplied = r.lastApplied
  moves : ReflTransGen (Shows S G I) r.shown r'.shown

namespace Follows

theorem refl (h : r.Inv S) : Follows S G I r r := ⟨h, rfl, ReflTransGen.refl⟩

theorem trans (h₁ : Follows S G I r r₁) (h₂ : Follows S G I r₁ r₂) :
    Follows S G I r r₂ :=
  ⟨h₂.inv, h₂.applied.trans h₁.applied, h₁.moves.trans h₂.moves⟩

theorem of_shown (h : r₁.Inv S) (happlied : r₁.lastApplied = r.lastApplied)
    (hshown : r₁.shown = r.shown) : Follows S G I r r₁ :=
  ⟨h, happlied, by rw [hshown]⟩

theorem of_move (h : r₁.Inv S) (happlied : r₁.lastApplied = r.lastApplied)
    {out : List (SendableRaftMessage Hash)} (hmove : Move S G I r.view r₁.view out)
    (hout : r₁.sendableMessages = r.sendableMessages ++ out) : Follows S G I r r₁ :=
  ⟨h, happlied, ReflTransGen.single ⟨out, hmove, hout⟩⟩

theorem of_silent (h : r₁.Inv S) (happlied : r₁.lastApplied = r.lastApplied)
    (hmove : Move S G I r.view r₁.view []) (hsend : r₁.sendableMessages = r.sendableMessages) :
    Follows S G I r r₁ :=
  of_move h happlied hmove (by rw [hsend, List.append_nil])

theorem view_me (h : Follows S G I r r₁) : r₁.me = r.me := by
  have key : ∀ a b, ReflTransGen (Shows S G I) a b → b.1.me = a.1.me := by
    intro a b hab
    induction hab with
    | refl => rfl
    | tail _ hbc ih =>
      obtain ⟨out, hmove, _⟩ := hbc
      exact hmove.me_eq.trans ih
  exact key _ _ h.moves

end Follows

/-! ### Checks and messages -/

omit [Platform Hash] in
theorem check_eq {c : Bool} (h : c = true) : r.check c = r := by
  simp [check, h]

theorem addSendableMessage_follows (h : r.Inv S) {msg : SendableRaftMessage Hash}
    (hdst : msg.dst ≠ some r.me) (hmove : Move S G I r.view r.view [msg]) :
    Follows S G I r (r.addSendableMessage msg) := by
  have hadd : Follows S G I r
      { r with sendableMessages := r.sendableMessages ++ [msg] } := by
    refine Follows.of_move { h with sendable := ?_ } rfl hmove rfl
    intro m hm
    rcases List.mem_append.mp hm with hm | hm
    · exact h.sendable m hm
    · rw [List.mem_singleton.mp hm]; exact hdst
  rw [addSendableMessage]
  split
  · rename_i dst hd
    have hne : dst ≠ r.me := fun he => hdst (by rw [hd, he])
    rw [check_eq (by simpa using hne)]
    exact hadd
  · split_ifs
    · exact Follows.refl h
    · exact hadd

theorem reply_follows (h : r.Inv S) {dst : PeerId} {inner : MessageInner Hash}
    (hdst : dst ≠ r.me)
    (hmove : Move S G I r.view r.view [r.view.send S (some dst) inner]) :
    Follows S G I r (r.reply dst inner) := by
  refine addSendableMessage_follows h (by simpa using hdst) ?_
  rw [h.group]
  exact hmove

omit [Platform Hash] in
theorem reply_eq {dst : PeerId} (hdst : dst ≠ r.me) (inner : MessageInner Hash) :
    r.reply dst inner = { r with sendableMessages :=
      r.sendableMessages ++ [⟨some dst, ⟨r.group, r.currentTerm, inner⟩⟩] } := by
  simp only [reply, addSendableMessage]
  rw [check_eq (by simpa using hdst)]

/-! ### Followers of a leader -/

omit [Platform Hash] in
theorem setFollowers_view {fs : OrdMap PeerId ReplicationState}
    (hfs : ∀ p, (fs.find? p).map ReplicationState.ack =
      (r.leader.followers.find? p).map ReplicationState.ack) :
    (r.setFollowers fs).view = r.view :=
  View.ext rfl rfl rfl rfl rfl (funext hfs) rfl rfl rfl

/-- New states for the same followers, with the same acknowledgements. -/
theorem setFollowers_follows (h : r.Inv S) {fs : OrdMap PeerId ReplicationState}
    (hfs : ∀ p, (fs.find? p).map ReplicationState.ack =
      (r.leader.followers.find? p).map ReplicationState.ack) :
    Follows S G I r (r.setFollowers fs) := by
  refine Follows.of_shown { h with followers := ?_, acked := ?_ } rfl
    (by rw [shown, setFollowers_view hfs]; rfl)
  · intro hrole p
    have hp := hfs p
    refine Iff.trans ?_ (h.followers hrole p)
    simp only [setFollowers, OrdMap.mem_iff]
    cases hf : fs.find? p <;> cases hr : r.leader.followers.find? p <;> simp_all
  · intro hrole p s hs
    have hp := hfs p
    rw [show fs.find? p = some s from hs, Option.map_some, eq_comm, Option.map_eq_some_iff] at hp
    obtain ⟨s', hs', heq⟩ := hp
    have hle := h.acked hrole p s' hs'
    simp only [ReplicationState.ack, Prod.mk.injEq] at heq
    rw [← heq.1, ← heq.2]
    exact hle

/-- `modifyFollower` by a function that leaves acknowledgements alone sets such states. -/
theorem find?_insert_ack {fs : OrdMap PeerId ReplicationState} {peer : PeerId}
    {f : ReplicationState → ReplicationState} (hf : ∀ s, (f s).ack = s.ack) {s : ReplicationState}
    (hs : fs.find? peer = some s) (p : PeerId) :
    ((fs.insert peer (f s)).find? p).map ReplicationState.ack =
      (fs.find? p).map ReplicationState.ack := by
  rw [OrdMap.find?_insert]
  split_ifs with hp
  · subst hp; simp [hs, hf s]
  · rfl

omit [Platform Hash] in
theorem modifyFollower_view {peer : PeerId} {f : ReplicationState → ReplicationState}
    (hf : ∀ s, (f s).ack = s.ack) : (r.modifyFollower peer f).view = r.view := by
  rw [modifyFollower]
  split
  · rename_i s hs
    exact setFollowers_view (find?_insert_ack hf hs)
  · rfl

/-- A change to one follower's state that leaves its acknowledgement alone. -/
theorem modifyFollower_follows (h : r.Inv S) (peer : PeerId)
    {f : ReplicationState → ReplicationState} (hf : ∀ s, (f s).ack = s.ack) :
    Follows S G I r (r.modifyFollower peer f) := by
  rw [modifyFollower]
  split
  · rename_i s hs
    exact setFollowers_follows h (find?_insert_ack hf hs)
  · exact Follows.refl h

/-- A change to all followers' states that leaves their acknowledgements alone. -/
theorem modifyFollowers_follows (h : r.Inv S) {f : ReplicationState → ReplicationState}
    (hf : ∀ s, (f s).ack = s.ack) :
    Follows S G I r (r.modifyFollowers f) := by
  apply setFollowers_follows h
  intro p
  rw [OrdMap.find?_mapVal]
  cases r.leader.followers.find? p with
  | none => rfl
  | some s => simp [hf s]

omit [Platform Hash] in
theorem find?_followersUnder (p : PeerId) :
    r.followersUnder.find? p =
      if p ∈ r.membership.allReplicas then
        (if p = r.me then r.leader.followers.find? p
          else some ((r.leader.followers.find? p).getD r.addedFollower))
      else none := by
  simp only [followersUnder, OrdMap.find?_filterKeys, OrdMap.find?_foldl_insert_new,
    OrdMap.mem_keys]
  by_cases hp : p ∈ r.membership.allReplicas
  · by_cases hme : p = r.me
    · subst hme; simp [hp]
    · cases hf : r.leader.followers.find? p <;> simp [hp, hme, OrdMap.mem_iff, hf]
  · simp [hp]

omit [Platform Hash] in
theorem handleMembershipChange_eq_self (hfollowers : r.role = .leader →
    ∀ p, p ∈ r.leader.followers ↔ p ∈ r.membership.allReplicas ∧ p ≠ r.me) :
    r.handleMembershipChange = r := by
  rw [handleMembershipChange]
  split_ifs with hrole
  · have hsame : r.followersUnder = r.leader.followers := by
      apply OrdMap.ext_find?
      intro p
      have hmem := hfollowers hrole p
      rw [find?_followersUnder]
      cases hf : r.leader.followers.find? p with
      | none =>
        rw [← not_iff_not, OrdMap.not_mem_iff, hf] at hmem
        have hp : p ∈ r.membership.allReplicas → p = r.me := by simpa using hmem
        by_cases hall : p ∈ r.membership.allReplicas
        · simp [hp hall]
        · simp [hall]
      | some s =>
        rw [OrdMap.mem_iff, hf] at hmem
        have hp := hmem.mp ⟨s, rfl⟩
        simp [hp]
    rw [hsame]
    rfl
  · rfl

/-! ### Memberships -/

omit [Platform Hash] in
/-- `MaybeChangeUncommittedMembershipsBasedOnLog` after the commit index has moved on or the end
    of the log `L` was cut off: the memberships are again those of the log. -/
theorem maybeChangeUncommittedMemberships_eq {L : List (LogEntry Hash)} {c : Nat}
    (huncommitted : r.uncommittedMemberships = confsAfter L c)
    (hcommitted : r.committedMembership = S.conf (L.take c))
    (hb : S.base.length ≤ c) (hc : c ≤ r.commitIdx) (hlen : r.commitIdx ≤ r.log.full.length)
    (hfull : r.log.full <+: L) (hlast : r.log.lastIdx = r.log.full.length)
    (hfollowers : r.role = .leader →
      ∀ p, p ∈ r.leader.followers ↔ p ∈ (S.conf r.log.full).allReplicas ∧ p ≠ r.me) :
    r.maybeChangeUncommittedMembershipsBasedOnLog =
      r.setMemberships (S.conf (r.log.full.take r.commitIdx))
        (confsAfter r.log.full r.commitIdx) := by
  have hle := hfull.length_le
  have htake : r.log.full = L.take r.log.full.length := List.prefix_iff_eq_take.mp hfull
  have hcommit : r.log.full.take r.commitIdx = L.take r.commitIdx := by
    conv_lhs => rw [htake]
    rw [List.take_take, Nat.min_eq_left hlen]
  have hconf : (((confsAfter (L.take r.commitIdx) c).getLast?.map (·.2)).getD
      r.committedMembership) = S.conf (r.log.full.take r.commitIdx) := by
    rw [hcommit, S.conf_eq (c := c) hb (by simp; omega), hcommitted, List.take_take,
      Nat.min_eq_left hc]
  have hkept : (confsAfter L r.commitIdx).rdropWhile (fun u => decide (r.log.lastIdx < u.1)) =
      confsAfter r.log.full r.commitIdx := by
    rw [hlast, rdropWhile_confsAfter hlen hle, ← htake]
  simp only [maybeChangeUncommittedMembershipsBasedOnLog, huncommitted,
    takeWhile_confsAfter hc (hlen.trans hle), dropWhile_confsAfter hc (hlen.trans hle), hconf, hkept]
  split_ifs
  · apply handleMembershipChange_eq_self
    have hmem := membership_eq_conf S (r := r.setMemberships
      (S.conf (r.log.full.take r.commitIdx)) (confsAfter r.log.full r.commitIdx))
      (hb.trans hc) hlen rfl rfl
    rw [hmem]
    exact hfollowers
  · rfl

/-! ### Appending to the log -/

omit [Platform Hash] in
theorem Inv.trim (h : r.Inv S) {log : Log Hash} (ht : r.log.Trimmed log r.lastApplied) :
    Inv S { r with log := log } := by
  have hfull := ht.full
  refine { h with
    log_ok := ht.ok
    base_start := by rw [hfull]; exact h.base_start
    promise_le := by rw [hfull]; exact h.promise_le
    stored := ?_
    committed := by rw [hfull]; exact h.committed
    uncommitted := by rw [hfull]; exact h.uncommitted
    acked := by rw [hfull]; exact h.acked }
  have h1 := h.stored
  have h2 := ht.oldest_le
  simp only
  omega

theorem trim_follows (h : r.Inv S) {log : Log Hash} (ht : r.log.Trimmed log r.lastApplied) :
    Follows S G I r { r with log := log } :=
  Follows.of_shown (h.trim ht) rfl (by simp only [shown, view, ht.full])

omit [Platform Hash] in
theorem Inv.snoc (h : r.Inv S) {e : LogEntry Hash} (bytes : Nat) (hterm : e.term ≠ 0)
    (hhash : e.hashChain ≠ none) (hm : e.membership? = none) :
    Inv S { r with log := r.log.snoc e bytes } := by
  have hfull := Log.snoc_full r.log e bytes
  have hlen : (r.log.full ++ [e]).length = r.log.full.length + 1 := by simp
  have hcommit := h.commit_le_length
  refine { h with
    log_ok := h.log_ok.snoc bytes hterm hhash
    base_start := by rw [hfull]; exact h.base_start.trans (List.prefix_append _ _)
    promise_le := by rw [hfull, hlen]; exact Nat.le_succ_of_le h.promise_le
    stored := h.stored
    committed := by rw [hfull, List.take_append_of_le_length hcommit]; exact h.committed
    uncommitted := by rw [hfull, confsAfter_append hcommit, hm]; simpa using h.uncommitted
    acked := ?_ }
  intro hrole p s hs
  have := h.acked hrole p s hs
  rw [hfull, hlen]
  omega

omit [Platform Hash] in
/-- An entry that changes the membership is appended: the leader's book of followers
    follows. -/
theorem addUncommittedMembership_eq (h : r.Inv S) {e : LogEntry Hash} (bytes : Nat)
    {m : Membership} :
    addUncommittedMembership { r with log := r.log.snoc e bytes } (r.log.full.length + 1) m =
      handleMembershipChange { r with
        log := r.log.snoc e bytes
        uncommittedMemberships := r.uncommittedMemberships ++ [(r.log.full.length + 1, m)] } := by
  have hcheck : (r.uncommittedMemberships.getLast?.all fun u =>
      decide (u.1 < r.log.full.length + 1)) = true := by
    cases hlast : r.uncommittedMemberships.getLast? with
    | none => rfl
    | some u =>
      have hu := List.mem_of_getLast? hlast
      rw [h.uncommitted] at hu
      have := (mem_confsAfter hu).2
      simp only [Option.all_some, decide_eq_true_eq]
      omega
  rw [addUncommittedMembership, check_eq hcheck]

/-- A replica with one more entry, that changes the membership to `m`. -/
def withMembership (r : Raft Hash) (e : LogEntry Hash) (bytes : Nat) (m : Membership) : Raft Hash :=
  { r with
    log := r.log.snoc e bytes
    uncommittedMemberships := r.uncommittedMemberships ++ [(r.log.full.length + 1, m)] }

omit [Platform Hash] in
theorem withMembership_membership (e : LogEntry Hash) (bytes : Nat) (m : Membership) :
    (r.withMembership e bytes m).membership = m := by
  simp [withMembership, membership]

omit [Platform Hash] in
theorem Inv.withMembership (h : r.Inv S) {e : LogEntry Hash} (bytes : Nat) {m : Membership}
    (hterm : e.term ≠ 0) (hhash : e.hashChain ≠ none) (hm : e.membership? = some m)
    (hvoting : r.role ≠ .follower → r.me ∈ m.votingReplicas)
    {fs : OrdMap PeerId ReplicationState}
    (hfs : r.role = .leader → ∀ p, p ∈ fs ↔ p ∈ m.allReplicas ∧ p ≠ r.me)
    (hacked : r.role = .leader → ∀ p s, fs.find? p = some s →
      s.promiseIdx ≤ s.matchIdx ∧ s.matchIdx ≤ r.log.full.length) :
    Inv S ((r.withMembership e bytes m).setFollowers fs) := by
  have hfull := Log.snoc_full r.log e bytes
  have hlen : (r.log.full ++ [e]).length = r.log.full.length + 1 := by simp
  have hcommit := h.commit_le_length
  have hmem : ((r.withMembership e bytes m).setFollowers fs).membership = m :=
    withMembership_membership e bytes m
  refine { h with
    log_ok := h.log_ok.snoc bytes hterm hhash
    base_start := hfull ▸ h.base_start.trans (List.prefix_append _ _)
    promise_le := ?_
    stored := h.stored
    committed := ?_
    uncommitted := ?_
    voting := ?_
    followers := ?_
    acked := ?_ }
  · exact (hfull ▸ hlen ▸ Nat.le_succ_of_le h.promise_le :
      r.promiseIdx ≤ (r.log.snoc e bytes).full.length)
  · exact (hfull ▸ (List.take_append_of_le_length hcommit).symm ▸ h.committed :
      r.committedMembership = S.conf ((r.log.snoc e bytes).full.take r.commitIdx))
  · have hun : r.uncommittedMemberships ++ [(r.log.full.length + 1, m)] =
        confsAfter (r.log.snoc e bytes).full r.commitIdx := by
      rw [hfull, confsAfter_append hcommit, hm, ← h.uncommitted]
      rfl
    exact hun
  · rw [hmem]; exact hvoting
  · rw [hmem]; exact hfs
  · intro hrole p s hs
    have hle := hacked hrole p s hs
    have hlen' : (r.log.snoc e bytes).full.length = r.log.full.length + 1 := by rw [hfull, hlen]
    exact ⟨hle.1, by
      show s.matchIdx ≤ (r.log.snoc e bytes).full.length
      omega⟩

omit [Platform Hash] in
theorem handleMembershipChange_withMembership (h : r.Inv S) {e : LogEntry Hash} (bytes : Nat)
    {m : Membership} (hterm : e.term ≠ 0) (hhash : e.hashChain ≠ none)
    (hm : e.membership? = some m) (hvoting : r.role ≠ .follower → r.me ∈ m.votingReplicas) :
    ∃ r', handleMembershipChange (r.withMembership e bytes m) = r' ∧ r'.Inv S ∧
      r'.lastApplied = r.lastApplied ∧ r'.sendableMessages = r.sendableMessages ∧
      r'.view = { r.view with
        log := r.log.full ++ [e]
        acks := if r.role = .leader then r.view.acksUnder m else r.view.acks } := by
  have hmem := withMembership_membership (r := r) e bytes m
  have hfull := Log.snoc_full r.log e bytes
  refine ⟨_, rfl, ?_⟩
  by_cases hrole : r.role = .leader
  · have heq : handleMembershipChange (r.withMembership e bytes m) =
        (r.withMembership e bytes m).setFollowers (r.withMembership e bytes m).followersUnder :=
      if_pos hrole
    have hfind : ∀ p, (r.withMembership e bytes m).followersUnder.find? p =
        if p ∈ m.allReplicas then
          (if p = r.me then r.leader.followers.find? p
            else some ((r.leader.followers.find? p).getD (r.withMembership e bytes m).addedFollower))
        else none := by
      intro p
      rw [find?_followersUnder, hmem]
      rfl
    have hme : r.leader.followers.find? r.me = none :=
      OrdMap.not_mem_iff.mp fun hp => ((h.followers hrole r.me).mp hp).2 rfl
    rw [heq]
    refine ⟨h.withMembership bytes hterm hhash hm hvoting ?_ ?_, rfl, rfl, ?_⟩
    · intro _ p
      rw [OrdMap.mem_iff, hfind]
      by_cases hp : p ∈ m.allReplicas
      · by_cases hpm : p = r.me
        · subst hpm; simp [hp, hme]
        · simp [hp, hpm]
      · simp [hp]
    · intro _ p s hs
      rw [hfind] at hs
      split_ifs at hs with hp hpm
      · rw [hpm, hme] at hs; cases hs
      · cases hf : r.leader.followers.find? p with
        | none =>
          rw [hf] at hs
          cases hs
          exact ⟨le_refl _, Nat.zero_le _⟩
        | some s' =>
          rw [hf] at hs
          cases hs
          exact h.acked hrole p _ hf
    · rw [if_pos hrole]
      refine View.ext rfl rfl rfl rfl rfl (funext fun p => ?_) hfull rfl rfl
      show Option.map _ ((r.withMembership e bytes m).followersUnder.find? p) = r.view.acksUnder m p
      rw [hfind, View.acksUnder]
      by_cases hp : p ∈ m.allReplicas
      · by_cases hpm : p = r.me
        · subst hpm; simp [hp, view]
        · cases hf : r.leader.followers.find? p <;> simp [hp, hpm, hf, view, addedFollower, ReplicationState.ack]
      · simp [hp]
  · have heq : handleMembershipChange (r.withMembership e bytes m) =
        (r.withMembership e bytes m).setFollowers r.leader.followers := if_neg hrole
    rw [heq, if_neg hrole]
    refine ⟨h.withMembership bytes hterm hhash hm hvoting (fun hl => absurd hl hrole)
      (fun hl => absurd hl hrole),
      rfl, rfl, ?_⟩
    exact View.ext rfl rfl rfl rfl rfl rfl hfull rfl rfl

theorem logAppend_cases (h : r.Inv S) (e : LogEntry Hash)
    (hvoting : ∀ m, e.membership? = some m → r.role ≠ .follower → r.me ∈ m.votingReplicas) :
    (∃ log err, err ≠ .ok ∧ r.log.Trimmed log r.lastApplied ∧
      r.logAppend e = ({ r with log := log }, {}, err)) ∨
    (e.term ≠ 0 ∧ ∃ r' loc, r.logAppend e = (r', loc, .ok) ∧ r'.Inv S ∧
      r'.lastApplied = r.lastApplied ∧ r'.sendableMessages = r.sendableMessages ∧
      (((∀ g, e.inner ≠ .membershipChange g) ∧
          r'.view = { r.view with log := r.log.full ++ [e] }) ∨
        (∃ m, e.membership? = some m ∧ r'.view = { r.view with
          log := r.log.full ++ [e]
          acks := if r.role = .leader then r.view.acksUnder m else r.view.acks }))) := by
  have hn : r.lastApplied ≤ r.log.full.length := h.applied_le.trans h.commit_le_length
  obtain ⟨log₁, ht, happend⟩ := Log.append_cases h.log_ok hn e
  have h₁ : Inv S { r with log := log₁ } := h.trim ht
  have hfull₁ : ∀ bytes, (log₁.snoc e bytes).full = r.log.full ++ [e] := by
    intro bytes
    rw [Log.snoc_full, ht.full]
  cases hg : e.inner with
  | membershipChange g =>
    cases hmem : Membership.fromProto g with
    | error err =>
      exact Or.inl ⟨r.log, err, Membership.fromReplicas_error hmem, Log.Trimmed.refl h.log_ok _,
        by simp [logAppend, hg, hmem, Except.map]⟩
    | ok m =>
      have hm : e.membership? = some m := by simp [LogEntry.membership?, hg, hmem, Except.toOption]
      rcases happend with ⟨err, herr, heq⟩ | ⟨hterm, hhash, bytes, heq⟩
      · refine Or.inl ⟨log₁, err, herr, ht, ?_⟩
        simp only [logAppend, hg, hmem, Except.map, heq]
      · have hidx : (log₁.snoc e bytes).lastIdx = log₁.full.length + 1 := by
          rw [(ht.ok.snoc bytes hterm hhash).lastIdx_eq, Log.snoc_full, List.length_append,
            List.length_singleton]
        obtain ⟨r', hr', hinv, happlied, hsend, hview⟩ :=
          handleMembershipChange_withMembership h₁ bytes hterm hhash hm (hvoting m hm)
        refine Or.inr ⟨hterm, r', ⟨r.currentTerm, log₁.full.length + 1, e.hashChain⟩, ?_, hinv,
          happlied, hsend, Or.inr ⟨m, hm, ?_⟩⟩
        · simp only [logAppend, hg, hmem, Except.map, heq, hidx]
          rw [← hr']
          have hadd := addUncommittedMembership_eq h₁ (e := e) bytes (m := m)
          exact congrArg (fun x => (x, _, Error.ok)) hadd
        · rw [hview]
          simp only [view, ht.full]
  | _ =>
    have hne : ∀ g, e.inner ≠ .membershipChange g := by rw [hg]; simp
    rcases happend with ⟨err, herr, heq⟩ | ⟨hterm, hhash, bytes, heq⟩
    · exact Or.inl ⟨log₁, err, herr, ht, by simp only [logAppend, hg, heq]⟩
    · refine Or.inr ⟨hterm, { r with log := log₁.snoc e bytes },
        ⟨r.currentTerm, (log₁.snoc e bytes).lastIdx, e.hashChain⟩,
        by simp only [logAppend, hg, heq],
        h₁.snoc bytes hterm hhash (LogEntry.membership?_eq_none hne), rfl, rfl,
        Or.inl ⟨by simp, ?_⟩⟩
      simp only [view, hfull₁]

/-- The entry that `ClientRequestInternal` appends. -/
def stamped (r : Raft Hash) (o : Oracle) (e : LogEntry Hash) : LogEntry Hash :=
  { e with term := r.currentTerm
           hashChain := some (r.nextHash o { e with term := r.currentTerm }) }

theorem stamped_chained (h : r.Inv S) (o : Oracle) (e : LogEntry Hash) :
    ChainedTo r.log.full (r.stamped o e) :=
  nextHash_chained h o rfl

theorem clientRequestInternal_follows (h : r.Inv S) (o : Oracle) {e : LogEntry Hash}
    (he : ∀ g, e.inner ≠ .membershipChange g) :
    Follows S G I r (r.clientRequestInternal o e).1 := by
  rw [clientRequestInternal]
  split_ifs with hrole
  · exact Follows.refl h
  · have hleader : r.role = .leader := by
      by_contra hne
      exact hrole (Or.inl hne)
    have hnone : (r.stamped o e).membership? = none := LogEntry.membership?_eq_none he
    rcases logAppend_cases h (r.stamped o e) (by rw [hnone]; simp) with
      ⟨log, err, -, ht, heq⟩ | ⟨hterm, r', loc, heq, hinv, happlied, hsend, hcase⟩
    · exact heq ▸ trim_follows h ht
    · show Follows S G I r (r.logAppend (r.stamped o e)).1
      rw [heq]
      rcases hcase with ⟨hne, hview⟩ | ⟨m, hm, -⟩
      · refine Follows.of_silent hinv happlied ?_ hsend
        rw [hview]
        exact Move.appendEntry r.view (r.stamped o e) hleader rfl hterm (stamped_chained h o e) hne
      · rw [hnone] at hm; cases hm

theorem clientRequestInternal_log (h : r.Inv S) (o : Oracle) {e : LogEntry Hash}
    (he : ∀ g, e.inner ≠ .membershipChange g) :
    (r.clientRequestInternal o e).1.log.full = r.log.full ∨
      ∃ e', e'.term = (r.clientRequestInternal o e).1.currentTerm ∧
        (r.clientRequestInternal o e).1.log.full = r.log.full ++ [e'] := by
  rw [clientRequestInternal]
  split_ifs with hrole
  · exact Or.inl rfl
  · have hnone : (r.stamped o e).membership? = none := LogEntry.membership?_eq_none he
    show (r.logAppend (r.stamped o e)).1.log.full = _ ∨ ∃ e' : LogEntry Hash, e'.term =
      (r.logAppend (r.stamped o e)).1.currentTerm ∧ (r.logAppend (r.stamped o e)).1.log.full = _
    rcases logAppend_cases h (r.stamped o e) (by rw [hnone]; simp) with
      ⟨log, err, -, ht, heq⟩ | ⟨-, r', loc, heq, -, -, -, hcase⟩
    · rw [heq]
      exact Or.inl ht.full
    · rw [heq]
      rcases hcase with ⟨-, hview⟩ | ⟨m, hm, -⟩
      · exact Or.inr ⟨r.stamped o e, (congrArg View.term hview).symm, congrArg View.log hview⟩
      · rw [hnone] at hm
        cases hm

theorem clientRequestInternal_membership_follows (h : r.Inv S) (o : Oracle) {e : LogEntry Hash}
    {g : ReplicaGroup} (hg : e.inner = .membershipChange g) (hcheck : r.checkLogRequest e = .ok)
    (hrule : G.mayReconfigure r.view) :
    Follows S G I r (r.clientRequestInternal o e).1 := by
  rw [checkLogRequest, hg] at hcheck
  simp only at hcheck
  split_ifs at hcheck with hrole hun
  rw [clientRequestInternal, if_neg hrole]
  have hleader : r.role = .leader := by
    by_contra hne
    exact hrole (Or.inl hne)
  have hun : r.uncommittedMemberships = [] := by
    by_contra hne
    exact hun hne
  cases hmem : Membership.fromProto g with
  | error err =>
    rw [hmem] at hcheck
    exact absurd hcheck (Membership.fromReplicas_error hmem)
  | ok m =>
    rw [hmem] at hcheck
    have hm : (r.stamped o e).membership? = some m := by
      simp [stamped, LogEntry.membership?, hg, hmem, Except.toOption]
    -- no change is pending, so the committed membership is the one in force
    have hconf : r.committedMembership = S.conf r.log.full := by
      rw [← h.membership_eq, membership, hun]
      rfl
    have hpending : ∀ x ∈ r.log.full.drop r.commitIdx, x.membership? = none :=
      membership?_eq_none_of_confsAfter (h.uncommitted.symm.trans hun)
    have hvalid := hcheck
    rw [hconf, h.super_majority] at hvalid
    have hvoting : r.me ∈ m.votingReplicas :=
      Membership.validProgressionForLeader_voting hvalid
    rcases logAppend_cases h (r.stamped o e)
        (fun m' hm' _ => by rw [hm] at hm'; cases hm'; exact hvoting) with
      ⟨log, err, -, ht, heq⟩ | ⟨hterm, r', loc, heq, hinv, happlied, hsend, hcase⟩
    · exact heq ▸ trim_follows h ht
    · show Follows S G I r (r.logAppend (r.stamped o e)).1
      rw [heq]
      rcases hcase with ⟨hne, -⟩ | ⟨m', hm', hview⟩
      · exact absurd hg (hne g)
      · rw [hm] at hm'
        cases hm'
        refine Follows.of_silent hinv happlied ?_ hsend
        rw [hview, if_pos hleader]
        exact Move.appendMembership r.view (r.stamped o e) m hleader rfl hterm
          (stamped_chained h o e) hm hrule hpending hvalid

/-! ### Elections -/

omit [Platform Hash] in
/-- A replica that gives up what it was is a follower in good order. -/
theorem Inv.follow (h : r.Inv S) (f : FollowerState) (t : Nat) (vote : Option PeerId) :
    Inv S { r.setRole .follower with follower := f, currentTerm := t, votedFor := vote } :=
  { h with
    voting := fun hrole => absurd rfl hrole
    followers := fun hrole => by cases hrole
    acked := fun hrole => by cases hrole }

omit [Platform Hash] in
theorem voteRequest_eq (h : r.Inv S) :
    r.requestVoteMessage = ⟨S.group, r.currentTerm, .voteRequest r.view.voteRequest⟩ := by
  rw [requestVoteMessage, h.group, h.log_ok.lastTerm_eq, h.log_ok.hashAt_lastIdx, h.lastIdx_eq]
  rfl

/-- The rules let the replica be a candidate, if it is one. -/
def MayCampaign (S : Setting Hash) (G : Rules Hash) (r : Raft Hash) : Prop :=
  r.Inv S → r.role = .candidate → G.mayCampaign r.view

omit [Platform Hash] in
theorem addSendableMessage_view (msg : SendableRaftMessage Hash) :
    (r.addSendableMessage msg).view = r.view := by
  rw [addSendableMessage]
  split
  · rfl
  · split_ifs <;> rfl

omit [Platform Hash] in
theorem electionTimeout_log (o : Oracle) : (r.electionTimeout o).log = r.log := by
  rw [electionTimeout]
  split_ifs
  · rfl
  · split
    · rfl
    · rw [addSendableMessage]
      simp only
      split_ifs <;> rfl

theorem electionTimeout_follows (h : r.Inv S) (o : Oracle)
    (hrule : MayCampaign S G (r.electionTimeout o)) :
    Follows S G I r (r.electionTimeout o) := by
  by_cases hvoting : r.voting = false
  · rw [electionTimeout, if_pos hvoting]
    exact Follows.of_shown { h with } rfl rfl
  · by_cases hrole : r.role = .leader
    · rw [electionTimeout, if_neg hvoting, hrole]
      exact Follows.refl h
    · have hmem : r.me ∈ r.membership.votingReplicas := by
        rw [OrdMap.mem_def]
        exact Bool.eq_true_of_not_eq_false hvoting
      have hvoter : r.me ∈ S.voters r.log.full := by
        rw [← h.voters_eq, OrdMap.mem_keySet]
        exact hmem
      -- the replica as a candidate, before it asks for votes
      let r₁ : Raft Hash := { r.setRole .candidate with
        currentTerm := r.currentTerm + 1
        votedFor := some r.me
        candidate := { votesGranted := {r.me}, election := r.randomElectionTimeout (o.rand 0) } }
      have h₁ : r₁.Inv S :=
        { h with
          voting := fun _ => hmem
          followers := fun hrole => by cases hrole
          acked := fun hrole => by cases hrole }
      have hresult : r.electionTimeout o = r₁.addSendableMessage ⟨none, r₁.requestVoteMessage⟩ := by
        rw [electionTimeout, if_neg hvoting]
        cases hr : r.role with
        | leader => exact absurd hr hrole
        | follower => rfl
        | candidate => rfl
      have hview : (r.electionTimeout o).view = r.view.campaign := by
        rw [hresult, addSendableMessage_view]
        rfl
      have hsend : Follows S G I r₁ (r₁.addSendableMessage ⟨none, r₁.requestVoteMessage⟩) := by
        rw [voteRequest_eq h₁]
        exact addSendableMessage_follows h₁ (by simp) (Move.requestVote r₁.view none rfl)
      rw [← hresult] at hsend
      have hcampaign : Follows S G I r r₁ := by
        refine Follows.of_silent h₁ rfl (Move.campaign r.view hrole hvoter ?_) rfl
        rw [← hview]
        exact hrule hsend.inv (congrArg View.role hview)
      exact hcampaign.trans hsend

theorem updateTerm_follows (h : r.Inv S) (o : Oracle) (msg : RaftMessage Hash) :
    Follows S G I r (r.updateTerm o msg) := by
  rw [updateTerm]
  split_ifs with hterm
  · exact Follows.refl h
  · exact Follows.of_silent (h.follow _ msg.term none) rfl
      (Move.newTerm r.view msg.term (by simp only [view]; omega)) rfl

/-- A candidate as it becomes the leader, before it appends a no-op. -/
def lead (r : Raft Hash) : Raft Hash :=
  { r.setRole .leader with leader :=
    { followers := r.membership.allReplicas.keys.foldl (fun fs peer =>
        if peer = r.me then fs else fs.insert peer { nextIdx := r.log.nextIdx }) ∅ } }

omit [Platform Hash] in
theorem find?_lead (r : Raft Hash) (p : PeerId) : r.lead.leader.followers.find? p =
    if p ∈ r.membership.allReplicas ∧ p ≠ r.me then some { nextIdx := r.log.nextIdx } else none := by
  simp only [lead]
  rw [OrdMap.find?_foldl_insert (fun p => p = r.me)]
  simp only [OrdMap.mem_keys]

omit [Platform Hash] in
theorem Inv.lead (h : r.Inv S) (hcand : r.role = .candidate) : r.lead.Inv S :=
  { h with
    voting := fun _ => h.voting (by rw [hcand]; simp)
    followers := fun _ p => by
      rw [OrdMap.mem_iff, find?_lead]
      by_cases hp : p ∈ r.membership.allReplicas ∧ p ≠ r.me
      · rw [if_pos hp]
        exact ⟨fun _ => hp, fun _ => ⟨_, rfl⟩⟩
      · rw [if_neg hp]
        exact iff_of_false (by simp) hp
    acked := fun _ p s hs => by
      rw [find?_lead] at hs
      split_ifs at hs
      cases hs
      exact ⟨le_refl _, Nat.zero_le _⟩ }

theorem lead_follows (h : r.Inv S) (hcand : r.role = .candidate)
    (hvotes : r.membershipQuorumSize ≤ r.candidate.votesGranted.card) : Follows S G I r r.lead := by
  have hview : r.lead.view = r.view.lead (S.conf r.view.log) := by
    refine View.ext rfl rfl rfl rfl rfl (funext fun p => ?_) rfl rfl rfl
    show Option.map _ (r.lead.leader.followers.find? p) =
      if p ∈ (S.conf r.log.full).allReplicas ∧ p ≠ r.me then some (0, 0) else none
    rw [find?_lead, h.membership_eq]
    split_ifs <;> rfl
  refine Follows.of_silent (h.lead hcand) rfl ?_ rfl
  rw [hview]
  exact Move.becomeLeader r.view hcand (h.quorum_eq ▸ hvotes)

theorem maybeBecomeLeader_follows (h : r.Inv S) (o : Oracle) :
    Follows S G I r (r.maybeBecomeLeader o) := by
  rw [maybeBecomeLeader]
  split_ifs with hrole hvotes
  · exact Follows.refl h
  · exact Follows.refl h
  · have hlead := lead_follows (G := G) (I := I) h (not_not.mp hrole) (not_lt.mp hvotes)
    exact hlead.trans (clientRequestInternal_follows hlead.inv o (by simp [LogEntry.default]))

theorem maybeBecomeLeader_log (h : r.Inv S) (o : Oracle) :
    (r.maybeBecomeLeader o).log.full = r.log.full ∨
      ∃ e, e.term = (r.maybeBecomeLeader o).currentTerm ∧
        (r.maybeBecomeLeader o).log.full = r.log.full ++ [e] := by
  rw [maybeBecomeLeader]
  split_ifs with hrole hvotes
  · exact Or.inl rfl
  · exact Or.inl rfl
  · exact clientRequestInternal_log (h.lead (not_not.mp hrole)) o (by simp [LogEntry.default])

theorem handleVoteRequest_follows (h : r.Inv S) (o : Oracle) {t : Nat} {m : VoteRequest Hash}
    {src : PeerId} (hsrc : src ≠ r.me) (hin : I src ⟨S.group, t, .voteRequest m⟩) :
    Follows S G I r (r.handleVoteRequest o t m src) := by
  rw [handleVoteRequest]
  split_ifs with hterm hgrant
  · exact Follows.refl h
  · obtain ⟨rfl, hlog, hvote⟩ := hgrant
    rw [h.log_ok.lastTerm_eq, h.lastIdx_eq] at hlog
    have h₁ : Inv S { r with
        votedFor := some src
        follower := { r.follower with election := r.randomElectionTimeout (o.rand 1) } } :=
      { h with }
    rw [reply_eq (by exact hsrc)]
    refine Follows.of_move { h₁ with sendable := ?_ } rfl
      (Move.grantVote r.view src m hin hlog hvote) ?_
    · intro msg hmsg
      rcases List.mem_append.mp hmsg with hmsg | hmsg
      · exact h.sendable msg hmsg
      · rw [List.mem_singleton.mp hmsg]; simpa using hsrc
    · simp only [View.send, view, h.group]
      have hlog' : r.log.lastTerm < m.lastLogTerm ∨
          (m.lastLogTerm = r.log.lastTerm ∧ r.log.lastIdx ≤ m.lastLogIdx) := by
        rw [h.log_ok.lastTerm_eq, h.lastIdx_eq]
        exact hlog
      simp [hlog', hvote]
  · rw [decide_eq_false hgrant]
    exact reply_follows h hsrc (Move.other r.view (some src) _ rfl)

theorem handleVoteResponse_follows (h : r.Inv S) {t : Nat} {m : VoteResponse} {src : PeerId}
    (hin : I src ⟨S.group, t, .voteResponse m⟩) :
    Follows S G I r (r.handleVoteResponse t m src) := by
  rw [handleVoteResponse]
  split_ifs with hterm hrole hgrant
  · exact Follows.refl h
  · exact Follows.refl h
  · obtain ⟨hgranted, hvoter⟩ := hgrant
    have hterm : t = r.currentTerm := not_not.mp hterm
    have hm : m = ⟨true⟩ := by cases m; simp_all
    subst hterm hm
    have hvoter' : src ∈ S.voters r.log.full := by
      rw [← h.voters_eq, OrdMap.mem_keySet]
      exact hvoter
    exact Follows.of_silent { h with } rfl
      (Move.countVote r.view src (not_not.mp hrole) hin hvoter') rfl
  · exact Follows.refl h

/-! ### Replication -/

theorem entriesToSend_eq {log : Log Hash} (h : log.Ok) (maxSize n i total : Nat) :
    ∃ k, entriesToSend log maxSize n (i + 1) total = (log.full.drop i).take k := by
  induction n generalizing i total with
  | zero => exact ⟨0, rfl⟩
  | succ n ih =>
    rw [entriesToSend]
    cases he : log.at? (i + 1) with
    | none => exact ⟨0, rfl⟩
    | some e =>
      have hentry := h.entryAt_of_at? he
      rw [entryAt_succ] at hentry
      have hdrop : log.full.drop i = e :: log.full.drop (i + 1) := by
        obtain ⟨hlt, rfl⟩ := List.getElem?_eq_some_iff.mp hentry
        exact List.drop_eq_getElem_cons hlt
      simp only
      split_ifs
      · exact ⟨1, by rw [hdrop]; rfl⟩
      · obtain ⟨k, hk⟩ := ih (i + 1) (total + Platform.byteSizeLong e)
        exact ⟨k + 1, by rw [hk, hdrop, List.take_succ_cons]⟩

/-- The request for a follower whose previous entry is stored is one of the protocol. -/
theorem appendRequestFor_eq (h : r.Inv S) (s : ReplicationState)
    (hprev : ¬((r.appendRequestFor s).prevLogTerm = 0 ∧ (r.appendRequestFor s).prevLogIdx ≠ 0)) :
    ∃ prev n, prev ≤ r.log.full.length ∧ r.appendRequestFor s = r.view.appendRequest prev n := by
  have hentries : ∃ k, (r.appendRequestFor s).entries = (r.log.full.drop (s.nextIdx - 1)).take k := by
    simp only [appendRequestFor]
    split_ifs with hsend
    · cases hnext : s.nextIdx with
      | zero =>
        -- index 0 is never stored, so nothing is collected
        have hnone : r.log.at? 0 = none := by
          have := h.log_ok.oldest
          rw [h.log_ok.at?_eq, if_pos (by omega)]
        refine ⟨0, ?_⟩
        cases hn : r.log.lastIdx + 1 - 0 with
        | zero => rfl
        | succ n => simp [entriesToSend, hnone]
      | succ i => exact entriesToSend_eq h.log_ok _ _ i 0
    · exact ⟨0, rfl⟩
  obtain ⟨k, hk⟩ := hentries
  have hstored : s.nextIdx - 1 = 0 ∨ r.log.at? (s.nextIdx - 1) = entryAt r.log.full (s.nextIdx - 1) ∧
      s.nextIdx - 1 ≤ r.log.full.length := by
    by_cases h0 : s.nextIdx - 1 = 0
    · exact Or.inl h0
    · right
      have hterm : r.log.termAt (s.nextIdx - 1) ≠ 0 := by
        intro hzero
        exact hprev ⟨by simp [appendRequestFor, h0, hzero], by simpa [appendRequestFor] using h0⟩
      cases he : r.log.at? (s.nextIdx - 1) with
      | none => simp [Log.termAt, he] at hterm
      | some e =>
        have hentry := h.log_ok.entryAt_of_at? he
        exact ⟨hentry.symm, (entryAt_le hentry).2⟩
  refine ⟨s.nextIdx - 1, k, by omega, ?_⟩
  have hterm : (r.appendRequestFor s).prevLogTerm = termAt r.log.full (s.nextIdx - 1) := by
    rcases hstored with h0 | ⟨hat, -⟩
    · simp [appendRequestFor, h0, termAt]
    · simp only [appendRequestFor, Log.termAt, termAt, hat]
      split_ifs with h0
      · simp [h0]
      · rfl
  have hhash : (r.appendRequestFor s).prevLogHashChain = hashAt r.log.full (s.nextIdx - 1) := by
    rcases hstored with h0 | ⟨hat, -⟩
    · simp [appendRequestFor, h0, hashAt]
    · simp only [appendRequestFor, Log.hashAt, hashAt, hat]
      split_ifs with h0
      · simp [h0]
      · rfl
  have hrequest : r.appendRequestFor s =
      { prevLogIdx := s.nextIdx - 1
        prevLogTerm := (r.appendRequestFor s).prevLogTerm
        prevLogHashChain := (r.appendRequestFor s).prevLogHashChain
        entries := (r.appendRequestFor s).entries
        leaderCommit := min r.commitIdx (s.nextIdx - 1 + (r.appendRequestFor s).entries.length)
        leaderPromise := min r.promiseIdx (s.nextIdx - 1 + (r.appendRequestFor s).entries.length) } :=
    rfl
  rw [hrequest, hterm, hhash, hk]
  rfl

theorem appendEntries_follows (h : r.Inv S) {peer : PeerId} (hpeer : peer ≠ r.me) :
    Follows S G I r (r.appendEntries peer) := by
  rw [appendEntries]
  split_ifs with hrole
  · exact Follows.refl h
  · cases hf : r.leader.followers.find? peer with
    | none => exact Follows.refl h
    | some s =>
      simp only
      split_ifs with h1 h2 hprev
      · exact Follows.refl h
      · exact Follows.refl h
      · exact Follows.refl h
      · obtain ⟨prev, n, hle, hrequest⟩ := appendRequestFor_eq h s hprev
        have hmod := modifyFollower_follows (G := G) (I := I)
          (f := fun s' => { s' with
            sendHeartbeat := false
            inflight := some ((r.appendRequestFor s).prevLogIdx +
              (r.appendRequestFor s).entries.length) }) h peer (fun _ => rfl)
        refine hmod.trans (reply_follows hmod.inv (hmod.view_me ▸ hpeer) ?_)
        rw [modifyFollower_view (by exact fun _ => rfl), hrequest]
        exact Move.replicate r.view peer prev n (not_not.mp hrole) hle

/-! ### Advancing the indexes -/

omit [Platform Hash] in
theorem quorumSize_le (n s : Nat) : quorumSize n s ≤ n := Nat.min_le_left _ _

omit [Platform Hash] in
theorem quorumSize_pos {n : Nat} (s : Nat) (h : 0 < n) : 0 < quorumSize n s := by
  rw [quorumSize]
  exact lt_min h (by omega)

theorem exists_agreedBy {v : List Nat} {n : Nat} (hpos : 0 < n) (hn : n ≤ v.length) :
    ∃ x, agreedBy v n = some x := by
  rw [agreedBy, if_neg (by omega)]
  have hlen : n - 1 < (v.insertionSort (· ≥ ·)).length := by
    rw [List.length_insertionSort]
    omega
  exact ⟨_, List.getElem?_eq_getElem hlen⟩

theorem le_agreedBy_iff {v : List Nat} {n x : Nat} (h : agreedBy v n = some x) (y : Nat) :
    y ≤ x ↔ n ≤ (v.filter fun z => decide (y ≤ z)).length := by
  rw [agreedBy] at h
  split_ifs at h with hn
  rw [le_insertionSort_iff h]
  omega

/-- How many voting followers reach the index `n`, as told by `f`. -/
def reach (r : Raft Hash) (f : ReplicationState → Nat) (n : Nat) : Nat :=
  (r.votingFollowers.filter fun s => decide (n ≤ f s)).length

omit [Platform Hash] in
theorem length_filter_votingFollowers (f : ReplicationState → Nat) (own n : Nat) :
    ((r.votingFollowers.map f ++ [own]).filter fun z => decide (n ≤ z)).length =
      r.reach f n + if n ≤ own then 1 else 0 := by
  rw [List.filter_append, List.length_append, List.filter_map, List.length_map]
  congr 1
  by_cases hn : n ≤ own <;> simp [hn]

/-- The leader and the voting followers that reach the index `n`. -/
def supporters (r : Raft Hash) (f : ReplicationState → Nat) (n : Nat) : Finset PeerId :=
  insert r.me (((r.leader.followers.toList.filter fun x => x.1 ∈ r.membership.votingReplicas).filter
    fun x => decide (n ≤ f x.2)).map Prod.fst).toFinset

omit [Platform Hash] in
theorem mem_supporters {f : ReplicationState → Nat} {n : Nat} {p : PeerId} :
    p ∈ r.supporters f n ↔ p = r.me ∨ (p ∈ r.membership.votingReplicas ∧
      ∃ s, r.leader.followers.find? p = some s ∧ n ≤ f s) := by
  simp only [supporters, Finset.mem_insert, List.mem_toFinset, List.mem_map, List.mem_filter,
    decide_eq_true_eq]
  apply or_congr_right
  constructor
  · rintro ⟨⟨q, s⟩, ⟨⟨hmem, hvot⟩, hn⟩, rfl⟩
    exact ⟨hvot, s, OrdMap.mem_toList.mp hmem, hn⟩
  · rintro ⟨hvot, s, hs, hn⟩
    exact ⟨(p, s), ⟨⟨OrdMap.mem_toList.mpr hs, hvot⟩, hn⟩, rfl⟩

omit [Platform Hash] in
theorem card_supporters (h : r.Inv S) (hrole : r.role = .leader) (f : ReplicationState → Nat)
    (n : Nat) : (r.supporters f n).card = r.reach f n + 1 := by
  have hnodup : (((r.leader.followers.toList.filter fun x =>
      x.1 ∈ r.membership.votingReplicas).filter fun x => decide (n ≤ f x.2)).map Prod.fst).Nodup := by
    refine List.Nodup.sublist ?_ r.leader.followers.keys_nodup
    exact (List.filter_sublist.trans List.filter_sublist).map Prod.fst
  rw [supporters, Finset.card_insert_of_notMem, List.toFinset_card_of_nodup hnodup, List.length_map,
    reach, votingFollowers, List.filter_map, List.length_map]
  · rfl
  · intro hme
    rw [List.mem_toFinset, List.mem_map] at hme
    obtain ⟨⟨q, s⟩, hmem, heq⟩ := hme
    have hq : q = r.me := heq
    have hfind := OrdMap.mem_toList.mp (List.mem_of_mem_filter (List.mem_of_mem_filter hmem))
    exact ((h.followers hrole q).mp (OrdMap.mem_iff.mpr ⟨s, hfind⟩)).2 hq

omit [Platform Hash] in
theorem supporters_subset (h : r.Inv S) (hrole : r.role = .leader) (f : ReplicationState → Nat)
    (n : Nat) : r.supporters f n ⊆ S.voters r.log.full := by
  intro p hp
  rw [← h.voters_eq, OrdMap.mem_keySet]
  rcases mem_supporters.mp hp with rfl | ⟨hvot, -⟩
  · exact h.voting (by rw [hrole]; simp)
  · exact hvot

omit [Platform Hash] in
theorem card_voters (h : r.Inv S) (hrole : r.role = .leader) :
    r.membership.votingReplicas.size = r.votingFollowers.length + 1 := by
  have hall : r.supporters (fun _ => 0) 0 = r.membership.votingReplicas.keySet := by
    ext p
    rw [mem_supporters, OrdMap.mem_keySet]
    constructor
    · rintro (rfl | ⟨hvot, -⟩)
      · exact h.voting (by rw [hrole]; simp)
      · exact hvot
    · intro hvot
      by_cases hme : p = r.me
      · exact Or.inl hme
      · refine Or.inr ⟨hvot, ?_⟩
        have hmem : p ∈ r.membership.allReplicas := by
          rw [h.membership_eq] at hvot ⊢
          exact S.conf_voting_subset _ p hvot
        obtain ⟨s, hs⟩ := OrdMap.mem_iff.mp ((h.followers hrole p).mpr ⟨hmem, hme⟩)
        exact ⟨s, hs, Nat.zero_le _⟩
  rw [← OrdMap.card_keySet, ← hall, card_supporters h hrole, reach]
  simp

omit [Platform Hash] in
theorem raisePromise_eq (n : Nat) :
    r.raisePromise n = { r with promiseIdx := max r.promiseIdx n } := by
  rw [raisePromise]
  split_ifs with hn
  · rw [Nat.max_eq_right hn.le]
  · rw [Nat.max_eq_left (not_lt.mp hn)]

omit [Platform Hash] in
theorem Inv.raisePromise (h : r.Inv S) {n : Nat} (hn : n ≤ r.log.full.length) :
    (r.raisePromise n).Inv S := by
  rw [raisePromise_eq]
  exact { h with
    commit_le := h.commit_le.trans (le_max_left _ _)
    promise_le := max_le h.promise_le hn }

omit [Platform Hash] in
theorem raiseCommit_eq (h : r.Inv S) {n : Nat} (hn : n ≤ r.log.full.length) :
    r.raiseCommit n = ({ r with commitIdx := max r.commitIdx n } : Raft Hash).setMemberships
      (S.conf (r.log.full.take (max r.commitIdx n))) (confsAfter r.log.full (max r.commitIdx n)) := by
  rw [raiseCommit]
  split_ifs with hlt
  · rw [Nat.max_eq_right hlt.le]
    refine maybeChangeUncommittedMemberships_eq (r := { r with commitIdx := n }) h.uncommitted
      h.committed h.base_le hlt.le hn (List.prefix_refl _) h.lastIdx_eq ?_
    rw [← h.membership_eq]
    exact h.followers
  · rw [Nat.max_eq_left (not_lt.mp hlt), ← h.committed, ← h.uncommitted]
    rfl

omit [Platform Hash] in
theorem Inv.raiseCommit (h : r.Inv S) {n : Nat} (hn : n ≤ r.promiseIdx) :
    (r.raiseCommit n).Inv S := by
  have hlen := hn.trans h.promise_le
  have hmax : max r.commitIdx n ≤ r.log.full.length := max_le h.commit_le_length hlen
  have hmem := membership_eq_conf S (r := (({ r with commitIdx := max r.commitIdx n } :
    Raft Hash).setMemberships (S.conf (r.log.full.take (max r.commitIdx n)))
    (confsAfter r.log.full (max r.commitIdx n))))
    (h.base_le.trans (le_max_left _ _)) hmax rfl rfl
  have hmem' : _ = r.membership := hmem.trans h.membership_eq.symm
  rw [raiseCommit_eq h hlen]
  exact { h with
    base_le := h.base_le.trans (le_max_left _ _)
    applied_le := h.applied_le.trans (le_max_left _ _)
    commit_le := max_le h.commit_le hn
    committed := rfl
    uncommitted := rfl
    voting := by rw [hmem']; exact h.voting
    followers := by rw [hmem']; exact h.followers }

omit [Platform Hash] in
theorem mem_votingFollowers {s : ReplicationState} (hs : s ∈ r.votingFollowers) :
    ∃ p, r.leader.followers.find? p = some s := by
  rw [votingFollowers, List.mem_map] at hs
  obtain ⟨⟨p, s'⟩, hmem, rfl⟩ := hs
  exact ⟨p, OrdMap.mem_toList.mp (List.mem_of_mem_filter hmem)⟩

omit [Platform Hash] in
theorem reach_promise_le (h : r.Inv S) (hrole : r.role = .leader) (n : Nat) :
    r.reach (·.promiseIdx) n ≤ r.reach (·.matchIdx) n := by
  rw [reach, reach, ← List.countP_eq_length_filter, ← List.countP_eq_length_filter]
  apply List.countP_mono_left
  intro s hs hn
  obtain ⟨p, hp⟩ := mem_votingFollowers hs
  have := (h.acked hrole p s hp).1
  simp only [decide_eq_true_eq] at hn ⊢
  omega

omit [Platform Hash] in
theorem reach_match_eq_zero (h : r.Inv S) (hrole : r.role = .leader) {n : Nat}
    (hn : r.log.full.length < n) :
    r.reach (·.matchIdx) n = 0 := by
  rw [reach, List.length_eq_zero_iff, List.filter_eq_nil_iff]
  intro s hs
  obtain ⟨p, hp⟩ := mem_votingFollowers hs
  have := (h.acked hrole p s hp).2
  simp only [decide_eq_true_eq]
  omega

theorem raisePromise_follows (h : r.Inv S) (hrole : r.role = .leader) {n : Nat}
    (hn : n ≤ r.log.full.length) (hquorum : r.membershipQuorumSize ≤ r.reach (·.matchIdx) n + 1) :
    Follows S G I r (r.raisePromise n) := by
  by_cases hlt : r.promiseIdx < n
  · refine Follows.of_silent (h.raisePromise hn) (by rw [raisePromise_eq]) ?_
      (by rw [raisePromise_eq])
    have hview : (r.raisePromise n).view = { r.view with promise := n } := by
      rw [raisePromise_eq, Nat.max_eq_right hlt.le]
      rfl
    rw [hview]
    refine Move.advancePromise r.view n (r.supporters (·.matchIdx) n) hrole hlt hn
      (supporters_subset h hrole _ _) ?_ ?_
    · rw [card_supporters h hrole]
      exact h.quorum_eq ▸ hquorum
    · intro p hp
      refine (mem_supporters.mp hp).imp_right ?_
      rintro ⟨-, s, hs, hle⟩
      exact ⟨s.ack, by simp [view, hs], hle⟩
  · rw [raisePromise, if_neg hlt]
    exact Follows.refl h

theorem raiseCommit_follows (h : r.Inv S) (hrole : r.role = .leader) {n : Nat}
    (hn : n ≤ r.promiseIdx) (hquorum : r.membershipQuorumSize ≤ r.reach (·.promiseIdx) n + 1)
    (hrule : r.commitIdx < n → G.mayCommit r.view n) :
    Follows S G I r (r.raiseCommit n) := by
  by_cases hlt : r.commitIdx < n
  · have heq := raiseCommit_eq h (hn.trans h.promise_le)
    refine Follows.of_silent (h.raiseCommit hn) (by rw [heq]; rfl) ?_
      (by rw [heq]; rfl)
    have hview : (r.raiseCommit n).view = { r.view with commit := n } := by
      rw [heq, Nat.max_eq_right hlt.le]
      rfl
    rw [hview]
    refine Move.advanceCommit r.view n (r.supporters (·.promiseIdx) n) hrole hlt hn (hrule hlt)
      (supporters_subset h hrole _ _) ?_ ?_
    · rw [card_supporters h hrole]
      exact h.quorum_eq ▸ hquorum
    · intro p hp
      refine (mem_supporters.mp hp).imp_right ?_
      rintro ⟨-, s, hs, hle⟩
      exact ⟨s.ack, by simp [view, hs], hle⟩
  · rw [raiseCommit, if_neg hlt]
    exact Follows.refl h

omit [Platform Hash] in
/-- What `MaybeAdvanceCommitIndex` does to a leader: `x` is the highest index that a quorum
    stores, `y` the highest that a quorum has promised. -/
theorem maybeAdvanceCommitIndex_cases (h : r.Inv S) (hrole : r.role = .leader) :
    ∃ x y, x ≤ r.log.full.length ∧ r.membershipQuorumSize ≤ r.reach (·.matchIdx) x + 1 ∧
      y ≤ max r.promiseIdx x ∧ r.membershipQuorumSize ≤ r.reach (·.promiseIdx) y + 1 ∧
      r.maybeAdvanceCommitIndex.commitIdx = max r.commitIdx y ∧
      (r.maybeAdvanceCommitIndex = (r.raisePromise x).raiseCommit y ∨
        r.maybeAdvanceCommitIndex = ((r.raisePromise x).raiseCommit y).modifyFollowers
          fun f => { f with sendHeartbeat := true }) := by
  have hvoters := card_voters h hrole
  have hqpos : 0 < r.membershipQuorumSize := quorumSize_pos _ (by omega)
  have hqle : r.membershipQuorumSize ≤ r.votingFollowers.length + 1 :=
    hvoters ▸ quorumSize_le _ _
  have hlast := h.lastIdx_eq
  obtain ⟨x, hx⟩ := exists_agreedBy (v := r.votingFollowers.map (·.matchIdx) ++ [r.log.lastIdx])
    hqpos (by simpa using hqle)
  have hstored : ∀ n, n ≤ x ↔ r.membershipQuorumSize ≤
      r.reach (·.matchIdx) n + if n ≤ r.log.lastIdx then 1 else 0 := by
    intro n
    rw [le_agreedBy_iff hx, length_filter_votingFollowers]
  have hxle : x ≤ r.log.full.length := by
    by_contra hlt
    have hcount := (hstored x).mp (le_refl x)
    rw [reach_match_eq_zero h hrole (by omega), if_neg (by omega)] at hcount
    omega
  have hxquorum : r.membershipQuorumSize ≤ r.reach (·.matchIdx) x + 1 := by
    have hcount := (hstored x).mp (le_refl x)
    rwa [if_pos (by omega)] at hcount
  obtain ⟨y, hy⟩ := exists_agreedBy
    (v := r.votingFollowers.map (·.promiseIdx) ++ [max r.promiseIdx x]) hqpos (by simpa using hqle)
  have hpromised : ∀ n, n ≤ y ↔ r.membershipQuorumSize ≤
      r.reach (·.promiseIdx) n + if n ≤ max r.promiseIdx x then 1 else 0 := by
    intro n
    rw [le_agreedBy_iff hy, length_filter_votingFollowers]
  -- followers that have promised an index store it, so the leader's promise covers it
  have hyle : y ≤ max r.promiseIdx x := by
    by_contra hlt
    have hcount := (hpromised y).mp (le_refl y)
    rw [if_neg hlt, Nat.add_zero] at hcount
    have hreach := reach_promise_le h hrole y
    have hylast : y ≤ r.log.lastIdx := by
      by_contra hgt
      have hzero := reach_match_eq_zero h hrole (n := y) (by omega)
      omega
    refine hlt (le_max_of_le_right ((hstored y).mpr ?_))
    rw [if_pos hylast]
    omega
  have hyquorum : r.membershipQuorumSize ≤ r.reach (·.promiseIdx) y + 1 := by
    have hcount := (hpromised y).mp (le_refl y)
    rwa [if_pos hyle] at hcount
  have hy' : agreedBy ((r.raisePromise x).votingFollowers.map (·.promiseIdx) ++
      [(r.raisePromise x).promiseIdx]) (r.raisePromise x).membershipQuorumSize = some y := by
    rw [raisePromise_eq]
    exact hy
  have hraise : ((r.raisePromise x).raiseCommit y).commitIdx = max r.commitIdx y := by
    have hlen : y ≤ (r.raisePromise x).log.full.length := by
      rw [raisePromise_eq]
      exact hyle.trans (max_le h.promise_le hxle)
    rw [raiseCommit_eq (h.raisePromise hxle) hlen, raisePromise_eq]
    rfl
  refine ⟨x, y, hxle, hxquorum, hyle, hyquorum, ?_⟩
  rw [maybeAdvanceCommitIndex, if_neg (not_not.mpr hrole)]
  simp only [hx, hy']
  split_ifs
  · exact ⟨hraise, Or.inr rfl⟩
  · exact ⟨hraise, Or.inl rfl⟩

omit [Platform Hash] in
theorem maybeAdvanceCommitIndex_le (h : r.Inv S) (hrole : r.role = .leader) :
    r.maybeAdvanceCommitIndex.commitIdx ≤ r.log.full.length := by
  obtain ⟨x, y, hx, -, hy, -, hcommitIdx, -⟩ := maybeAdvanceCommitIndex_cases h hrole
  rw [hcommitIdx]
  exact max_le h.commit_le_length (hy.trans (max_le h.promise_le hx))

/-- The rules let the replica commit what `MaybeAdvanceCommitIndex` commits. -/
def MayAdvance (S : Setting Hash) (G : Rules Hash) (r : Raft Hash) : Prop :=
  r.Inv S → r.role = .leader → r.commitIdx < r.maybeAdvanceCommitIndex.commitIdx →
    ∀ k, G.mayCommit { r.view with promise := k } r.maybeAdvanceCommitIndex.commitIdx

theorem maybeAdvanceCommitIndex_follows (h : r.Inv S) (hrule : MayAdvance S G r) :
    Follows S G I r r.maybeAdvanceCommitIndex := by
  by_cases hrole : r.role = .leader
  swap
  · rw [maybeAdvanceCommitIndex, if_pos hrole]
    exact Follows.refl h
  obtain ⟨x, y, hx, hxquorum, hy, hyquorum, hcommitIdx, hresult⟩ :=
    maybeAdvanceCommitIndex_cases h hrole
  have hr₁ := raisePromise_eq (r := r) x
  have hpromise := raisePromise_follows (G := G) (I := I) h hrole hx hxquorum
  have hcommit : Follows S G I (r.raisePromise x) ((r.raisePromise x).raiseCommit y) := by
    refine raiseCommit_follows hpromise.inv (by rw [hr₁]; exact hrole) (by rw [hr₁]; exact hy)
      (by rw [hr₁]; exact hyquorum) ?_
    rw [hr₁]
    intro hlt
    have hlt : r.commitIdx < y := hlt
    have hmay := hrule h hrole (by omega) (max r.promiseIdx x)
    rw [hcommitIdx, Nat.max_eq_right hlt.le] at hmay
    exact hmay
  have hboth := hpromise.trans hcommit
  rcases hresult with hresult | hresult
  · rw [hresult]
    exact hboth
  · rw [hresult]
    exact hboth.trans (modifyFollowers_follows hboth.inv fun _ => rfl)

end Raft

end SVR2
